import CacheServer.Cache.Singleflight
import CacheServer.Cache.WriteThenGet

/-
  Errors of a `Get`, and the contexts of other callers.

  The origin call of a singleflight call runs under the
  context of its leader. If that context is cancelled, the
  error goes to all who have joined. A `Get` that is not
  cancelled fails by the origin's own failure only, as long
  as no such result is taken over by a `Get` that is not
  cancelled itself.

  Key definitions include:
    * `CacheServer.FailureLog`
    * `CacheServer.FailsByOrigin`
    * `CacheServer.SparesFollowers`

  Key theorems include:
    * `CacheServer.errorsSourced_step`
    * `CacheServer.cancellation_spares_others`
    * `CacheServer.cancellation_reaches_follower`
-/

------------------------------------------------------------
-- Origin Calls That Fail By Themselves
------------------------------------------------------------

namespace CacheServer

/- The failures of origin calls, with their keys. -/
abbrev FailureLog :=
  List (Key × Bytes)

namespace ManagerSystem

/- The failure, other than by its context, of this step. -/
def failed
    (s : ManagerSystem)
    (a : ManagerAction) :
    FailureLog :=
  match a with
  | .run id _ (.error (.failed text)) =>
      match (s.procs id).bind Proc.originKey with
      | some key => [(key, text)]
      | none => []
  | _ => []

def recordFailure
    (s : ManagerSystem)
    (a : ManagerAction)
    (log : FailureLog) :
    FailureLog :=
  log ++ s.failed a

end ManagerSystem

/- Interleavings, with the failures of origin calls. -/
def failureMachine
    (cfg : ManagerConfig) :
    Machine (ManagerSystem × FailureLog) ManagerAction :=
  (managerMachine cfg).withHistory
    ManagerSystem.recordFailure

theorem failureMachine_step
    {cfg : ManagerConfig}
    {s s' : ManagerSystem × FailureLog}
    {a : ManagerAction}
    (h : (failureMachine cfg).step s a = some s') :
    s.1.step cfg a = some s'.1 ∧
      s'.2 = s.1.recordFailure a s.2 :=
  Machine.withHistory_step.mp h

/-
  A `Get` that has failed, and whose context is not
  cancelled, reports a failure of an origin call for its key
  that was not a cancellation.
-/
def FailsByOrigin
    (s : ManagerSystem × FailureLog) :
    Prop :=
  ∀ id key start failedKey cause,
    s.1.procs id =
        some
          (.get key start
            (.done (.originFailed failedKey cause))) →
      s.1.cancelled id = false →
        failedKey = key ∧
          ∃ text, cause = .failed text ∧ (key, text) ∈ s.2

end CacheServer

------------------------------------------------------------
-- Results Taken Over
------------------------------------------------------------

namespace CacheServer

namespace GetResult

def error? :
    GetResult → Option (Key × OriginError)
| .ok _ => none
| .originFailed key cause => some (key, cause)

/- The origin call was cut short by its context. -/
def cutShort :
    GetResult → Bool
| .originFailed _ .cancelled => true
| _ => false

end GetResult

namespace GetPc

/- The error that a `Get` holds and may still hand on. -/
def error?
    (key : Key) :
    GetPc → Option (Key × OriginError)
| .countOriginErr cause => some (key, cause)
| .fnReturn result => result.error?
| .countCoalesced result => result.error?
| .addLatency result => result.error?
| .countRequest result => result.error?
| .done result => result.error?
| _ => none

variable {cfg : ManagerConfig}
variable {s : Shared}
variable {c : Caller}
variable {fault : Fault}
variable {origin : OriginReply}
variable {pc pc' : GetPc}
variable {error : Key × OriginError}

/-
  The error after a step was held before, is that of the
  origin call, or is that of the call joined.
-/
theorem next_error
    (h : Next cfg s c fault origin pc pc')
    (hError : pc'.error? c.key = some error) :
    pc.error? c.key = some error ∨
      (pc = .originCall ∧ error.1 = c.key ∧
        origin = .error error.2 ∧
          (error.2 = .cancelled → c.cancelled = true)) ∨
      ∃ leader result,
        pc = .joined leader ∧
          s.finished leader = some result ∧
            result.error? = some error := by
  cases h with
  | joined hDone =>
      exact Or.inr (Or.inr ⟨_, _, rfl, hDone, hError⟩)
  | originError hOrigin hCause =>
      cases hError
      exact Or.inr (Or.inl ⟨rfl, rfl, hOrigin, hCause⟩)
  | countOriginErr => exact Or.inl hError
  | returnShared => exact Or.inl hError
  | returnAlone => exact Or.inl hError
  | countCoalesced => exact Or.inl hError
  | addLatency => exact Or.inl hError
  | countRequest => exact Or.inl hError
  | _ => cases hError

end GetPc

namespace ManagerSystem

/- The `Get` that takes over a result in this step. -/
def takesOver
    (s : ManagerSystem) :
    ManagerAction → Option (Nat × GetResult)
| .run id _ _ =>
    match s.procs id with
    | some (.get _ _ (.joined leader)) =>
        (s.shared.finished leader).map
          (fun result => (id, result))
    | _ => none
| _ => none

end ManagerSystem

/-
  The result of a call that was cut short by its leader's
  context is taken over only by a cancelled `Get`.
-/
def SparesFollowers
    (s : ManagerSystem × FailureLog)
    (a : ManagerAction) :
    Prop :=
  ∀ taken ∈ s.1.takesOver a,
    taken.2.cutShort = true →
      s.1.cancelled taken.1 = true

instance
    (s : ManagerSystem × FailureLog)
    (a : ManagerAction) :
    Decidable (SparesFollowers s a) := by
  unfold SparesFollowers
  infer_instance

end CacheServer

------------------------------------------------------------
-- Where Errors Come From
------------------------------------------------------------

namespace CacheServer

/- The failure of an origin call for the key is on the log. -/
def FailureLog.Explains
    (log : FailureLog)
    (key : Key)
    (error : Key × OriginError) :
    Prop :=
  error.1 = key ∧
    ∀ text, error.2 = .failed text → (key, text) ∈ log

/-
  Every error held or handed on is explained, and a `Get`
  that holds a cancellation is cancelled itself.
-/
structure ErrorsSourced
    (s : ManagerSystem × FailureLog) :
    Prop where
  held :
    ∀ id key start pc error,
      s.1.procs id = some (.get key start pc) →
        pc.error? key = some error →
          s.2.Explains key error ∧
            (error.2 = .cancelled →
              s.1.cancelled id = true)
  handedOn :
    ∀ id key start pc result error,
      s.1.procs id = some (.get key start pc) →
        s.1.shared.finished id = some result →
          result.error? = some error →
            s.2.Explains key error

variable {cfg : ManagerConfig}
variable {s s' : ManagerSystem × FailureLog}
variable {a : ManagerAction}

/- A context stays cancelled. -/
theorem ManagerSystem.step_cancelled
    {s s' : ManagerSystem}
    {id : Nat}
    (h : s.step cfg a = some s')
    (hCancelled : s.cancelled id = true) :
    s'.cancelled id = true := by
  cases a with
  | call call =>
      cases h
      exact hCancelled
  | run other fault origin =>
      rcases step_run h with ⟨_, _, _, _, _, rfl⟩
      exact hCancelled
  | background other fault =>
      rcases step_background h with ⟨_, _, _, rfl⟩
      exact hCancelled
  | cancel other =>
      cases h
      by_cases hEq : id = other
      · simp [hEq]
      · simpa [hEq] using hCancelled
  | redisDrop key =>
      cases h
      exact hCancelled
  | tick elapsed =>
      cases h
      exact hCancelled

theorem explains_record
    {log : FailureLog}
    {t : ManagerSystem}
    {key : Key}
    {error : Key × OriginError}
    (h : log.Explains key error) :
    FailureLog.Explains (t.recordFailure a log) key error :=
  ⟨h.1, fun text hText =>
    List.mem_append_left _ (h.2 text hText)⟩

/- The error of an origin call is explained by its step. -/
theorem explains_failed
    {log : FailureLog}
    {t : ManagerSystem}
    {id : Nat}
    {key : Key}
    {start : Int}
    {fault : Fault}
    {cause : OriginError}
    (hProc : t.procs id = some (.get key start .originCall)) :
    FailureLog.Explains
      (t.recordFailure (.run id fault (.error cause)) log)
      key (key, cause) := by
  refine ⟨rfl, ?_⟩
  intro text hText
  cases hText
  apply List.mem_append_right
  simp [ManagerSystem.failed, hProc, Proc.originKey]

/- An error is held as before, is new, or is handed on. -/
theorem errorsHeld_step
    (hWell : s.1.WellFormed cfg)
    (hErrors : ErrorsSourced s)
    (hSpares : SparesFollowers s a)
    (h : (failureMachine cfg).step s a = some s')
    {id : Nat}
    {key : Key}
    {start : Int}
    {pc' : GetPc}
    {error : Key × OriginError}
    (hProc : s'.1.procs id = some (.get key start pc'))
    (hError : pc'.error? key = some error) :
    s'.2.Explains key error ∧
      (error.2 = .cancelled → s'.1.cancelled id = true) := by
  rcases failureMachine_step h with ⟨hStep, hLog⟩
  have hKeep :
      ∀ id key error,
        (s.2.Explains key error ∧
            (error.2 = .cancelled →
              s.1.cancelled id = true)) →
          s'.2.Explains key error ∧
            (error.2 = .cancelled →
              s'.1.cancelled id = true) := by
    intro id key error hOld
    rw [hLog]
    exact
      ⟨explains_record hOld.1, fun hCause =>
        ManagerSystem.step_cancelled hStep (hOld.2 hCause)⟩
  rcases ManagerSystem.step_getProc hStep hProc with
    hOld | ⟨_, _, _, rfl⟩ |
      ⟨fault, origin, pc, rfl, hOld, hPc⟩
  · exact
      hKeep id key error
        (hErrors.held id key start pc' error hOld hError)
  · cases hError
  · rcases GetPc.next_error (GetPc.run_next hPc)
      hError with
      hBefore | ⟨rfl, hKey, rfl, hCause⟩ |
        ⟨leader, result, rfl, hDone, hResult⟩
    · exact
        hKeep id key error
          (hErrors.held id key start pc error hOld hBefore)
    · refine ⟨?_, fun hCancelled =>
        ManagerSystem.step_cancelled hStep
          (hCause hCancelled)⟩
      have hPair : error = (key, error.2) :=
        Prod.ext hKey rfl
      rw [hLog, hPair]
      exact explains_failed hOld
    · -- The result of the leader, a `Get` of the key.
      rcases hWell.joins id key start leader hOld with
        ⟨first, pc, hLeader, _⟩
      apply hKeep id key error
      refine
        ⟨hErrors.handedOn leader key first pc result
          error hLeader hDone hResult, ?_⟩
      intro hCause
      apply hSpares (id, result)
      · simp [ManagerSystem.takesOver, hOld, hDone]
      · cases result with
        | ok value => cases hResult
        | originFailed k cause =>
            cases hResult
            cases hCause
            rfl

/- What is handed on was held by the call that returns it. -/
theorem errorsHandedOn_step
    (hWell : s.1.WellFormed cfg)
    (hErrors : ErrorsSourced s)
    (h : (failureMachine cfg).step s a = some s')
    {id : Nat}
    {key : Key}
    {start : Int}
    {pc : GetPc}
    {result : GetResult}
    {error : Key × OriginError}
    (hProc : s'.1.procs id = some (.get key start pc))
    (hDone : s'.1.shared.finished id = some result)
    (hResult : result.error? = some error) :
    s'.2.Explains key error := by
  rcases failureMachine_step h with ⟨hStep, hLog⟩
  rw [hLog]
  apply explains_record
  rcases ManagerSystem.step_finished hStep hDone with
    hOld | ⟨_, _, k, begun, _, hReturn⟩
  · rcases hWell.flights.finished id result hOld with
      ⟨k, begun, pc', hProc', _⟩
    rcases ManagerSystem.get_next hWell.numbered hStep
      hProc' with ⟨_, hNext, _⟩
    rw [hProc] at hNext
    cases hNext
    exact
      hErrors.handedOn id key start pc' result error hProc'
        hOld hResult
  · rcases ManagerSystem.get_next hWell.numbered hStep
      hReturn with ⟨_, hNext, _⟩
    rw [hProc] at hNext
    cases hNext
    exact
      (hErrors.held id key start _ error hReturn hResult).1

theorem errorsSourced_step
    (hWell : s.1.WellFormed cfg)
    (hErrors : ErrorsSourced s)
    (hSpares : SparesFollowers s a)
    (h : (failureMachine cfg).step s a = some s') :
    ErrorsSourced s' := by
  constructor
  · intro id key start pc' error hProc hError
    exact
      errorsHeld_step hWell hErrors hSpares h hProc hError
  · intro id key start pc result error hProc hDone hResult
    exact
      errorsHandedOn_step hWell hErrors h hProc hDone hResult

end CacheServer

------------------------------------------------------------
-- Other Callers' Cancellations
------------------------------------------------------------

namespace CacheServer

/-
  In every run in which cancelled results spare followers
  that are not cancelled, a `Get` that is not cancelled fails
  only by a failure of the origin itself.
-/
theorem cancellation_spares_others
    (cfg : ManagerConfig)
    (maxSize : Int)
    (l1TTL : Int)
    (redis : Redis)
    (clock : Int)
    (actions : List ManagerAction)
    (s : ManagerSystem × FailureLog)
    (hSpares :
      (failureMachine cfg).Along SparesFollowers
        (ManagerSystem.new maxSize l1TTL redis clock, [])
        actions)
    (hRun :
      (failureMachine cfg).exec
        (ManagerSystem.new maxSize l1TTL redis clock, [])
        actions = some s) :
    FailsByOrigin s := by
  have hInv : s.1.WellFormed cfg ∧ ErrorsSourced s := by
    refine
      Machine.exec_invariant_along
        (I := fun t => t.1.WellFormed cfg ∧ ErrorsSourced t)
        ?_ hSpares hRun ⟨?_, ?_, ?_⟩
    · intro t a t' hInv hStepSpares hStep
      exact
        ⟨ManagerSystem.wellFormed_step hInv.1
            (failureMachine_step hStep).1,
          errorsSourced_step hInv.1 hInv.2 hStepSpares
            hStep⟩
    · exact
        ManagerSystem.wellFormed_new cfg maxSize l1TTL redis
          clock
    · intro id key start pc error hProc
      cases hProc
    · intro id key start pc result error hProc
      cases hProc
  intro id key start failedKey cause hProc hAlive
  rcases hInv.2.held id key start _ (failedKey, cause) hProc
    rfl with ⟨hExplained, hCancelled⟩
  refine ⟨hExplained.1, ?_⟩
  cases cause with
  | failed text => exact ⟨text, rfl, hExplained.2 text rfl⟩
  | cancelled =>
      rw [hCancelled rfl] at hAlive
      cases hAlive

/-
  Two `Get` calls of one key that miss both tiers; the second
  joins the singleflight call of the first.
-/
def joinedGets : List ManagerAction :=
  [.call (.get [1]), .call (.get [1]),
    .proceed 0, .proceed 0, .proceed 0, .proceed 0,
    .proceed 1, .proceed 1, .proceed 1, .proceed 1,
    .proceed 0, .proceed 1, .proceed 0]

/-
  A cancelled leader and a follower that is too return, and
  then a `Get` whose origin call fails by itself.
-/
def bothCancelled : List ManagerAction :=
  joinedGets ++
    [.cancel 0, .run 0 .none (.error .cancelled),
      .proceed 0, .proceed 0, .cancel 1] ++
    List.replicate 3 (.proceed 0) ++
    List.replicate 4 (.proceed 1) ++
    [.call (.get [1])] ++ List.replicate 6 (.proceed 2) ++
    [.run 2 .none (.error (.failed [9]))] ++
    List.replicate 4 (.proceed 2)

theorem cancellation_spares_others_both_cancelled :
    ∃ s,
      (failureMachine ⟨true, 100⟩).exec (freshManager, [])
          bothCancelled =
        some s ∧
        s.1.procs 1 =
            some
              (.get [1] 0
                (.done (.originFailed [1] .cancelled))) ∧
          s.1.procs 2 =
              some
                (.get [1] 0
                  (.done (.originFailed [1] (.failed [9])))) ∧
            s.1.cancelled 2 = false ∧ FailsByOrigin s :=
  have hRun := Machine.exec_get rfl
  ⟨_, hRun, rfl, rfl, rfl,
    cancellation_spares_others ⟨true, 100⟩ 1000 5 ∅ 0 _ _
      (by decide) hRun⟩

/-
  The leader is cancelled, and its follower, which is not,
  fails although no origin call has failed by itself.
-/
theorem cancellation_reaches_follower :
    ∃ s,
      (failureMachine ⟨true, 100⟩).exec (freshManager, [])
          (joinedGets ++
            [.cancel 0, .run 0 .none (.error .cancelled),
              .proceed 0, .proceed 0, .proceed 1,
              .proceed 1, .proceed 1, .proceed 1]) =
          some s ∧
        s.1.procs 1 =
            some
              (.get [1] 0
                (.done (.originFailed [1] .cancelled))) ∧
          s.1.cancelled 1 = false ∧ s.2 = [] ∧
            ¬ FailsByOrigin s := by
  refine ⟨_, Machine.exec_get rfl, rfl, rfl, rfl, ?_⟩
  intro h
  rcases h 1 [1] 0 [1] .cancelled rfl rfl with
    ⟨_, text, hText, _⟩
  cases hText

end CacheServer
