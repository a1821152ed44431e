import CacheServer.Cache.ColdKey
import CacheServer.Cache.Counters

/-
  What `OriginErrors` counts.

  `doOriginFetch` counts an origin call that fails, and
  `L2Cache.Get` counts a Redis command that fails under the
  same counter.

  Key definitions include:
    * `CacheServer.ManagerSystem.countFailure`
    * `CacheServer.ManagerSystem.errorBalance`
    * `CacheServer.ManagerSystem.L2Answers`

  Key theorems include:
    * `CacheServer.GetPc.next_errors`
    * `CacheServer.ManagerSystem.errorBalance_step`
    * `CacheServer.ManagerSystem.callBalance_step`
    * `CacheServer.origin_errors_iff`
-/

------------------------------------------------------------
-- Failed Origin Calls
------------------------------------------------------------

namespace CacheServer

namespace ManagerSystem

/- One more, if this step is an origin call that fails. -/
def countFailure
    (s : ManagerSystem)
    (a : ManagerAction)
    (failures : Nat) :
    Nat :=
  match a with
  | .run id _ (.error _) =>
      match (s.procs id).bind Proc.originKey with
      | some _ => failures + 1
      | none => failures
  | _ => failures

end ManagerSystem

/- Interleavings, with the number of failed origin calls. -/
def originFailureMachine
    (cfg : ManagerConfig) :
    Machine (ManagerSystem × Nat) ManagerAction :=
  (managerMachine cfg).withHistory ManagerSystem.countFailure

theorem originFailureMachine_step
    {cfg : ManagerConfig}
    {s s' : ManagerSystem × Nat}
    {a : ManagerAction}
    (h : (originFailureMachine cfg).step s a = some s') :
    s.1.step cfg a = some s'.1 ∧
      s'.2 = s.1.countFailure a s.2 :=
  Machine.withHistory_step.mp h

namespace GetPc

/- An error that is not counted yet, of either kind. -/
def uncountedError :
    GetPc → Int
| .countL2Err => 1
| .countOriginErr _ => 1
| _ => 0

/- An origin call that is counted and not over. -/
def calling :
    GetPc → Int
| .originCall => 1
| _ => 0

variable {cfg : ManagerConfig}
variable {s : Shared}
variable {c : Caller}
variable {fault : Fault}
variable {origin : OriginReply}
variable {pc pc' : GetPc}

/- An error comes from Redis or from the origin. -/
theorem next_errors
    (elapsed : Int)
    (m : Metrics)
    (h : Next cfg s c fault origin pc pc') :
    (pc = .l2Get ∧
      L2Cache.get s.store.redis s.store.clock c.key fault =
        .error ∧
      ((pc.tally elapsed m).originErrors : Int) +
          pc'.uncountedError =
        m.originErrors + pc.uncountedError + 1) ∨
    (pc = .originCall ∧ (∃ cause, origin = .error cause) ∧
      ((pc.tally elapsed m).originErrors : Int) +
          pc'.uncountedError =
        m.originErrors + pc.uncountedError + 1) ∨
    ((pc = .l2Get →
        L2Cache.get s.store.redis s.store.clock c.key fault ≠
          .error) ∧
      (pc = .originCall → ∀ cause, origin ≠ .error cause) ∧
      ((pc.tally elapsed m).originErrors : Int) +
          pc'.uncountedError =
        m.originErrors + pc.uncountedError) := by
  cases h with
  | l2Error hGet =>
      refine Or.inl ⟨rfl, hGet, ?_⟩
      simp only [tally, uncountedError]
      omega
  | originError hOrigin _ =>
      refine Or.inr (Or.inl ⟨rfl, ⟨_, hOrigin⟩, ?_⟩)
      simp only [tally, uncountedError]
      omega
  | countL2Err =>
      refine Or.inr (Or.inr ⟨by simp, by simp, ?_⟩)
      simp only [tally, uncountedError]
      push_cast
      omega
  | countOriginErr =>
      refine Or.inr (Or.inr ⟨by simp, by simp, ?_⟩)
      simp only [tally, uncountedError]
      push_cast
      omega
  | l2Hit hGet =>
      refine Or.inr (Or.inr ⟨?_, by simp, rfl⟩)
      simp [hGet]
  | l2Nil hGet =>
      refine Or.inr (Or.inr ⟨?_, by simp, rfl⟩)
      simp [hGet]
  | originValue hOrigin =>
      refine Or.inr (Or.inr ⟨by simp, ?_, rfl⟩)
      simp [hOrigin]
  | _ => exact Or.inr (Or.inr ⟨by simp, by simp, rfl⟩)

/- An origin call is counted before it is made. -/
theorem next_calls
    (elapsed : Int)
    (m : Metrics)
    (h : Next cfg s c fault origin pc pc') :
    (pc = .originCall ∧
      ((pc.tally elapsed m).originCalls : Int) - pc'.calling =
        m.originCalls - pc.calling + 1) ∨
    (pc ≠ .originCall ∧
      ((pc.tally elapsed m).originCalls : Int) - pc'.calling =
        m.originCalls - pc.calling) := by
  cases h with
  | originValue _ =>
      refine Or.inl ⟨rfl, ?_⟩
      simp only [tally, calling]
      omega
  | originError _ _ =>
      refine Or.inl ⟨rfl, ?_⟩
      simp only [tally, calling]
      omega
  | countOriginCall =>
      refine Or.inr ⟨by simp, ?_⟩
      simp only [tally, calling]
      push_cast
      omega
  | _ => exact Or.inr ⟨by simp, rfl⟩

end GetPc

end CacheServer

------------------------------------------------------------
-- Runs
------------------------------------------------------------

namespace CacheServer

namespace ManagerSystem

open GetPc

variable {cfg : ManagerConfig}
variable {s : ManagerSystem}
variable {t t' : ManagerSystem × Nat}
variable {a : ManagerAction}

/- The `GET` of a `Get` gets a value or a nil reply. -/
def L2Answers
    (s : ManagerSystem) :
    ManagerAction → Prop
| .run id fault _ =>
    ∀ key start,
      s.procs id = some (.get key start .l2Get) →
        L2Cache.get s.shared.store.redis s.shared.store.clock
          key fault ≠ .error
| _ => True

/- The counted errors that no origin call has returned. -/
def errorBalance
    (t : ManagerSystem × Nat) :
    Int :=
  (t.1.metrics.originErrors : Int) +
      t.1.weight uncountedError - t.2

/- The counted origin calls that have not failed, and ended. -/
def callBalance
    (t : ManagerSystem × Nat) :
    Int :=
  (t.1.metrics.originCalls : Int) +
      t.1.weight (fun pc => - pc.calling) - t.2

theorem countFailure_of_error
    {id : Nat}
    {key : Key}
    {start : Int}
    (hProc : s.procs id = some (.get key start .originCall))
    (fault : Fault)
    (cause : OriginError)
    (failures : Nat) :
    s.countFailure (.run id fault (.error cause)) failures =
      failures + 1 := by
  simp [countFailure, hProc, Proc.originKey]

theorem countFailure_of_get
    {id : Nat}
    {key : Key}
    {start : Int}
    {pc : GetPc}
    {origin : OriginReply}
    (hProc : s.procs id = some (.get key start pc))
    (hNot : pc = .originCall → ∀ cause, origin ≠ .error cause)
    (fault : Fault)
    (failures : Nat) :
    s.countFailure (.run id fault origin) failures =
      failures := by
  cases origin with
  | value found => rfl
  | error cause =>
      cases pc with
      | originCall => exact absurd rfl (hNot rfl cause)
      | _ => simp [countFailure, hProc, Proc.originKey]

theorem countFailure_of_not_get
    (hNot :
      ∀ id fault origin key start pc,
        a = .run id fault origin →
          s.procs id ≠ some (.get key start pc))
    (failures : Nat) :
    s.countFailure a failures = failures := by
  cases a with
  | run id fault origin =>
      cases origin with
      | value found => rfl
      | error cause =>
          cases hProc : s.procs id with
          | none => simp [countFailure, hProc]
          | some p =>
              cases p with
              | get key start pc =>
                  exact absurd hProc (hNot _ _ _ _ _ _ rfl)
              | _ =>
                  simp [countFailure, hProc, Proc.originKey]
  | _ => rfl

/- An error of Redis upsets the balance, and nothing else. -/
theorem errorBalance_step
    (hNum : t.1.Numbered)
    (h : (originFailureMachine cfg).step t a = some t') :
    (t.1.L2Answers a ∧ errorBalance t' = errorBalance t) ∨
      (¬ t.1.L2Answers a ∧
        errorBalance t' = errorBalance t + 1) := by
  rcases originFailureMachine_step h with ⟨hStep, hCount⟩
  unfold errorBalance
  rcases step_adds (fun m => (m.originErrors : Int))
      uncountedError hNum hStep with
    ⟨id, fault, origin, key, start, pc, pc', rfl, hProc, hPc,
      hAdds⟩ | ⟨⟨key, rfl⟩, _, hAdds⟩ | ⟨hNot, _, hAdds⟩
  · have hNext := GetPc.run_next hPc
    rcases next_errors
        (t.1.shared.store.clock - start) t.1.metrics hNext with
      ⟨rfl, hError, hLocal⟩ |
        ⟨rfl, ⟨cause, rfl⟩, hLocal⟩ |
        ⟨hAnswer, hOrigin, hLocal⟩
    · refine Or.inr ⟨?_, ?_⟩
      · intro hAnswers
        exact hAnswers key start hProc hError
      · rw [hCount,
          countFailure_of_get hProc (fun hEq => by cases hEq)]
        omega
    · refine Or.inl ⟨?_, ?_⟩
      · intro k b hGet
        rw [hProc] at hGet
        cases hGet
      · rw [hCount, countFailure_of_error hProc]
        push_cast
        omega
    · refine Or.inl ⟨?_, ?_⟩
      · intro k b hGet
        rw [hProc] at hGet
        cases hGet
        exact hAnswer rfl
      · rw [hCount, countFailure_of_get hProc hOrigin]
        omega
  · refine Or.inl ⟨trivial, ?_⟩
    have hZero : GetPc.l1Read.uncountedError = 0 := rfl
    rw [hCount, countFailure_of_not_get (by simp)]
    omega
  · refine Or.inl ⟨?_, ?_⟩
    · cases a with
      | run id fault origin =>
          intro key start hProc
          exact absurd hProc (hNot _ _ _ _ _ _ rfl)
      | _ => trivial
    · rw [hCount, countFailure_of_not_get hNot]
      omega

/- Every origin call that fails has been counted before. -/
theorem callBalance_step
    (hNum : t.1.Numbered)
    (h : (originFailureMachine cfg).step t a = some t') :
    callBalance t ≤ callBalance t' := by
  rcases originFailureMachine_step h with ⟨hStep, hCount⟩
  unfold callBalance
  rcases step_adds (fun m => (m.originCalls : Int))
      (fun pc => - pc.calling) hNum hStep with
    ⟨id, fault, origin, key, start, pc, pc', rfl, hProc, hPc,
      hAdds⟩ | ⟨⟨key, rfl⟩, _, hAdds⟩ | ⟨hNot, _, hAdds⟩
  · rcases next_calls
        (t.1.shared.store.clock - start) t.1.metrics
        (GetPc.run_next hPc) with
      ⟨rfl, hLocal⟩ | ⟨hOther, hLocal⟩
    · have hMore :
          t'.2 ≤ t.2 + 1 := by
        rw [hCount]
        cases origin with
        | value found => exact Nat.le_succ _
        | error cause => rw [countFailure_of_error hProc]
      omega
    · rw [hCount,
        countFailure_of_get hProc
          (fun hEq => absurd hEq hOther)]
      omega
  · have hZero : GetPc.l1Read.calling = 0 := rfl
    rw [hCount, countFailure_of_not_get (by simp)]
    omega
  · rw [hCount, countFailure_of_not_get hNot]
    omega

/- Every counted error is one of the origin's. -/
structure ErrorsAgree
    (t : ManagerSystem × Nat) :
    Prop where
  numbered : t.1.Numbered
  balanced : errorBalance t = 0

/- An error of Redis is among them. -/
structure ErrorsExceed
    (t : ManagerSystem × Nat) :
    Prop where
  numbered : t.1.Numbered
  more : 1 ≤ errorBalance t

theorem errorsAgree_step
    (hAgree : ErrorsAgree t)
    (hAnswers : t.1.L2Answers a)
    (h : (originFailureMachine cfg).step t a = some t') :
    ErrorsAgree t' := by
  refine
    ⟨numbered_step hAgree.numbered
      (originFailureMachine_step h).1, ?_⟩
  rcases errorBalance_step hAgree.numbered h with
    ⟨_, hSame⟩ | ⟨hNot, _⟩
  · rw [hSame, hAgree.balanced]
  · exact absurd hAnswers hNot

theorem errorsExceed_of_error
    (hAgree : ErrorsAgree t)
    (hError : ¬ t.1.L2Answers a)
    (h : (originFailureMachine cfg).step t a = some t') :
    ErrorsExceed t' := by
  refine
    ⟨numbered_step hAgree.numbered
      (originFailureMachine_step h).1, ?_⟩
  rcases errorBalance_step hAgree.numbered h with
    ⟨hAnswers, _⟩ | ⟨_, hMore⟩
  · exact absurd hAnswers hError
  · rw [hMore, hAgree.balanced]
    decide

theorem errorsExceed_step
    (hExceed : ErrorsExceed t)
    (h : (originFailureMachine cfg).step t a = some t') :
    ErrorsExceed t' := by
  refine
    ⟨numbered_step hExceed.numbered
      (originFailureMachine_step h).1, ?_⟩
  have hBefore := hExceed.more
  rcases errorBalance_step hExceed.numbered h with
    ⟨_, hSame⟩ | ⟨_, hMore⟩
  · omega
  · omega

/- An origin call fails after it has been counted. -/
theorem failures_le_calls
    {maxSize l1TTL clock : Int}
    {redis : Redis}
    {actions : List ManagerAction}
    {failures : Nat}
    (hRun :
      (originFailureMachine cfg).exec
          (ManagerSystem.new maxSize l1TTL redis clock, 0)
          actions =
        some (s, failures))
    (hNone : s.NoGet) :
    failures ≤ s.metrics.originCalls := by
  have hBoth :
      s.Numbered ∧ 0 ≤ callBalance (s, failures) :=
    Machine.exec_invariant
      (I := fun t : ManagerSystem × Nat =>
        t.1.Numbered ∧ 0 ≤ callBalance t)
      (fun _ _ _ hI hStep =>
        ⟨numbered_step hI.1 (originFailureMachine_step hStep).1,
          le_trans hI.2 (callBalance_step hI.1 hStep)⟩)
      hRun
      ⟨numbered_new maxSize l1TTL redis clock, le_refl _⟩
  have hCalling : s.weight (fun pc => - pc.calling) = 0 :=
    weight_eq_zero hNone (fun _ => rfl)
  have hBalance := hBoth.2
  simp only [callBalance, hCalling] at hBalance
  omega

end ManagerSystem

/-
  With no `Get` in flight `OriginErrors` is the number of
  origin calls that have failed, exactly if no `GET` of a
  `Get` has had an error.
-/
theorem origin_errors_iff
    (cfg : ManagerConfig)
    (maxSize : Int)
    (l1TTL : Int)
    (redis : Redis)
    (clock : Int)
    (actions : List ManagerAction)
    (s : ManagerSystem)
    (failures : Nat)
    (hRun :
      (originFailureMachine cfg).exec
          (ManagerSystem.new maxSize l1TTL redis clock, 0)
          actions =
        some (s, failures))
    (hNone : s.NoGet) :
    (s.metrics.originErrors = failures ∧
        s.metrics.originErrors ≤ s.metrics.originCalls) ↔
      (originFailureMachine cfg).Along
        (fun t a => t.1.L2Answers a)
        (ManagerSystem.new maxSize l1TTL redis clock, 0)
        actions := by
  have hUncounted : s.weight GetPc.uncountedError = 0 :=
    ManagerSystem.weight_eq_zero hNone (fun _ => rfl)
  have hFew := ManagerSystem.failures_le_calls hRun hNone
  rcases Machine.along_or_marked
      (P := fun (t : ManagerSystem × Nat) a => t.1.L2Answers a)
      (fun _ _ _ hAgree hAnswers hStep =>
        ManagerSystem.errorsAgree_step hAgree hAnswers hStep)
      (fun _ _ _ hAgree hError hStep =>
        ManagerSystem.errorsExceed_of_error hAgree hError hStep)
      (fun _ _ _ hExceed hStep =>
        ManagerSystem.errorsExceed_step hExceed hStep)
      hRun
      ⟨ManagerSystem.numbered_new maxSize l1TTL redis clock,
        rfl⟩ with
    ⟨hAlong, hAgree⟩ | ⟨hNot, hExceed⟩
  · refine iff_of_true ?_ hAlong
    have hBalance := hAgree.balanced
    simp only [ManagerSystem.errorBalance, hUncounted]
      at hBalance
    omega
  · refine iff_of_false ?_ hNot
    intro hBoth
    have hBalance := hExceed.more
    simp only [ManagerSystem.errorBalance, hUncounted]
      at hBalance
    omega

/- A lookup whose origin call fails, and nothing else. -/
def failedLookup : List ManagerAction :=
  [.call (.get [1]), .proceed 0, .proceed 0, .proceed 0,
    .proceed 0, .proceed 0, .proceed 0,
    .run 0 .none (.error (.failed [9])), .proceed 0,
    .proceed 0, .proceed 0, .proceed 0]

theorem origin_errors_iff_failed :
    ∃ s,
      (originFailureMachine ⟨true, 100⟩).exec
          (freshManager, 0) failedLookup =
        some (s, 1) ∧
        s.metrics.originErrors = 1 ∧
          s.metrics.originCalls = 1 ∧
            (originFailureMachine ⟨true, 100⟩).Along
              (fun t a => t.1.L2Answers a)
              (freshManager, 0) failedLookup := by
  have hRun :
      (originFailureMachine ⟨true, 100⟩).exec (freshManager, 0)
          failedLookup =
        some (_, 1) :=
    Machine.exec_get rfl
  have hNone :=
    ManagerSystem.noGet_of_finished
      (ManagerSystem.numbered_exec
        (ManagerSystem.numbered_new 1000 5 ∅ 0)
        (Machine.exec_of_withHistory hRun))
      (by decide)
  have hIff :=
    origin_errors_iff ⟨true, 100⟩ 1000 5 ∅ 0 failedLookup _ 1
      hRun hNone
  exact ⟨_, hRun, rfl, rfl, hIff.mp ⟨rfl, by decide⟩⟩

/-
  A Redis command that fails in one lookup counts as an error
  of an origin that was called once and answered.
-/
theorem origin_errors_counts_redis :
    ¬ ∀ (cfg : ManagerConfig) (maxSize l1TTL : Int)
        (redis : Redis) (clock : Int)
        (actions : List ManagerAction) (s : ManagerSystem)
        (failures : Nat),
      (originFailureMachine cfg).exec
          (ManagerSystem.new maxSize l1TTL redis clock, 0)
          actions =
        some (s, failures) →
        s.NoGet →
          s.metrics.originErrors = failures := by
  intro h
  have hRun :
      (originFailureMachine ⟨true, 100⟩).exec (freshManager, 0)
          [.call (.get [1]), .proceed 0, .proceed 0,
            .run 0 (.error false []) (.value []), .proceed 0,
            .proceed 0, .proceed 0, .proceed 0, .proceed 0,
            .proceed 0, .proceed 0, .proceed 0, .proceed 0,
            .proceed 0] =
        some (_, 0) :=
    Machine.exec_get rfl
  have hNone := ManagerSystem.noGet_of_finished
    (ManagerSystem.numbered_exec
      (ManagerSystem.numbered_new 1000 5 ∅ 0)
      (Machine.exec_of_withHistory hRun))
    (by decide)
  exact
    absurd (h ⟨true, 100⟩ 1000 5 ∅ 0 _ _ _ hRun hNone)
      (by decide)

end CacheServer
