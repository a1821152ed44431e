import CacheServer.Cache.Singleflight
import CacheServer.Cache.WriteThenGet

/-
  No old value after an acknowledged `Invalidate`.

  A value is fresh if an origin call for the key has produced
  it since the `Invalidate` began. Once that has returned,
  later `Get` calls return fresh values only, unless an
  older `Get` still puts an old value back into a tier, or a
  later `Get` joins a singleflight call that holds one.

  Key definitions include:
    * `CacheServer.Fresh`
    * `CacheServer.JoinsFresh`
    * `CacheServer.LoggedSystem.FreshOnly`

  Key theorems include:
    * `CacheServer.LoggedSystem.leaderFresh_step`
    * `CacheServer.LoggedSystem.freshOnly_step`
    * `CacheServer.acknowledged_invalidate_holds`
    * `CacheServer.acknowledged_invalidate_undone`
-/

------------------------------------------------------------
-- Fresh Values
------------------------------------------------------------

namespace CacheServer

/- An origin call for the key is among the log's later ones. -/
def Fresh
    (key : Key)
    (n : Nat)
    (log : OriginLog)
    (value : Value) :
    Prop :=
  (key, value) ∈ log.drop n

instance
    (key : Key)
    (n : Nat)
    (log : OriginLog) :
    DecidablePred (Fresh key n log) := by
  intro value
  unfold Fresh
  infer_instance

/- The value that a call carries. -/
def Proc.carried :
    Proc → Option Value
| .get _ _ pc => pc.carried
| _ => none

/-
  A call from `limit` on joins a running call only if the
  leader carries no value yet or a fresh one.
-/
def JoinsFresh
    (key : Key)
    (n : Nat)
    (limit : Nat)
    (s : LoggedSystem)
    (a : ManagerAction) :
    Prop :=
  ∀ id ∈ a.actor,
    limit ≤ id →
      ∀ p ∈ s.1.procs id,
        p.fetches key = true →
          ∀ flight ∈ s.1.shared.group key,
            ∀ leader ∈ s.1.procs flight.leader,
              ∀ v ∈ leader.carried, Fresh key n s.2 v

instance
    (key : Key)
    (n : Nat)
    (limit : Nat)
    (s : LoggedSystem)
    (a : ManagerAction) :
    Decidable (JoinsFresh key n limit s a) := by
  unfold JoinsFresh
  infer_instance

/- The content of a `Set`. -/
def IsSet
    (content : Option (Option Value)) :
    Prop :=
  ∃ value, content = some (some value)

namespace ManagerSystem

variable {s : ManagerSystem}
variable {a : ManagerAction}
variable {key : Key}
variable {n : Nat}
variable {log : OriginLog}
variable {value : Value}

/- A fresh value stays fresh. -/
theorem fresh_record
    (h : Fresh key n log value) :
    Fresh key n (s.recordOrigin a log) value := by
  unfold Fresh recordOrigin
  rw [List.drop_append]
  exact List.mem_append_left _ h

/- What an origin call has just produced is fresh. -/
theorem fresh_of_produced
    {id : Nat}
    {fault : Fault}
    {start : Int}
    (hLength : n ≤ log.length)
    (hProc :
      s.procs id = some (.get key start .originCall)) :
    Fresh key n
      (s.recordOrigin (.run id fault (.value value)) log)
      value := by
  unfold Fresh recordOrigin
  rw [List.drop_append_of_le_length hLength]
  apply List.mem_append_right
  simp [produced, hProc, Proc.originKey]

theorem length_record
    (s : ManagerSystem)
    (a : ManagerAction)
    (log : OriginLog) :
    log.length ≤ (s.recordOrigin a log).length := by
  simp [recordOrigin]

end ManagerSystem

end CacheServer

------------------------------------------------------------
-- Leaders And Those Who Join Them
------------------------------------------------------------

namespace CacheServer

namespace LoggedSystem

variable {cfg : ManagerConfig}
variable {s s' : LoggedSystem}
variable {a : ManagerAction}
variable {key : Key}
variable {n : Nat}

/-
  A leader of the key, from its origin call on, that carries
  and hands on fresh values only.
-/
def LeaderFresh
    (s : LoggedSystem)
    (key : Key)
    (n : Nat)
    (leader : Nat) :
    Prop :=
  (∃ start pc,
    s.1.procs leader = some (.get key start pc) ∧
      (pc.Leads ∨ pc.HasResult) ∧
        ∀ v, pc.carried = some v → Fresh key n s.2 v) ∧
    ∀ result v,
      s.1.shared.finished leader = some result →
        result.value? = some v → Fresh key n s.2 v

/- Past its lookups a `Get` learns from the origin only. -/
theorem learns_origin
    {t : Shared}
    {c : Caller}
    {fault : Fault}
    {origin : OriginReply}
    {pc : GetPc}
    {value : Value}
    (hLate : pc.Leads ∨ pc.HasResult)
    (h : GetPc.Learns t c fault origin value pc) :
    pc = .originCall ∧ origin = .value value := by
  cases h with
  | origin hOrigin => exact ⟨rfl, hOrigin⟩
  | l1 hRead hValue => rcases hLate with h | h <;> exact h.elim
  | l2 hGet => rcases hLate with h | h <;> exact h.elim
  | joined hDone hValue =>
      rcases hLate with h | h <;> exact h.elim

theorem leaderFresh_step
    {leader : Nat}
    (hNum : s.1.Numbered)
    (hLength : n ≤ s.2.length)
    (hFresh : s.LeaderFresh key n leader)
    (h : (loggedMachine cfg).step s a = some s') :
    s'.LeaderFresh key n leader := by
  rcases loggedMachine_step h with ⟨hStep, hLog⟩
  rcases hFresh with
    ⟨⟨start, pc, hProc, hLate, hCarried⟩, hDone⟩
  have hMono :
      ∀ v, Fresh key n s.2 v → Fresh key n s'.2 v := by
    intro v hv
    rw [hLog]
    exact ManagerSystem.fresh_record hv
  constructor
  · rcases ManagerSystem.get_next hNum hStep hProc with
      ⟨pc', hProc', hSame | ⟨fault, origin, rfl, hNext⟩⟩
    · subst hSame
      exact
        ⟨start, _, hProc', hLate,
          fun v hv => hMono v (hCarried v hv)⟩
    · refine ⟨start, pc', hProc', ?_, ?_⟩
      · rcases hLate with hLeads | hResult
        · rcases GetPc.leads_next hLeads hNext with
            ⟨_, _, hResult⟩ | hLeads'
          · exact Or.inr hResult
          · exact Or.inl hLeads'
        · exact Or.inr (GetPc.hasResult_next hResult hNext)
      · intro v hv
        rcases GetPc.next_carried hNext hv with
          hOld | hLearns
        · exact hMono v (hCarried v hOld)
        · rcases learns_origin hLate hLearns with
            ⟨rfl, rfl⟩
          rw [hLog]
          exact ManagerSystem.fresh_of_produced hLength hProc
  · intro result v hResult hValue
    rcases ManagerSystem.step_finished hStep hResult with
      hOld | ⟨_, _, k, start', _, hReturn⟩
    · exact hMono v (hDone result v hOld hValue)
    · rw [hProc] at hReturn
      cases hReturn
      exact hMono v (hCarried v hValue)

/- A `Get` that carries fresh values, and joins only such. -/
structure FreshGet
    (s : LoggedSystem)
    (key : Key)
    (n : Nat)
    (pc : GetPc) :
    Prop where
  carried :
    ∀ v, pc.carried = some v → Fresh key n s.2 v
  joined :
    ∀ leader,
      pc = .joined leader → s.LeaderFresh key n leader

end LoggedSystem

end CacheServer

------------------------------------------------------------
-- After The Invalidate Has Returned
------------------------------------------------------------

namespace CacheServer

namespace LoggedSystem

/-
  The tiers hold, and later calls carry and write, fresh
  values only. No `Set` of the key is open.
-/
structure FreshOnly
    (cfg : ManagerConfig)
    (key : Key)
    (n : Nat)
    (limit : Nat)
    (s : LoggedSystem) :
    Prop where
  numbered : s.1.Numbered
  flights : s.1.FlightsOk cfg
  length : n ≤ s.2.length
  sets : s.1.NoneOpen key IsSet none
  l1 : s.1.L1Holds key (Fresh key n s.2)
  l2 :
    ∀ obj v,
      s.1.redis.lookup key = some obj →
        obj.value = .str v → Fresh key n s.2 v
  gets :
    ∀ id start pc,
      limit ≤ id →
        s.1.procs id = some (.get key start pc) →
          s.FreshGet key n pc
  background :
    ∀ id v,
      limit ≤ id →
        s.1.shared.background id = some (key, v) →
          Fresh key n s.2 v

variable {cfg : ManagerConfig}
variable {s s' : LoggedSystem}
variable {a : ManagerAction}
variable {key : Key}
variable {n limit : Nat}

/- A value written to L1 is fresh. -/
theorem fresh_of_l1Write
    {v : Value}
    (hInv : FreshOnly cfg key n limit s)
    (hOld : OldWritesAre key (Fresh key n) limit s a)
    (hWrite : s.1.l1Write a = some (key, some v)) :
    Fresh key n s.2 v := by
  rcases ManagerSystem.l1Write_cases hWrite with
    ⟨id, fault, origin, p, rfl, hProc, hP⟩
  by_cases hId : id < limit
  · exact (hOld id rfl hId).1 _ hWrite rfl v rfl
  · rcases hP with ⟨start, pc, rfl, hPc⟩ | rfl
    · have hGet := hInv.gets id start pc (by omega) hProc
      rcases hPc with rfl | rfl
      · exact hGet.carried v rfl
      · exact hGet.carried v rfl
    · have hDone :=
        hInv.sets id _ hProc (by simp)
          ⟨v, by simp [Proc.content]⟩
      cases hDone

/- A value written to L2 is fresh. -/
theorem fresh_of_l2Write
    {v : Value}
    (hInv : FreshOnly cfg key n limit s)
    (hOld : OldWritesAre key (Fresh key n) limit s a)
    (hWrite : s.1.l2Write a = some (key, some v)) :
    Fresh key n s.2 v := by
  rcases ManagerSystem.l2Write_cases hWrite with
    hRun | hBack | hDropped
  · rcases hRun with ⟨id, _, _, p, rfl, hProc, hOpen, hP⟩
    have hDone :=
      hInv.sets id p hProc (by simp) ⟨v, hP⟩
    rw [hOpen] at hDone
    cases hDone
  · rcases hBack with ⟨id, _, w, rfl, hEntry, hEq⟩
    cases hEq
    by_cases hId : id < limit
    · exact (hOld id rfl hId).2 _ hWrite rfl v rfl
    · exact hInv.background id v (by omega) hEntry
  · subst hDropped
    cases hWrite

/- What a later `Get` learns is fresh after the step. -/
theorem fresh_of_learns
    {id : Nat}
    {start : Int}
    {cancelled : Bool}
    {fault : Fault}
    {origin : OriginReply}
    {pc : GetPc}
    {v : Value}
    (hInv : FreshOnly cfg key n limit s)
    (hGet : s.FreshGet key n pc)
    (hProc : s.1.procs id = some (.get key start pc))
    (h :
      GetPc.Learns s.1.shared
        { id := id, key := key, start := start
          cancelled := cancelled } fault origin v pc) :
    Fresh key n
      (s.1.recordOrigin (.run id fault origin) s.2) v := by
  cases h with
  | l1 hRead hValue =>
      subst hValue
      exact
        ManagerSystem.fresh_record (hInv.l1 _ hRead)
  | l2 hHit =>
      rcases L2Cache.get_eq_hit hHit with
        ⟨obj, hLookup, _, hValue⟩
      exact
        ManagerSystem.fresh_record
          (hInv.l2 obj v hLookup hValue)
  | joined hDone hValue =>
      have hLeader := hGet.joined _ rfl
      exact
        ManagerSystem.fresh_record
          (hLeader.2 _ v hDone hValue)
  | origin hOrigin =>
      subst hOrigin
      exact
        ManagerSystem.fresh_of_produced hInv.length hProc

/- The leader that a later `Get` joins is fresh. -/
theorem leaderFresh_of_join
    {id : Nat}
    {start : Int}
    {fault : Fault}
    {origin : OriginReply}
    {flight : Flight}
    (hInv : FreshOnly cfg key n limit s)
    (hJoins :
      JoinsFresh key n limit s (.run id fault origin))
    (hLe : limit ≤ id)
    (hProc : s.1.procs id = some (.get key start .fetch))
    (hGroup : s.1.shared.group key = some flight) :
    s.LeaderFresh key n flight.leader := by
  rcases hInv.flights.leads key flight hGroup with
    ⟨begun, pc, hLeader, hLeads⟩
  constructor
  · refine ⟨begun, pc, hLeader, Or.inl hLeads, ?_⟩
    intro v hv
    exact
      hJoins id rfl hLe _ hProc (by simp [Proc.fetches])
        flight hGroup _ hLeader v hv
  · intro result v hDone _
    rw [hInv.flights.not_finished hLeader hLeads] at hDone
    cases hDone

theorem freshGet_step
    {id : Nat}
    {start : Int}
    {pc : GetPc}
    (hInv : FreshOnly cfg key n limit s)
    (hJoins : JoinsFresh key n limit s a)
    (hLe : limit ≤ id)
    (h : (loggedMachine cfg).step s a = some s')
    (hProc : s'.1.procs id = some (.get key start pc)) :
    s'.FreshGet key n pc := by
  rcases loggedMachine_step h with ⟨hStep, hLog⟩
  have hLeaders :
      ∀ leader,
        s.LeaderFresh key n leader →
          s'.LeaderFresh key n leader :=
    fun _ hFresh =>
      leaderFresh_step hInv.numbered hInv.length hFresh h
  rcases ManagerSystem.step_getProc hStep hProc with
    hSame | ⟨_, _, _, rfl⟩ |
      ⟨fault, origin, old, rfl, hBefore, hPc⟩
  · have hGet := hInv.gets id start pc hLe hSame
    constructor
    · intro v hv
      rw [hLog]
      exact
        ManagerSystem.fresh_record (hGet.carried v hv)
    · intro leader hPc
      exact hLeaders leader (hGet.joined leader hPc)
  · refine ⟨fun v hv => ?_, fun leader hPc => ?_⟩
    · cases hv
    · cases hPc
  · have hNext := GetPc.run_next hPc
    have hGet := hInv.gets id start old hLe hBefore
    constructor
    · intro v hv
      rw [hLog]
      rcases GetPc.next_carried hNext hv with hOld | hLearns
      · exact
          ManagerSystem.fresh_record (hGet.carried v hOld)
      · exact fresh_of_learns hInv hGet hBefore hLearns
    · intro leader hJoined
      subst hJoined
      cases hNext with
      | join hUse hGroup =>
          exact
            hLeaders _
              (leaderFresh_of_join hInv hJoins hLe hBefore
                hGroup)

theorem freshOnly_step
    (hInv : FreshOnly cfg key n limit s)
    (hAvoid : a.Avoids key IsSet)
    (hOld : OldWritesAre key (Fresh key n) limit s a)
    (hJoins : JoinsFresh key n limit s a)
    (h : (loggedMachine cfg).step s a = some s') :
    FreshOnly cfg key n limit s' := by
  rcases loggedMachine_step h with ⟨hStep, hLog⟩
  have hMono :
      ∀ v, Fresh key n s.2 v → Fresh key n s'.2 v := by
    intro v hv
    rw [hLog]
    exact ManagerSystem.fresh_record hv
  refine
    ⟨ManagerSystem.numbered_step hInv.numbered hStep,
      ManagerSystem.flightsOk_step hInv.numbered
        hInv.flights hStep, ?_,
      ManagerSystem.noneOpen_step hInv.sets hAvoid hStep,
      ?_, ?_,
      fun id start pc hLe hProc =>
        freshGet_step hInv hJoins hLe h hProc, ?_⟩
  · rw [hLog]
    exact
      le_trans hInv.length (s.1.length_record a s.2)
  · apply ManagerSystem.l1Holds_step hInv.l1 hMono ?_ hStep
    intro v hWrite
    exact hMono v (fresh_of_l1Write hInv hOld hWrite)
  · intro obj v hObj hValue
    rcases ManagerSystem.step_lookup hStep key with
      ⟨hSame, _⟩ | ⟨content, hWrite, hLookup⟩
    · rw [hSame] at hObj
      exact hMono v (hInv.l2 obj v hObj hValue)
    · rw [hLookup] at hObj
      cases content with
      | none => cases hObj
      | some found =>
          cases hObj
          cases hValue
          exact hMono _ (fresh_of_l2Write hInv hOld hWrite)
  · intro id v hLe hEntry
    rcases ManagerSystem.step_background_entry hStep
      hEntry with hSame | ⟨_, _, p, _, hProc, hSpawn⟩
    · exact hMono v (hInv.background id v hLe hSame)
    · cases p with
      | get k start pc =>
          cases pc with
          | spawn found =>
              cases hSpawn
              have hGet := hInv.gets id start _ hLe hProc
              exact hMono _ (hGet.carried _ rfl)
          | _ => cases hSpawn
      | set k found pc => cases hSpawn
      | invalidate k pc => cases hSpawn

end LoggedSystem

end CacheServer

------------------------------------------------------------
-- While The Invalidate Runs
------------------------------------------------------------

namespace CacheServer

namespace LoggedSystem

/-
  The `Invalidate` is before its L1 delete, or before its
  command with only fresh values in L1, or it has returned.
-/
structure Deleting
    (cfg : ManagerConfig)
    (key : Key)
    (n : Nat)
    (writer : Nat)
    (s : LoggedSystem) :
    Prop where
  numbered : s.1.Numbered
  flights : s.1.FlightsOk cfg
  length : n ≤ s.2.length
  sets : s.1.NoneOpen key IsSet none
  own :
    s.1.procs writer = some (.invalidate key .l1) ∨
      (s.1.procs writer = some (.invalidate key .l2) ∧
        s.1.L1Holds key (Fresh key n s.2)) ∨
      ∃ error,
        s.1.procs writer =
          some (.invalidate key (.done error))

variable {cfg : ManagerConfig}
variable {s s' : LoggedSystem}
variable {a : ManagerAction}
variable {key : Key}
variable {n : Nat}

theorem deleting_step
    {writer : Nat}
    (hInv : Deleting cfg key n writer s)
    (hAvoid : a.Avoids key IsSet)
    (hRefill :
      NotRefilled key (Fresh key n) writer
        (.invalidate key .l2) s a)
    (h : (loggedMachine cfg).step s a = some s') :
    Deleting cfg key n writer s' := by
  rcases loggedMachine_step h with ⟨hStep, hLog⟩
  have hNum := hInv.numbered
  refine
    ⟨ManagerSystem.numbered_step hNum hStep,
      ManagerSystem.flightsOk_step hNum hInv.flights hStep,
      ?_, ManagerSystem.noneOpen_step hInv.sets hAvoid hStep,
      ?_⟩
  · rw [hLog]
    exact le_trans hInv.length (s.1.length_record a s.2)
  · rw [hLog]
    refine
      ManagerSystem.writing_step (writerOf_invalidate key)
        hNum (fun v hv => ManagerSystem.fresh_record hv)
        ?_ ?_ hInv.own hStep
    · intro v hEq
      cases hEq
    · intro hL2 v hWrite
      exact
        ManagerSystem.fresh_record
          (hRefill hL2 _ hWrite rfl v rfl)

end LoggedSystem

end CacheServer

------------------------------------------------------------
-- Acknowledged Invalidations
------------------------------------------------------------

namespace CacheServer

open LoggedSystem

namespace WriteThenGet

variable {cfg : ManagerConfig}
variable {key : Key}

/- How many origin values were there at the call. -/
def oldValues
    (w : WriteThenGet cfg key (.invalidate key)) :
    Nat :=
  w.start.2.length

theorem flightsOk_start
    {write : ManagerCall}
    (w : WriteThenGet cfg key write) :
    w.start.1.Numbered ∧ w.start.1.FlightsOk cfg := by
  refine
    Machine.exec_invariant
      (I := fun t => t.Numbered ∧ t.FlightsOk cfg) ?_
      (Machine.exec_of_withHistory w.runBefore)
      ⟨ManagerSystem.numbered_new _ _ _ _,
        ManagerSystem.flightsOk_new _ _ _ _ _⟩
  intro t a t' hI hStep
  exact
    ⟨ManagerSystem.numbered_step hI.1 hStep,
      ManagerSystem.flightsOk_step hI.1 hI.2 hStep⟩

theorem deleting_called
    (w : WriteThenGet cfg key (.invalidate key))
    (hQuiet : w.start.1.NoneOpen key IsSet none) :
    Deleting cfg key w.oldValues w.writer w.called := by
  rcases loggedMachine_step w.call with ⟨hStep, hLog⟩
  rcases w.flightsOk_start with ⟨hNum, hFlights⟩
  refine
    ⟨ManagerSystem.numbered_step hNum hStep,
      ManagerSystem.flightsOk_step hNum hFlights hStep, ?_,
      ManagerSystem.noneOpen_step hQuiet ?_ hStep,
      Or.inl (ManagerSystem.step_call_self hStep)⟩
  · rw [hLog]
    exact w.start.1.length_record _ _
  · intro hKind
    rcases hKind with ⟨v, hv⟩
    simp [ManagerCall.content] at hv

/- When the `Invalidate` has returned only fresh values live. -/
theorem freshOnly_returned
    (w : WriteThenGet cfg key (.invalidate key))
    (hInv :
      Deleting cfg key w.oldValues w.writer w.pending) :
    FreshOnly cfg key w.oldValues w.limit w.returned := by
  rcases loggedMachine_step w.command with ⟨hStep, hLog⟩
  have hProc :
      w.pending.1.procs w.writer =
        some (.invalidate key .l2) :=
    w.atL2
  have hHolds :
      w.pending.1.L1Holds key
        (Fresh key w.oldValues w.pending.2) :=
    ManagerSystem.Writing.l1Holds (writerOf_invalidate key)
      hInv.own hProc
  have hNum :=
    ManagerSystem.numbered_step hInv.numbered hStep
  have hL1Write :
      w.pending.1.l1Write
        (.run w.writer .none w.origin) = none := by
    simp [ManagerSystem.l1Write, hProc, Proc.l1Write]
  have hL2Write :
      w.pending.1.l2Write
          (.run w.writer .none w.origin) =
        some (key, none) := by
    simp [ManagerSystem.l2Write, hProc, Proc.l2WriteIf,
      Proc.l2Write, Fault.applied]
  have hNoCall :
      (ManagerAction.run w.writer .none w.origin).Avoids
        key IsSet :=
    trivial
  refine
    ⟨hNum,
      ManagerSystem.flightsOk_step hInv.numbered
        hInv.flights hStep, ?_,
      ManagerSystem.noneOpen_step hInv.sets hNoCall hStep,
      ?_, ?_, ?_, ?_⟩
  · rw [hLog]
    exact
      le_trans hInv.length (w.pending.1.length_record _ _)
  · rw [hLog]
    exact
      ManagerSystem.l1Holds_step_of_none hHolds
        (fun v hv => ManagerSystem.fresh_record hv) hL1Write
        hStep
  · intro obj v hObj _
    rw [ManagerSystem.step_lookup_of_write hStep hL2Write]
      at hObj
    cases hObj
  · intro id start pc hLe hAfter
    rw [hNum.procs id hLe] at hAfter
    cases hAfter
  · intro id v hLe hEntry
    rw [hNum.background id hLe] at hEntry
    cases hEntry

end WriteThenGet

/-
  An `Invalidate` returns nil with no `Set` of its key open
  or following. If older `Get` calls put only fresh values
  into L1 after its L1 delete and into L2 after its command,
  and later calls join only singleflight calls that hold no
  old value, then a later `Get` returns fresh values only.
-/
theorem acknowledged_invalidate_holds
    (cfg : ManagerConfig)
    (key : Key)
    (w : WriteThenGet cfg key (.invalidate key))
    (value : Value)
    (hQuiet : w.start.1.NoneOpen key IsSet none)
    (hAvoids :
      ∀ a ∈ w.during ++ w.between ++ w.after,
        a.Avoids key IsSet)
    (hDuring :
      (loggedMachine cfg).Along
        (NotRefilled key (Fresh key w.oldValues) w.writer
          (.invalidate key .l2))
        w.called w.during)
    (hBetween :
      (loggedMachine cfg).Along
        (OldWritesAre key (Fresh key w.oldValues) w.limit)
        w.returned w.between)
    (hAfter :
      (loggedMachine cfg).Along
        (OldWritesAre key (Fresh key w.oldValues) w.limit)
        w.began w.after)
    (hJoinsBetween :
      (loggedMachine cfg).Along
        (JoinsFresh key w.oldValues w.limit) w.returned
        w.between)
    (hJoinsAfter :
      (loggedMachine cfg).Along
        (JoinsFresh key w.oldValues w.limit) w.began w.after)
    (hReturns : w.Returns (.ok value)) :
    Fresh key w.oldValues w.ended.2 value := by
  have hAvoidsDuring : ∀ a ∈ w.during, a.Avoids key IsSet :=
    fun a ha => hAvoids a (by simp [ha])
  have hAvoidsBetween :
      ∀ a ∈ w.between, a.Avoids key IsSet :=
    fun a ha => hAvoids a (by simp [ha])
  have hAvoidsAfter : ∀ a ∈ w.after, a.Avoids key IsSet :=
    fun a ha => hAvoids a (by simp [ha])
  have hPending :
      Deleting cfg key w.oldValues w.writer w.pending :=
    Machine.exec_invariant_along
      (I := Deleting cfg key w.oldValues w.writer)
      (fun _ _ _ hI hP hStep =>
        deleting_step hI hP.1 hP.2 hStep)
      ((Machine.along_of_forall_mem hAvoidsDuring).and
        hDuring)
      w.runDuring (w.deleting_called hQuiet)
  have hLater :
      FreshOnly cfg key w.oldValues w.limit w.later :=
    Machine.exec_invariant_along
      (I := FreshOnly cfg key w.oldValues w.limit)
      (fun _ _ _ hI hP hStep =>
        freshOnly_step hI hP.1 hP.2.1 hP.2.2 hStep)
      ((Machine.along_of_forall_mem hAvoidsBetween).and
        (hBetween.and hJoinsBetween))
      w.runBetween (w.freshOnly_returned hPending)
  have hBegan :
      FreshOnly cfg key w.oldValues w.limit w.began := by
    refine freshOnly_step hLater ?_ ?_ ?_ w.get
    · intro hKind
      rcases hKind with ⟨v, hv⟩
      cases hv
    · intro id hId
      cases hId
    · intro id hId
      cases hId
  have hEnded :
      FreshOnly cfg key w.oldValues w.limit w.ended :=
    Machine.exec_invariant_along
      (I := FreshOnly cfg key w.oldValues w.limit)
      (fun _ _ _ hI hP hStep =>
        freshOnly_step hI hP.1 hP.2.1 hP.2.2 hStep)
      ((Machine.along_of_forall_mem hAvoidsAfter).and
        (hAfter.and hJoinsAfter))
      w.runAfter hBegan
  have hLe : w.limit ≤ w.reader :=
    Machine.exec_relation
      (R := fun s t => s.next ≤ t.next)
      (fun _ => le_refl _)
      (fun _ _ _ h₁ h₂ => le_trans h₁ h₂)
      (fun _ _ _ hStep => ManagerSystem.step_next hStep)
      (Machine.exec_of_withHistory w.runBetween)
  rcases hReturns with ⟨start, hDone⟩
  exact
    (hEnded.gets w.reader start _ hLe hDone).carried value rfl

/- An `Invalidate`, and a `Get` that goes to the origin. -/
def invalidateThenGet :
    WriteThenGet ⟨true, 100⟩ [1] (.invalidate [1]) :=
  { maxSize := 1000
    l1TTL := 5
    redis := ∅
    clock := 0
    before :=
      [.call (.set [1] [7]), .proceed 0, .proceed 0]
    during := [.proceed 1]
    between := []
    after := List.replicate 12 (.run 2 .none (.value [9]))
    origin := .value []
    start := _
    called := _
    pending := _
    returned := _
    later := _
    began := _
    ended := _
    runBefore := Machine.exec_get rfl
    call := rfl
    runDuring := Machine.exec_get rfl
    atL2 := rfl
    command := rfl
    runBetween := Machine.exec_get rfl
    get := rfl
    runAfter := Machine.exec_get rfl }

theorem acknowledged_invalidate_holds_refetched :
    Fresh [1] invalidateThenGet.oldValues
      invalidateThenGet.ended.2 [9] := by
  refine
    acknowledged_invalidate_holds ⟨true, 100⟩ [1]
      invalidateThenGet [9] ?_ ?_ (by decide) (by decide)
      (by decide) (by decide) (by decide) ⟨0, rfl⟩
  · intro id p hProc _ hKind
    match id, hProc with
    | 0, hProc =>
        cases hProc
        rfl
    | _ + 1, hProc => cases hProc
  · intro a ha
    have hCases : a = .proceed 1 ∨
        a = .run 2 .none (.value [9]) := by
      simpa [invalidateThenGet] using ha
    rcases hCases with rfl | rfl
    · trivial
    · trivial

/-
  A `Get` has read a value from L2 when an `Invalidate` runs
  from start to end, and then copies the value into L1.
-/
def undoneInvalidate :
    WriteThenGet ⟨true, 100⟩ [1] (.invalidate [1]) :=
  { maxSize := 1000
    l1TTL := 5
    redis := ∅
    clock := 0
    before := staleReader
    during := [.proceed 2]
    between := [.proceed 1]
    after := List.replicate 5 (.proceed 3)
    origin := .value []
    start := lagging
    called := _
    pending := _
    returned := _
    later := _
    began := _
    ended := _
    runBefore := staleReader_run
    call := rfl
    runDuring := Machine.exec_get rfl
    atL2 := rfl
    command := rfl
    runBetween := Machine.exec_get rfl
    get := rfl
    runAfter := Machine.exec_get rfl }

theorem acknowledged_invalidate_undone :
    ¬ ∀ (cfg : ManagerConfig) (key : Key)
        (w : WriteThenGet cfg key (.invalidate key))
        (value : Value),
        w.start.1.NoneOpen key IsSet none →
          (∀ a ∈ w.during ++ w.between ++ w.after,
            a.Avoids key IsSet ∧ a.NoFault) →
            w.Returns (.ok value) →
              Fresh key w.oldValues w.ended.2 value := by
  intro h
  have hBad :=
    h ⟨true, 100⟩ [1] undoneInvalidate [7] ?_ ?_ ⟨10, rfl⟩
  · revert hBad
    decide
  · intro id p hProc _ hKind
    match id, hProc with
    | 0, hProc =>
        cases hProc
        rfl
    | 1, hProc =>
        cases hProc
        rcases hKind with ⟨_, hKind⟩
        cases hKind
    | _ + 2, hProc => cases hProc
  · intro a ha
    have hCases : a = .proceed 2 ∨ a = .proceed 1 ∨
        a = .proceed 3 := by
      simpa [undoneInvalidate] using ha
    rcases hCases with rfl | rfl | rfl
    · exact ⟨trivial, rfl⟩
    · exact ⟨trivial, rfl⟩
    · exact ⟨trivial, rfl⟩

end CacheServer
