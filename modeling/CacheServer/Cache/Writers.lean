import CacheServer.Cache.TierSteps

/-
  Which `Set` a value comes from.

  A log beside the run says for each key of a tier, and for
  each `Get`, which call of `Set` has put the value there or
  handed it on, and when this call wrote L1. A value of the
  origin comes from no `Set`.

  Key definitions include:
    * `CacheServer.WriterLog`
    * `CacheServer.ManagerSystem.recordTrace`
    * `CacheServer.ManagerSystem.StoredInTime`
    * `CacheServer.ManagerSystem.Expires`

  Key theorems include:
    * `CacheServer.ManagerSystem.traced_step`
    * `CacheServer.ManagerSystem.expires_step`
    * `CacheServer.ManagerSystem.Expires.not_returned`
-/

------------------------------------------------------------
-- The Log Of Writers
------------------------------------------------------------

namespace CacheServer

/-
  The calls of `Set` that the values in the tiers, and those
  that a `Get` carries, come from; and when each of these
  calls made its write to L1.
-/
structure WriterLog where
  l1 : Key → Option Nat
  l2 : Key → Option Nat
  carried : Nat → Option Nat
  writtenAt : Nat → Option Int

namespace WriterLog

def empty : WriterLog :=
  { l1 := fun _ => none
    l2 := fun _ => none
    carried := fun _ => none
    writtenAt := fun _ => none }

/- The tags of a tier after a write by this writer. -/
def tag
    (tags : Key → Option Nat)
    (writer : Option Nat) :
    Option TierWrite → Key → Option Nat
| none => tags
| some (key, none) => Function.update tags key none
| some (key, some _) => Function.update tags key writer

/- Where the value that a `Get` may learn here comes from. -/
def learned
    (log : WriterLog)
    (key : Key)
    (carried : Option Nat) :
    GetPc → Option Nat
| .l1Read => log.l1 key
| .l2Get => log.l2 key
| .joined _ => none
| .originCall => none
| _ => carried

end WriterLog

namespace Proc

/- The `Set` whose value a call writes, and its own number. -/
def writer
    (log : WriterLog)
    (id : Nat) :
    Proc → Option Nat
| .set _ _ _ => some id
| .get _ _ _ => log.carried id
| .invalidate _ _ => none

/- The `Set` whose value a call carries after its step. -/
def carries
    (log : WriterLog)
    (id : Nat) :
    Proc → Option Nat
| .get key _ pc => log.learned key (log.carried id) pc
| _ => log.carried id

/- The next step is the write of a `Set` to L1. -/
def setsL1 :
    Proc → Bool
| .set _ _ .l1 => true
| _ => false

end Proc

namespace ManagerSystem

/- The `Set` whose value the actor of this step writes. -/
def writer
    (s : ManagerSystem)
    (log : WriterLog) :
    ManagerAction → Option Nat
| .run id _ _ => (s.procs id).bind (Proc.writer log id)
| _ => none

def recordCarried
    (s : ManagerSystem)
    (log : WriterLog) :
    ManagerAction → Nat → Option Nat
| .run id _ _ =>
    Function.update log.carried id
      ((s.procs id).elim (log.carried id)
        (Proc.carries log id))
| _ => log.carried

def recordWrittenAt
    (s : ManagerSystem)
    (log : WriterLog) :
    ManagerAction → Nat → Option Int
| .run id _ _ =>
    if (s.procs id).any Proc.setsL1 then
      Function.update log.writtenAt id (some s.clock)
    else
      log.writtenAt
| _ => log.writtenAt

def recordTrace
    (s : ManagerSystem)
    (a : ManagerAction)
    (log : WriterLog) :
    WriterLog :=
  { l1 := WriterLog.tag log.l1 (s.writer log a) (s.l1Write a)
    l2 := WriterLog.tag log.l2 (s.writer log a) (s.l2Write a)
    carried := s.recordCarried log a
    writtenAt := s.recordWrittenAt log a }

/-
  What the step stores, as a value of `writer`, expires in
  time: no later than `lifetime` after its write to L1.
-/
def StoredInTime
    (cfg : ManagerConfig)
    (writer : Nat)
    (lifetime : Int)
    (s : ManagerSystem)
    (log : WriterLog)
    (a : ManagerAction) :
    Prop :=
  (∀ write ∈ s.l1Write a,
    write.2 ≠ none →
      s.clock + s.l1.ttl ≤
        (log.writtenAt writer).getD s.clock + lifetime) ∧
    ∀ write ∈ s.l2Write a,
      write.2 ≠ none →
        ∃ expiry ∈ Redis.expiry s.clock cfg.l2TTL,
          expiry ≤
            (log.writtenAt writer).getD s.clock + lifetime

instance
    (cfg : ManagerConfig)
    (writer : Nat)
    (lifetime : Int)
    (s : ManagerSystem)
    (log : WriterLog)
    (a : ManagerAction) :
    Decidable (s.StoredInTime cfg writer lifetime log a) := by
  unfold StoredInTime
  infer_instance

end ManagerSystem

end CacheServer

------------------------------------------------------------
-- The Log Is Consistent
------------------------------------------------------------

namespace CacheServer

namespace WriterLog

variable {tags : Key → Option Nat}
variable {writer : Option Nat}
variable {key : Key}
variable {w : Nat}

/- A tag was there before or is that of the writer. -/
theorem tag_cases
    {write : Option TierWrite}
    (h : tag tags writer write key = some w) :
    (tags key = some w ∧
        ∀ content, write ≠ some (key, content)) ∨
      (writer = some w ∧
        ∃ value, write = some (key, some value)) := by
  rcases write with _ | ⟨other, content⟩
  · exact Or.inl ⟨h, by simp⟩
  · by_cases hEq : key = other
    · subst hEq
      cases content with
      | none =>
          simp [tag] at h
      | some value =>
          simp only [tag, Function.update_self] at h
          exact Or.inr ⟨h, value, rfl⟩
    · refine Or.inl ⟨?_, ?_⟩
      · cases content with
        | none => simpa [tag, hEq] using h
        | some value => simpa [tag, hEq] using h
      · intro found hWrite
        cases hWrite
        exact hEq rfl

/- What a `Get` may learn comes from a tier or is its own. -/
theorem learned_cases
    {log : WriterLog}
    {carried : Option Nat}
    {pc : GetPc}
    (h : log.learned key carried pc = some w) :
    (pc = .l1Read ∧ log.l1 key = some w) ∨
      (pc = .l2Get ∧ log.l2 key = some w) ∨
      (carried = some w ∧ pc ≠ .l1Read ∧ pc ≠ .l2Get ∧
        pc ≠ .originCall ∧ ∀ leader, pc ≠ .joined leader) := by
  cases pc with
  | l1Read => exact Or.inl ⟨rfl, h⟩
  | l2Get => exact Or.inr (Or.inl ⟨rfl, h⟩)
  | joined leader => cases h
  | originCall => cases h
  | _ => exact Or.inr (Or.inr ⟨h, by simp⟩)

end WriterLog

namespace ManagerSystem

/-
  A `Set` has a time of writing exactly from its first step
  on, and only such a `Set` occurs in the log.
-/
structure Traced
    (s : ManagerSystem)
    (log : WriterLog) :
    Prop where
  numbered : s.Numbered
  written :
    ∀ w time,
      log.writtenAt w = some time →
        ∃ key value pc,
          s.procs w = some (.set key value pc) ∧ pc ≠ .l1
  dated :
    ∀ w key value pc,
      s.procs w = some (.set key value pc) →
        pc ≠ .l1 → (log.writtenAt w).isSome = true
  l1 :
    ∀ key w,
      log.l1 key = some w → (log.writtenAt w).isSome = true
  l2 :
    ∀ key w,
      log.l2 key = some w → (log.writtenAt w).isSome = true
  carried :
    ∀ id w,
      log.carried id = some w →
        (log.writtenAt w).isSome = true
  started :
    ∀ id key start pc,
      s.procs id = some (.get key start pc) → start ≤ s.clock

variable {cfg : ManagerConfig}
variable {s s' : ManagerSystem}
variable {a : ManagerAction}
variable {log : WriterLog}
variable {w : Nat}

theorem setsL1_iff
    {p : Proc} :
    p.setsL1 = true ↔ ∃ key value, p = .set key value .l1 := by
  cases p with
  | set key value pc =>
      cases pc with
      | l1 => simp [Proc.setsL1]
      | _ => simp [Proc.setsL1]
  | _ => simp [Proc.setsL1]

/- A time of writing is an old one, or that of this step. -/
theorem writtenAt_cases
    {time : Int}
    (h : s.recordWrittenAt log a w = some time) :
    log.writtenAt w = some time ∨
      (time = s.clock ∧
        ∃ fault origin key value,
          a = .run w fault origin ∧
            s.procs w = some (.set key value .l1)) := by
  cases a with
  | run id fault origin =>
      simp only [recordWrittenAt] at h
      split_ifs at h with hAny
      · by_cases hEq : w = id
        · subst hEq
          rw [Function.update_self] at h
          cases h
          rcases (Option.any_eq_true _ _).mp hAny with
            ⟨p, hProc, hFirst⟩
          rcases setsL1_iff.mp hFirst with ⟨key, value, rfl⟩
          exact
            Or.inr
              ⟨rfl, fault, origin, key, value, rfl, hProc⟩
        · rw [Function.update_of_ne hEq] at h
          exact Or.inl h
      · exact Or.inl h
  | _ => exact Or.inl h

/- A `Set` keeps its time of writing. -/
theorem Traced.writtenAt_keep
    {time : Int}
    (hTraced : s.Traced log)
    (hTime : log.writtenAt w = some time) :
    s.recordWrittenAt log a w = some time := by
  rcases hTraced.written w time hTime with
    ⟨key, value, pc, hProc, hPc⟩
  cases a with
  | run id fault origin =>
      simp only [recordWrittenAt]
      split_ifs with hAny
      · have hNe : w ≠ id := by
          intro hEq
          subst hEq
          rw [hProc] at hAny
          rcases setsL1_iff.mp hAny with ⟨_, _, hSet⟩
          cases hSet
          exact hPc rfl
        rw [Function.update_of_ne hNe]
        exact hTime
      · exact hTime
  | _ => exact hTime

theorem Traced.isSome_keep
    (hTraced : s.Traced log)
    (hSome : (log.writtenAt w).isSome = true) :
    (s.recordWrittenAt log a w).isSome = true := by
  rcases Option.isSome_iff_exists.mp hSome with
    ⟨time, hTime⟩
  rw [hTraced.writtenAt_keep hTime]
  rfl

/- The writer of a step is a `Set`, or known to a `Get`. -/
theorem writer_cases
    (h : s.writer log a = some w) :
    (∃ fault origin key value pc,
      a = .run w fault origin ∧
        s.procs w = some (.set key value pc)) ∨
      ∃ id fault origin key start pc,
        a = .run id fault origin ∧
          s.procs id = some (.get key start pc) ∧
            log.carried id = some w := by
  cases a with
  | run id fault origin =>
      rcases Option.bind_eq_some_iff.mp h with
        ⟨p, hProc, hWriter⟩
      cases p with
      | set key value pc =>
          cases hWriter
          exact
            Or.inl
              ⟨fault, origin, key, value, pc, rfl, hProc⟩
      | get key start pc =>
          exact
            Or.inr
              ⟨id, fault, origin, key, start, pc, rfl, hProc,
                hWriter⟩
      | invalidate key pc => cases hWriter
  | _ => cases h

/- A writer has a time of writing after its step. -/
theorem Traced.writer_dated
    (hTraced : s.Traced log)
    (h : s.writer log a = some w) :
    (s.recordWrittenAt log a w).isSome = true := by
  rcases writer_cases h with
    ⟨fault, origin, key, value, pc, rfl, hProc⟩ |
      ⟨id, _, _, _, _, _, _, _, hCarried⟩
  · by_cases hFirst : pc = .l1
    · subst hFirst
      simp [recordWrittenAt, hProc, Proc.setsL1]
    · exact
        hTraced.isSome_keep
          (hTraced.dated w key value pc hProc hFirst)
  · exact hTraced.isSome_keep (hTraced.carried id w hCarried)

/- Before or after its first write, in this very step. -/
theorem Traced.written_getD
    {time : Int}
    (hTraced : s.Traced log)
    (hTime : s.recordWrittenAt log a w = some time) :
    (log.writtenAt w).getD s.clock = time := by
  rcases writtenAt_cases hTime with
    hOld | ⟨rfl, _, _, key, value, _, hProc⟩
  · rw [hOld]
    rfl
  · cases hOld : log.writtenAt w with
    | none => rfl
    | some time =>
        rcases hTraced.written w time hOld with
          ⟨_, _, pc, hSet, hPc⟩
        rw [hProc] at hSet
        cases hSet
        exact absurd rfl hPc

/- A `Set` goes on from its L1 write to its L2 write. -/
theorem step_setProc
    {key : Key}
    {value : Value}
    {pc' : WritePc}
    (h : s.step cfg a = some s')
    (hProc : s'.procs w = some (.set key value pc')) :
    s.procs w = some (.set key value pc') ∨ pc' = .l1 ∨
      ∃ fault origin pc,
        a = .run w fault origin ∧
          s.procs w = some (.set key value pc) := by
  rcases step_proc h hProc with
    hOld | ⟨call, _, _, hCall⟩ |
      ⟨fault, origin, p, rfl, hOld, hRun⟩
  · exact Or.inl hOld
  · cases call with
    | set k v =>
        cases hCall
        exact Or.inr (Or.inl rfl)
    | _ => cases hCall
  · cases p with
    | set k v pc =>
        rcases Proc.run_set hRun with ⟨_, hEq, _⟩
        cases hEq
        exact
          Or.inr (Or.inr ⟨fault, origin, pc, rfl, hOld⟩)
    | get k start pc =>
        rcases Proc.run_get hRun with ⟨_, hEq, _⟩
        cases hEq
    | invalidate k pc =>
        rcases Proc.run_invalidate hRun with ⟨_, hEq, _⟩
        cases hEq

theorem runSet_ne_l1
    {t : Shared}
    {key : Key}
    {value : Value}
    {fault : Fault}
    {pc pc' : WritePc}
    (h :
      pc.runSet cfg s.shared key value fault =
        some (t, pc')) :
    pc' ≠ .l1 := by
  cases pc with
  | l1 =>
      cases h
      exact WritePc.noConfusion
  | l2 =>
      cases h
      exact WritePc.noConfusion
  | done error => cases h

/- A `Set` that has written L1 does not do so again. -/
theorem Traced.set_keep
    {key : Key}
    {value : Value}
    {pc : WritePc}
    (hTraced : s.Traced log)
    (h : s.step cfg a = some s')
    (hProc : s.procs w = some (.set key value pc))
    (hPc :
      pc ≠ .l1 ∨ ∃ fault origin, a = .run w fault origin) :
    ∃ pc',
      s'.procs w = some (.set key value pc') ∧ pc' ≠ .l1 := by
  rcases step_proc_next hTraced.numbered h hProc with
    hKeep | ⟨fault, origin, p', rfl, hNew, hRun⟩
  · rcases hPc with hPc | ⟨fault, origin, rfl⟩
    · exact ⟨pc, hKeep, hPc⟩
    · rcases step_run_self h hProc with ⟨p', hNew, hRun⟩
      rcases Proc.run_set hRun with ⟨pc', rfl, hSet⟩
      exact ⟨pc', hNew, runSet_ne_l1 hSet⟩
  · rcases Proc.run_set hRun with ⟨pc', rfl, hSet⟩
    exact ⟨pc', hNew, runSet_ne_l1 hSet⟩

/- What a `Get` carries is what it has carried or learns. -/
theorem carried_cases
    {id : Nat}
    (h : s.recordCarried log a id = some w) :
    log.carried id = some w ∨
      ∃ fault origin key start pc,
        a = .run id fault origin ∧
          s.procs id = some (.get key start pc) ∧
            log.learned key (log.carried id) pc = some w := by
  cases a with
  | run other fault origin =>
      simp only [recordCarried] at h
      by_cases hEq : id = other
      · subst hEq
        rw [Function.update_self] at h
        cases hProc : s.procs id with
        | none =>
            rw [hProc] at h
            exact Or.inl h
        | some p =>
            rw [hProc] at h
            cases p with
            | get key start pc =>
                exact
                  Or.inr
                    ⟨fault, origin, key, start, pc, rfl, rfl,
                      h⟩
            | _ => exact Or.inl h
      · rw [Function.update_of_ne hEq] at h
        exact Or.inl h
  | _ => exact Or.inl h

theorem Traced.learned_dated
    {id : Nat}
    {key : Key}
    {pc : GetPc}
    (hTraced : s.Traced log)
    (h : log.learned key (log.carried id) pc = some w) :
    (log.writtenAt w).isSome = true := by
  rcases WriterLog.learned_cases h with
    ⟨_, hTag⟩ | ⟨_, hTag⟩ | ⟨hOld, _⟩
  · exact hTraced.l1 key w hTag
  · exact hTraced.l2 key w hTag
  · exact hTraced.carried id w hOld

/- Nothing has been written when the manager is started. -/
theorem traced_new
    (maxSize : Int)
    (l1TTL : Int)
    (redis : Redis)
    (clock : Int) :
    (ManagerSystem.new maxSize l1TTL redis clock).Traced
      WriterLog.empty := by
  refine
    ⟨numbered_new maxSize l1TTL redis clock, ?_, ?_, ?_, ?_,
      ?_, ?_⟩
  · intro w time h
    cases h
  · intro w key value pc h
    cases h
  · intro key w h
    cases h
  · intro key w h
    cases h
  · intro id w h
    cases h
  · intro id key start pc h
    cases h

/- A call that has not been made has written nothing. -/
theorem Traced.unwritten
    (hTraced : s.Traced log) :
    log.writtenAt s.next = none := by
  cases hTime : log.writtenAt s.next with
  | none => rfl
  | some time =>
      rcases hTraced.written s.next time hTime with
        ⟨key, value, pc, hProc, _⟩
      rw [hTraced.numbered.procs s.next (le_refl _)] at hProc
      cases hProc

theorem traced_step
    (hTraced : s.Traced log)
    (h : s.step cfg a = some s') :
    s'.Traced (s.recordTrace a log) := by
  refine ⟨numbered_step hTraced.numbered h, ?_, ?_, ?_, ?_,
    ?_, ?_⟩
  · intro writer time hTime
    rcases writtenAt_cases hTime with
      hOld | ⟨_, fault, origin, key, value, rfl, hProc⟩
    · rcases hTraced.written writer time hOld with
        ⟨key, value, pc, hProc, hPc⟩
      rcases hTraced.set_keep h hProc (Or.inl hPc) with
        ⟨pc', hNew, hPc'⟩
      exact ⟨key, value, pc', hNew, hPc'⟩
    · rcases hTraced.set_keep h hProc
          (Or.inr ⟨fault, origin, rfl⟩) with
        ⟨pc', hNew, hPc'⟩
      exact ⟨key, value, pc', hNew, hPc'⟩
  · intro writer key value pc hProc hPc
    rcases step_setProc h hProc with
      hOld | hFirst | ⟨fault, origin, old, rfl, hOld⟩
    · exact
        hTraced.isSome_keep
          (hTraced.dated writer key value pc hOld hPc)
    · exact absurd hFirst hPc
    · have hWriter :
          s.writer log (.run writer fault origin) =
            some writer := by
        simp [ManagerSystem.writer, hOld, Proc.writer]
      exact hTraced.writer_dated hWriter
  · intro key writer hTag
    rcases WriterLog.tag_cases hTag with
      ⟨hOld, _⟩ | ⟨hWriter, _⟩
    · exact hTraced.isSome_keep (hTraced.l1 key writer hOld)
    · exact hTraced.writer_dated hWriter
  · intro key writer hTag
    rcases WriterLog.tag_cases hTag with
      ⟨hOld, _⟩ | ⟨hWriter, _⟩
    · exact hTraced.isSome_keep (hTraced.l2 key writer hOld)
    · exact hTraced.writer_dated hWriter
  · intro id writer hCarried
    rcases carried_cases hCarried with
      hOld | ⟨_, _, key, _, pc, _, _, hLearned⟩
    · exact hTraced.isSome_keep (hTraced.carried id writer hOld)
    · exact
        hTraced.isSome_keep (hTraced.learned_dated hLearned)
  · intro id key start pc hProc
    rcases step_getProc h hProc with
      hOld | ⟨rfl, _, rfl, _⟩ | ⟨_, _, pc', rfl, hOld, _⟩
    · exact
        le_trans (hTraced.started id key start pc hOld)
          (step_tiers h).clock
    · exact (step_tiers h).clock
    · exact
        le_trans (hTraced.started id key start pc' hOld)
          (step_tiers h).clock

end ManagerSystem

end CacheServer

------------------------------------------------------------
-- Values That Expire In Time
------------------------------------------------------------

namespace CacheServer

namespace ManagerSystem

/-
  A `Get` that has no value to return, or is to find that
  its entry is over by then.
-/
def Spent
    (limit : Int)
    (pc : GetPc) :
    Prop :=
  pc.carried = none ∨
    ∃ entry, pc = .l1Check entry ∧ entry.expiresAt ≤ limit

/-
  The values of a `Set` that has written are over `lifetime`
  later, in the tiers and for each `Get` that begins then.
-/
structure Expires
    (writer : Nat)
    (lifetime : Int)
    (s : ManagerSystem)
    (log : WriterLog) :
    Prop where
  l1 :
    ∀ time key entry,
      log.writtenAt writer = some time →
        log.l1 key = some writer →
          s.l1.read key = some entry →
            entry.expiresAt ≤ time + lifetime
  l2 :
    ∀ time key obj,
      log.writtenAt writer = some time →
        log.l2 key = some writer →
          s.redis.lookup key = some obj →
            ∃ expiry ∈ obj.expiresAt, expiry ≤ time + lifetime
  gets :
    ∀ time id key start pc,
      log.writtenAt writer = some time →
        log.carried id = some writer →
          s.procs id = some (.get key start pc) →
            time + lifetime < start →
              Spent (time + lifetime) pc

variable {cfg : ManagerConfig}
variable {s s' : ManagerSystem}
variable {a : ManagerAction}
variable {log : WriterLog}
variable {w : Nat}
variable {lifetime : Int}

/- Of a `Set` that has not written there are no values. -/
theorem expires_of_unwritten
    (hNone : log.writtenAt w = none) :
    s.Expires w lifetime log := by
  constructor
  · intro time key entry hTime
    rw [hNone] at hTime
    cases hTime
  · intro time key obj hTime
    rw [hNone] at hTime
    cases hTime
  · intro time id key start pc hTime
    rw [hNone] at hTime
    cases hTime

/- A tag of a `Set` with this time is not of this step. -/
theorem Traced.writtenAt_of_some
    {time : Int}
    (hTraced : s.Traced log)
    (hSome : (log.writtenAt w).isSome = true)
    (hTime : s.recordWrittenAt log a w = some time) :
    log.writtenAt w = some time := by
  rcases Option.isSome_iff_exists.mp hSome with ⟨old, hOld⟩
  rw [hTraced.writtenAt_keep hOld] at hTime
  rw [hOld, hTime]

theorem expires_l1_step
    (hTraced : s.Traced log)
    (hExpires : s.Expires w lifetime log)
    (hInTime :
      s.writer log a = some w →
        s.StoredInTime cfg w lifetime log a)
    (h : s.step cfg a = some s')
    {time : Int}
    {key : Key}
    {entry : L1Entry}
    (hTime : s.recordWrittenAt log a w = some time)
    (hTag :
      WriterLog.tag log.l1 (s.writer log a) (s.l1Write a)
          key =
        some w)
    (hRead : s'.l1.read key = some entry) :
    entry.expiresAt ≤ time + lifetime := by
  rcases WriterLog.tag_cases hTag with
    ⟨hOld, hNe⟩ | ⟨hWriter, value, hWrite⟩
  · have hTimeOld :=
      hTraced.writtenAt_of_some (hTraced.l1 key w hOld) hTime
    rcases step_read h key with
      hSame | hNone | ⟨value, hWrite, _⟩
    · rw [hSame] at hRead
      exact hExpires.l1 time key entry hTimeOld hOld hRead
    · rw [hNone] at hRead
      cases hRead
    · exact absurd hWrite (hNe _)
  · have hEnd := (hInTime hWriter).1 _ hWrite (by simp)
    rw [hTraced.written_getD hTime] at hEnd
    rw [step_read_of_write h hWrite] at hRead
    cases hRead
    exact hEnd

theorem expires_l2_step
    (hTraced : s.Traced log)
    (hExpires : s.Expires w lifetime log)
    (hInTime :
      s.writer log a = some w →
        s.StoredInTime cfg w lifetime log a)
    (h : s.step cfg a = some s')
    {time : Int}
    {key : Key}
    {obj : RedisObj}
    (hTime : s.recordWrittenAt log a w = some time)
    (hTag :
      WriterLog.tag log.l2 (s.writer log a) (s.l2Write a)
          key =
        some w)
    (hLookup : s'.redis.lookup key = some obj) :
    ∃ expiry ∈ obj.expiresAt, expiry ≤ time + lifetime := by
  rcases WriterLog.tag_cases hTag with
    ⟨hOld, hNe⟩ | ⟨hWriter, value, hWrite⟩
  · have hTimeOld :=
      hTraced.writtenAt_of_some (hTraced.l2 key w hOld) hTime
    rw [step_lookup_of_ne h hNe] at hLookup
    exact hExpires.l2 time key obj hTimeOld hOld hLookup
  · have hEnd := (hInTime hWriter).2 _ hWrite (by simp)
    rw [hTraced.written_getD hTime] at hEnd
    rw [step_lookup_of_write h hWrite] at hLookup
    cases hLookup
    exact hEnd

/- A late `Get` learns no value that is over by then. -/
theorem Expires.moved
    {time : Int}
    {id : Nat}
    {key : Key}
    {start : Int}
    {cancelled : Bool}
    {fault : Fault}
    {origin : OriginReply}
    {pc pc' : GetPc}
    {t : Shared}
    (hExpires : s.Expires w lifetime log)
    (hTime : log.writtenAt w = some time)
    (hLate : time + lifetime < start)
    (hStarted : start ≤ s.clock)
    (hProc : s.procs id = some (.get key start pc))
    (hLearned :
      log.learned key (log.carried id) pc = some w)
    (hRun :
      pc.run cfg s.shared
        { id := id, key := key, start := start
          cancelled := cancelled } fault origin =
        some (t, pc')) :
    Spent (time + lifetime) pc' := by
  have hNext := GetPc.run_next hRun
  cases hCarried : pc'.carried with
  | none => exact Or.inl hCarried
  | some value =>
      rcases GetPc.next_carried hNext hCarried with
        hKept | hLearns
      · have hOwn : log.carried id = some w := by
          rcases WriterLog.learned_cases hLearned with
            ⟨rfl, _⟩ | ⟨rfl, _⟩ | ⟨hOwn, _⟩
          · cases hKept
          · cases hKept
          · exact hOwn
        rcases hExpires.gets time id key start pc hTime hOwn
            hProc hLate with hNone | ⟨entry, rfl, hOver⟩
        · rw [hNone] at hKept
          cases hKept
        · cases hNext with
          | l1Expired hExpired => cases hCarried
          | l1Fresh hFresh =>
              have hNotOver : ¬ entry.expiresAt < s.clock :=
                of_decide_eq_false hFresh
              omega
      · cases hLearns with
        | l1 hRead hValue =>
            have hOver :=
              hExpires.l1 time key _ hTime hLearned hRead
            cases hNext with
            | l1None hNone =>
                rw [hRead] at hNone
                cases hNone
            | l1Some hSome =>
                rw [hRead] at hSome
                cases hSome
                exact Or.inr ⟨_, rfl, hOver⟩
        | l2 hHit =>
            rcases L2Cache.get_eq_hit hHit with
              ⟨obj, hLookup, hFresh, _⟩
            rcases hExpires.l2 time key obj hTime hLearned
                hLookup with ⟨expiry, hMem, hOver⟩
            simp only [RedisObj.expired,
              Option.mem_def.mp hMem] at hFresh
            have hNotOver : ¬ expiry < s.clock :=
              of_decide_eq_false hFresh
            omega
        | joined hDone hValue => cases hLearned
        | origin hOrigin => cases hLearned

theorem expires_gets_step
    (hTraced : s.Traced log)
    (hExpires : s.Expires w lifetime log)
    (h : s.step cfg a = some s')
    {time : Int}
    {id : Nat}
    {key : Key}
    {start : Int}
    {pc' : GetPc}
    (hTime : s.recordWrittenAt log a w = some time)
    (hCarried : s.recordCarried log a id = some w)
    (hProc : s'.procs id = some (.get key start pc'))
    (hLate : time + lifetime < start) :
    Spent (time + lifetime) pc' := by
  rcases step_getProc h hProc with
    hOld | ⟨_, _, _, rfl⟩ |
      ⟨fault, origin, pc, rfl, hOld, hRun⟩
  · rcases carried_cases hCarried with
      hOwn | ⟨fault, origin, k, begun, pc, rfl, hSame,
        hLearned⟩
    · have hTimeOld :=
        hTraced.writtenAt_of_some (hTraced.carried id w hOwn)
          hTime
      exact
        hExpires.gets time id key start pc' hTimeOld hOwn hOld
          hLate
    · rw [hOld] at hSame
      cases hSame
      rcases step_run_self h hOld with ⟨p, hNew, hRun⟩
      rcases Proc.run_get hRun with ⟨pc, rfl, hPc⟩
      rw [hProc] at hNew
      cases hNew
      have hTimeOld :=
        hTraced.writtenAt_of_some
          (hTraced.learned_dated hLearned) hTime
      exact
        hExpires.moved hTimeOld hLate
          (hTraced.started id key start pc' hOld) hOld
          hLearned hPc
  · exact Or.inl rfl
  · have hLearned :
        log.learned key (log.carried id) pc = some w := by
      simpa [recordCarried, hOld, Proc.carries] using hCarried
    have hTimeOld :=
      hTraced.writtenAt_of_some
        (hTraced.learned_dated hLearned) hTime
    exact
      hExpires.moved hTimeOld hLate
        (hTraced.started id key start pc hOld) hOld hLearned
        hRun

/- Values stored in time stay so in every step. -/
theorem expires_step
    (hTraced : s.Traced log)
    (hExpires : s.Expires w lifetime log)
    (hInTime :
      s.writer log a = some w →
        s.StoredInTime cfg w lifetime log a)
    (h : s.step cfg a = some s') :
    s'.Expires w lifetime (s.recordTrace a log) :=
  ⟨fun _ _ _ hTime hTag hRead =>
      expires_l1_step hTraced hExpires hInTime h hTime hTag
        hRead,
    fun _ _ _ hTime hTag hLookup =>
      expires_l2_step hTraced hExpires hInTime h hTime hTag
        hLookup,
    fun _ _ _ _ _ hTime hCarried hProc hLate =>
      expires_gets_step hTraced hExpires h hTime hCarried hProc
        hLate⟩

/- No late `Get` has returned such a value. -/
theorem Expires.not_returned
    {time : Int}
    {id : Nat}
    {key : Key}
    {start : Int}
    {value : Value}
    (hExpires : s.Expires w lifetime log)
    (hTime : log.writtenAt w = some time)
    (hCarried : log.carried id = some w)
    (hProc :
      s.procs id =
        some (.get key start (.done (.ok value)))) :
    start ≤ time + lifetime := by
  by_contra hEarly
  rcases hExpires.gets time id key start _ hTime hCarried
      hProc (not_le.mp hEarly) with hNone | ⟨_, hPc, _⟩
  · cases hNone
  · cases hPc

end ManagerSystem

end CacheServer
