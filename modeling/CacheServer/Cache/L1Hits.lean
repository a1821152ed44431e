import CacheServer.Cache.L1Sections
import CacheServer.Lib.LossyCopy

/-
  What a hit of the L1 cache tells about the past.

  Beside the cache runs a map that keeps the last write of
  every key with its time, and knows nothing of shards,
  eviction or lazy deletes. The cache is a lossy copy of it:
  an entry that `Get` reads is the last write of its key,
  and it is answered within its lifetime.

  Key definitions include:
    * `CacheServer.L1Writes`
    * `CacheServer.l1Recorded`
    * `CacheServer.L1Cache.written`

  Key theorems include:
    * `CacheServer.L1System.refines_step`
    * `CacheServer.l1_hit_sound`
-/

------------------------------------------------------------
-- The Last Write Of Every Key
------------------------------------------------------------

namespace CacheServer

/-
  The value and the time of the last `Set` of a key; nothing
  if there was none or a `Delete` of the key came after it.
-/
abbrev L1Writes :=
  Key → Option (Value × Int)

/- The map takes the writes of the cache. -/
def L1System.recordWrite
    (s : L1System)
    (a : L1Action)
    (writes : L1Writes) :
    L1Writes :=
  match a with
  | .set key value =>
      Function.update writes key (some (value, s.clock))
  | .delete key => Function.update writes key none
  | _ => writes

/- The interleavings of L1 calls, with their last writes. -/
def l1Recorded : Machine (L1System × L1Writes) L1Action :=
  l1Machine.withHistory L1System.recordWrite

/- What the cache tells of the last write of a key. -/
def L1Cache.written
    (c : L1Cache)
    (key : Key) :
    Option (Value × Int) :=
  (c.read key).map
    (fun entry => (entry.value, entry.expiresAt - c.ttl))

theorem l1Recorded_step
    {s s' : L1System × L1Writes}
    {a : L1Action}
    (h : l1Recorded.step s a = some s') :
    s.1.step a = some s'.1 ∧
      s'.2 = s.1.recordWrite a s.2 :=
  Machine.withHistory_step.mp h

end CacheServer

------------------------------------------------------------
-- The Cache Is A Lossy Copy
------------------------------------------------------------

namespace CacheServer

namespace L1Cache

/- A `Set` stores its value and may evict another key. -/
theorem written_set
    (c : L1Cache)
    (now : Int)
    (key : Key)
    (value : Value) :
    LossyCopy.Stores c.written (c.set now key value).written
      key (value, now) := by
  have hTtl : (c.set now key value).ttl = c.ttl := rfl
  constructor
  · simp [written, hTtl]
  · intro other hNe
    rcases c.read_set_ne_or_none now value hNe with h | h
    · exact Or.inl (by simp [written, hTtl, h])
    · exact Or.inr (by simp [written, h])

/- A delete of a key, by any section, only loses entries. -/
theorem written_delete
    (c : L1Cache)
    (key : Key) :
    LossyCopy.Shrinks c.written (c.delete key).written := by
  have hTtl : (c.delete key).ttl = c.ttl := rfl
  intro other
  rcases c.read_delete_or_none key other with h | h
  · exact Or.inl (by simp [written, hTtl, h])
  · exact Or.inr (by simp [written, h])

theorem written_delete_self
    (c : L1Cache)
    (key : Key) :
    (c.delete key).written key = none := by
  simp [written]

end L1Cache

namespace L1System

/- The cache holds only last writes. -/
def Refines
    (s : L1System × L1Writes) :
    Prop :=
  LossyCopy s.1.cache.written s.2

theorem step_ttl
    {s s' : L1System}
    {a : L1Action}
    (h : s.step a = some s') :
    s'.cache.ttl = s.cache.ttl := by
  rcases step_cache h with hSame | hSet | hDelete | hLazy
  · rw [hSame]
  · rcases hSet with ⟨key, value, _, hCache⟩
    rw [hCache]
    rfl
  · rcases hDelete with ⟨key, _, hCache⟩
    rw [hCache]
    rfl
  · rcases hLazy with ⟨_, key, _, _, _, hCache⟩
    rw [hCache]
    rfl

/- A step that is no `Set` only loses entries. -/
theorem step_shrinks
    {s s' : L1System}
    {a : L1Action}
    (h : s.step a = some s')
    (hNoSet : ∀ key value, a ≠ .set key value) :
    LossyCopy.Shrinks s.cache.written s'.cache.written := by
  rcases step_cache h with hSame | hSet | hDelete | hLazy
  · rw [hSame]
    exact LossyCopy.Shrinks.refl _
  · rcases hSet with ⟨key, value, hEq, _⟩
    exact absurd hEq (hNoSet key value)
  · rcases hDelete with ⟨key, _, hCache⟩
    rw [hCache]
    exact s.cache.written_delete key
  · rcases hLazy with ⟨_, key, _, _, _, hCache⟩
    rw [hCache]
    exact s.cache.written_delete key

/- Every section keeps the cache a copy of the last writes. -/
theorem refines_step
    {s s' : L1System × L1Writes}
    {a : L1Action}
    (hRefines : Refines s)
    (h : l1Recorded.step s a = some s') :
    Refines s' := by
  rcases l1Recorded_step h with ⟨hStep, hWrites⟩
  unfold Refines
  rw [hWrites]
  cases a with
  | set key value =>
      rw [← Option.some.inj hStep]
      exact
        hRefines.put
          (s.1.cache.written_set s.1.clock key value)
  | delete key =>
      rw [← Option.some.inj hStep]
      exact
        hRefines.drop (s.1.cache.written_delete key)
          (s.1.cache.written_delete_self key)
  | _ => exact hRefines.shrink (step_shrinks hStep (by simp))

theorem refines_exec
    {s s' : L1System × L1Writes}
    {actions : List L1Action}
    (hRun : l1Recorded.exec s actions = some s')
    (hInit : Refines s) :
    Refines s' :=
  Machine.exec_invariant (I := Refines)
    (fun _ _ _ hI hStep => refines_step hI hStep) hRun hInit

theorem refines_new
    (maxSize : Int)
    (ttl : Int)
    (clock : Int) :
    Refines
      (L1System.new maxSize ttl clock, fun _ => none) :=
  LossyCopy.empty _

end L1System

end CacheServer

------------------------------------------------------------
-- Between The Read And The Expiry Test
------------------------------------------------------------

namespace CacheServer

namespace L1System

/- The call has read `entry` under `key`, if it has to test. -/
def HasRead
    (call : Nat)
    (key : Key)
    (entry : Option L1Entry)
    (s : L1System) :
    Prop :=
  s.gets call ≠ none ∧
    ∀ key' entry',
      s.gets call = some (.check key' entry') →
        key' = key ∧ entry = some entry'

/- No section of another call touches what a call has read. -/
theorem step_gets
    {s s' : L1System}
    {a : L1Action}
    {call : Nat}
    (h : s.step a = some s')
    (hCall : s.gets call ≠ none) :
    s'.gets call = s.gets call ∨
      (s'.gets call ≠ none ∧
        ∀ key entry,
          s'.gets call ≠ some (.check key entry)) := by
  have hPut :
      ∀ (other : Nat) (state : L1GetState),
        (∀ key entry, state ≠ .check key entry) ∨
            other ≠ call →
          (s.putGet other state).gets call = s.gets call ∨
            ((s.putGet other state).gets call ≠ none ∧
              ∀ key entry,
                (s.putGet other state).gets call ≠
                  some (.check key entry)) := by
    intro other state hState
    by_cases hEq : call = other
    · subst hEq
      rcases hState with hNot | hNe
      · apply Or.inr
        simpa [putGet] using hNot
      · exact absurd rfl hNe
    · exact Or.inl (by simp [putGet, hEq])
  cases a with
  | getRead other key =>
      rcases getRead_eq h with ⟨hNew, hCases⟩
      have hNe : other ≠ call := by
        intro hEq
        subst hEq
        exact hCall hNew
      rcases hCases with ⟨_, rfl⟩ | ⟨_, _, rfl⟩
      · exact hPut other _ (Or.inr hNe)
      · exact hPut other _ (Or.inr hNe)
  | getCheck other =>
      rcases getCheck_eq h with
        ⟨_, _, _, ⟨_, rfl⟩ | ⟨_, rfl⟩⟩
      · exact hPut other _ (Or.inl (by simp))
      · exact hPut other _ (Or.inl (by simp))
  | getLazyDelete other =>
      rcases getLazyDelete_eq h with ⟨_, _, _, rfl⟩
      exact hPut other _ (Or.inl (by simp))
  | set key value =>
      rw [← Option.some.inj h]
      exact Or.inl rfl
  | delete key =>
      rw [← Option.some.inj h]
      exact Or.inl rfl
  | statsCall other =>
      simp only [step] at h
      cases hStats : s.stats other with
      | some state =>
          simp [hStats] at h
      | none =>
          simp only [hStats, Option.some.injEq] at h
          rw [← h]
          exact Or.inl rfl
  | statsRead other =>
      rcases statsRead_eq h with ⟨_, _, _, rfl⟩
      exact Or.inl rfl
  | tick elapsed =>
      rw [← Option.some.inj h]
      exact Or.inl rfl

theorem hasRead_step
    {s s' : L1System}
    {a : L1Action}
    {call : Nat}
    {key : Key}
    {entry : Option L1Entry}
    (hRead : s.HasRead call key entry)
    (h : s.step a = some s') :
    s'.HasRead call key entry := by
  rcases step_gets h hRead.1 with hSame | ⟨hSome, hNot⟩
  · unfold HasRead
    rw [hSame]
    exact hRead
  · exact
      ⟨hSome, fun key' entry' hCheck =>
        absurd hCheck (hNot key' entry')⟩

/- The read section starts it. -/
theorem hasRead_getRead
    {s s' : L1System}
    {call : Nat}
    {key : Key}
    (h : s.step (.getRead call key) = some s') :
    s'.HasRead call key (s.cache.read key) := by
  rcases (getRead_eq h).2 with
    ⟨_, rfl⟩ | ⟨entry, hEntry, rfl⟩
  · simp [HasRead, putGet]
  · refine ⟨by simp [putGet], ?_⟩
    intro key' entry' hCheck
    simp only [putGet, Function.update_self,
      Option.some.injEq, L1GetState.check.injEq] at hCheck
    exact ⟨hCheck.1.symm, by rw [hEntry, hCheck.2]⟩

/- A hit is the value that was read, and has not expired. -/
theorem getCheck_hit
    {s s' : L1System}
    {call : Nat}
    {key : Key}
    {value : Value}
    (h : s.step (.getCheck call) = some s')
    (hHit : s'.gets call = some (.done key (some value))) :
    ∃ entry,
      s.gets call = some (.check key entry) ∧
        entry.value = value ∧
          s.clock ≤ entry.expiresAt := by
  rcases getCheck_eq h with
    ⟨key', entry, hCall, ⟨_, rfl⟩ | ⟨hFresh, rfl⟩⟩
  · simp [putGet] at hHit
  · simp only [putGet, Function.update_self,
      Option.some.injEq, L1GetState.done.injEq] at hHit
    rcases hHit with ⟨rfl, hValue⟩
    refine ⟨entry, hCall, hValue, ?_⟩
    exact not_lt.mp (of_decide_eq_false hFresh)

end L1System

end CacheServer

------------------------------------------------------------
-- Hits Are Sound
------------------------------------------------------------

namespace CacheServer

open L1System

/-
  A `Get` reads in one section and tests in a later one, with
  any sections of other calls before, between and around. If
  it hits, its value is the last write of its key before the
  read, and it is no older at the test than the TTL allows.
-/
theorem l1_hit_sound
    (maxSize : Int)
    (ttl : Int)
    (clock : Int)
    (before : List L1Action)
    (between : List L1Action)
    (call : Nat)
    (key : Key)
    (found : Key)
    (value : Value)
    (atRead : L1System × L1Writes)
    (reading : L1System × L1Writes)
    (atTest : L1System × L1Writes)
    (tested : L1System × L1Writes)
    (hBefore :
      l1Recorded.exec
        (L1System.new maxSize ttl clock, fun _ => none)
        before = some atRead)
    (hRead :
      l1Recorded.step atRead (.getRead call key) =
        some reading)
    (hBetween :
      l1Recorded.exec reading between = some atTest)
    (hTest :
      l1Recorded.step atTest (.getCheck call) = some tested)
    (hHit :
      tested.1.gets call = some (.done found (some value))) :
    found = key ∧
      ∃ writtenAt,
        atRead.2 key = some (value, writtenAt) ∧
          atTest.1.clock ≤ writtenAt + ttl := by
  rcases getCheck_hit (l1Recorded_step hTest).1 hHit with
    ⟨entry, hCall, rfl, hFresh⟩
  have hHasRead :
      atTest.1.HasRead call key (atRead.1.cache.read key) :=
    Machine.exec_invariant
      (I := HasRead call key (atRead.1.cache.read key))
      (fun _ _ _ hI hStep => hasRead_step hI hStep)
      (Machine.exec_of_withHistory hBetween)
      (hasRead_getRead (l1Recorded_step hRead).1)
  rcases hHasRead.2 found entry hCall with ⟨rfl, hEntry⟩
  have hTtl : atRead.1.cache.ttl = ttl :=
    Machine.exec_invariant
      (I := fun t => t.cache.ttl = ttl)
      (fun _ _ _ hI hStep => (step_ttl hStep).trans hI)
      (Machine.exec_of_withHistory hBefore) rfl
  have hWritten :
      atRead.1.cache.written found =
        some (entry.value, entry.expiresAt - ttl) := by
    simp [L1Cache.written, hEntry, hTtl]
  refine ⟨rfl, entry.expiresAt - ttl, ?_, by omega⟩
  exact
    refines_exec hBefore (refines_new maxSize ttl clock)
      found _ hWritten

/-
  A `Get` that hits although the key is deleted and set again
  before its test.
-/
theorem l1_hit_sound_overtaken :
    ∃ atRead reading atTest tested : L1System × L1Writes,
      l1Recorded.exec
          (L1System.new 1000 5 2, fun _ => none)
          [.set [1] [7], .tick 1] = some atRead ∧
        l1Recorded.step atRead (.getRead 0 [1]) =
          some reading ∧
        l1Recorded.exec reading
            [.delete [1], .set [1] [8], .tick 3] =
          some atTest ∧
        l1Recorded.step atTest (.getCheck 0) = some tested ∧
        ∃ writtenAt,
          atRead.2 [1] = some ([7], writtenAt) ∧
            atTest.1.clock ≤ writtenAt + 5 :=
  have hBefore := Machine.exec_get rfl
  have hRead := (Option.some_get rfl).symm
  have hBetween := Machine.exec_get rfl
  have hTest := (Option.some_get rfl).symm
  ⟨_, _, _, _, hBefore, hRead, hBetween, hTest,
    (l1_hit_sound 1000 5 2 _ _ 0 [1] [1] [7] _ _ _ _
      hBefore hRead hBetween hTest rfl).2⟩

end CacheServer
