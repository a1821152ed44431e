import CacheServer.Cache.L1Sections

/-
  Removal of unexpired entries from the L1 cache.

  The lazy delete of `Get` runs in a later critical section
  than the read it acts on, and deletes by key. An entry
  stored under the key in between is removed although it has
  not expired.

  Key definitions include:
    * `CacheServer.L1System.FreshEntryLaw`
    * `CacheServer.L1System.LazyDeleteSafe`

  Key theorems include:
    * `CacheServer.L1System.pendingExpired_step`
    * `CacheServer.l1_fresh_entries_kept`
    * `CacheServer.l1_fresh_entry_lost`
-/

------------------------------------------------------------
-- The Law And Its Condition
------------------------------------------------------------

namespace CacheServer

namespace L1System

/- The removals of `key` that the cache is meant to make. -/
def MayRemove
    (s : L1System)
    (a : L1Action)
    (key : Key) :
    Prop :=
  a = .delete key ∨
    (∃ value, a = .set key value) ∨
    (∃ other value,
      a = .set other value ∧
        (s.cache.getShard other).Evicts other key)

/-
  An unexpired entry that this step takes out of the cache
  leaves by a `Delete` or a `Set` of its key, or is evicted
  for an absent key in a full shard.
-/
def FreshEntryLaw
    (s : L1System)
    (a : L1Action) :
    Prop :=
  ∀ s' key entry,
    s.step a = some s' →
      s.cache.read key = some entry →
        entry.expired s.clock = false →
          s'.cache.read key ≠ some entry →
            s.MayRemove a key

/- The key and the entry of the lazy delete that runs next. -/
def pendingDelete
    (s : L1System) :
    L1Action → Option (Key × L1Entry)
| .getLazyDelete call =>
    match s.gets call with
    | some (.lazyDelete key entry) => some (key, entry)
    | _ => none
| _ => none

/-
  A lazy delete finds no entry under its key, or the very
  entry that its `Get` read before.
-/
def LazyDeleteSafe
    (s : L1System)
    (a : L1Action) :
    Prop :=
  ∀ p ∈ s.pendingDelete a,
    s.cache.read p.1 = none ∨ s.cache.read p.1 = some p.2

instance
    (s : L1System)
    (a : L1Action) :
    Decidable (s.LazyDeleteSafe a) := by
  unfold LazyDeleteSafe
  infer_instance

end L1System

end CacheServer

------------------------------------------------------------
-- Entries Under A Pending Lazy Delete
------------------------------------------------------------

namespace CacheServer

namespace L1System

/- Every pending lazy delete was decided on an expired entry. -/
def PendingExpired
    (s : L1System) :
    Prop :=
  ∀ call key entry,
    s.gets call = some (.lazyDelete key entry) →
      entry.expired s.clock = true

/- An expired entry stays expired. -/
theorem expired_of_le
    {entry : L1Entry}
    {now later : Int}
    (hLe : now ≤ later)
    (h : entry.expired now = true) :
    entry.expired later = true := by
  have hLt : entry.expiresAt < now := of_decide_eq_true h
  exact decide_eq_true (by omega)

theorem pendingExpired_putGet
    {s : L1System}
    {call : Nat}
    {state : L1GetState}
    (hPending : s.PendingExpired)
    (hState :
      ∀ key entry,
        state = .lazyDelete key entry →
          entry.expired s.clock = true) :
    (s.putGet call state).PendingExpired := by
  intro other key entry h
  by_cases hEq : other = call
  · subst hEq
    apply hState key entry
    simpa [putGet] using h
  · apply hPending other key entry
    simpa [putGet, hEq] using h

theorem pendingExpired_step
    {s s' : L1System}
    {a : L1Action}
    (hPending : s.PendingExpired)
    (h : s.step a = some s') :
    s'.PendingExpired := by
  cases a with
  | getRead call key =>
      rcases (getRead_eq h).2 with ⟨_, rfl⟩ | ⟨_, _, rfl⟩
      · apply pendingExpired_putGet hPending
        intro key' entry hEq
        cases hEq
      · apply pendingExpired_putGet hPending
        intro key' entry hEq
        cases hEq
  | getCheck call =>
      rcases getCheck_eq h with
        ⟨key, entry, _, ⟨hExp, rfl⟩ | ⟨_, rfl⟩⟩
      · apply pendingExpired_putGet hPending
        intro key' entry' hEq
        cases hEq
        exact hExp
      · apply pendingExpired_putGet hPending
        intro key' entry' hEq
        cases hEq
  | getLazyDelete call =>
      rcases getLazyDelete_eq h with ⟨key, _, _, rfl⟩
      have hPut :
          (s.putGet call
            (.done key none)).PendingExpired := by
        apply pendingExpired_putGet hPending
        intro key' entry' hEq
        cases hEq
      exact hPut
  | set key value =>
      simp only [step, Option.some.injEq] at h
      subst h
      exact hPending
  | delete key =>
      simp only [step, Option.some.injEq] at h
      subst h
      exact hPending
  | statsCall call =>
      simp only [step] at h
      cases hCall : s.stats call with
      | some state =>
          simp [hCall] at h
      | none =>
          simp only [hCall, Option.some.injEq] at h
          subst h
          exact hPending
  | statsRead call =>
      rcases statsRead_eq h with ⟨_, _, _, rfl⟩
      exact hPending
  | tick elapsed =>
      simp only [step, Option.some.injEq] at h
      subst h
      intro call key entry hCall
      have hOld := hPending call key entry hCall
      exact expired_of_le (by simp) hOld

/- A safe step removes unexpired entries by the law only. -/
theorem freshEntryLaw_of_safe
    {s : L1System}
    {a : L1Action}
    (hPending : s.PendingExpired)
    (hSafe : s.LazyDeleteSafe a) :
    s.FreshEntryLaw a := by
  intro s' key entry hStep hRead hFresh hGone
  rcases step_cache hStep with hSame | hSet | hDelete | hLazy
  · rw [hSame, hRead] at hGone
    exact absurd rfl hGone
  · rcases hSet with ⟨other, value, rfl, hCache⟩
    by_cases hEq : key = other
    · exact Or.inr (Or.inl ⟨value, by rw [hEq]⟩)
    · apply Or.inr
      apply Or.inr
      refine ⟨other, value, rfl, ?_⟩
      rcases s.cache.read_set_ne s.clock value hEq with
        hKeep | hEvict
      · rw [hCache, hKeep, hRead] at hGone
        exact absurd rfl hGone
      · exact hEvict.1
  · rcases hDelete with ⟨other, rfl, hCache⟩
    by_cases hEq : key = other
    · exact Or.inl (by rw [hEq])
    · rw [hCache, s.cache.read_delete_ne hEq, hRead] at hGone
      exact absurd rfl hGone
  · rcases hLazy with ⟨call, other, old, rfl, hCall, hCache⟩
    rw [hCache, L1Cache.lazyDelete_eq_delete] at hGone
    by_cases hEq : key = other
    · subst hEq
      -- The entry read is expired, so it is not the one here.
      have hOld := hPending call key old hCall
      have hNow :
          s.cache.read key = none ∨
            s.cache.read key = some old :=
        hSafe (key, old) (by simp [pendingDelete, hCall])
      rw [hRead] at hNow
      rcases hNow with hNone | hSame
      · cases hNone
      · cases hSame
        rw [hFresh] at hOld
        cases hOld
    · rw [s.cache.read_delete_ne hEq, hRead] at hGone
      exact absurd rfl hGone

end L1System

end CacheServer

------------------------------------------------------------
-- The Law Over Whole Runs
------------------------------------------------------------

namespace CacheServer

open L1System

/-
  In every interleaving whose lazy deletes are safe, every
  step obeys the law.
-/
theorem l1_fresh_entries_kept
    (maxSize : Int)
    (ttl : Int)
    (clock : Int)
    (actions : List L1Action)
    (hSafe :
      l1Machine.Along LazyDeleteSafe
        (L1System.new maxSize ttl clock) actions) :
    l1Machine.Along FreshEntryLaw
      (L1System.new maxSize ttl clock) actions := by
  refine
    Machine.along_of_invariant (I := PendingExpired)
      ?_ ?_ hSafe ?_
  · intro s a s' hPending _hSafe hStep
    exact pendingExpired_step hPending hStep
  · intro s a hPending hSafeStep
    exact freshEntryLaw_of_safe hPending hSafeStep
  · intro call key entry h
    cases h

/- A lazy delete with no `Set` in the gap. -/
theorem l1_fresh_entries_kept_quiet_gap :
    l1Machine.Along FreshEntryLaw (L1System.new 1000 5 0)
      [.set [1] [7], .tick 10, .getRead 0 [1],
        .getCheck 0, .getLazyDelete 0] :=
  l1_fresh_entries_kept 1000 5 0 _ (by decide)

/-
  A `Set` between the read and the lazy delete of a `Get`
  loses the entry it stored.
-/
theorem l1_fresh_entry_lost :
    ¬ l1Machine.Along FreshEntryLaw (L1System.new 1000 5 0)
      [.set [1] [7], .tick 10, .getRead 0 [1],
        .getCheck 0, .set [1] [8], .getLazyDelete 0] := by
  intro h
  have hRun :=
    Machine.exec_get
      (show
        (l1Machine.exec (L1System.new 1000 5 0)
          [.set [1] [7], .tick 10, .getRead 0 [1],
            .getCheck 0, .set [1] [8]]).isSome = true
        from rfl)
  have hLast := ((Machine.along_append hRun).mp h).2.1
  have hRemove :=
    hLast _ [1] { value := [8], expiresAt := 15 } rfl rfl
      (by decide) (by decide)
  rcases hRemove with h | ⟨_, h⟩ | ⟨_, _, h, _⟩
  · cases h
  · cases h
  · cases h

end CacheServer
