import CacheServer.Cache.L1Limit

/-
  The slots of a shard.

  `keys` gets a slot whenever an absent key is set, and loses
  none. So a key that left its shard and comes back has two
  slots, and a key set and deleted forever has ever more.

  Key definitions include:
    * `CacheServer.L1Shard.RingHolds`
    * `CacheServer.L1System.InsertsNew`
    * `CacheServer.L1System.churn`

  Key theorems include:
    * `CacheServer.L1Shard.RingHolds.set_iff`
    * `CacheServer.L1System.ringsHold_step_iff`
    * `CacheServer.l1_ring_iff`
-/

------------------------------------------------------------
-- The Ring
------------------------------------------------------------

namespace CacheServer

namespace L1Shard

/- Every live key has one slot, and there are few slots. -/
structure RingHolds
    (bound : Nat → Nat)
    (shard : L1Shard) :
    Prop where
  once : ∀ key ∈ shard.items, shard.keys.count key = 1
  few : shard.keys.length ≤ bound shard.maxSize

/- A key that is inserted has no slot, and there is room. -/
def InsertsNew
    (bound : Nat → Nat)
    (shard : L1Shard)
    (key : Key) :
    Prop :=
  key ∉ shard.items →
    key ∉ shard.keys ∧
      shard.keys.length < bound shard.maxSize

instance
    (bound : Nat → Nat)
    (shard : L1Shard)
    (key : Key) :
    Decidable (shard.InsertsNew bound key) :=
  inferInstanceAs (Decidable (_ → _ ∧ _))

variable {bound : Nat → Nat}
variable {shard : L1Shard}
variable {key : Key}

@[simp] theorem makeRoom_keys
    (shard : L1Shard)
    (key : Key) :
    (shard.makeRoom key).keys = shard.keys := by
  rcases shard.makeRoom_cases key with h | ⟨_, _, h⟩
  · rw [h]
  · rw [h, evictOne_keys]

@[simp] theorem makeRoom_maxSize
    (shard : L1Shard)
    (key : Key) :
    (shard.makeRoom key).maxSize = shard.maxSize := by
  rcases shard.makeRoom_cases key with h | ⟨_, _, h⟩
  · rw [h]
  · rw [h, evictOne_maxSize]

/- An eviction brings no key in. -/
theorem mem_of_mem_makeRoom
    {other : Key}
    (hMem : other ∈ (shard.makeRoom key).items) :
    other ∈ shard.items := by
  rcases shard.makeRoom_cases key with h | ⟨_, _, h⟩
  · rwa [h] at hMem
  · rw [h] at hMem
    rcases Table.exists_lookup_of_mem hMem with ⟨e, hLookup⟩
    rcases shard.evictOne_lookup other with hKeep | hGone
    · rw [hKeep] at hLookup
      exact Table.mem_of_lookup hLookup
    · rw [hGone.2] at hLookup
      cases hLookup

theorem set_keys_of_mem
    (entry : L1Entry)
    (hMem : key ∈ shard.items) :
    (shard.set key entry).keys = shard.keys := by
  simp [L1Shard.set, store, makeRoom_of_mem hMem, hMem]

theorem set_keys_of_notMem
    (entry : L1Entry)
    (hAbsent : key ∉ shard.items) :
    (shard.set key entry).keys = shard.keys ++ [key] := by
  simp [L1Shard.set, store, notMem_makeRoom hAbsent]

/- What is live after a `Set` was live, or is the key set. -/
theorem mem_of_mem_set
    {entry : L1Entry}
    {other : Key}
    (hMem : other ∈ (shard.set key entry).items) :
    other = key ∨ other ∈ (shard.makeRoom key).items := by
  simpa [L1Shard.set, store] using hMem

/- A `Set` of a live key brings no key in. -/
theorem mem_of_mem_set_of_mem
    {entry : L1Entry}
    {other : Key}
    (hMem : key ∈ shard.items)
    (hOther : other ∈ (shard.set key entry).items) :
    other ∈ shard.items := by
  rcases mem_of_mem_set hOther with rfl | hOld
  · exact hMem
  · exact mem_of_mem_makeRoom hOld

theorem RingHolds.delete
    (hRing : shard.RingHolds bound)
    (key : Key) :
    (shard.delete key).RingHolds bound := by
  refine ⟨?_, hRing.few⟩
  intro other hMem
  exact hRing.once other (AList.mem_erase.mp hMem).2

/- A `Set` keeps the ring exactly if it inserts a new key. -/
theorem RingHolds.set_iff
    (hRing : shard.RingHolds bound)
    (key : Key)
    (entry : L1Entry) :
    (shard.set key entry).RingHolds bound ↔
      shard.InsertsNew bound key := by
  by_cases hMem : key ∈ shard.items
  · refine
      iff_of_true ⟨?_, ?_⟩ (fun hAbsent => absurd hMem hAbsent)
    · intro other hOther
      rw [set_keys_of_mem entry hMem]
      rcases mem_of_mem_set hOther with rfl | hOld
      · exact hRing.once other hMem
      · exact hRing.once other (mem_of_mem_makeRoom hOld)
    · rw [set_keys_of_mem entry hMem, set_maxSize]
      exact hRing.few
  · have hKeys := set_keys_of_notMem entry hMem
    constructor
    · intro h _
      have hSelf : key ∈ (shard.set key entry).items :=
        Table.mem_of_lookup (set_lookup_self shard key entry)
      have hOnce := h.once key hSelf
      have hFew := h.few
      rw [hKeys, List.count_append, List.count_singleton_self]
        at hOnce
      rw [hKeys, set_maxSize, List.length_append,
        List.length_singleton] at hFew
      exact ⟨List.count_eq_zero.mp (by omega), by omega⟩
    · intro hNew
      rcases hNew hMem with ⟨hNoSlot, hRoom⟩
      constructor
      · intro other hOther
        rw [hKeys, List.count_append]
        by_cases hEq : other = key
        · subst hEq
          rw [List.count_singleton_self,
            List.count_eq_zero.mpr hNoSlot]
        · rcases mem_of_mem_set hOther with hSame | hOld
          · exact absurd hSame hEq
          · rw [hRing.once other (mem_of_mem_makeRoom hOld),
              List.count_singleton]
            simp [Ne.symm hEq]
      · rw [hKeys, set_maxSize, List.length_append,
          List.length_singleton]
        omega

end L1Shard

namespace L1System

/- Every shard's ring holds. -/
def RingsHold
    (bound : Nat → Nat)
    (s : L1System) :
    Prop :=
  ∀ i, (s.cache.shards i).RingHolds bound

/- A `Set` inserts a new key, if it inserts one. -/
def InsertsNew
    (bound : Nat → Nat)
    (s : L1System) :
    L1Action → Prop
| .set key _ =>
    (s.cache.getShard key).InsertsNew bound key
| _ => True

instance
    (bound : Nat → Nat)
    (s : L1System) :
    DecidablePred (s.InsertsNew bound)
| .set key _ =>
    inferInstanceAs
      (Decidable
        ((s.cache.getShard key).InsertsNew bound key))
| .getRead _ _ => .isTrue trivial
| .getCheck _ => .isTrue trivial
| .getLazyDelete _ => .isTrue trivial
| .delete _ => .isTrue trivial
| .statsCall _ => .isTrue trivial
| .statsRead _ => .isTrue trivial
| .tick _ => .isTrue trivial

/- A shard other than that of the key is left alone. -/
theorem shards_modifyShard_self
    (c : L1Cache)
    (key : Key)
    (f : L1Shard → L1Shard) :
    (c.modifyShard key f).shards (shardIdx key) =
      f (c.getShard key) := by
  simp [L1Cache.modifyShard, L1Cache.getShard]

theorem shards_modifyShard_ne
    (c : L1Cache)
    {key : Key}
    {i : Fin numShards}
    (f : L1Shard → L1Shard)
    (hNe : i ≠ shardIdx key) :
    (c.modifyShard key f).shards i = c.shards i := by
  simp [L1Cache.modifyShard, hNe]

/- A `Set` changes the shard of its key. -/
theorem step_set
    {s s' : L1System}
    {key : Key}
    {value : Value}
    (h : s.step (.set key value) = some s') :
    (∃ entry,
      s'.cache.shards (shardIdx key) =
        (s.cache.getShard key).set key entry) ∧
      ∀ i,
        i ≠ shardIdx key →
          s'.cache.shards i = s.cache.shards i := by
  simp only [step, Option.some.injEq] at h
  subst h
  constructor
  · exact
      ⟨{ value := value, expiresAt := s.clock + s.cache.ttl },
        shards_modifyShard_self s.cache key
          (fun shard => shard.set key _)⟩
  · intro i hNe
    exact
      shards_modifyShard_ne s.cache
        (fun shard => shard.set key _) hNe

/- A section that is no `Set` deletes a key, if anything. -/
theorem step_of_ne_set
    {s s' : L1System}
    {a : L1Action}
    (h : s.step a = some s')
    (hNoSet : ∀ key value, a ≠ .set key value)
    (i : Fin numShards) :
    s'.cache.shards i = s.cache.shards i ∨
      ∃ key,
        s'.cache.shards i =
          (s.cache.shards i).delete key := by
  rcases step_cache h with
    hSame | ⟨key, value, hA, _⟩ | ⟨key, _, hDelete⟩ |
      ⟨_, key, _, _, _, hLazy⟩
  · rw [hSame]
    exact Or.inl rfl
  · exact absurd hA (hNoSet key value)
  · rw [hDelete]
    rcases shards_modifyShard s.cache key _ i with hI | hI
    · exact Or.inl hI
    · exact Or.inr ⟨key, hI⟩
  · rw [hLazy]
    rcases shards_modifyShard s.cache key _ i with hI | hI
    · exact Or.inl hI
    · exact Or.inr ⟨key, hI⟩

/- What a section is to one shard: its `Set`, or no `Set`. -/
theorem step_shard_cases
    {s s' : L1System}
    {a : L1Action}
    (h : s.step a = some s')
    (i : Fin numShards) :
    (∃ key value entry,
      a = .set key value ∧ shardIdx key = i ∧
        s'.cache.shards i =
          (s.cache.getShard key).set key entry) ∨
      (∃ key value,
        a = .set key value ∧ i ≠ shardIdx key ∧
          s'.cache.shards i = s.cache.shards i) ∨
      ((∀ key value, a ≠ .set key value) ∧
        (s'.cache.shards i = s.cache.shards i ∨
          ∃ key,
            s'.cache.shards i =
              (s.cache.shards i).delete key)) := by
  by_cases hSet : ∃ key value, a = .set key value
  · rcases hSet with ⟨key, value, rfl⟩
    rcases step_set h with ⟨⟨entry, hSelf⟩, hOthers⟩
    by_cases hEq : i = shardIdx key
    · subst hEq
      exact Or.inl ⟨key, value, entry, rfl, rfl, hSelf⟩
    · exact
        Or.inr
          (Or.inl ⟨key, value, rfl, hEq, hOthers i hEq⟩)
  · have hNoSet : ∀ key value, a ≠ .set key value := by
      intro key value hA
      exact hSet ⟨key, value, hA⟩
    exact
      Or.inr (Or.inr ⟨hNoSet, step_of_ne_set h hNoSet i⟩)

/- A section that is no `Set` keeps the rings. -/
theorem RingsHold.of_ne_set
    {bound : Nat → Nat}
    {s s' : L1System}
    {a : L1Action}
    (hRings : s.RingsHold bound)
    (h : s.step a = some s')
    (hNoSet : ∀ key value, a ≠ .set key value) :
    s'.RingsHold bound := by
  intro i
  rcases step_of_ne_set h hNoSet i with hSame | ⟨key, hDelete⟩
  · rw [hSame]
    exact hRings i
  · rw [hDelete]
    exact (hRings i).delete key

/- Exactly the steps that insert new keys keep the rings. -/
theorem ringsHold_step_iff
    {bound : Nat → Nat}
    {s s' : L1System}
    {a : L1Action}
    (hRings : s.RingsHold bound)
    (h : s.step a = some s') :
    s'.RingsHold bound ↔ s.InsertsNew bound a := by
  cases a with
  | set key value =>
      rcases step_set h with ⟨⟨entry, hSelf⟩, hOthers⟩
      have hIff := (hRings (shardIdx key)).set_iff key entry
      change s'.RingsHold bound ↔
        (s.cache.shards (shardIdx key)).InsertsNew bound key
      rw [← hIff]
      constructor
      · intro hNext
        have hKept := hNext (shardIdx key)
        rwa [hSelf] at hKept
      · intro hKept i
        by_cases hEq : i = shardIdx key
        · subst hEq
          rw [hSelf]
          exact hKept
        · rw [hOthers i hEq]
          exact hRings i
  | _ =>
      refine iff_of_true (hRings.of_ne_set h ?_) trivial
      intro key value hEq
      cases hEq

end L1System

/-
  In every run, each live key has exactly one slot and each
  shard few slots throughout exactly if every `Set` of an
  absent key finds no slot of that key left over, and room.
-/
theorem l1_ring_iff
    (bound : Nat → Nat)
    (maxSize : Int)
    (ttl : Int)
    (clock : Int)
    (actions : List L1Action)
    (s : L1System)
    (hRun :
      l1Machine.exec (L1System.new maxSize ttl clock)
        actions = some s) :
    l1Machine.Always (L1System.RingsHold bound)
        (L1System.new maxSize ttl clock) actions ↔
      l1Machine.Along (L1System.InsertsNew bound)
        (L1System.new maxSize ttl clock) actions := by
  refine Machine.always_iff_along ?_ hRun ?_
  · intro t a t' hRings hStep
    exact L1System.ringsHold_step_iff hRings hStep
  · intro i
    refine ⟨fun key hMem => ?_, Nat.zero_le _⟩
    exact absurd hMem (AList.notMem_empty key)

/-
  A key is set twice and deleted, and another comes new. If
  the first one came again it would have two slots.
-/
theorem l1_ring_two_keys :
    l1Machine.Always (L1System.RingsHold (fun _ => 2))
        (L1System.new 0 5 0)
        [.set [1] [7], .set [1] [8], .delete [1],
          .set [2] [9]] ∧
      ¬ l1Machine.Always (L1System.RingsHold (fun _ => 2))
        (L1System.new 0 5 0)
        [.set [1] [7], .set [1] [8], .delete [1],
          .set [1] [9]] := by
  constructor
  · exact
      (l1_ring_iff (fun _ => 2) 0 5 0 _ _
        (Machine.exec_get rfl)).mpr (by decide)
  · intro h
    exact
      absurd
        ((l1_ring_iff (fun _ => 2) 0 5 0 _ _
          (Machine.exec_get rfl)).mp h)
        (by decide)

end CacheServer

------------------------------------------------------------
-- Slots Without Bound
------------------------------------------------------------

namespace CacheServer

namespace L1System

/- `n` times a `Set` and a `Delete` of one key. -/
def churn
    (key : Key) :
    Nat → List L1Action
| 0 => []
| n + 1 => .set key [] :: .delete key :: churn key n

/- Each round leaves a slot behind and no entry. -/
theorem exec_churn
    (key : Key)
    (n : Nat)
    {s : L1System}
    (hAbsent : key ∉ (s.cache.getShard key).items) :
    ∃ s',
      l1Machine.exec s (churn key n) = some s' ∧
        (s'.cache.getShard key).keys =
          (s.cache.getShard key).keys ++
            List.replicate n key := by
  induction n generalizing s with
  | zero => exact ⟨s, rfl, by simp⟩
  | succ n ih =>
      let c := s.cache.set s.clock key []
      have hSet :
          (c.getShard key).keys =
            (s.cache.getShard key).keys ++ [key] := by
        unfold L1Cache.getShard
        rw [show c = s.cache.modifyShard key _ from rfl,
          shards_modifyShard_self]
        exact L1Shard.set_keys_of_notMem _ hAbsent
      have hDelete :
          (c.delete key).getShard key =
            (c.getShard key).delete key := by
        rw [L1Cache.getShard, L1Cache.delete,
          shards_modifyShard_self]
      have hGone :
          key ∉ ((c.delete key).getShard key).items := by
        rw [hDelete, L1Shard.delete, AList.mem_erase]
        exact fun h => h.1 rfl
      rcases ih (s := { s with cache := c.delete key })
        hGone with ⟨s', hRest, hKeys⟩
      refine ⟨s', ?_, ?_⟩
      · exact
          Machine.exec_cons.mpr
            ⟨{ s with cache := c }, rfl,
              Machine.exec_cons.mpr ⟨_, rfl, hRest⟩⟩
      · rw [hKeys, hDelete, L1Shard.delete, hSet,
          List.replicate_succ, List.append_assoc]
        rfl

end L1System

/-
  No bound by `maxSize` holds: the slots of one key can be
  any number. And a key that comes back has two slots.
-/
theorem l1_ring_grows :
    (¬ ∃ bound : Nat → Nat,
      ∀ maxSize ttl clock actions s,
        l1Machine.exec (L1System.new maxSize ttl clock)
            actions =
          some s →
          ∀ i,
            (s.cache.shards i).keys.length ≤
              bound (s.cache.shards i).maxSize) ∧
      ¬ ∀ maxSize ttl clock actions s,
        l1Machine.exec (L1System.new maxSize ttl clock)
            actions =
          some s →
          ∀ i, ∀ key ∈ (s.cache.shards i).items,
            (s.cache.shards i).keys.count key = 1 := by
  constructor
  · intro h
    rcases h with ⟨bound, hBound⟩
    rcases L1System.exec_churn [1] (bound 64 + 1)
      (s := L1System.new 0 5 0) (AList.notMem_empty _) with
      ⟨s, hRun, hKeys⟩
    have hLe := hBound 0 5 0 _ s hRun (shardIdx [1])
    have hSize :=
      (l1_shards_bounded hRun (shardIdx [1])).maxSize_eq
    have hCap : (perShardCap 0).toNat = 64 := rfl
    rw [hSize, hCap] at hLe
    change (s.cache.getShard [1]).keys.length ≤ _ at hLe
    rw [hKeys, List.length_append, List.length_replicate]
      at hLe
    omega
  · intro h
    have hOnce :=
      h 0 5 0 [.set [1] [7], .delete [1], .set [1] [8]] _
        (Machine.exec_get rfl) (shardIdx [1]) [1] (by decide)
    revert hOnce
    decide

end CacheServer
