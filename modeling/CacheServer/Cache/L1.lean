import CacheServer.Basic
import CacheServer.Lib.CyclicScan
import Mathlib.Logic.Function.Basic

/-
  The in-process cache of `internal/cache/l1.go`.

  Each critical section of the source is one function here:
  `read` and `lazyDelete` are the two sections of
  `L1Cache.Get`, `set` and `delete` the only section of
  `L1Cache.Set` and `L1Cache.Delete`.

  Key definitions include:
    * `CacheServer.L1Shard.evictOne`
    * `CacheServer.L1Shard.set`
    * `CacheServer.newL1`
    * `CacheServer.L1Cache.read`
    * `CacheServer.L1Cache.set`
    * `CacheServer.L1Cache.get`

  Key theorems include:
    * `CacheServer.L1Cache.read_set_self`
    * `CacheServer.L1Cache.read_set_ne`
    * `CacheServer.L1Cache.read_delete_self`
-/

------------------------------------------------------------
-- Entries And Shards
------------------------------------------------------------

namespace CacheServer

structure L1Entry where
  value : Value
  expiresAt : Int
deriving DecidableEq, Repr

/- `now.After(entry.expiresAt)`. -/
def L1Entry.expired
    (entry : L1Entry)
    (now : Int) :
    Bool :=
  decide (entry.expiresAt < now)

/- The shard's lock is the atomicity of the operations. -/
structure L1Shard where
  items : Table Key L1Entry
  maxSize : Nat
  evictIdx : Nat
  keys : List Key

namespace L1Shard

/- The slot and key that `evictOne` stops at. -/
def victim?
    (shard : L1Shard) :
    Option (Nat × Key) :=
  CyclicScan.find (fun key => decide (key ∈ shard.items))
    shard.keys shard.evictIdx

/-
  Remove the first live key met from `evictIdx` on, going
  once around `keys`.
-/
def evictOne
    (shard : L1Shard) :
    L1Shard :=
  match shard.victim? with
  | none => shard
  | some (idx, key) =>
      { shard with
        items := shard.items.erase key
        evictIdx := (idx + 1) % shard.keys.length }

/- `len(shard.items) >= shard.maxSize`. -/
def Full
    (shard : L1Shard) :
    Prop :=
  shard.maxSize ≤ shard.items.len

instance
    (shard : L1Shard) :
    Decidable shard.Full := by
  unfold Full
  infer_instance

/- Make room for an absent key in a full shard. -/
def makeRoom
    (shard : L1Shard)
    (key : Key) :
    L1Shard :=
  if shard.Full then
    if key ∈ shard.items then shard else shard.evictOne
  else
    shard

/- Store an entry; an absent key also gets a slot in `keys`. -/
def store
    (shard : L1Shard)
    (key : Key)
    (entry : L1Entry) :
    L1Shard :=
  { shard with
    keys :=
      if key ∈ shard.items then
        shard.keys
      else
        shard.keys ++ [key]
    items := shard.items.insert key entry }

def set
    (shard : L1Shard)
    (key : Key)
    (entry : L1Entry) :
    L1Shard :=
  (shard.makeRoom key).store key entry

def delete
    (shard : L1Shard)
    (key : Key) :
    L1Shard :=
  { shard with items := shard.items.erase key }

end L1Shard

end CacheServer

------------------------------------------------------------
-- The Sharded Cache
------------------------------------------------------------

namespace CacheServer

def numShards : Nat := 256

/- A cache with one shard for each hash residue. -/
structure L1Cache where
  shards : Fin numShards → L1Shard
  ttl : Int

/- Go's `/` on integers truncates towards zero. -/
def newL1
    (maxSize : Int)
    (ttl : Int) :
    L1Cache :=
  let quotient := maxSize.tdiv numShards
  let perShard := if quotient < 64 then 64 else quotient
  { ttl := ttl
    shards := fun _ =>
      { items := ∅
        maxSize := perShard.toNat
        evictIdx := 0
        keys := [] } }

/- The FNV-1a hash of a key. -/
def fnv1a
    (key : Key) :
    UInt32 :=
  key.foldl (fun h b => (h ^^^ b.toUInt32) * 16777619)
    2166136261

/- The index of the shard `getShard` returns. -/
def shardIdx
    (key : Key) :
    Fin numShards :=
  ⟨(fnv1a key).toNat % numShards, Nat.mod_lt _ (by decide)⟩

namespace L1Cache

def getShard
    (c : L1Cache)
    (key : Key) :
    L1Shard :=
  c.shards (shardIdx key)

/- Replace the shard of a key. -/
def modifyShard
    (c : L1Cache)
    (key : Key)
    (f : L1Shard → L1Shard) :
    L1Cache :=
  { c with
    shards :=
      Function.update c.shards (shardIdx key)
        (f (c.getShard key)) }

/- The read section of `Get`. -/
def read
    (c : L1Cache)
    (key : Key) :
    Option L1Entry :=
  (c.getShard key).items.lookup key

/- The lazy-delete section of `Get`: it deletes by key. -/
def lazyDelete
    (c : L1Cache)
    (key : Key) :
    L1Cache :=
  c.modifyShard key (fun shard => shard.delete key)

/- `Set`; the clock is read under the lock. -/
def set
    (c : L1Cache)
    (now : Int)
    (key : Key)
    (value : Value) :
    L1Cache :=
  c.modifyShard key
    (fun shard =>
      shard.set key
        { value := value, expiresAt := now + c.ttl })

def delete
    (c : L1Cache)
    (key : Key) :
    L1Cache :=
  c.modifyShard key (fun shard => shard.delete key)

/- `Get` when nothing runs between its two sections. -/
def get
    (c : L1Cache)
    (now : Int)
    (key : Key) :
    Option Value × L1Cache :=
  match c.read key with
  | none => (none, c)
  | some entry =>
      if entry.expired now then
        (none, c.lazyDelete key)
      else
        (some entry.value, c)

/- The entries of the first `n` shards, as `Stats` adds them. -/
def statsUpTo
    (c : L1Cache) :
    Nat → Nat
| 0 => 0
| n + 1 =>
    c.statsUpTo n +
      if h : n < numShards then
        (c.shards ⟨n, h⟩).items.len
      else
        0

/- `Stats` when nothing runs between its sections. -/
def stats
    (c : L1Cache) :
    Nat :=
  c.statsUpTo numShards

end L1Cache

end CacheServer

------------------------------------------------------------
-- Eviction
------------------------------------------------------------

namespace CacheServer

namespace L1Shard

/- The victim is a live key that has the slot found. -/
theorem victim?_spec
    {shard : L1Shard}
    {idx : Nat}
    {key : Key}
    (h : shard.victim? = some (idx, key)) :
    shard.keys[idx]? = some key ∧ key ∈ shard.items := by
  have hSound := CyclicScan.find_sound h
  exact ⟨hSound.1, of_decide_eq_true hSound.2⟩

@[simp] theorem evictOne_of_none
    {shard : L1Shard}
    (h : shard.victim? = none) :
    shard.evictOne = shard := by
  simp [evictOne, h]

theorem evictOne_of_some
    {shard : L1Shard}
    {idx : Nat}
    {key : Key}
    (h : shard.victim? = some (idx, key)) :
    shard.evictOne =
      { shard with
        items := shard.items.erase key
        evictIdx := (idx + 1) % shard.keys.length } := by
  simp [evictOne, h]

@[simp] theorem evictOne_keys
    (shard : L1Shard) :
    shard.evictOne.keys = shard.keys := by
  cases h : shard.victim? with
  | none => rw [evictOne_of_none h]
  | some r => rw [evictOne_of_some h]

@[simp] theorem evictOne_maxSize
    (shard : L1Shard) :
    shard.evictOne.maxSize = shard.maxSize := by
  cases h : shard.victim? with
  | none => rw [evictOne_of_none h]
  | some r => rw [evictOne_of_some h]

/- Eviction removes its victim and keeps every other entry. -/
theorem evictOne_lookup
    (shard : L1Shard)
    (key : Key) :
    shard.evictOne.items.lookup key =
        shard.items.lookup key ∨
      ((∃ idx, shard.victim? = some (idx, key)) ∧
        shard.evictOne.items.lookup key = none) := by
  cases h : shard.victim? with
  | none =>
      rw [evictOne_of_none h]
      exact Or.inl rfl
  | some r =>
      rw [evictOne_of_some h]
      by_cases hEq : key = r.2
      · subst hEq
        exact
          Or.inr ⟨⟨r.1, rfl⟩, AList.lookup_erase _ _⟩
      · exact Or.inl (AList.lookup_erase_ne hEq)

theorem makeRoom_of_mem
    {shard : L1Shard}
    {key : Key}
    (h : key ∈ shard.items) :
    shard.makeRoom key = shard := by
  simp [makeRoom, h]

theorem makeRoom_of_not_full
    {shard : L1Shard}
    {key : Key}
    (h : ¬ shard.Full) :
    shard.makeRoom key = shard := by
  simp [makeRoom, h]

theorem makeRoom_of_full
    {shard : L1Shard}
    {key : Key}
    (hFull : shard.Full)
    (hAbsent : key ∉ shard.items) :
    shard.makeRoom key = shard.evictOne := by
  simp [makeRoom, hFull, hAbsent]

/- Room is made by evicting for an absent key, or not at all. -/
theorem makeRoom_cases
    (shard : L1Shard)
    (key : Key) :
    shard.makeRoom key = shard ∨
      (shard.Full ∧ key ∉ shard.items ∧
        shard.makeRoom key = shard.evictOne) := by
  by_cases hMem : key ∈ shard.items
  · exact Or.inl (makeRoom_of_mem hMem)
  · by_cases hFull : shard.Full
    · exact
        Or.inr ⟨hFull, hMem, makeRoom_of_full hFull hMem⟩
    · exact Or.inl (makeRoom_of_not_full hFull)

@[simp] theorem set_maxSize
    (shard : L1Shard)
    (key : Key)
    (entry : L1Entry) :
    (shard.set key entry).maxSize = shard.maxSize := by
  rcases shard.makeRoom_cases key with h | ⟨_, _, h⟩
  · simp [set, store, h]
  · simp [set, store, h]

@[simp] theorem set_lookup_self
    (shard : L1Shard)
    (key : Key)
    (entry : L1Entry) :
    (shard.set key entry).items.lookup key = some entry := by
  simp [set, store]

/-
  `key`, absent from a full shard, makes a `Set` evict
  `other`.
-/
def Evicts
    (shard : L1Shard)
    (key other : Key) :
    Prop :=
  shard.Full ∧ key ∉ shard.items ∧
    ∃ idx, shard.victim? = some (idx, other)

/- A `Set` leaves another key's entry alone or evicts it. -/
theorem set_lookup_ne
    (shard : L1Shard)
    {key other : Key}
    (entry : L1Entry)
    (hNe : other ≠ key) :
    (shard.set key entry).items.lookup other =
        shard.items.lookup other ∨
      (shard.Evicts key other ∧
        (shard.set key entry).items.lookup other =
          none) := by
  have hStore :
      (shard.set key entry).items.lookup other =
        (shard.makeRoom key).items.lookup other := by
    simp [set, store, AList.lookup_insert_ne hNe]
  rw [hStore]
  rcases shard.makeRoom_cases key with h | ⟨hF, hA, h⟩
  · rw [h]
    exact Or.inl rfl
  · rw [h]
    rcases shard.evictOne_lookup other with hKeep | hGone
    · exact Or.inl hKeep
    · exact Or.inr ⟨⟨hF, hA, hGone.1⟩, hGone.2⟩

end L1Shard

end CacheServer

------------------------------------------------------------
-- What The Sections Do To Each Key
------------------------------------------------------------

namespace CacheServer

namespace L1Cache

/- Both sections delete by key. -/
theorem lazyDelete_eq_delete
    (c : L1Cache)
    (key : Key) :
    c.lazyDelete key = c.delete key := rfl

/- A key in another shard does not see the change. -/
theorem read_modifyShard_of_ne
    (c : L1Cache)
    {key other : Key}
    (f : L1Shard → L1Shard)
    (hNe : shardIdx other ≠ shardIdx key) :
    (c.modifyShard key f).read other = c.read other := by
  simp [modifyShard, read, getShard, hNe]

/- A key in the same shard is read from the new shard. -/
theorem read_modifyShard_of_eq
    (c : L1Cache)
    {key other : Key}
    (f : L1Shard → L1Shard)
    (hEq : shardIdx other = shardIdx key) :
    (c.modifyShard key f).read other =
      (f (c.getShard key)).items.lookup other := by
  simp [modifyShard, read, getShard, hEq]

@[simp] theorem read_set_self
    (c : L1Cache)
    (now : Int)
    (key : Key)
    (value : Value) :
    (c.set now key value).read key =
      some { value := value, expiresAt := now + c.ttl } := by
  rw [set, read_modifyShard_of_eq c _ rfl]
  simp

/- Setting a key leaves another's entry alone or evicts it. -/
theorem read_set_ne
    (c : L1Cache)
    (now : Int)
    {key other : Key}
    (value : Value)
    (hNe : other ≠ key) :
    (c.set now key value).read other = c.read other ∨
      ((c.getShard key).Evicts key other ∧
        (c.set now key value).read other = none) := by
  unfold set
  by_cases hIdx : shardIdx other = shardIdx key
  · rw [read_modifyShard_of_eq c _ hIdx]
    have hRead :
        c.read other =
          (c.getShard key).items.lookup other := by
      simp [read, getShard, hIdx]
    rw [hRead]
    exact (c.getShard key).set_lookup_ne _ hNe
  · exact Or.inl (read_modifyShard_of_ne c _ hIdx)

@[simp] theorem read_delete_self
    (c : L1Cache)
    (key : Key) :
    (c.delete key).read key = none := by
  rw [delete, read_modifyShard_of_eq c _ rfl]
  exact AList.lookup_erase _ _

theorem read_delete_ne
    (c : L1Cache)
    {key other : Key}
    (hNe : other ≠ key) :
    (c.delete key).read other = c.read other := by
  unfold delete
  by_cases hIdx : shardIdx other = shardIdx key
  · rw [read_modifyShard_of_eq c _ hIdx]
    simp [L1Shard.delete, read, getShard, hIdx,
      AList.lookup_erase_ne hNe]
  · exact read_modifyShard_of_ne c _ hIdx

/- A set of any key gives another one its old entry or none. -/
theorem read_set_ne_or_none
    (c : L1Cache)
    (now : Int)
    {key other : Key}
    (value : Value)
    (hNe : other ≠ key) :
    (c.set now key value).read other = c.read other ∨
      (c.set now key value).read other = none := by
  rcases c.read_set_ne now value hNe with h | h
  · exact Or.inl h
  · exact Or.inr h.2

/- No entry appears by deleting. -/
theorem read_delete_or_none
    (c : L1Cache)
    (key other : Key) :
    (c.delete key).read other = c.read other ∨
      (c.delete key).read other = none := by
  by_cases hEq : other = key
  · subst hEq
    exact Or.inr (read_delete_self c other)
  · exact Or.inl (read_delete_ne c hEq)

end L1Cache

end CacheServer
