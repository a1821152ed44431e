import CacheServer.Basic
import CacheServer.Lib.Machine

/-
  The in-memory asset cache of
  `internal/binaryhandler/handler.go`.

  `set` evicts the oldest entries until the new one fits the
  byte budget. Every round of its loop ranges over the map,
  and Go leaves the order of a range open: a `MapOrder` is
  one choice of the order for every round.

  Key definitions include:
    * `CacheServer.AssetCache.oldestKey`
    * `CacheServer.AssetCache.evictLoop`
    * `CacheServer.AssetCache.set`
    * `CacheServer.assetCacheMachine`

  Key theorems include:
    * `CacheServer.AssetCache.oldestKey_spec`
    * `CacheServer.AssetCache.evictLoop_invariant`
    * `CacheServer.AssetCache.evictLoop_isSome`
-/

------------------------------------------------------------
-- Assets And Map Orders
------------------------------------------------------------

namespace CacheServer

structure CachedAsset where
  data : Bytes
  contentType : Bytes
  size : Int
  cachedAt : Int
deriving DecidableEq, Repr

/- `int64(len(asset.data))`. -/
def CachedAsset.len
    (asset : CachedAsset) :
    Int :=
  asset.data.length

theorem CachedAsset.len_nonneg
    (asset : CachedAsset) :
    0 ≤ asset.len :=
  Int.natCast_nonneg _

/- An entry of the `items` map. -/
abbrev AssetItem :=
  Sigma (fun _ : Key => CachedAsset)

/- The order in which each round ranges over the map. -/
structure MapOrder where
  visit : Nat → List AssetItem → List AssetItem
  perm : ∀ round items, (visit round items).Perm items

/- Every round visits the entries as they are stored. -/
def MapOrder.stored : MapOrder :=
  { visit := fun _ items => items
    perm := fun _ items => List.Perm.refl items }

structure AssetCache where
  items : Table Key CachedAsset
  maxBytes : Int
  curBytes : Int
  hits : Nat
  misses : Nat

def newAssetCache
    (maxBytes : Int) :
    AssetCache :=
  { items := ∅
    maxBytes := maxBytes
    curBytes := 0
    hits := 0
    misses := 0 }

end CacheServer

------------------------------------------------------------
-- Operations
------------------------------------------------------------

namespace CacheServer

namespace AssetCache

def get
    (c : AssetCache)
    (key : Key) :
    Option CachedAsset × AssetCache :=
  match c.items.lookup key with
  | some item => (some item, { c with hits := c.hits + 1 })
  | none => (none, { c with misses := c.misses + 1 })

/-
  The body of the range loop: the empty key marks that no
  candidate has been seen.
-/
def oldestStep
    (oldest : Key × Int)
    (item : AssetItem) :
    Key × Int :=
  if oldest.1 = [] ∨ item.2.cachedAt < oldest.2 then
    (item.1, item.2.cachedAt)
  else
    oldest

/- The `oldestKey` a range over the visited items ends with. -/
def oldestKey
    (visited : List AssetItem) :
    Key :=
  (visited.foldl oldestStep ([], 0)).1

/- Delete the entry of a key and give its bytes back. -/
def drop
    (c : AssetCache)
    (key : Key) :
    AssetCache :=
  match c.items.lookup key with
  | some item =>
      { c with
        curBytes := c.curBytes - item.len
        items := c.items.erase key }
  | none => c

/- One round of the eviction loop. -/
def evictOldest
    (c : AssetCache)
    (visited : List AssetItem) :
    AssetCache :=
  if oldestKey visited = [] then
    c
  else
    c.drop (oldestKey visited)

/- The condition of the eviction loop. -/
def OverBudget
    (c : AssetCache)
    (newSize : Int) :
    Prop :=
  c.maxBytes < c.curBytes + newSize ∧ 0 < c.items.len

instance
    (c : AssetCache)
    (newSize : Int) :
    Decidable (c.OverBudget newSize) := by
  unfold OverBudget
  infer_instance

/-
  The eviction loop from round `round` on, given up after
  `fuel` more rounds.
-/
def evictLoop
    (order : MapOrder)
    (newSize : Int) :
    Nat → Nat → AssetCache → Option AssetCache
| _, 0, c =>
    if c.OverBudget newSize then none else some c
| round, fuel + 1, c =>
    if c.OverBudget newSize then
      evictLoop order newSize (round + 1) fuel
        (c.evictOldest (order.visit round c.items.entries))
    else
      some c

/- Take the size of the entry to be overwritten off. -/
def forget
    (c : AssetCache)
    (key : Key) :
    AssetCache :=
  match c.items.lookup key with
  | some old => { c with curBytes := c.curBytes - old.len }
  | none => c

/- Insert an entry and count its bytes. -/
def put
    (c : AssetCache)
    (key : Key)
    (asset : CachedAsset) :
    AssetCache :=
  { c with
    items := c.items.insert key asset
    curBytes := c.curBytes + asset.len }

/-
  `set`. The loop gets as many rounds as there are entries:
  a round removes one unless it picks the empty key, and
  `evictLoop_isSome` shows that without an empty key this is
  enough. `none` stands for a loop that goes on.
-/
def set
    (c : AssetCache)
    (order : MapOrder)
    (key : Key)
    (asset : CachedAsset) :
    Option AssetCache :=
  (evictLoop order asset.len 0 c.items.len
    (c.forget key)).map (fun c' => c'.put key asset)

/- `remove` drops the entry and its bytes, if there is one. -/
def remove
    (c : AssetCache)
    (key : Key) :
    AssetCache :=
  c.drop key

/- The bytes of all entries together. -/
def stored
    (c : AssetCache) :
    Int :=
  c.items.total CachedAsset.len

end AssetCache

/- The operations, each under the cache's lock. -/
inductive AssetCacheAction
| get (key : Key)
| set (order : MapOrder) (key : Key) (asset : CachedAsset)
| remove (key : Key)

/- The handlers never pass `set` the empty key. -/
def AssetCache.step
    (c : AssetCache) :
    AssetCacheAction → Option AssetCache
| .get key => some (c.get key).2
| .set order key asset =>
    if key = [] then none else c.set order key asset
| .remove key => some (c.remove key)

/- Sequences of cache operations are this machine's runs. -/
def assetCacheMachine :
    Machine AssetCache AssetCacheAction :=
  { step := AssetCache.step }

end CacheServer

------------------------------------------------------------
-- The Oldest Entry
------------------------------------------------------------

namespace CacheServer

namespace AssetCache

/- A candidate that is no older than any item seen so far. -/
def IsOldest
    (seen : List AssetItem)
    (oldest : Key × Int) :
    Prop :=
  (∃ asset,
    (⟨oldest.1, asset⟩ : AssetItem) ∈ seen ∧
      asset.cachedAt = oldest.2) ∧
    ∀ item ∈ seen, oldest.2 ≤ item.2.cachedAt

theorem isOldest_step
    {seen : List AssetItem}
    {oldest : Key × Int}
    (item : AssetItem)
    (hOldest : IsOldest seen oldest)
    (hKey : oldest.1 ≠ []) :
    IsOldest (seen ++ [item]) (oldestStep oldest item) := by
  rcases hOldest with ⟨⟨asset, hMem, hTime⟩, hLeast⟩
  by_cases hLt : item.2.cachedAt < oldest.2
  · have hStep :
        oldestStep oldest item =
          (item.1, item.2.cachedAt) := by
      simp [oldestStep, hLt]
    rw [hStep]
    refine ⟨⟨item.2, by simp, rfl⟩, ?_⟩
    intro other hOther
    rcases List.mem_append.mp hOther with hOld | hNew
    · have hLe := hLeast other hOld
      omega
    · have hEq : other = item := by simpa using hNew
      subst hEq
      exact le_refl _
  · have hStep : oldestStep oldest item = oldest := by
      simp [oldestStep, hLt, hKey]
    rw [hStep]
    refine
      ⟨⟨asset, List.mem_append_left _ hMem, hTime⟩, ?_⟩
    intro other hOther
    rcases List.mem_append.mp hOther with hOld | hNew
    · exact hLeast other hOld
    · have hEq : other = item := by simpa using hNew
      subst hEq
      omega

theorem isOldest_foldl
    {seen : List AssetItem}
    (visited : List AssetItem)
    {oldest : Key × Int}
    (hOldest : IsOldest seen oldest)
    (hKeys : ∀ item ∈ seen ++ visited, item.1 ≠ []) :
    IsOldest (seen ++ visited)
      (visited.foldl oldestStep oldest) := by
  induction visited generalizing seen oldest with
  | nil =>
      simpa using hOldest
  | cons item rest ih =>
      have hKey : oldest.1 ≠ [] := by
        rcases hOldest.1 with ⟨asset, hMem, _⟩
        exact hKeys _ (List.mem_append_left _ hMem)
      have hNext := isOldest_step item hOldest hKey
      have hAll :
          ∀ other ∈ (seen ++ [item]) ++ rest,
            other.1 ≠ [] := by
        simpa using hKeys
      have hRest := ih hNext hAll
      simpa using hRest

/-
  Without an empty key the range ends with an entry that is
  no younger than any other, whatever the order.
-/
theorem oldestKey_spec
    {visited : List AssetItem}
    (hNonempty : visited ≠ [])
    (hKeys : ∀ item ∈ visited, item.1 ≠ []) :
    ∃ asset,
      (⟨oldestKey visited, asset⟩ : AssetItem) ∈ visited ∧
        ∀ item ∈ visited,
          asset.cachedAt ≤ item.2.cachedAt := by
  cases visited with
  | nil => exact absurd rfl hNonempty
  | cons item rest =>
      have hFirst :
          IsOldest [item] (item.1, item.2.cachedAt) := by
        refine ⟨⟨item.2, by simp, rfl⟩, ?_⟩
        intro other hOther
        have hEq : other = item := by simpa using hOther
        subst hEq
        exact le_refl _
      have hAll :=
        isOldest_foldl rest hFirst (by simpa using hKeys)
      rcases hAll with ⟨⟨asset, hMem, hTime⟩, hLeast⟩
      have hKey :
          oldestKey (item :: rest) =
            (rest.foldl oldestStep
              (item.1, item.2.cachedAt)).1 := by
        simp [oldestKey, oldestStep]
      rw [hKey]
      refine ⟨asset, by simpa using hMem, ?_⟩
      intro other hOther
      rw [hTime]
      exact hLeast other (by simpa using hOther)

end AssetCache

end CacheServer

------------------------------------------------------------
-- Eviction Rounds
------------------------------------------------------------

namespace CacheServer

namespace AssetCache

/- No entry has the empty key. -/
def NoEmptyKey
    (c : AssetCache) :
    Prop :=
  ([] : Key) ∉ c.items

theorem drop_of_some
    {c : AssetCache}
    {key : Key}
    {item : CachedAsset}
    (h : c.items.lookup key = some item) :
    c.drop key =
      { c with
        curBytes := c.curBytes - item.len
        items := c.items.erase key } := by
  simp [drop, h]

theorem drop_of_none
    {c : AssetCache}
    {key : Key}
    (h : c.items.lookup key = none) :
    c.drop key = c := by
  simp [drop, h]

/- Looking a key up counts it, and keeps the entries. -/
theorem get_items
    (c : AssetCache)
    (key : Key) :
    (c.get key).2.items = c.items := by
  unfold get
  cases c.items.lookup key with
  | none => rfl
  | some item => rfl

@[simp] theorem drop_maxBytes
    (c : AssetCache)
    (key : Key) :
    (c.drop key).maxBytes = c.maxBytes := by
  cases h : c.items.lookup key with
  | none => rw [drop_of_none h]
  | some item => rw [drop_of_some h]

/- Dropping an entry keeps every other one. -/
theorem drop_lookup_ne
    (c : AssetCache)
    {key other : Key}
    (hNe : other ≠ key) :
    (c.drop key).items.lookup other =
      c.items.lookup other := by
  cases h : c.items.lookup key with
  | none => rw [drop_of_none h]
  | some item =>
      rw [drop_of_some h]
      exact AList.lookup_erase_ne hNe

@[simp] theorem drop_lookup_self
    (c : AssetCache)
    (key : Key) :
    (c.drop key).items.lookup key = none := by
  cases h : c.items.lookup key with
  | none => rw [drop_of_none h, h]
  | some item =>
      rw [drop_of_some h]
      exact AList.lookup_erase _ _

theorem drop_lookup
    (c : AssetCache)
    (key other : Key) :
    (c.drop key).items.lookup other =
        c.items.lookup other ∨
      (c.drop key).items.lookup other = none := by
  by_cases hEq : other = key
  · subst hEq
    exact Or.inr (drop_lookup_self c other)
  · exact Or.inl (drop_lookup_ne c hEq)

/- Dropping keeps what `curBytes` is off by. -/
theorem drop_stored_sub
    (c : AssetCache)
    (key : Key) :
    (c.drop key).stored - (c.drop key).curBytes =
      c.stored - c.curBytes := by
  cases h : c.items.lookup key with
  | none => rw [drop_of_none h]
  | some item =>
      rw [drop_of_some h]
      have hTotal := Table.total_erase CachedAsset.len h
      simp only [stored, hTotal]
      omega

/- A round drops an oldest entry. -/
theorem evictOldest_eq
    {c : AssetCache}
    (order : MapOrder)
    (round : Nat)
    (hKeys : c.NoEmptyKey)
    (hPos : 0 < c.items.len) :
    ∃ key asset,
      c.items.lookup key = some asset ∧
        (∀ other item,
          c.items.lookup other = some item →
            asset.cachedAt ≤ item.cachedAt) ∧
        c.evictOldest
            (order.visit round c.items.entries) =
          c.drop key := by
  let visited := order.visit round c.items.entries
  have hPerm : visited.Perm c.items.entries :=
    order.perm round c.items.entries
  have hNonempty : visited ≠ [] := by
    apply List.ne_nil_of_length_pos
    rw [hPerm.length_eq]
    exact hPos
  have hNoEmpty : ∀ item ∈ visited, item.1 ≠ [] := by
    intro item hItem hNil
    apply hKeys
    have hLookup : c.items.lookup item.1 = some item.2 :=
      AList.mem_lookup_iff.mpr (hPerm.subset hItem)
    rw [hNil] at hLookup
    exact Table.mem_of_lookup hLookup
  rcases oldestKey_spec hNonempty hNoEmpty with
    ⟨asset, hMem, hLeast⟩
  refine ⟨oldestKey visited, asset, ?_, ?_, ?_⟩
  · exact AList.mem_lookup_iff.mpr (hPerm.subset hMem)
  · intro other item hOther
    have hItem :
        (⟨other, item⟩ : AssetItem) ∈ c.items.entries :=
      AList.mem_lookup_iff.mp hOther
    exact hLeast _ (hPerm.symm.subset hItem)
  · have hKey : oldestKey visited ≠ [] :=
      hNoEmpty _ hMem
    exact if_neg hKey

theorem evictOldest_cases
    (c : AssetCache)
    (visited : List AssetItem) :
    c.evictOldest visited = c ∨
      ∃ key, c.evictOldest visited = c.drop key := by
  by_cases h : oldestKey visited = []
  · exact Or.inl (if_pos h)
  · exact Or.inr ⟨oldestKey visited, if_neg h⟩

theorem noEmptyKey_of_lookup
    {c c' : AssetCache}
    (hKeys : c.NoEmptyKey)
    (h :
      c'.items.lookup [] = c.items.lookup [] ∨
        c'.items.lookup [] = none) :
    c'.NoEmptyKey := by
  have hNone := AList.lookup_eq_none.mpr hKeys
  apply AList.lookup_eq_none.mp
  rcases h with hSame | hGone
  · rw [hSame, hNone]
  · exact hGone

theorem noEmptyKey_evictOldest
    {c : AssetCache}
    (hKeys : c.NoEmptyKey)
    (visited : List AssetItem) :
    (c.evictOldest visited).NoEmptyKey := by
  rcases c.evictOldest_cases visited with h | ⟨key, h⟩
  · rw [h]
    exact hKeys
  · rw [h]
    exact noEmptyKey_of_lookup hKeys (c.drop_lookup key [])

end AssetCache

end CacheServer

------------------------------------------------------------
-- The Eviction Loop
------------------------------------------------------------

namespace CacheServer

namespace AssetCache

/-
  What every round over budget preserves holds when the loop
  ends, and then the cache is not over budget.
-/
theorem evictLoop_invariant
    {order : MapOrder}
    {newSize : Int}
    {I : AssetCache → Prop}
    (hRound :
      ∀ c round,
        I c → c.OverBudget newSize →
          I (c.evictOldest
            (order.visit round c.items.entries)))
    {c c' : AssetCache}
    {round fuel : Nat}
    (hInit : I c)
    (hLoop :
      evictLoop order newSize round fuel c = some c') :
    I c' ∧ ¬ c'.OverBudget newSize := by
  induction fuel generalizing round c with
  | zero =>
      unfold evictLoop at hLoop
      by_cases hOver : c.OverBudget newSize
      · simp [hOver] at hLoop
      · have hEq : c = c' := by simpa [hOver] using hLoop
        subst hEq
        exact ⟨hInit, hOver⟩
  | succ fuel ih =>
      unfold evictLoop at hLoop
      by_cases hOver : c.OverBudget newSize
      · rw [if_pos hOver] at hLoop
        exact ih (hRound c round hInit hOver) hLoop
      · have hEq : c = c' := by simpa [hOver] using hLoop
        subst hEq
        exact ⟨hInit, hOver⟩

/- Without an empty key the loop ends within its rounds. -/
theorem evictLoop_isSome
    (order : MapOrder)
    (newSize : Int)
    {c : AssetCache}
    (round : Nat)
    {fuel : Nat}
    (hKeys : c.NoEmptyKey)
    (hFuel : c.items.len ≤ fuel) :
    (evictLoop order newSize round fuel c).isSome = true := by
  induction fuel generalizing round c with
  | zero =>
      have hOver : ¬ c.OverBudget newSize := by
        intro h
        have hPos := h.2
        omega
      simp [evictLoop, hOver]
  | succ fuel ih =>
      unfold evictLoop
      by_cases hOver : c.OverBudget newSize
      · rw [if_pos hOver]
        apply ih (round + 1) (noEmptyKey_evictOldest hKeys _)
        rcases evictOldest_eq order round hKeys hOver.2 with
          ⟨key, asset, hLookup, _, hDrop⟩
        have hLen :=
          Table.len_erase_of_mem
            (Table.mem_of_lookup hLookup)
        rw [hDrop, drop_of_some hLookup]
        simp only
        omega
      · rw [if_neg hOver]
        rfl

@[simp] theorem forget_items
    (c : AssetCache)
    (key : Key) :
    (c.forget key).items = c.items := by
  unfold forget
  cases c.items.lookup key with
  | none => rfl
  | some old => rfl

@[simp] theorem forget_maxBytes
    (c : AssetCache)
    (key : Key) :
    (c.forget key).maxBytes = c.maxBytes := by
  unfold forget
  cases c.items.lookup key with
  | none => rfl
  | some old => rfl

theorem forget_curBytes_of_some
    {c : AssetCache}
    {key : Key}
    {old : CachedAsset}
    (h : c.items.lookup key = some old) :
    (c.forget key).curBytes = c.curBytes - old.len := by
  simp [forget, h]

theorem forget_of_none
    {c : AssetCache}
    {key : Key}
    (h : c.items.lookup key = none) :
    c.forget key = c := by
  simp [forget, h]

/- A `set` that returns went through the loop to its insert. -/
theorem set_eq
    {c c' : AssetCache}
    {order : MapOrder}
    {key : Key}
    {asset : CachedAsset}
    (h : c.set order key asset = some c') :
    ∃ d,
      evictLoop order asset.len 0 c.items.len
          (c.forget key) = some d ∧
        c' = d.put key asset := by
  unfold set at h
  rcases Option.map_eq_some_iff.mp h with ⟨d, hLoop, hPut⟩
  exact ⟨d, hLoop, hPut.symm⟩

/- `set` returns whenever no entry has the empty key. -/
theorem set_isSome
    {c : AssetCache}
    (order : MapOrder)
    (key : Key)
    (asset : CachedAsset)
    (hKeys : c.NoEmptyKey) :
    (c.set order key asset).isSome = true := by
  have hForget : (c.forget key).NoEmptyKey := by
    unfold NoEmptyKey
    rw [forget_items]
    exact hKeys
  have hFuel :
      (c.forget key).items.len ≤ c.items.len := by
    rw [forget_items]
  have hLoop :=
    evictLoop_isSome order asset.len 0 hForget hFuel
  simpa [set] using hLoop

/- The loop only removes entries. -/
theorem evictLoop_lookup
    {order : MapOrder}
    {newSize : Int}
    {c d : AssetCache}
    {round fuel : Nat}
    (hLoop :
      evictLoop order newSize round fuel c = some d)
    (key : Key) :
    d.items.lookup key = c.items.lookup key ∨
      d.items.lookup key = none := by
  refine
    (evictLoop_invariant
      (I := fun e =>
        e.items.lookup key = c.items.lookup key ∨
          e.items.lookup key = none)
      ?_ (Or.inl rfl) hLoop).1
  intro e r hSub _
  rcases e.evictOldest_cases
      (order.visit r e.items.entries) with h | ⟨k, h⟩
  · rw [h]
    exact hSub
  · rw [h]
    rcases e.drop_lookup k key with hKeep | hGone
    · rw [hKeep]
      exact hSub
    · exact Or.inr hGone

/- A `set` stores its entry and may evict any other. -/
theorem set_lookup
    {c c' : AssetCache}
    {order : MapOrder}
    {key : Key}
    {asset : CachedAsset}
    (h : c.set order key asset = some c') :
    c'.items.lookup key = some asset ∧
      ∀ other, other ≠ key →
        c'.items.lookup other = c.items.lookup other ∨
          c'.items.lookup other = none := by
  rcases set_eq h with ⟨d, hLoop, rfl⟩
  refine ⟨AList.lookup_insert _, ?_⟩
  intro other hNe
  have hPut :
      (d.put key asset).items.lookup other =
        d.items.lookup other :=
    AList.lookup_insert_ne hNe
  have hSub := evictLoop_lookup hLoop other
  rw [forget_items] at hSub
  rw [hPut]
  exact hSub

end AssetCache

end CacheServer
