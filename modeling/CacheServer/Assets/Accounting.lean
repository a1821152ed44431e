import CacheServer.Assets.AssetCache

/-
  Byte accounting and the memory budget of the asset cache.

  `set` gives the bytes of an overwritten entry back before
  the eviction loop, but leaves the entry in the map, where
  the loop may evict it and give its bytes back once more.
  The accounting is exact as long as the loop never gets to
  the overwritten entry.

  Key definitions include:
    * `CacheServer.AssetCache.Exact`
    * `CacheServer.AssetCache.OverwriteSafe`
    * `CacheServer.AssetCache.Fits`

  Key theorems include:
    * `CacheServer.AssetCache.exact_set`
    * `CacheServer.AssetCache.exact_set_iff`
    * `CacheServer.asset_cache_accounting`
    * `CacheServer.asset_cache_budget`
-/

------------------------------------------------------------
-- Exact Accounting
------------------------------------------------------------

namespace CacheServer

namespace AssetCache

/- `curBytes` is the sum of the sizes of the entries. -/
def Exact
    (c : AssetCache) :
    Prop :=
  c.curBytes = c.stored

/- The bytes of the entries stored strictly before `time`. -/
def olderBytes
    (c : AssetCache)
    (time : Int) :
    Int :=
  c.items.total
    (fun item => if item.cachedAt < time then item.len else 0)

/-
  Evicting the entries older than an overwritten one makes
  enough room, so the loop does not reach it; or the
  overwritten entry is empty.
-/
def OverwriteSafe
    (c : AssetCache)
    (key : Key)
    (asset : CachedAsset) :
    Prop :=
  ∀ old ∈ c.items.lookup key,
    old.len = 0 ∨
      c.curBytes - old.len + asset.len -
          c.olderBytes old.cachedAt ≤
        c.maxBytes

theorem olderBytes_weight_nonneg
    (time : Int)
    (item : CachedAsset) :
    0 ≤ if item.cachedAt < time then item.len else 0 := by
  have hLen := item.len_nonneg
  by_cases h : item.cachedAt < time
  · rw [if_pos h]
    exact hLen
  · rw [if_neg h]

theorem olderBytes_nonneg
    (c : AssetCache)
    (time : Int) :
    0 ≤ c.olderBytes time :=
  Table.total_nonneg (olderBytes_weight_nonneg time) c.items

/- No entry is older than the oldest one. -/
theorem olderBytes_eq_zero
    {c : AssetCache}
    {time : Int}
    (h :
      ∀ key item,
        c.items.lookup key = some item →
          time ≤ item.cachedAt) :
    c.olderBytes time = 0 := by
  unfold olderBytes Table.total
  apply List.sum_eq_zero
  intro x hx
  rcases List.mem_map.mp hx with ⟨item, hItem, rfl⟩
  have hLe :=
    h item.1 item.2 (AList.mem_lookup_iff.mpr hItem)
  exact if_neg (by omega)

/-
  Dropping a no younger entry than `time` lowers `curBytes`
  at least as much as the bytes older than `time`.
-/
theorem drop_curBytes_sub_olderBytes
    {c : AssetCache}
    {key : Key}
    {item : CachedAsset}
    (hLookup : c.items.lookup key = some item)
    (time : Int) :
    (c.drop key).curBytes - (c.drop key).olderBytes time ≤
      c.curBytes - c.olderBytes time := by
  have hTotal :=
    Table.total_erase
      (fun item : CachedAsset =>
        if item.cachedAt < time then item.len else 0)
      hLookup
  have hLen := item.len_nonneg
  rw [drop_of_some hLookup]
  simp only [olderBytes, hTotal]
  by_cases h : item.cachedAt < time
  · rw [if_pos h]
    omega
  · rw [if_neg h]
    omega

@[simp] theorem forget_stored
    (c : AssetCache)
    (key : Key) :
    (c.forget key).stored = c.stored := by
  simp [stored]

@[simp] theorem forget_olderBytes
    (c : AssetCache)
    (key : Key)
    (time : Int) :
    (c.forget key).olderBytes time = c.olderBytes time := by
  simp [olderBytes]

end AssetCache

end CacheServer

------------------------------------------------------------
-- The Loop And The Overwritten Entry
------------------------------------------------------------

namespace CacheServer

namespace AssetCache

/- The loop keeps what `curBytes` is off by. -/
theorem evictLoop_stored_sub
    {order : MapOrder}
    {newSize : Int}
    {c d : AssetCache}
    {round fuel : Nat}
    (hLoop :
      evictLoop order newSize round fuel c = some d) :
    d.stored - d.curBytes = c.stored - c.curBytes := by
  refine
    (evictLoop_invariant
      (I := fun e =>
        e.stored - e.curBytes = c.stored - c.curBytes)
      ?_ rfl hLoop).1
  intro e r hSub _
  rcases e.evictOldest_cases
      (order.visit r e.items.entries) with h | ⟨key, h⟩
  · rw [h]
    exact hSub
  · rw [h, e.drop_stored_sub key]
    exact hSub

theorem evictLoop_maxBytes
    {order : MapOrder}
    {newSize : Int}
    {c d : AssetCache}
    {round fuel : Nat}
    (hLoop :
      evictLoop order newSize round fuel c = some d) :
    d.maxBytes = c.maxBytes := by
  refine
    (evictLoop_invariant
      (I := fun e => e.maxBytes = c.maxBytes)
      ?_ rfl hLoop).1
  intro e r hSame _
  rcases e.evictOldest_cases
      (order.visit r e.items.entries) with h | ⟨key, h⟩
  · rw [h]
    exact hSame
  · rw [h, drop_maxBytes]
    exact hSame

/-
  An entry survives the loop when evicting the entries older
  than it is enough.
-/
theorem evictLoop_survives
    {order : MapOrder}
    {newSize : Int}
    {c d : AssetCache}
    {round fuel : Nat}
    {key : Key}
    {old : CachedAsset}
    (hKeys : c.NoEmptyKey)
    (hLookup : c.items.lookup key = some old)
    (hRoom :
      c.curBytes + newSize - c.olderBytes old.cachedAt ≤
        c.maxBytes)
    (hLoop :
      evictLoop order newSize round fuel c = some d) :
    d.items.lookup key = some old := by
  have hInv :=
    evictLoop_invariant
      (I := fun e =>
        e.NoEmptyKey ∧
          e.items.lookup key = some old ∧
            e.curBytes + newSize -
                e.olderBytes old.cachedAt ≤
              e.maxBytes)
      ?_ ⟨hKeys, hLookup, hRoom⟩ hLoop
  · exact hInv.1.2.1
  · intro e r hI hOver
    rcases hI with ⟨hE, hOld, hLe⟩
    refine ⟨noEmptyKey_evictOldest hE _, ?_⟩
    rcases evictOldest_eq order r hE hOver.2 with
      ⟨victim, asset, hVictim, hLeast, hDrop⟩
    rw [hDrop]
    have hNe : key ≠ victim := by
      intro hEq
      subst hEq
      -- An oldest entry has nothing before it to evict.
      have hSame : old = asset := by
        rw [hOld] at hVictim
        exact Option.some.inj hVictim
      subst hSame
      have hZero := olderBytes_eq_zero hLeast
      have hLt := hOver.1
      omega
    have hSub :=
      drop_curBytes_sub_olderBytes hVictim old.cachedAt
    rw [drop_lookup_ne e hNe, drop_maxBytes]
    exact ⟨hOld, by omega⟩

theorem stored_put_of_none
    {d : AssetCache}
    {key : Key}
    (asset : CachedAsset)
    (h : d.items.lookup key = none) :
    (d.put key asset).stored = d.stored + asset.len := by
  have hErase : d.items.erase key = d.items :=
    Table.erase_of_notMem (AList.lookup_eq_none.mp h)
  have hTotal :=
    Table.total_insert CachedAsset.len d.items key asset
  rw [hErase] at hTotal
  simp only [stored, put, hTotal]
  omega

theorem stored_put_of_some
    {d : AssetCache}
    {key : Key}
    {old : CachedAsset}
    (asset : CachedAsset)
    (h : d.items.lookup key = some old) :
    (d.put key asset).stored =
      d.stored - old.len + asset.len := by
  have hErase := Table.total_erase CachedAsset.len h
  have hTotal :=
    Table.total_insert CachedAsset.len d.items key asset
  simp only [stored, put, hTotal, hErase]
  omega

/-
  The error of `curBytes` after a `set` from an exact state:
  none, or the size of an overwritten entry that the loop
  evicted.
-/
theorem set_error
    {c c' : AssetCache}
    {order : MapOrder}
    {key : Key}
    {asset : CachedAsset}
    (hExact : c.Exact)
    (h : c.set order key asset = some c') :
    c'.Exact ∨
      ∃ d old,
        evictLoop order asset.len 0 c.items.len
            (c.forget key) = some d ∧
          c.items.lookup key = some old ∧
            d.items.lookup key = none ∧
              c'.stored = c'.curBytes + old.len := by
  rcases set_eq h with ⟨d, hLoop, rfl⟩
  have hSub := evictLoop_stored_sub hLoop
  unfold Exact at hExact
  rw [forget_stored] at hSub
  cases hOld : c.items.lookup key with
  | none =>
      apply Or.inl
      have hGone : d.items.lookup key = none := by
        rcases evictLoop_lookup hLoop key with hSame | hNone
        · rw [hSame, forget_items, hOld]
        · exact hNone
      rw [forget_of_none hOld] at hSub
      have hPut := stored_put_of_none asset hGone
      unfold Exact
      rw [hPut]
      simp only [put]
      omega
  | some old =>
      rw [forget_curBytes_of_some hOld] at hSub
      rcases evictLoop_lookup hLoop key with hKeep | hGone
      · apply Or.inl
        rw [forget_items, hOld] at hKeep
        have hPut := stored_put_of_some asset hKeep
        unfold Exact
        rw [hPut]
        simp only [put]
        omega
      · apply Or.inr
        refine ⟨d, old, hLoop, rfl, hGone, ?_⟩
        have hPut := stored_put_of_none asset hGone
        rw [hPut]
        simp only [put]
        omega

/- A safe `set` keeps the accounting exact. -/
theorem exact_set
    {c c' : AssetCache}
    {order : MapOrder}
    {key : Key}
    {asset : CachedAsset}
    (hKeys : c.NoEmptyKey)
    (hExact : c.Exact)
    (hSafe : c.OverwriteSafe key asset)
    (h : c.set order key asset = some c') :
    c'.Exact := by
  rcases set_error hExact h with hDone | hError
  · exact hDone
  · rcases hError with ⟨d, old, hLoop, hOld, hGone, hOff⟩
    rcases hSafe old hOld with hEmpty | hRoom
    · unfold Exact
      omega
    · have hForgetKeys : (c.forget key).NoEmptyKey := by
        unfold NoEmptyKey
        rw [forget_items]
        exact hKeys
      have hForgetOld :
          (c.forget key).items.lookup key = some old := by
        rw [forget_items]
        exact hOld
      have hForgetRoom :
          (c.forget key).curBytes + asset.len -
              (c.forget key).olderBytes old.cachedAt ≤
            (c.forget key).maxBytes := by
        rw [forget_curBytes_of_some hOld, forget_olderBytes,
          forget_maxBytes]
        exact hRoom
      have hStays :=
        evictLoop_survives hForgetKeys hForgetOld
          hForgetRoom hLoop
      rw [hGone] at hStays
      cases hStays

end AssetCache

end CacheServer

------------------------------------------------------------
-- The Condition Is Exact
------------------------------------------------------------

namespace CacheServer

/- Every round visits this entry first while it is there. -/
def MapOrder.startingWith
    (first : AssetItem) :
    MapOrder :=
  { visit := fun _ items =>
      if first ∈ items then
        first :: items.erase first
      else
        items
    perm := by
      intro _ items
      by_cases h : first ∈ items
      · rw [if_pos h]
        exact (List.perm_cons_erase h).symm
      · rw [if_neg h] }

namespace AssetCache

/- The range keeps its candidate or finds an older one. -/
theorem foldl_oldestStep
    {visited : List AssetItem}
    (oldest : Key × Int)
    (hKey : oldest.1 ≠ [])
    (hKeys : ∀ item ∈ visited, item.1 ≠ []) :
    visited.foldl oldestStep oldest = oldest ∨
      (visited.foldl oldestStep oldest).2 < oldest.2 := by
  induction visited generalizing oldest with
  | nil => exact Or.inl rfl
  | cons item rest ih =>
      have hRest : ∀ other ∈ rest, other.1 ≠ [] := by
        intro other hOther
        exact hKeys other (List.mem_cons_of_mem _ hOther)
      by_cases hLt : item.2.cachedAt < oldest.2
      · have hStep :
            oldestStep oldest item =
              (item.1, item.2.cachedAt) := by
          simp [oldestStep, hLt]
        have hItem : item.1 ≠ [] := hKeys item (by simp)
        apply Or.inr
        simp only [List.foldl_cons, hStep]
        have hNext :=
          ih (item.1, item.2.cachedAt) hItem hRest
        rcases hNext with hSame | hLess
        · rw [hSame]
          exact hLt
        · exact lt_trans hLess hLt
      · have hStep : oldestStep oldest item = oldest := by
          simp [oldestStep, hLt, hKey]
        simp only [List.foldl_cons, hStep]
        exact ih oldest hKey hRest

/-
  A round that visits an entry first drops it, or drops one
  strictly older.
-/
theorem evictOldest_startingWith
    {c : AssetCache}
    {key : Key}
    {old : CachedAsset}
    (round : Nat)
    (hKeys : c.NoEmptyKey)
    (hLookup : c.items.lookup key = some old) :
    ∃ victim asset,
      c.items.lookup victim = some asset ∧
        (victim = key ∨ asset.cachedAt < old.cachedAt) ∧
          c.evictOldest
              ((MapOrder.startingWith ⟨key, old⟩).visit
                round c.items.entries) =
            c.drop victim := by
  let first : AssetItem := ⟨key, old⟩
  let rest := c.items.entries.erase first
  have hFirst : first ∈ c.items.entries :=
    AList.mem_lookup_iff.mp hLookup
  have hVisit :
      (MapOrder.startingWith first).visit round
          c.items.entries =
        first :: rest :=
    if_pos hFirst
  have hMemOf :
      ∀ item ∈ first :: rest,
        c.items.lookup item.1 = some item.2 := by
    intro item hItem
    apply AList.mem_lookup_iff.mpr
    exact (List.perm_cons_erase hFirst).symm.subset hItem
  have hNoEmpty : ∀ item ∈ first :: rest, item.1 ≠ [] := by
    intro item hItem hNil
    have hItemLookup := hMemOf item hItem
    rw [hNil] at hItemLookup
    exact hKeys (Table.mem_of_lookup hItemLookup)
  have hStart : IsOldest [first] (key, old.cachedAt) := by
    refine ⟨⟨old, by simp [first], rfl⟩, ?_⟩
    intro item hItem
    have hEq : item = first := by simpa using hItem
    rw [hEq]
  have hEnd := isOldest_foldl rest hStart hNoEmpty
  rcases hEnd.1 with ⟨asset, hMem, hTime⟩
  have hOldest :
      oldestKey (first :: rest) =
        (rest.foldl oldestStep (key, old.cachedAt)).1 := by
    simp [oldestKey, oldestStep, first]
  have hVictim : oldestKey (first :: rest) ≠ [] := by
    rw [hOldest]
    exact hNoEmpty _ hMem
  refine ⟨oldestKey (first :: rest), asset, ?_, ?_, ?_⟩
  · rw [hOldest]
    exact hMemOf _ hMem
  · rw [hOldest, hTime]
    have hRest : ∀ item ∈ rest, item.1 ≠ [] := by
      intro item hItem
      exact hNoEmpty item (List.mem_cons_of_mem _ hItem)
    have hKey : key ≠ [] := hNoEmpty first (by simp)
    rcases foldl_oldestStep (key, old.cachedAt) hKey hRest with
      hSame | hLess
    · rw [hSame]
      exact Or.inl rfl
    · exact Or.inr hLess
  · rw [hVisit]
    exact if_neg hVictim

/-
  When evicting the older entries is not enough, the loop
  reaches the entry it visits first.
-/
theorem evictLoop_reaches
    {newSize : Int}
    {c d : AssetCache}
    {round fuel : Nat}
    {key : Key}
    {old : CachedAsset}
    (hKeys : c.NoEmptyKey)
    (hLookup : c.items.lookup key = some old)
    (hShort :
      c.maxBytes <
        c.curBytes + newSize - c.olderBytes old.cachedAt)
    (hLoop :
      evictLoop (MapOrder.startingWith ⟨key, old⟩) newSize
        round fuel c = some d) :
    d.items.lookup key = none := by
  have hInv :=
    evictLoop_invariant
      (I := fun e =>
        e.NoEmptyKey ∧
          (e.items.lookup key = none ∨
            (e.items.lookup key = some old ∧
              e.maxBytes <
                e.curBytes + newSize -
                  e.olderBytes old.cachedAt)))
      ?_ ⟨hKeys, Or.inr ⟨hLookup, hShort⟩⟩ hLoop
  · rcases hInv with ⟨⟨_, hGone | ⟨hHere, hStill⟩⟩, hDone⟩
    · exact hGone
    · -- A loop that ended has room, but the entry still lacks it.
      have hOlder := d.olderBytes_nonneg old.cachedAt
      have hLen : 0 < d.items.len :=
        List.length_pos_of_mem (AList.mem_lookup_iff.mp hHere)
      exact absurd ⟨by omega, hLen⟩ hDone
  · intro e r hI hOver
    rcases hI with ⟨hE, hState⟩
    refine ⟨noEmptyKey_evictOldest hE _, ?_⟩
    rcases hState with hGone | ⟨hHere, hStill⟩
    · apply Or.inl
      rcases e.evictOldest_cases _ with h | ⟨k, h⟩
      · rw [h]
        exact hGone
      · rw [h]
        rcases e.drop_lookup k key with hKeep | hNone
        · rw [hKeep]
          exact hGone
        · exact hNone
    · rcases evictOldest_startingWith r hE hHere with
        ⟨victim, asset, hVictim, hOlder, hDrop⟩
      rw [hDrop]
      by_cases hEq : key = victim
      · subst hEq
        exact Or.inl (drop_lookup_self e key)
      · apply Or.inr
        have hLt : asset.cachedAt < old.cachedAt := by
          rcases hOlder with hSame | hLess
          · exact absurd hSame.symm hEq
          · exact hLess
        have hTotal :=
          Table.total_erase
            (fun item : CachedAsset =>
              if item.cachedAt < old.cachedAt then item.len
              else 0)
            hVictim
        rw [if_pos hLt] at hTotal
        rw [drop_lookup_ne e hEq, drop_maxBytes]
        refine ⟨hHere, ?_⟩
        rw [drop_of_some hVictim]
        simp only [olderBytes, hTotal] at hStill ⊢
        omega

/-
  From an exact state, `set` keeps the accounting exact under
  every map order if and only if the overwrite is safe.
-/
theorem exact_set_iff
    {c : AssetCache}
    (key : Key)
    (asset : CachedAsset)
    (hKeys : c.NoEmptyKey)
    (hExact : c.Exact) :
    (∀ order c',
        c.set order key asset = some c' → c'.Exact) ↔
      c.OverwriteSafe key asset := by
  constructor
  · intro hAll old hOld
    by_contra hUnsafe
    push Not at hUnsafe
    rcases hUnsafe with ⟨hNonempty, hShort⟩
    let order := MapOrder.startingWith ⟨key, old⟩
    rcases Option.isSome_iff_exists.mp
        (set_isSome order key asset hKeys) with ⟨c', hSet⟩
    rcases set_eq hSet with ⟨d, hLoop, hPut⟩
    have hForgetKeys : (c.forget key).NoEmptyKey := by
      unfold NoEmptyKey
      rw [forget_items]
      exact hKeys
    have hForgetOld :
        (c.forget key).items.lookup key = some old := by
      rw [forget_items]
      exact hOld
    have hForgetShort :
        (c.forget key).maxBytes <
          (c.forget key).curBytes + asset.len -
            (c.forget key).olderBytes old.cachedAt := by
      rw [forget_curBytes_of_some hOld, forget_olderBytes,
        forget_maxBytes]
      exact hShort
    have hGone :=
      evictLoop_reaches hForgetKeys hForgetOld hForgetShort
        hLoop
    have hSub := evictLoop_stored_sub hLoop
    rw [forget_stored, forget_curBytes_of_some hOld] at hSub
    have hStored := stored_put_of_none asset hGone
    have hFinal := hAll order c' hSet
    rw [hPut] at hFinal
    unfold Exact at hFinal hExact
    rw [hStored] at hFinal
    simp only [put] at hFinal
    omega
  · intro hSafe order c' hSet
    exact exact_set hKeys hExact hSafe hSet

end AssetCache

end CacheServer

------------------------------------------------------------
-- Accounting Over Whole Runs
------------------------------------------------------------

namespace CacheServer

namespace AssetCache

/- A `set` of a resident key is safe for the accounting. -/
def SafeStep
    (c : AssetCache) :
    AssetCacheAction → Prop
| .set _ key asset => c.OverwriteSafe key asset
| .get _ => True
| .remove _ => True

/- The entry set is not larger than the whole budget. -/
def Fits
    (c : AssetCache) :
    AssetCacheAction → Prop
| .set _ _ asset => asset.len ≤ c.maxBytes
| .get _ => True
| .remove _ => True

instance
    (c : AssetCache)
    (key : Key)
    (asset : CachedAsset) :
    Decidable (c.OverwriteSafe key asset) := by
  unfold OverwriteSafe
  infer_instance

instance
    (c : AssetCache)
    (a : AssetCacheAction) :
    Decidable (c.SafeStep a) :=
  match a with
  | .set _ key asset =>
      inferInstanceAs (Decidable (c.OverwriteSafe key asset))
  | .get _ => isTrue trivial
  | .remove _ => isTrue trivial

instance
    (c : AssetCache)
    (a : AssetCacheAction) :
    Decidable (c.Fits a) :=
  match a with
  | .set _ _ asset =>
      inferInstanceAs (Decidable (asset.len ≤ c.maxBytes))
  | .get _ => isTrue trivial
  | .remove _ => isTrue trivial

/- The state of a cache whose accounting works. -/
structure Accounted
    (c : AssetCache) :
    Prop where
  noEmptyKey : c.NoEmptyKey
  exact : c.Exact

theorem accounted_get
    {c : AssetCache}
    (h : c.Accounted)
    (key : Key) :
    (c.get key).2.Accounted := by
  unfold get
  cases c.items.lookup key with
  | none => exact ⟨h.noEmptyKey, h.exact⟩
  | some item => exact ⟨h.noEmptyKey, h.exact⟩

theorem accounted_drop
    {c : AssetCache}
    (h : c.Accounted)
    (key : Key) :
    (c.drop key).Accounted := by
  refine ⟨?_, ?_⟩
  · exact
      noEmptyKey_of_lookup h.noEmptyKey
        (c.drop_lookup key [])
  · have hSub := c.drop_stored_sub key
    have hExact := h.exact
    unfold Exact at hExact ⊢
    omega

theorem noEmptyKey_set
    {c c' : AssetCache}
    {order : MapOrder}
    {key : Key}
    {asset : CachedAsset}
    (hKeys : c.NoEmptyKey)
    (hKey : key ≠ [])
    (h : c.set order key asset = some c') :
    c'.NoEmptyKey :=
  noEmptyKey_of_lookup hKeys ((set_lookup h).2 [] hKey.symm)

/- The operations of the cache keep it accounted. -/
theorem accounted_step
    {c c' : AssetCache}
    {a : AssetCacheAction}
    (h : c.Accounted)
    (hSafe : c.SafeStep a)
    (hStep : c.step a = some c') :
    c'.Accounted := by
  cases a with
  | get key =>
      have hEq : (c.get key).2 = c' := by
        simpa [step] using hStep
      exact hEq ▸ accounted_get h key
  | set order key asset =>
      by_cases hKey : key = []
      · simp [step, hKey] at hStep
      · have hSet : c.set order key asset = some c' := by
          simpa [step, hKey] using hStep
        exact
          ⟨noEmptyKey_set h.noEmptyKey hKey hSet,
            exact_set h.noEmptyKey h.exact hSafe hSet⟩
  | remove key =>
      have hEq : c.drop key = c' := by
        simpa [step, remove] using hStep
      exact hEq ▸ accounted_drop h key

theorem accounted_new
    (maxBytes : Int) :
    (newAssetCache maxBytes).Accounted :=
  ⟨AList.notMem_empty [], rfl⟩

end AssetCache

open AssetCache

/-
  In every run whose overwrites are safe, `curBytes` is the
  sum of the sizes of the entries in every state reached.
-/
theorem asset_cache_accounting
    (maxBytes : Int)
    (actions : List AssetCacheAction)
    (c : AssetCache)
    (hSafe :
      assetCacheMachine.Along SafeStep
        (newAssetCache maxBytes) actions)
    (hRun :
      assetCacheMachine.exec (newAssetCache maxBytes)
        actions = some c) :
    c.curBytes = c.stored := by
  have hAccounted : c.Accounted :=
    Machine.exec_invariant_along
      (I := Accounted) (P := SafeStep)
      (fun _ _ _ hI hP hStep => accounted_step hI hP hStep)
      hSafe hRun (accounted_new maxBytes)
  exact hAccounted.exact

/- An asset of `n` zero bytes. -/
def zeroAsset
    (n : Nat)
    (cachedAt : Int) :
    CachedAsset :=
  { data := List.replicate n 0
    contentType := bytes "text/plain"
    size := n
    cachedAt := cachedAt }

/- An overwrite with room enough, after an eviction. -/
theorem asset_cache_accounting_overwrite :
    ∃ c,
      assetCacheMachine.exec (newAssetCache 10)
          [.set .stored [1] (zeroAsset 6 0),
            .set .stored [2] (zeroAsset 7 1),
            .set .stored [2] (zeroAsset 9 2)] = some c ∧
        c.curBytes = c.stored :=
  ⟨_, Machine.exec_get rfl,
    asset_cache_accounting 10 _ _ (by decide)
      (Machine.exec_get rfl)⟩

/-
  Overwriting the oldest entry of a full cache with a larger
  one takes the old size off twice.
-/
theorem asset_cache_miscounts :
    ¬ ∀ (actions : List AssetCacheAction) (c : AssetCache),
      assetCacheMachine.exec (newAssetCache 10) actions =
          some c →
        c.curBytes = c.stored := by
  intro h
  have hEq :=
    h [.set .stored [1] (zeroAsset 6 0),
        .set .stored [2] (zeroAsset 4 1),
        .set .stored [1] (zeroAsset 8 2)] _
      (Machine.exec_get rfl)
  revert hEq
  decide

end CacheServer

------------------------------------------------------------
-- The Memory Budget
------------------------------------------------------------

namespace CacheServer

namespace AssetCache

/- An accounted cache within its budget. -/
structure WithinBudget
    (maxBytes : Int)
    (c : AssetCache) :
    Prop where
  accounted : c.Accounted
  maxBytes_eq : c.maxBytes = maxBytes
  stored_le : c.stored ≤ maxBytes

theorem stored_drop_le
    (c : AssetCache)
    (key : Key) :
    (c.drop key).stored ≤ c.stored := by
  cases h : c.items.lookup key with
  | none => rw [drop_of_none h]
  | some item =>
      have hTotal := Table.total_erase CachedAsset.len h
      have hLen := item.len_nonneg
      rw [drop_of_some h]
      simp only [stored, hTotal]
      omega

theorem stored_eq_zero_of_len
    {c : AssetCache}
    (h : ¬ 0 < c.items.len) :
    c.stored = 0 := by
  have hNil : c.items.entries = [] := by
    apply List.eq_nil_of_length_eq_zero
    have hLen : ¬ 0 < c.items.entries.length := h
    omega
  simp [stored, Table.total, hNil]

/-
  The loop makes room: the remaining entries and the new one
  fit the budget together, once the overwritten entry is
  counted out.
-/
theorem evictLoop_room
    {order : MapOrder}
    {c d : AssetCache}
    {key : Key}
    {asset : CachedAsset}
    (hAccounted : c.Accounted)
    (hSafe : c.OverwriteSafe key asset)
    (hFits : asset.len ≤ c.maxBytes)
    (hLoop :
      evictLoop order asset.len 0 c.items.len
        (c.forget key) = some d) :
    d.curBytes + asset.len ≤ c.maxBytes := by
  have hMax := evictLoop_maxBytes hLoop
  rw [forget_maxBytes] at hMax
  have hDone :=
    (evictLoop_invariant (I := fun _ => True)
      (fun _ _ _ _ => trivial) trivial hLoop).2
  by_cases hLen : 0 < d.items.len
  · have hNot : ¬ d.maxBytes < d.curBytes + asset.len :=
      fun hLt => hDone ⟨hLt, hLen⟩
    omega
  · -- An emptied cache holds nothing, so nothing is counted.
    have hZero := stored_eq_zero_of_len hLen
    have hSet :
        c.set order key asset = some (d.put key asset) := by
      simp [set, hLoop]
    have hExact :=
      exact_set hAccounted.noEmptyKey hAccounted.exact hSafe
        hSet
    have hGone : d.items.lookup key = none := by
      cases hLookup : d.items.lookup key with
      | none => rfl
      | some item =>
          have hMem := AList.mem_lookup_iff.mp hLookup
          exact absurd (List.length_pos_of_mem hMem) hLen
    have hStored := stored_put_of_none asset hGone
    unfold Exact at hExact
    rw [hStored, hZero] at hExact
    simp only [put] at hExact
    omega

theorem withinBudget_set
    {maxBytes : Int}
    {c c' : AssetCache}
    {order : MapOrder}
    {key : Key}
    {asset : CachedAsset}
    (h : c.WithinBudget maxBytes)
    (hKey : key ≠ [])
    (hSafe : c.OverwriteSafe key asset)
    (hFits : asset.len ≤ c.maxBytes)
    (hSet : c.set order key asset = some c') :
    c'.WithinBudget maxBytes := by
  have hKeys := noEmptyKey_set h.accounted.noEmptyKey hKey hSet
  have hExact :=
    exact_set h.accounted.noEmptyKey h.accounted.exact hSafe
      hSet
  rcases set_eq hSet with ⟨d, hLoop, rfl⟩
  have hRoom := evictLoop_room h.accounted hSafe hFits hLoop
  have hMax := evictLoop_maxBytes hLoop
  have hEq := h.maxBytes_eq
  rw [forget_maxBytes] at hMax
  refine ⟨⟨hKeys, hExact⟩, ?_, ?_⟩
  · simp only [put]
    omega
  · have hSum :
        (d.put key asset).stored = d.curBytes + asset.len :=
      hExact.symm
    omega

theorem withinBudget_step
    {maxBytes : Int}
    {c c' : AssetCache}
    {a : AssetCacheAction}
    (h : c.WithinBudget maxBytes)
    (hSafe : c.SafeStep a)
    (hFits : c.Fits a)
    (hStep : c.step a = some c') :
    c'.WithinBudget maxBytes := by
  have hAccounted :=
    accounted_step h.accounted hSafe hStep
  cases a with
  | get key =>
      have hEq : (c.get key).2 = c' := by
        simpa [step] using hStep
      subst hEq
      refine ⟨hAccounted, ?_, ?_⟩
      · unfold get
        cases c.items.lookup key with
        | none => exact h.maxBytes_eq
        | some item => exact h.maxBytes_eq
      · unfold get
        cases c.items.lookup key with
        | none => exact h.stored_le
        | some item => exact h.stored_le
  | set order key asset =>
      by_cases hKey : key = []
      · simp [step, hKey] at hStep
      · have hSet : c.set order key asset = some c' := by
          simpa [step, hKey] using hStep
        exact withinBudget_set h hKey hSafe hFits hSet
  | remove key =>
      have hEq : c.drop key = c' := by
        simpa [step, remove] using hStep
      subst hEq
      refine ⟨hAccounted, ?_, ?_⟩
      · rw [drop_maxBytes]
        exact h.maxBytes_eq
      · exact le_trans (stored_drop_le c key) h.stored_le

end AssetCache

open AssetCache

/-
  In every run that sets no entry larger than the budget and
  whose overwrites are safe, the entries of every state
  reached fit the budget.
-/
theorem asset_cache_budget
    (maxBytes : Int)
    (actions : List AssetCacheAction)
    (c : AssetCache)
    (hPos : 0 < maxBytes)
    (hSafe :
      assetCacheMachine.Along
        (fun c a => c.SafeStep a ∧ c.Fits a)
        (newAssetCache maxBytes) actions)
    (hRun :
      assetCacheMachine.exec (newAssetCache maxBytes)
        actions = some c) :
    c.stored ≤ maxBytes := by
  have hInit :
      (newAssetCache maxBytes).WithinBudget maxBytes :=
    ⟨accounted_new maxBytes, rfl, le_of_lt hPos⟩
  have hBudget : c.WithinBudget maxBytes :=
    Machine.exec_invariant_along
      (I := WithinBudget maxBytes)
      (P := fun c a => c.SafeStep a ∧ c.Fits a)
      (fun _ _ _ hI hP hStep =>
        withinBudget_step hI hP.1 hP.2 hStep)
      hSafe hRun hInit
  exact hBudget.stored_le

/- Eviction makes room for an asset that fits. -/
theorem asset_cache_budget_evicts :
    ∃ c,
      assetCacheMachine.exec (newAssetCache 10)
          [.set .stored [1] (zeroAsset 6 0), .get [1],
            .set .stored [2] (zeroAsset 7 1),
            .remove [3]] = some c ∧
        c.stored ≤ 10 :=
  ⟨_, Machine.exec_get rfl,
    asset_cache_budget 10 _ _ (by decide) (by decide)
      (Machine.exec_get rfl)⟩

/- An asset larger than the budget is stored all the same. -/
theorem asset_cache_over_budget :
    ¬ ∀ (maxBytes : Int) (actions : List AssetCacheAction)
        (c : AssetCache),
      0 < maxBytes →
        assetCacheMachine.exec (newAssetCache maxBytes)
            actions = some c →
          c.stored ≤ maxBytes := by
  intro h
  have hLe :=
    h 10 [.set .stored [1] (zeroAsset 20 0)] _ (by decide)
      (Machine.exec_get rfl)
  revert hLe
  decide

end CacheServer
