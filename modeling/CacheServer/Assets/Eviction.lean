import CacheServer.Assets.SerialRequests
import Mathlib.Data.Nat.Find

/-
  What the eviction loop of the asset cache evicts, and that
  it ends.

  Every round drops an entry that no other is older than, as
  long as no entry has the empty key, and the handlers see to
  that. So the rounds go through the entries in the order of
  `cachedAt`, whatever order the map is ranged over in.

  Key definitions include:
    * `CacheServer.AssetCache.afterRounds`
    * `CacheServer.AssetCache.StopsAfter`
    * `CacheServer.AssetCache.Evicted`
    * `CacheServer.AssetCache.DistinctTimes`

  Key theorems include:
    * `CacheServer.AssetCache.exists_stopsAfter`
    * `CacheServer.AssetCache.evicted_afterRounds`
    * `CacheServer.AssetCache.set_order`
    * `CacheServer.asset_set_terminates`
    * `CacheServer.assets_evicted_oldest_first`
-/

------------------------------------------------------------
-- Rounds
------------------------------------------------------------

namespace CacheServer

namespace AssetCache

/- The cache after a number of rounds. -/
def afterRounds
    (order : MapOrder)
    (c : AssetCache) :
    Nat → AssetCache
| 0 => c
| n + 1 =>
    (afterRounds order c n).evictOldest
      (order.visit n (afterRounds order c n).items.entries)

/- The loop takes `n` rounds and no more. -/
structure StopsAfter
    (order : MapOrder)
    (c : AssetCache)
    (newSize : Int)
    (n : Nat) :
    Prop where
  goesOn : ∀ r < n, (c.afterRounds order r).OverBudget newSize
  ends : ¬ (c.afterRounds order n).OverBudget newSize

variable {order : MapOrder}
variable {c : AssetCache}
variable {newSize : Int}

theorem noEmptyKey_afterRounds
    (order : MapOrder)
    (hKeys : c.NoEmptyKey)
    (n : Nat) :
    (c.afterRounds order n).NoEmptyKey := by
  induction n with
  | zero => exact hKeys
  | succ n ih => exact noEmptyKey_evictOldest ih _

/- A round drops one entry, one that no other is older than. -/
theorem afterRounds_succ
    {n : Nat}
    (hKeys : c.NoEmptyKey)
    (hOver : (c.afterRounds order n).OverBudget newSize) :
    ∃ key asset,
      (c.afterRounds order n).items.lookup key =
          some asset ∧
        (∀ other item,
          (c.afterRounds order n).items.lookup other =
              some item →
            asset.cachedAt ≤ item.cachedAt) ∧
        c.afterRounds order (n + 1) =
          (c.afterRounds order n).drop key :=
  evictOldest_eq order n (noEmptyKey_afterRounds order hKeys n)
    hOver.2

/- As many entries are gone as there were rounds. -/
theorem len_afterRounds
    {n : Nat}
    (hKeys : c.NoEmptyKey)
    (hOver :
      ∀ r < n, (c.afterRounds order r).OverBudget newSize) :
    (c.afterRounds order n).items.len + n = c.items.len := by
  induction n with
  | zero => rfl
  | succ n ih =>
      have hRest := ih (fun r hr => hOver r (by omega))
      rcases afterRounds_succ hKeys (hOver n (by omega)) with
        ⟨key, asset, hLookup, _, hDrop⟩
      have hLen :=
        Table.len_erase_of_mem (Table.mem_of_lookup hLookup)
      rw [hDrop, drop_of_some hLookup]
      simp only
      omega

/- The loop ends within as many rounds as there are entries. -/
theorem exists_stopsAfter
    (order : MapOrder)
    (newSize : Int)
    (hKeys : c.NoEmptyKey) :
    ∃ n ≤ c.items.len, c.StopsAfter order newSize n := by
  by_cases hStop :
      ∃ n ≤ c.items.len,
        ¬ (c.afterRounds order n).OverBudget newSize
  · have hFirst :
        ∃ n, ¬ (c.afterRounds order n).OverBudget newSize := by
      rcases hStop with ⟨n, _, hEnds⟩
      exact ⟨n, hEnds⟩
    rcases hStop with ⟨n, hLe, hEnds⟩
    refine ⟨Nat.find hFirst, ?_, ?_, Nat.find_spec hFirst⟩
    · exact le_trans (Nat.find_min' hFirst hEnds) hLe
    · intro r hr
      exact not_not.mp (Nat.find_min hFirst hr)
  · have hAll :
        ∀ r ≤ c.items.len,
          (c.afterRounds order r).OverBudget newSize := by
      intro r hr
      by_contra hNot
      exact hStop ⟨r, hr, hNot⟩
    have hLen :=
      len_afterRounds (n := c.items.len) hKeys
        (fun r hr => hAll r (Nat.le_of_lt hr))
    have hPos := (hAll c.items.len (le_refl _)).2
    omega

/- The loop, given rounds enough, is the rounds it takes. -/
theorem evictLoop_of_stopsAfter
    {n r fuel : Nat}
    (hStops : c.StopsAfter order newSize n)
    (hRound : r ≤ n)
    (hFuel : n ≤ r + fuel) :
    evictLoop order newSize r fuel (c.afterRounds order r) =
      some (c.afterRounds order n) := by
  induction fuel generalizing r with
  | zero =>
      have hEq : r = n := by omega
      subst hEq
      exact if_neg hStops.ends
  | succ fuel ih =>
      by_cases hEq : r = n
      · subst hEq
        exact if_neg hStops.ends
      · have hLt : r < n := by omega
        unfold evictLoop
        rw [if_pos (hStops.goesOn r hLt)]
        exact ih (r := r + 1) hLt (by omega)

/- `set` is its rounds and the insertion. -/
theorem set_of_stopsAfter
    {n : Nat}
    {key : Key}
    {asset : CachedAsset}
    (hStops : (c.forget key).StopsAfter order asset.len n)
    (hLe : n ≤ c.items.len) :
    c.set order key asset =
      some
        (((c.forget key).afterRounds order n).put
          key asset) := by
  have hLoop :
      evictLoop order asset.len 0 c.items.len
          (c.forget key) =
        some ((c.forget key).afterRounds order n) :=
    evictLoop_of_stopsAfter (r := 0) hStops (Nat.zero_le n)
      (by omega)
  unfold set
  rw [hLoop]
  rfl

theorem noEmptyKey_forget
    (key : Key)
    (hKeys : c.NoEmptyKey) :
    (c.forget key).NoEmptyKey := by
  unfold NoEmptyKey
  rw [forget_items]
  exact hKeys

end AssetCache

end CacheServer

------------------------------------------------------------
-- The Order Of Eviction
------------------------------------------------------------

namespace CacheServer

namespace AssetCache

/- `a` is cached no later than `b`. -/
def NoLater
    (a b : AssetItem) :
    Prop :=
  a.2.cachedAt ≤ b.2.cachedAt

def bytesOf
    (items : List AssetItem) :
    Int :=
  (items.map (fun item => item.2.len)).sum

/- `d` is `c` without its oldest entries, and their bytes. -/
structure Evicted
    (c : AssetCache)
    (victims : List AssetItem)
    (d : AssetCache) :
    Prop where
  perm : c.items.entries.Perm (victims ++ d.items.entries)
  bytes : d.curBytes = c.curBytes - bytesOf victims
  sorted : victims.Pairwise NoLater
  older :
    ∀ old ∈ victims, ∀ young ∈ d.items.entries,
      NoLater old young

variable {order : MapOrder}
variable {c d : AssetCache}
variable {victims : List AssetItem}
variable {newSize : Int}

theorem Evicted.refl
    (c : AssetCache) :
    Evicted c [] c := by
  refine ⟨List.Perm.refl _, ?_, List.Pairwise.nil, ?_⟩
  · simp [bytesOf]
  · intro old hOld
    cases hOld

/- Dropping an oldest entry evicts one more. -/
theorem Evicted.drop
    {key : Key}
    {asset : CachedAsset}
    (hEvicted : Evicted c victims d)
    (hLookup : d.items.lookup key = some asset)
    (hOldest :
      ∀ other item,
        d.items.lookup other = some item →
          asset.cachedAt ≤ item.cachedAt) :
    Evicted c (victims ++ [⟨key, asset⟩]) (d.drop key) := by
  have hMem : (⟨key, asset⟩ : AssetItem) ∈ d.items.entries :=
    AList.mem_lookup_iff.mp hLookup
  have hSplit := Table.entries_perm_of_lookup hLookup
  rw [drop_of_some hLookup]
  refine ⟨?_, ?_, ?_, ?_⟩
  · rw [List.append_assoc]
    exact hEvicted.perm.trans (hSplit.append_left victims)
  · have hBytes := hEvicted.bytes
    simp only [bytesOf, List.map_append, List.sum_append,
      List.map_cons, List.map_nil, List.sum_cons,
      List.sum_nil] at hBytes ⊢
    omega
  · refine List.pairwise_append.mpr ⟨hEvicted.sorted, ?_, ?_⟩
    · exact List.pairwise_singleton _ _
    · intro old hOld last hLast
      rw [List.mem_singleton.mp hLast]
      exact hEvicted.older old hOld _ hMem
  · intro old hOld young hYoung
    have hStays : young ∈ d.items.entries :=
      hSplit.symm.subset (List.mem_cons_of_mem _ hYoung)
    rcases List.mem_append.mp hOld with hBefore | hLast
    · exact hEvicted.older old hBefore young hStays
    · rw [List.mem_singleton.mp hLast]
      exact
        hOldest young.1 young.2
          (AList.mem_lookup_iff.mpr hStays)

/- Each round evicts the next of the same list of entries. -/
theorem evicted_afterRounds
    {n : Nat}
    (hKeys : c.NoEmptyKey)
    (hOver :
      ∀ r < n, (c.afterRounds order r).OverBudget newSize) :
    ∃ victims : List AssetItem,
      victims.length = n ∧
        ∀ r ≤ n,
          Evicted c (victims.take r)
            (c.afterRounds order r) := by
  induction n with
  | zero =>
      refine ⟨[], rfl, fun r hr => ?_⟩
      have hZero : r = 0 := by omega
      subst hZero
      exact Evicted.refl c
  | succ n ih =>
      rcases ih (fun r hr => hOver r (by omega)) with
        ⟨victims, hLen, hEach⟩
      rcases afterRounds_succ hKeys (hOver n (by omega)) with
        ⟨key, asset, hLookup, hOldest, hDrop⟩
      refine
        ⟨victims ++ [⟨key, asset⟩], by simp [hLen],
          fun r hr => ?_⟩
      by_cases hEq : r = n + 1
      · subst hEq
        have hAll :
            (victims ++ [(⟨key, asset⟩ : AssetItem)]).take
                (n + 1) =
              victims ++ [⟨key, asset⟩] := by
          apply List.take_of_length_le
          simp [hLen]
        have hLast := hEach n (le_refl n)
        rw [List.take_of_length_le (by omega)] at hLast
        rw [hAll, hDrop]
        exact hLast.drop hLookup hOldest
      · have hLe : r ≤ n := by omega
        rw [List.take_append_of_le_length (by omega)]
        exact hEach r hLe

/- The survivors can be put in order behind the victims. -/
theorem Evicted.exists_ordered
    (hEvicted : Evicted c victims d) :
    ∃ rest : List AssetItem,
      rest.Perm d.items.entries ∧
        (victims ++ rest).Perm c.items.entries ∧
          (victims ++ rest).Pairwise NoLater := by
  let le : AssetItem → AssetItem → Bool :=
    fun a b => decide (a.2.cachedAt ≤ b.2.cachedAt)
  have hTrans :
      ∀ a b e, le a b = true → le b e = true →
        le a e = true := by
    intro a b e hAB hBE
    have hFirst := of_decide_eq_true hAB
    have hLast := of_decide_eq_true hBE
    exact decide_eq_true (le_trans hFirst hLast)
  have hTotal : ∀ a b, (le a b || le b a) = true := by
    intro a b
    rw [Bool.or_eq_true]
    rcases le_total a.2.cachedAt b.2.cachedAt with h | h
    · exact Or.inl (decide_eq_true h)
    · exact Or.inr (decide_eq_true h)
  have hPerm := d.items.entries.mergeSort_perm le
  have hSorted :
      (d.items.entries.mergeSort le).Pairwise NoLater :=
    (List.pairwise_mergeSort hTrans hTotal _).imp
      (fun h => of_decide_eq_true h)
  refine ⟨d.items.entries.mergeSort le, hPerm, ?_, ?_⟩
  · exact
      (hPerm.append_left victims).trans hEvicted.perm.symm
  · refine
      List.pairwise_append.mpr ⟨hEvicted.sorted, hSorted, ?_⟩
    intro old hOld young hYoung
    exact hEvicted.older old hOld young (hPerm.subset hYoung)

theorem afterRounds_maxBytes
    (order : MapOrder)
    (c : AssetCache)
    (n : Nat) :
    (c.afterRounds order n).maxBytes = c.maxBytes := by
  induction n with
  | zero => rfl
  | succ n ih =>
      rcases (c.afterRounds order n).evictOldest_cases
          (order.visit n
            (c.afterRounds order n).items.entries) with
        h | ⟨key, h⟩
      · rw [afterRounds, h]
        exact ih
      · rw [afterRounds, h, drop_maxBytes]
        exact ih

/- What a `set` of a new key evicts, and that it has to. -/
theorem set_evicts
    {key : Key}
    (order : MapOrder)
    (asset : CachedAsset)
    (hKeys : c.NoEmptyKey)
    (hAbsent : key ∉ c.items) :
    ∃ (ordered : List AssetItem) (n : Nat) (d : AssetCache),
      ordered.Perm c.items.entries ∧
        ordered.Pairwise NoLater ∧
        n ≤ ordered.length ∧
        c.set order key asset = some (d.put key asset) ∧
        d.items.entries.Perm (ordered.drop n) ∧
        d.curBytes =
          c.curBytes - bytesOf (ordered.take n) ∧
        (n = ordered.length ∨
          d.curBytes + asset.len ≤ c.maxBytes) ∧
        ∀ m < n,
          c.maxBytes <
            c.curBytes - bytesOf (ordered.take m) +
              asset.len := by
  have hForget : c.forget key = c :=
    forget_of_none (AList.lookup_eq_none.mpr hAbsent)
  rcases exists_stopsAfter order asset.len hKeys with
    ⟨n, hLe, hStops⟩
  rcases evicted_afterRounds hKeys hStops.goesOn with
    ⟨victims, hLen, hEach⟩
  have hLast := hEach n (le_refl n)
  have hAll : victims.take n = victims :=
    List.take_of_length_le (by omega)
  rw [hAll] at hLast
  rcases hLast.exists_ordered with
    ⟨rest, hRest, hPerm, hSorted⟩
  have hTake :
      ∀ r ≤ n, (victims ++ rest).take r = victims.take r :=
    fun r hr => List.take_append_of_le_length (by omega)
  refine
    ⟨victims ++ rest, n, c.afterRounds order n, hPerm,
      hSorted, ?_, ?_, ?_, ?_, ?_, ?_⟩
  · rw [List.length_append]
    omega
  · have hSame :
        (c.forget key).StopsAfter order asset.len n := by
      rw [hForget]
      exact hStops
    have hSet := set_of_stopsAfter hSame hLe
    rwa [hForget] at hSet
  · rw [List.drop_append_of_le_length (by omega),
      List.drop_of_length_le (by omega), List.nil_append]
    exact hRest.symm
  · rw [hTake n (le_refl n), hAll]
    exact hLast.bytes
  · by_cases hEmpty : n = (victims ++ rest).length
    · exact Or.inl hEmpty
    · refine Or.inr (not_lt.mp fun hOver => ?_)
      have hLeft :
          (c.afterRounds order n).items.entries.length =
            rest.length :=
        hRest.length_eq.symm
      rw [List.length_append, hLen] at hEmpty
      have hPos : 0 < (c.afterRounds order n).items.len := by
        unfold Table.len
        omega
      rw [← afterRounds_maxBytes order c n] at hOver
      exact hStops.ends ⟨hOver, hPos⟩
  · intro m hLt
    have hOver := (hStops.goesOn m hLt).1
    rw [afterRounds_maxBytes,
      (hEach m (Nat.le_of_lt hLt)).bytes] at hOver
    rw [hTake m (Nat.le_of_lt hLt)]
    exact hOver

end AssetCache

end CacheServer

------------------------------------------------------------
-- Whatever The Map Order
------------------------------------------------------------

namespace CacheServer

namespace AssetCache

/- No two entries were cached at one time. -/
def DistinctTimes
    (c : AssetCache) :
    Prop :=
  ∀ a ∈ c.items.entries, ∀ b ∈ c.items.entries,
    a.2.cachedAt = b.2.cachedAt → a = b

variable {c : AssetCache}

/- Then the oldest entry is the same in every order. -/
theorem evictOldest_order
    (order order' : MapOrder)
    (round : Nat)
    (hKeys : c.NoEmptyKey)
    (hDistinct : c.DistinctTimes)
    (hPos : 0 < c.items.len) :
    c.evictOldest (order.visit round c.items.entries) =
      c.evictOldest
        (order'.visit round c.items.entries) := by
  rcases evictOldest_eq order round hKeys hPos with
    ⟨key, asset, hLookup, hOldest, hDrop⟩
  rcases evictOldest_eq order' round hKeys hPos with
    ⟨key', asset', hLookup', hOldest', hDrop'⟩
  have hTime : asset.cachedAt = asset'.cachedAt :=
    le_antisymm (hOldest key' asset' hLookup')
      (hOldest' key asset hLookup)
  have hSame :=
    hDistinct ⟨key, asset⟩ (AList.mem_lookup_iff.mp hLookup)
      ⟨key', asset'⟩ (AList.mem_lookup_iff.mp hLookup') hTime
  have hKey : key = key' := congrArg Sigma.fst hSame
  rw [hDrop, hDrop', hKey]

theorem distinctTimes_evictOldest
    (hDistinct : c.DistinctTimes)
    (visited : List AssetItem) :
    (c.evictOldest visited).DistinctTimes := by
  have hSub :
      ∀ item ∈ (c.evictOldest visited).items.entries,
        item ∈ c.items.entries := by
    intro item hItem
    rcases c.evictOldest_cases visited with h | ⟨key, h⟩
    · rwa [h] at hItem
    · rw [h] at hItem
      have hLookup : (c.drop key).items.lookup item.1 =
          some item.2 :=
        AList.mem_lookup_iff.mpr hItem
      rcases c.drop_lookup key item.1 with hKeep | hGone
      · rw [hKeep] at hLookup
        exact AList.mem_lookup_iff.mp hLookup
      · rw [hGone] at hLookup
        cases hLookup
  intro a hA b hB hTime
  exact hDistinct a (hSub a hA) b (hSub b hB) hTime

theorem evictLoop_order
    (order order' : MapOrder)
    (newSize : Int)
    {round fuel : Nat}
    (hKeys : c.NoEmptyKey)
    (hDistinct : c.DistinctTimes) :
    evictLoop order newSize round fuel c =
      evictLoop order' newSize round fuel c := by
  induction fuel generalizing round c with
  | zero => rfl
  | succ fuel ih =>
      unfold evictLoop
      by_cases hOver : c.OverBudget newSize
      · rw [if_pos hOver, if_pos hOver,
          evictOldest_order order order' round hKeys hDistinct
            hOver.2]
        exact
          ih (noEmptyKey_evictOldest hKeys _)
            (distinctTimes_evictOldest hDistinct _)
      · rw [if_neg hOver, if_neg hOver]

/- So is the cache that a `set` leaves. -/
theorem set_order
    (order order' : MapOrder)
    (key : Key)
    (asset : CachedAsset)
    (hKeys : c.NoEmptyKey)
    (hDistinct : c.DistinctTimes) :
    c.set order key asset = c.set order' key asset := by
  have hForget : (c.forget key).DistinctTimes := by
    unfold DistinctTimes
    rw [forget_items]
    exact hDistinct
  unfold set
  rw [evictLoop_order order order' asset.len
    (noEmptyKey_forget key hKeys) hForget]

end AssetCache

end CacheServer

------------------------------------------------------------
-- The Cache Of The Handlers
------------------------------------------------------------

namespace CacheServer

/- The handlers keep the empty key out of the cache. -/
theorem AssetSystem.noEmptyKey_exec
    {handler : BinaryHandler}
    {minio : Table Key StoredObject}
    {redis : Redis}
    {maxBytes : Int}
    {clock : Int}
    {actions : List AssetAction}
    {s : AssetSystem}
    (hRun :
      assetMachine.exec
          (AssetSystem.new handler minio redis maxBytes clock)
          actions =
        some s) :
    s.store.cache.NoEmptyKey := by
  have hKeys : s.KeysChecked :=
    Machine.exec_invariant (I := KeysChecked)
      (fun _ _ _ hKeys hStep => keysChecked_step hKeys hStep)
      hRun (keysChecked_new _ _ _ _ _)
  exact hKeys.cache

/-
  The loop of a `set` into a cache that the handlers have
  left ends after at most as many rounds as there are
  entries, each of which removes one.
-/
theorem asset_set_terminates
    (handler : BinaryHandler)
    (minio : Table Key StoredObject)
    (redis : Redis)
    (maxBytes : Int)
    (clock : Int)
    (actions : List AssetAction)
    (s : AssetSystem)
    (hRun :
      assetMachine.exec
          (AssetSystem.new handler minio redis maxBytes clock)
          actions =
        some s)
    (order : MapOrder)
    (key : Key)
    (asset : CachedAsset) :
    let c := s.store.cache.forget key
    ∃ n ≤ s.store.cache.items.len,
      c.StopsAfter order asset.len n ∧
        (∀ r < n,
          ∃ victim ∈ (c.afterRounds order r).items,
            (c.afterRounds order (r + 1)).items =
              (c.afterRounds order r).items.erase victim) ∧
        s.store.cache.set order key asset =
          some ((c.afterRounds order n).put key asset) := by
  have hKeys :=
    AssetCache.noEmptyKey_forget key
      (AssetSystem.noEmptyKey_exec hRun)
  rcases AssetCache.exists_stopsAfter order asset.len hKeys with
    ⟨n, hLe, hStops⟩
  rw [AssetCache.forget_items] at hLe
  refine
    ⟨n, hLe, hStops, fun r hr => ?_,
      AssetCache.set_of_stopsAfter hStops hLe⟩
  rcases AssetCache.afterRounds_succ hKeys
      (hStops.goesOn r hr) with
    ⟨victim, item, hLookup, _, hDrop⟩
  refine ⟨victim, Table.mem_of_lookup hLookup, ?_⟩
  rw [hDrop, AssetCache.drop_of_some hLookup]

/- An upload, and a larger asset that it has to go for. -/
def uploadOne : List AssetAction :=
  [.call 0 (.upload [1] [9] (some [7, 8])),
    .run 0 .none .stored, .run 0 .none .stored,
    .run 0 .none .stored, .run 0 .none .stored,
    .run 0 .none .stored]

theorem asset_set_terminates_larger :
    ∃ s n,
      assetMachine.exec
          (AssetSystem.new ⟨true, true⟩ ∅ ∅ 10 0)
          uploadOne =
        some s ∧
        n ≤ s.store.cache.items.len ∧
          (s.store.cache.forget [2]).StopsAfter .stored 11 n := by
  let asset : CachedAsset :=
    { data := List.replicate 11 0
      contentType := []
      size := 11
      cachedAt := 5 }
  rcases asset_set_terminates ⟨true, true⟩ ∅ ∅ 10 0 uploadOne _
      (Machine.exec_get rfl) .stored [2] asset with
    ⟨n, hLe, hStops, _⟩
  exact ⟨_, n, Machine.exec_get rfl, hLe, hStops⟩

/-
  A `set` of a new key evicts the entries that come first by
  `cachedAt`: enough of them for the new one to fit, or all,
  and no fewer would have been enough. If no two were cached
  at one time, every order of the map leaves the same cache.
-/
theorem assets_evicted_oldest_first
    (handler : BinaryHandler)
    (minio : Table Key StoredObject)
    (redis : Redis)
    (maxBytes : Int)
    (clock : Int)
    (actions : List AssetAction)
    (s : AssetSystem)
    (hRun :
      assetMachine.exec
          (AssetSystem.new handler minio redis maxBytes clock)
          actions =
        some s)
    (order : MapOrder)
    (key : Key)
    (asset : CachedAsset)
    (hAbsent : key ∉ s.store.cache.items) :
    let c := s.store.cache
    (∃ (ordered : List AssetItem) (n : Nat) (d : AssetCache),
      ordered.Perm c.items.entries ∧
        ordered.Pairwise AssetCache.NoLater ∧
        n ≤ ordered.length ∧
        c.set order key asset = some (d.put key asset) ∧
        d.items.entries.Perm (ordered.drop n) ∧
        d.curBytes =
          c.curBytes -
            AssetCache.bytesOf (ordered.take n) ∧
        (n = ordered.length ∨
          d.curBytes + asset.len ≤ c.maxBytes) ∧
        ∀ m < n,
          c.maxBytes <
            c.curBytes -
                AssetCache.bytesOf (ordered.take m) +
              asset.len) ∧
      (c.DistinctTimes →
        ∀ order',
          c.set order' key asset =
            c.set order key asset) := by
  have hKeys := AssetSystem.noEmptyKey_exec hRun
  refine
    ⟨AssetCache.set_evicts order asset hKeys hAbsent, ?_⟩
  intro hDistinct order'
  exact
    AssetCache.set_order order' order key asset hKeys hDistinct

/- A second upload, some time after the first. -/
def uploadTwo : List AssetAction :=
  uploadOne ++
    [.tick 5, .call 1 (.upload [2] [9] (some [7, 8, 9])),
      .run 1 .none .stored, .run 1 .none .stored,
      .run 1 .none .stored, .run 1 .none .stored,
      .run 1 .none .stored]

/- Six bytes are let in by the first upload going, alone. -/
theorem assets_evicted_oldest_first_larger :
    ∃ s c',
      assetMachine.exec
          (AssetSystem.new ⟨true, true⟩ ∅ ∅ 10 0)
          uploadTwo =
        some s ∧
        s.store.cache.items.entries.keys = [[2], [1]] ∧
          s.store.cache.set .stored [3]
              { data := List.replicate 6 0
                contentType := []
                size := 6
                cachedAt := 9 } =
            some c' ∧
            c'.items.entries.keys = [[3], [2]] := by
  let asset : CachedAsset :=
    { data := List.replicate 6 0
      contentType := []
      size := 6
      cachedAt := 9 }
  have hRun :
      assetMachine.exec
          (AssetSystem.new ⟨true, true⟩ ∅ ∅ 10 0)
          uploadTwo =
        some _ :=
    Machine.exec_get rfl
  rcases (assets_evicted_oldest_first ⟨true, true⟩ ∅ ∅ 10 0
      uploadTwo _ hRun .stored [3] asset (by decide)).1 with
    ⟨_, _, d, _, _, _, hSet, _⟩
  refine ⟨_, d.put [3] asset, hRun, rfl, hSet, ?_⟩
  have hKeys :=
    congrArg (Option.map fun c => c.items.entries.keys) hSet
  exact (Option.some.inj hKeys).symm

end CacheServer
