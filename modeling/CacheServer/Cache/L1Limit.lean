import CacheServer.Cache.L1Capacity
import Mathlib.Data.List.Nodup

/-
  The configured size and the size of the L1 cache.

  `NewL1` gives each shard at least 64 entries, and there are
  keys enough to fill all of them.

  Key definitions include:
    * `CacheServer.crowd`
    * `CacheServer.L1System.WithinLimit`

  Key theorems include:
    * `CacheServer.exec_crowd`
    * `CacheServer.l1_limit_iff`
-/

------------------------------------------------------------
-- A Full Cache
------------------------------------------------------------

namespace CacheServer

/- 64 keys for each shard. -/
def crowd : List Key :=
  (List.finRange numShards).flatMap (fun i => seats i 64)

theorem nodup_crowd :
    crowd.Nodup := by
  refine List.nodup_flatMap.mpr ⟨?_, ?_⟩
  · intro i _
    exact nodup_seats i (by decide)
  · refine (List.nodup_finRange numShards).imp ?_
    intro i j hNe key hI hJ
    exact
      hNe
        ((shardIdx_of_seats hI).symm.trans
          (shardIdx_of_seats hJ))

/- Only one part of a list of lists is kept. -/
theorem length_flatMap_ite
    {α : Type}
    {l : List (Fin numShards)}
    {i : Fin numShards}
    (part : List α)
    (hNodup : l.Nodup)
    (hMem : i ∈ l) :
    (l.flatMap (fun j => if j = i then part else [])).length =
      part.length := by
  induction l with
  | nil => cases hMem
  | cons j l ih =>
      rw [List.flatMap_cons, List.length_append]
      have hApart := (List.nodup_cons.mp hNodup).1
      by_cases hEq : j = i
      · subst hEq
        have hRest :
            l.flatMap (fun k => if k = j then part else []) =
              [] := by
          refine List.flatMap_eq_nil_iff.mpr ?_
          intro k hK
          refine if_neg ?_
          intro hSame
          subst hSame
          exact hApart hK
        rw [if_pos rfl, hRest]
        rfl
      · have hRest : i ∈ l :=
          List.mem_of_ne_of_mem (Ne.symm hEq) hMem
        rw [if_neg hEq, ih (List.nodup_cons.mp hNodup).2 hRest]
        exact Nat.zero_add _

theorem length_crowd_filter
    (i : Fin numShards) :
    (crowd.filter (fun key => shardIdx key = i)).length =
      64 := by
  have hPart :
      ∀ j,
        (seats j 64).filter (fun key => shardIdx key = i) =
          if j = i then seats i 64 else [] := by
    intro j
    by_cases hEq : j = i
    · subst hEq
      rw [if_pos rfl]
      refine List.filter_eq_self.mpr ?_
      intro key hKey
      exact decide_eq_true (shardIdx_of_seats hKey)
    · rw [if_neg hEq]
      refine List.filter_eq_nil_iff.mpr ?_
      intro key hKey
      rw [decide_eq_true_eq, shardIdx_of_seats hKey]
      exact hEq
  unfold crowd
  rw [List.filter_flatMap]
  simp only [hPart]
  rw [length_flatMap_ite _ (List.nodup_finRange _)
    (List.mem_finRange i), length_seats]

namespace L1Cache

/- Shards of one size make up as many times that size. -/
theorem statsUpTo_eq
    {c : L1Cache}
    {size n : Nat}
    (hLen : ∀ i, (c.shards i).items.len = size)
    (hLe : n ≤ numShards) :
    c.statsUpTo n = n * size := by
  induction n with
  | zero => simp [statsUpTo]
  | succ n ih =>
      have hLt : n < numShards := hLe
      simp only [statsUpTo]
      rw [ih (Nat.le_of_lt hLt), dif_pos hLt, hLen,
        Nat.succ_mul]

theorem statsUpTo_le
    {c : L1Cache}
    {cap n : Nat}
    (hLen : ∀ i, (c.shards i).items.len ≤ cap)
    (hLe : n ≤ numShards) :
    c.statsUpTo n ≤ n * cap := by
  induction n with
  | zero => simp [statsUpTo]
  | succ n ih =>
      have hLt : n < numShards := hLe
      have hRest := ih (Nat.le_of_lt hLt)
      have hLast := hLen ⟨n, hLt⟩
      simp only [statsUpTo]
      rw [dif_pos hLt, Nat.succ_mul]
      omega

end L1Cache

/- A run that leaves 64 entries in every shard. -/
theorem exec_crowd
    (maxSize : Int)
    (ttl : Int)
    (clock : Int) :
    ∃ s,
      l1Machine.exec (L1System.new maxSize ttl clock)
          (L1System.sets [] crowd) =
        some s ∧
        s.cache.stats = 16384 := by
  rcases exec_sets_new maxSize ttl clock [] nodup_crowd
      (fun i => le_of_eq (length_crowd_filter i)) with
    ⟨s, hRun, hFilled⟩
  refine ⟨s, hRun, ?_⟩
  have hStats : s.cache.stats = numShards * 64 := by
    refine L1Cache.statsUpTo_eq ?_ (le_refl numShards)
    intro i
    rw [(hFilled i).len_eq, length_crowd_filter]
  rw [hStats]
  rfl

end CacheServer

------------------------------------------------------------
-- The Limit
------------------------------------------------------------

namespace CacheServer

/- What `Stats` says is within the limit and its slack. -/
structure L1System.WithinLimit
    (maxSize : Int)
    (s : L1System) :
    Prop where
  stats : (s.cache.stats : Int) ≤ maxSize + numShards
  calls :
    ∀ call total,
      s.stats call = some ⟨numShards, total⟩ →
        (total : Int) ≤ maxSize + numShards

/-
  `Stats` stays within the configured size and one entry a
  shard, in every run, exactly if the configured size gives
  each shard at least 63 entries.
-/
theorem l1_limit_iff
    (maxSize : Int) :
    (∀ ttl clock actions s,
      l1Machine.exec (L1System.new maxSize ttl clock)
          actions =
        some s →
        s.WithinLimit maxSize) ↔
      63 * numShards ≤ maxSize := by
  constructor
  · intro h
    rcases exec_crowd maxSize 0 0 with ⟨s, hRun, hStats⟩
    have hLe := (h 0 0 _ s hRun).stats
    rw [hStats] at hLe
    simp only [numShards] at hLe ⊢
    omega
  · intro hLarge ttl clock actions s hRun
    have hCap :
        (256 * (perShardCap maxSize).toNat : Int) ≤
          maxSize + numShards := by
      have h64 : 64 ≤ perShardCap maxSize := le_max_left _ _
      rw [Int.toNat_of_nonneg (by omega)]
      simp only [perShardCap, numShards] at hLarge ⊢
      rw [Int.tdiv_eq_ediv_of_nonneg (by omega)]
      push_cast
      omega
    constructor
    · have hLe :=
        L1Cache.statsUpTo_le
          (fun i => (l1_shards_bounded hRun i).len_le)
          (le_refl numShards)
      have hStats :
          s.cache.stats ≤
            256 * (perShardCap maxSize).toNat := hLe
      omega
    · intro call total hCall
      have hTotal :
          total ≤ 256 * (perShardCap maxSize).toNat :=
        (statsBounded_exec hRun call _ hCall).2
      omega

/- A cache for one entry takes 64 entries in each shard. -/
theorem l1_limit_exceeded :
    ¬ ∀ maxSize : Int,
      1 ≤ maxSize →
        ∀ ttl clock actions s,
          l1Machine.exec (L1System.new maxSize ttl clock)
              actions =
            some s →
            s.WithinLimit maxSize := by
  intro h
  rcases exec_crowd 1 5 0 with ⟨s, hRun, hStats⟩
  have hLe := (h 1 (by decide) 5 0 _ s hRun).stats
  rw [hStats] at hLe
  simp only [numShards] at hLe
  omega

end CacheServer
