import CacheServer.Cache.L1Sections
import Mathlib.Data.List.Nodup

/-
  The size bound of the L1 cache.

  A shard holds at most `maxSize` entries because eviction
  always finds a live key: every live key has a slot in
  `keys`, although `keys` also keeps slots of keys that are
  gone. Every shard can be filled: the last byte of a key
  alone can take its hash to any of them.

  Key definitions include:
    * `CacheServer.perShardCap`
    * `CacheServer.L1Shard.Bounded`
    * `CacheServer.lastByte`
    * `CacheServer.L1Shard.Filled`

  Key theorems include:
    * `CacheServer.L1Shard.exists_victim`
    * `CacheServer.L1Shard.evictOne_len`
    * `CacheServer.l1_shards_bounded`
    * `CacheServer.shardIdx_lastByte`
    * `CacheServer.L1System.exec_sets`
    * `CacheServer.l1_capacity`
-/

------------------------------------------------------------
-- The Shard Invariant
------------------------------------------------------------

namespace CacheServer

/- The capacity `NewL1` gives a shard, as an integer. -/
def perShardCap
    (maxSize : Int) :
    Int :=
  max 64 (maxSize.tdiv numShards)

namespace L1Shard

/- Every live key has a slot in `keys`. -/
def KeysCover
    (shard : L1Shard) :
    Prop :=
  ∀ key ∈ shard.items, key ∈ shard.keys

/- A covered shard of capacity `cap` that is not over it. -/
structure Bounded
    (cap : Nat)
    (shard : L1Shard) :
    Prop where
  maxSize_eq : shard.maxSize = cap
  pos : 0 < cap
  len_le : shard.items.len ≤ cap
  cover : shard.KeysCover

/- A live key that has a slot is found by the scan. -/
theorem exists_victim
    {shard : L1Shard}
    (hCover : shard.KeysCover)
    (hPos : 0 < shard.items.len) :
    ∃ idx key, shard.victim? = some (idx, key) := by
  rcases Table.exists_lookup_of_len_pos hPos with
    ⟨key, entry, hLookup⟩
  have hMem : key ∈ shard.items :=
    Table.mem_of_lookup hLookup
  exact
    CyclicScan.find_complete shard.evictIdx
      (hCover key hMem) (by simpa using hMem)

/- An eviction that finds a victim removes one entry. -/
theorem evictOne_len
    {shard : L1Shard}
    {idx : Nat}
    {key : Key}
    (h : shard.victim? = some (idx, key)) :
    shard.evictOne.items.len + 1 = shard.items.len := by
  rw [evictOne_of_some h]
  exact Table.len_erase_of_mem (victim?_spec h).2

/- A full bounded shard has a victim. -/
theorem Bounded.exists_victim
    {cap : Nat}
    {shard : L1Shard}
    (hBounded : shard.Bounded cap)
    (hFull : shard.Full) :
    ∃ idx key, shard.victim? = some (idx, key) := by
  apply L1Shard.exists_victim hBounded.cover
  have hPos := hBounded.pos
  have hEq := hBounded.maxSize_eq
  unfold Full at hFull
  omega

theorem KeysCover.evictOne
    {shard : L1Shard}
    (hCover : shard.KeysCover) :
    shard.evictOne.KeysCover := by
  intro key hMem
  rw [evictOne_keys]
  apply hCover
  rcases Table.exists_lookup_of_mem hMem with ⟨e, hLookup⟩
  rcases shard.evictOne_lookup key with hKeep | hGone
  · rw [hKeep] at hLookup
    exact Table.mem_of_lookup hLookup
  · rw [hGone.2] at hLookup
    cases hLookup

/- Storing gives an absent key its slot. -/
theorem KeysCover.store
    {shard : L1Shard}
    (hCover : shard.KeysCover)
    (key : Key)
    (entry : L1Entry) :
    (shard.store key entry).KeysCover := by
  intro other hMem
  have hOther : other = key ∨ other ∈ shard.items := by
    simpa [L1Shard.store] using hMem
  by_cases hKey : key ∈ shard.items
  · have hOld : other ∈ shard.items := by
      rcases hOther with hEq | hOld
      · exact hEq ▸ hKey
      · exact hOld
    simpa [L1Shard.store, hKey] using hCover other hOld
  · rcases hOther with hEq | hOld
    · simp [L1Shard.store, hKey, hEq]
    · simp [L1Shard.store, hKey, hCover other hOld]

theorem KeysCover.makeRoom
    {shard : L1Shard}
    (hCover : shard.KeysCover)
    (key : Key) :
    (shard.makeRoom key).KeysCover := by
  rcases shard.makeRoom_cases key with h | ⟨_, _, h⟩
  · rw [h]
    exact hCover
  · rw [h]
    exact hCover.evictOne

theorem KeysCover.set
    {shard : L1Shard}
    (hCover : shard.KeysCover)
    (key : Key)
    (entry : L1Entry) :
    (shard.set key entry).KeysCover :=
  (hCover.makeRoom key).store key entry

theorem KeysCover.delete
    {shard : L1Shard}
    (hCover : shard.KeysCover)
    (key : Key) :
    (shard.delete key).KeysCover := by
  intro other hMem
  exact hCover other (AList.mem_erase.mp hMem).2

/- Making room leaves a bounded shard space for the key. -/
theorem Bounded.len_makeRoom
    {cap : Nat}
    {shard : L1Shard}
    (hBounded : shard.Bounded cap)
    {key : Key}
    (hAbsent : key ∉ shard.items) :
    (shard.makeRoom key).items.len < cap := by
  have hEq := hBounded.maxSize_eq
  have hLe := hBounded.len_le
  by_cases hFull : shard.Full
  · rw [makeRoom_of_full hFull hAbsent]
    rcases hBounded.exists_victim hFull with ⟨_, _, h⟩
    have hLen := evictOne_len h
    omega
  · rw [makeRoom_of_not_full hFull]
    unfold Full at hFull
    omega

/- Making room for an absent key does not bring it in. -/
theorem notMem_makeRoom
    {shard : L1Shard}
    {key : Key}
    (hAbsent : key ∉ shard.items) :
    key ∉ (shard.makeRoom key).items := by
  rcases shard.makeRoom_cases key with h | ⟨_, _, h⟩
  · rw [h]
    exact hAbsent
  · rw [h, ← AList.lookup_eq_none]
    have hNone := AList.lookup_eq_none.mpr hAbsent
    rcases shard.evictOne_lookup key with hKeep | hGone
    · rw [hKeep, hNone]
    · exact hGone.2

theorem Bounded.set
    {cap : Nat}
    {shard : L1Shard}
    (hBounded : shard.Bounded cap)
    (key : Key)
    (entry : L1Entry) :
    (shard.set key entry).Bounded cap := by
  refine
    { maxSize_eq := ?_
      pos := hBounded.pos
      len_le := ?_
      cover := hBounded.cover.set key entry }
  · rw [set_maxSize]
    exact hBounded.maxSize_eq
  · by_cases hMem : key ∈ shard.items
    · have hLen := Table.len_insert_of_mem entry hMem
      have hLe := hBounded.len_le
      simp only [L1Shard.set, store, makeRoom_of_mem hMem,
        hLen]
      exact hLe
    · have hLen :=
        Table.len_insert_of_notMem entry
          (notMem_makeRoom hMem)
      have hLt := hBounded.len_makeRoom hMem
      simp only [L1Shard.set, store, hLen]
      omega

theorem Bounded.delete
    {cap : Nat}
    {shard : L1Shard}
    (hBounded : shard.Bounded cap)
    (key : Key) :
    (shard.delete key).Bounded cap := by
  have hLe := Table.len_erase_le shard.items key
  have hOld := hBounded.len_le
  exact
    { maxSize_eq := hBounded.maxSize_eq
      pos := hBounded.pos
      len_le := Nat.le_trans hLe hOld
      cover := hBounded.cover.delete key }

/- `NewL1` makes empty shards of capacity `perShardCap`. -/
theorem bounded_newL1
    (maxSize : Int)
    (ttl : Int)
    (i : Fin numShards) :
    ((newL1 maxSize ttl).shards i).Bounded
      (perShardCap maxSize).toNat := by
  refine
    { maxSize_eq := ?_
      pos := ?_
      len_le := Nat.zero_le _
      cover := ?_ }
  · simp only [newL1, perShardCap]
    by_cases h : maxSize.tdiv numShards < 64
    · rw [if_pos h, max_eq_left (by omega)]
    · rw [if_neg h, max_eq_right (by omega)]
  · have h64 : 64 ≤ perShardCap maxSize := le_max_left _ _
    omega
  · intro key hMem
    exact absurd hMem (AList.notMem_empty key)

end L1Shard

end CacheServer

------------------------------------------------------------
-- Capacity Over Whole Runs
------------------------------------------------------------

namespace CacheServer

/- Every shard stays bounded in every interleaving. -/
theorem l1_shards_bounded
    {maxSize : Int}
    {ttl : Int}
    {clock : Int}
    {actions : List L1Action}
    {s : L1System}
    (hRun :
      l1Machine.exec (L1System.new maxSize ttl clock)
        actions = some s)
    (i : Fin numShards) :
    (s.cache.shards i).Bounded (perShardCap maxSize).toNat :=
  L1System.exec_shards
    (fun _ key entry h => h.set key entry)
    (fun _ key h => h.delete key)
    hRun (L1Shard.bounded_newL1 maxSize ttl) i

/- A `Stats` call has added at most `cap` for each shard. -/
def StatsBounded
    (cap : Nat)
    (s : L1System) :
    Prop :=
  ∀ call state,
    s.stats call = some state →
      state.next ≤ numShards ∧ state.total ≤ state.next * cap

theorem statsBounded_putStats
    {cap call : Nat}
    {s : L1System}
    {state : L1StatsState}
    (hStats : StatsBounded cap s)
    (hNext : state.next ≤ numShards)
    (hTotal : state.total ≤ state.next * cap) :
    StatsBounded cap (s.putStats call state) := by
  intro other state' h
  by_cases hEq : other = call
  · subst hEq
    have hSame : state = state' := by
      simpa [L1System.putStats] using h
    subst hSame
    exact ⟨hNext, hTotal⟩
  · apply hStats other
    simpa [L1System.putStats, hEq] using h

/- One section keeps the bound of every `Stats` call. -/
theorem statsBounded_step
    {cap : Nat}
    {s s' : L1System}
    {a : L1Action}
    (hShards : ∀ i, (s.cache.shards i).Bounded cap)
    (hStats : StatsBounded cap s)
    (h : s.step a = some s') :
    StatsBounded cap s' := by
  cases a with
  | getRead call key =>
      rcases (L1System.getRead_eq h).2 with
        ⟨_, rfl⟩ | ⟨_, _, rfl⟩
      · exact hStats
      · exact hStats
  | getCheck call =>
      rcases L1System.getCheck_eq h with
        ⟨_, _, _, ⟨_, rfl⟩ | ⟨_, rfl⟩⟩
      · exact hStats
      · exact hStats
  | getLazyDelete call =>
      rcases L1System.getLazyDelete_eq h with ⟨_, _, _, rfl⟩
      exact hStats
  | set key value =>
      simp only [L1System.step, Option.some.injEq] at h
      subst h
      exact hStats
  | delete key =>
      simp only [L1System.step, Option.some.injEq] at h
      subst h
      exact hStats
  | statsCall call =>
      simp only [L1System.step] at h
      cases hCall : s.stats call with
      | some state =>
          simp [hCall] at h
      | none =>
          simp only [hCall, Option.some.injEq] at h
          subst h
          exact
            statsBounded_putStats hStats (Nat.zero_le _)
              (by simp)
  | statsRead call =>
      rcases L1System.statsRead_eq h with
        ⟨state, hNext, hCall, rfl⟩
      have hTotal := (hStats call state hCall).2
      have hLen := (hShards ⟨state.next, hNext⟩).len_le
      apply statsBounded_putStats hStats
      · exact hNext
      · simp only [Nat.succ_mul]
        exact Nat.add_le_add hTotal hLen
  | tick elapsed =>
      simp only [L1System.step, Option.some.injEq] at h
      subst h
      exact hStats

theorem statsBounded_exec
    {maxSize : Int}
    {ttl : Int}
    {clock : Int}
    {actions : List L1Action}
    {s : L1System}
    (hRun :
      l1Machine.exec (L1System.new maxSize ttl clock)
        actions = some s) :
    StatsBounded (perShardCap maxSize).toNat s := by
  let cap := (perShardCap maxSize).toNat
  have hBoth :
      (∀ i, (s.cache.shards i).Bounded cap) ∧
        StatsBounded cap s := by
    refine
      Machine.exec_invariant
        (I := fun t : L1System =>
          (∀ i, (t.cache.shards i).Bounded cap) ∧
            StatsBounded cap t)
        ?_ hRun ?_
    · intro t a t' hInv hStep
      refine ⟨?_, statsBounded_step hInv.1 hInv.2 hStep⟩
      exact
        L1System.step_shards
          (fun _ key entry h => h.set key entry)
          (fun _ key h => h.delete key)
          hStep hInv.1
    · refine ⟨L1Shard.bounded_newL1 maxSize ttl, ?_⟩
      intro call state h
      cases h
  exact hBoth.2

end CacheServer

------------------------------------------------------------
-- Keys For Every Shard
------------------------------------------------------------

namespace CacheServer

/- The byte that takes a key to shard `i`. -/
def lastByte
    (key : Key)
    (i : Fin numShards) :
    UInt8 :=
  (fnv1a key).toUInt8 ^^^ (UInt8.ofNat i * 155)

theorem fnv1a_append
    (key : Key)
    (b : UInt8) :
    (fnv1a (key ++ [b])).toUInt8 =
      ((fnv1a key).toUInt8 ^^^ b) * 147 := by
  unfold fnv1a
  rw [List.foldl_append]
  simp only [List.foldl_cons, List.foldl_nil,
    UInt32.toUInt8_mul, UInt32.toUInt8_xor,
    UInt8.toUInt8_toUInt32]
  rfl

/- 155 is the inverse of the last byte of the FNV prime. -/
theorem shardIdx_lastByte
    (key : Key)
    (i : Fin numShards) :
    shardIdx (key ++ [lastByte key i]) = i := by
  apply Fin.ext
  have hByte :
      (fnv1a (key ++ [lastByte key i])).toUInt8 =
        UInt8.ofNat i := by
    rw [fnv1a_append, lastByte, ← UInt8.xor_assoc,
      UInt8.xor_self, UInt8.zero_xor, UInt8.mul_assoc]
    exact UInt8.mul_one _
  have hLow := congrArg UInt8.toNat hByte
  have hLt : (i : Nat) < 256 := i.isLt
  simp only [UInt32.toNat_toUInt8, UInt8.toNat_ofNat'] at hLow
  simp only [shardIdx, numShards]
  omega

end CacheServer

------------------------------------------------------------
-- Filling A Shard
------------------------------------------------------------

namespace CacheServer

namespace L1Shard

/- The shard holds these keys, each in one slot, in order. -/
structure Filled
    (shard : L1Shard)
    (keys : List Key) :
    Prop where
  keys_eq : shard.keys = keys
  mem : ∀ key, key ∈ shard.items ↔ key ∈ keys
  len_eq : shard.items.len = keys.length
  start : shard.evictIdx = 0

/- A new key goes into a shard that has room. -/
theorem Filled.set
    {shard : L1Shard}
    {keys : List Key}
    {key : Key}
    (hFilled : shard.Filled keys)
    (hNew : key ∉ keys)
    (hRoom : keys.length < shard.maxSize)
    (entry : L1Entry) :
    (shard.set key entry).Filled (keys ++ [key]) := by
  have hAbsent : key ∉ shard.items := by
    rw [hFilled.mem]
    exact hNew
  have hNotFull : ¬ shard.Full := by
    unfold Full
    rw [hFilled.len_eq]
    omega
  have hSet :
      shard.set key entry = shard.store key entry := by
    unfold L1Shard.set
    rw [makeRoom_of_not_full hNotFull]
  rw [hSet]
  refine ⟨?_, ?_, ?_, hFilled.start⟩
  · simp [store, hAbsent, hFilled.keys_eq]
  · intro other
    simp [store, hFilled.mem, or_comm]
  · simp only [store]
    rw [Table.len_insert_of_notMem entry hAbsent,
      hFilled.len_eq, List.length_append,
      List.length_singleton]

/- So do all keys of a list, if they are new and few. -/
theorem Filled.foldl_set
    {shard : L1Shard}
    {keys : List Key}
    {more : List Key}
    (hFilled : shard.Filled keys)
    (hNodup : (keys ++ more).Nodup)
    (hRoom : (keys ++ more).length ≤ shard.maxSize)
    (entry : L1Entry) :
    (more.foldl (fun t key => t.set key entry) shard).Filled
      (keys ++ more) := by
  induction more generalizing shard keys with
  | nil => simpa using hFilled
  | cons key more ih =>
      have hSplit :
          keys ++ key :: more = (keys ++ [key]) ++ more := by
        simp
      rw [hSplit] at hNodup hRoom ⊢
      have hNew : key ∉ keys := by
        have hFirst := (List.nodup_append.mp hNodup).1
        intro hMem
        have hApart := (List.nodup_append.mp hFirst).2.2
        exact hApart key hMem key (by simp) rfl
      have hShort : keys.length < shard.maxSize := by
        simp only [List.length_append,
          List.length_singleton] at hRoom
        omega
      exact
        ih (hFilled.set hNew hShort entry) hNodup
          (by rw [set_maxSize]; exact hRoom)

end L1Shard

namespace L1System

/- One `Set` after the other, while the clock stands. -/
def sets
    (value : Value)
    (keys : List Key) :
    List L1Action :=
  keys.map (fun key => .set key value)

/- Each shard is set the keys that belong to it. -/
theorem exec_sets
    (value : Value)
    (keys : List Key)
    (s : L1System) :
    ∃ s',
      l1Machine.exec s (sets value keys) = some s' ∧
        s'.clock = s.clock ∧
          s'.cache.ttl = s.cache.ttl ∧
            ∀ i,
              s'.cache.shards i =
                (keys.filter
                  (fun key => shardIdx key = i)).foldl
                  (fun t key =>
                    t.set key
                      { value := value
                        expiresAt :=
                          s.clock + s.cache.ttl })
                  (s.cache.shards i) := by
  induction keys generalizing s with
  | nil => exact ⟨s, rfl, rfl, rfl, fun i => rfl⟩
  | cons key keys ih =>
      rcases ih { s with
          cache := s.cache.set s.clock key value } with
        ⟨s', hRun, hClock, hTtl, hShards⟩
      refine
        ⟨s', Machine.exec_cons.mpr ⟨_, rfl, hRun⟩, hClock,
          hTtl, fun i => ?_⟩
      rw [hShards i]
      have hTtlSame :
          (s.cache.set s.clock key value).ttl =
            s.cache.ttl := rfl
      rw [hTtlSame]
      by_cases hEq : shardIdx key = i
      · subst hEq
        rw [List.filter_cons_of_pos (by simp)]
        simp [L1Cache.set, L1Cache.modifyShard,
          L1Cache.getShard]
      · rw [List.filter_cons_of_neg (by simpa using hEq)]
        simp [L1Cache.set, L1Cache.modifyShard,
          Ne.symm hEq]

end L1System

/- A new shard is filled with no key. -/
theorem filled_newL1
    (maxSize : Int)
    (ttl : Int)
    (i : Fin numShards) :
    ((newL1 maxSize ttl).shards i).Filled [] :=
  ⟨rfl, fun key => by simp [newL1], rfl, rfl⟩

/- A new cache with distinct keys set, few for each shard. -/
theorem exec_sets_new
    (maxSize : Int)
    (ttl : Int)
    (clock : Int)
    (value : Value)
    {keys : List Key}
    (hNodup : keys.Nodup)
    (hFew :
      ∀ i,
        (keys.filter (fun key => shardIdx key = i)).length ≤
          64) :
    ∃ s,
      l1Machine.exec (L1System.new maxSize ttl clock)
          (L1System.sets value keys) =
        some s ∧
        ∀ i,
          (s.cache.shards i).Filled
            (keys.filter (fun key => shardIdx key = i)) := by
  rcases L1System.exec_sets value keys
      (L1System.new maxSize ttl clock) with
    ⟨s, hRun, _, _, hShards⟩
  refine ⟨s, hRun, fun i => ?_⟩
  rw [hShards i]
  have hCap := (L1Shard.bounded_newL1 maxSize ttl i).maxSize_eq
  have h64 : 64 ≤ perShardCap maxSize := le_max_left _ _
  have hSize : 64 ≤ ((newL1 maxSize ttl).shards i).maxSize := by
    omega
  have hLen := hFew i
  refine (filled_newL1 maxSize ttl i).foldl_set ?_ ?_ _
  · exact hNodup.filter _
  · exact le_trans hLen hSize

/- Keys of shard `i`, as long as `n` is at most 256. -/
def seats
    (i : Fin numShards)
    (n : Nat) :
    List Key :=
  (List.range n).map
    (fun a =>
      [UInt8.ofNat a] ++ [lastByte [UInt8.ofNat a] i])

theorem length_seats
    (i : Fin numShards)
    (n : Nat) :
    (seats i n).length = n := by
  simp [seats]

theorem shardIdx_of_seats
    {i : Fin numShards}
    {n : Nat}
    {key : Key}
    (hMem : key ∈ seats i n) :
    shardIdx key = i := by
  rcases List.mem_map.mp hMem with ⟨a, _, rfl⟩
  exact shardIdx_lastByte _ i

theorem nodup_seats
    (i : Fin numShards)
    {n : Nat}
    (hFew : n ≤ 256) :
    (seats i n).Nodup := by
  refine List.Nodup.map_on ?_ List.nodup_range
  intro a hA b hB hEq
  have hFirst : UInt8.ofNat a = UInt8.ofNat b :=
    (List.cons.inj hEq).1
  have hNat := congrArg UInt8.toNat hFirst
  simp only [UInt8.toNat_ofNat'] at hNat
  have hLtA := List.mem_range.mp hA
  have hLtB := List.mem_range.mp hB
  omega

/- A run that fills shard `i`. -/
theorem exec_seats_new
    (i : Fin numShards) :
    ∃ s,
      l1Machine.exec (L1System.new 0 5 0)
          (L1System.sets [] (seats i 64)) =
        some s ∧
        (s.cache.shards i).Filled (seats i 64) ∧
          (s.cache.shards i).maxSize = 64 := by
  have hFew :
      ∀ j,
        ((seats i 64).filter
          (fun key => shardIdx key = j)).length ≤ 64 := by
    intro j
    have hLe :=
      List.length_filter_le
        (fun key => decide (shardIdx key = j)) (seats i 64)
    rwa [length_seats] at hLe
  have hNodup : (seats i 64).Nodup :=
    nodup_seats i (by decide)
  rcases exec_sets_new 0 5 0 [] hNodup hFew with
    ⟨s, hRun, hFilled⟩
  have hAll :
      (seats i 64).filter (fun key => shardIdx key = i) =
        seats i 64 := by
    refine List.filter_eq_self.mpr ?_
    intro key hKey
    exact decide_eq_true (shardIdx_of_seats hKey)
  have hSeats := hFilled i
  rw [hAll] at hSeats
  have hSize := (l1_shards_bounded hRun i).maxSize_eq
  have hCap : (perShardCap 0).toNat = 64 := rfl
  rw [hCap] at hSize
  exact ⟨s, hRun, hSeats, hSize⟩

/- A key of shard `i` that is not one of these. -/
def latecomer
    (i : Fin numShards) :
    Key :=
  [64] ++ [lastByte [64] i]

theorem latecomer_notMem
    (i : Fin numShards) :
    latecomer i ∉ seats i 64 := by
  intro hMem
  rcases List.mem_map.mp hMem with ⟨a, hA, hEq⟩
  have hLt := List.mem_range.mp hA
  have hFirst : UInt8.ofNat a = 64 := (List.cons.inj hEq).1
  have hNat := congrArg UInt8.toNat hFirst
  simp only [UInt8.toNat_ofNat'] at hNat
  change a % 2 ^ 8 = 64 at hNat
  omega

theorem getShard_latecomer
    (c : L1Cache)
    (i : Fin numShards) :
    c.getShard (latecomer i) = c.shards i :=
  congrArg c.shards (shardIdx_lastByte [64] i)

end CacheServer

------------------------------------------------------------
-- The Bound
------------------------------------------------------------

namespace CacheServer

/-
  Every shard holds at most `perShardCap maxSize` entries, a
  `Set` of an absent key into a full shard evicts exactly one
  live key, and `Stats` returns at most the sum of the
  capacities.
-/
theorem l1_capacity
    (maxSize : Int)
    (ttl : Int)
    (clock : Int)
    (actions : List L1Action)
    (s : L1System)
    (hRun :
      l1Machine.exec (L1System.new maxSize ttl clock)
        actions = some s) :
    (∀ i,
      ((s.cache.shards i).items.len : Int) ≤
        max 64 (maxSize.tdiv 256)) ∧
    (∀ i key,
      key ∉ (s.cache.shards i).items →
        (s.cache.shards i).maxSize ≤
            (s.cache.shards i).items.len →
          ∃ idx victim,
            (s.cache.shards i).victim? = some (idx, victim) ∧
              victim ∈ (s.cache.shards i).items ∧
              (s.cache.shards i).evictOne.items =
                (s.cache.shards i).items.erase victim) ∧
    (∀ call total,
      s.stats call = some ⟨numShards, total⟩ →
        (total : Int) ≤
          256 * max 64 (maxSize.tdiv 256)) := by
  have hCap :
      ((perShardCap maxSize).toNat : Int) =
        max 64 (maxSize.tdiv 256) := by
    have h64 : 64 ≤ perShardCap maxSize := le_max_left _ _
    rw [Int.toNat_of_nonneg (by omega)]
    rfl
  refine ⟨?_, ?_, ?_⟩
  · intro i
    have hLe := (l1_shards_bounded hRun i).len_le
    rw [← hCap]
    exact_mod_cast hLe
  · intro i key _hAbsent hFull
    rcases (l1_shards_bounded hRun i).exists_victim hFull with
      ⟨idx, victim, hVictim⟩
    refine ⟨idx, victim, hVictim, ?_, ?_⟩
    · exact (L1Shard.victim?_spec hVictim).2
    · rw [L1Shard.evictOne_of_some hVictim]
  · intro call total hCall
    have hTotal :
        total ≤ 256 * (perShardCap maxSize).toNat :=
      (statsBounded_exec hRun call _ hCall).2
    rw [← hCap]
    omega

/- A full shard, and a new key that one of its keys goes for. -/
theorem l1_capacity_latecomer :
    ∃ s t key,
      l1Machine.exec (L1System.new 0 5 0)
          (L1System.sets [] (seats (shardIdx []) 64)) =
        some s ∧
        l1Machine.exec s [.set key []] = some t ∧
          (s.cache.getShard key).items.len = 64 ∧
            key ∉ (s.cache.getShard key).items ∧
              (∃ victim ∈ (s.cache.getShard key).items,
                (s.cache.getShard key).evictOne.items =
                  (s.cache.getShard key).items.erase
                    victim) ∧
                ((t.cache.getShard key).items.len : Int) ≤
                  64 := by
  rcases exec_seats_new (shardIdx []) with
    ⟨s, hRun, hFilled, hSize⟩
  let key := latecomer (shardIdx [])
  have hShard := getShard_latecomer s.cache (shardIdx [])
  have hLen : (s.cache.getShard key).items.len = 64 := by
    rw [hShard, hFilled.len_eq, length_seats]
  have hFull :
      (s.cache.getShard key).maxSize ≤
        (s.cache.getShard key).items.len := by
    rw [hLen, hShard, hSize]
  have hAbsent : key ∉ (s.cache.getShard key).items := by
    rw [hShard, hFilled.mem]
    exact latecomer_notMem _
  rcases (l1_capacity 0 5 0 _ s hRun).2.1 (shardIdx key) key
      hAbsent hFull with
    ⟨_, victim, _, hLive, hEvict⟩
  have hNext :
      l1Machine.exec s [.set key []] = some _ := rfl
  have hBound :=
    (l1_capacity 0 5 0 _ _
      (Machine.exec_append.mpr ⟨s, hRun, hNext⟩)).1
      (shardIdx key)
  exact
    ⟨s, _, key, hRun, hNext, hLen, hAbsent,
      ⟨victim, hLive, hEvict⟩, hBound⟩

end CacheServer
