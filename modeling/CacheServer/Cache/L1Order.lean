import CacheServer.Cache.L1Ring

/-
  The order in which a shard evicts.

  The live keys wait in the slots from `evictIdx` on, and the
  first of these slots that holds one says who is next. A key
  that comes back waits in the first slot it has there, which
  may be one from before it left.

  Key definitions include:
    * `CacheServer.L1Shard.queue`
    * `CacheServer.L1Shard.Ahead`
    * `CacheServer.L1Shard.Scan`
    * `CacheServer.ResidencyLog`
    * `CacheServer.L1Shard.InsertsInOrder`
    * `CacheServer.L1Shard.InLine`

  Key theorems include:
    * `CacheServer.L1Shard.exists_scan`
    * `CacheServer.L1Shard.Ahead.set`
    * `CacheServer.L1Shard.InLine.set`
    * `CacheServer.l1_evicts_oldest`
-/

------------------------------------------------------------
-- The Slots That Wait
------------------------------------------------------------

namespace CacheServer

namespace L1Shard

/- The slots that eviction has not gone by. -/
def queue
    (shard : L1Shard) :
    List Key :=
  shard.keys.drop shard.evictIdx

/- Every live key waits in a slot that is still to come. -/
structure Ahead
    (shard : L1Shard) :
    Prop where
  idx_le : shard.evictIdx ≤ shard.keys.length
  waits : ∀ key ∈ shard.items, key ∈ shard.queue

/- `victim` has the first slot in the queue with a live key. -/
structure Scan
    (shard : L1Shard)
    (pre : List Key)
    (victim : Key)
    (post : List Key) :
    Prop where
  queue_eq : shard.queue = pre ++ victim :: post
  dead : ∀ key ∈ pre, key ∉ shard.items
  live : victim ∈ shard.items

variable {shard : L1Shard}
variable {pre post : List Key}
variable {victim : Key}

theorem exists_scan
    {key : Key}
    (hAhead : shard.Ahead)
    (hLive : key ∈ shard.items) :
    ∃ pre victim post, shard.Scan pre victim post := by
  let live : Key → Bool := fun k => decide (k ∈ shard.items)
  have hFound : (shard.queue.find? live).isSome := by
    rw [List.find?_isSome]
    exact ⟨key, hAhead.waits key hLive, decide_eq_true hLive⟩
  rcases Option.isSome_iff_exists.mp hFound with
    ⟨victim, hVictim⟩
  rcases List.find?_eq_some_iff_append.mp hVictim with
    ⟨hHit, pre, post, hQueue, hMiss⟩
  refine ⟨pre, victim, post, hQueue, ?_, of_decide_eq_true hHit⟩
  intro other hPre
  have hDead := hMiss other hPre
  simpa [live] using hDead

theorem Ahead.exists_scan_of_len
    (hAhead : shard.Ahead)
    (hTwo : 2 ≤ shard.items.len) :
    ∃ pre victim post, shard.Scan pre victim post := by
  have hPos : 0 < shard.items.len := by omega
  rcases Table.exists_lookup_of_len_pos hPos with
    ⟨key, entry, hLookup⟩
  exact exists_scan hAhead (Table.mem_of_lookup hLookup)

/- The scan of `evictOne` stops there, without turning over. -/
theorem Scan.victim?_eq
    (hScan : shard.Scan pre victim post) :
    shard.victim? =
      some (shard.evictIdx + pre.length, victim) := by
  refine CyclicScan.find_of_drop hScan.queue_eq ?_ ?_
  · intro key hPre
    exact decide_eq_false (hScan.dead key hPre)
  · exact decide_eq_true hScan.live

/- Another live key waits behind the victim. -/
theorem Scan.mem_post
    {other : Key}
    (hScan : shard.Scan pre victim post)
    (hAhead : shard.Ahead)
    (hLive : other ∈ shard.items)
    (hNe : other ≠ victim) :
    other ∈ post := by
  have hMem := hAhead.waits other hLive
  rw [hScan.queue_eq] at hMem
  rcases List.mem_append.mp hMem with hPre | hRest
  · exact absurd hLive (hScan.dead other hPre)
  · rcases List.mem_cons.mp hRest with hEq | hPost
    · exact absurd hEq hNe
    · exact hPost

theorem exists_other
    (hLive : victim ∈ shard.items)
    (hTwo : 2 ≤ shard.items.len) :
    ∃ other ∈ shard.items, other ≠ victim := by
  have hLen := Table.len_erase_of_mem hLive
  have hPos : 0 < Table.len (shard.items.erase victim) := by
    omega
  rcases Table.exists_lookup_of_len_pos hPos with
    ⟨other, entry, hLookup⟩
  have hMem := AList.mem_erase.mp (Table.mem_of_lookup hLookup)
  exact ⟨other, hMem.2, hMem.1⟩

/- The victim is not the last: another live key waits. -/
theorem Scan.before_end
    (hScan : shard.Scan pre victim post)
    (hAhead : shard.Ahead)
    (hTwo : 2 ≤ shard.items.len) :
    shard.evictIdx + pre.length + 1 < shard.keys.length := by
  rcases exists_other hScan.live hTwo with
    ⟨other, hLive, hNe⟩
  have hPost :=
    List.length_pos_of_mem
      (hScan.mem_post hAhead hLive hNe)
  have hLen := congrArg List.length hScan.queue_eq
  rw [queue, List.length_drop, List.length_append,
    List.length_cons] at hLen
  omega

/- Eviction moves on to the slot behind the victim's. -/
theorem Scan.evictOne_eq
    (hScan : shard.Scan pre victim post)
    (hAhead : shard.Ahead)
    (hTwo : 2 ≤ shard.items.len) :
    shard.evictOne =
      { shard with
        items := shard.items.erase victim
        evictIdx := shard.evictIdx + pre.length + 1 } := by
  rw [evictOne_of_some hScan.victim?_eq,
    Nat.mod_eq_of_lt (hScan.before_end hAhead hTwo)]

theorem Scan.items_evictOne
    (hScan : shard.Scan pre victim post)
    (hAhead : shard.Ahead)
    (hTwo : 2 ≤ shard.items.len) :
    shard.evictOne.items = shard.items.erase victim :=
  congrArg L1Shard.items (hScan.evictOne_eq hAhead hTwo)

theorem Scan.queue_evictOne
    (hScan : shard.Scan pre victim post)
    (hAhead : shard.Ahead)
    (hTwo : 2 ≤ shard.items.len) :
    shard.evictOne.queue = post := by
  rw [hScan.evictOne_eq hAhead hTwo]
  have hQueue := hScan.queue_eq
  unfold queue at hQueue ⊢
  rw [Nat.add_assoc, ← List.drop_drop, hQueue,
    ← List.drop_drop, List.drop_left]
  rfl

theorem Ahead.evictOne
    (hAhead : shard.Ahead)
    (hTwo : 2 ≤ shard.items.len) :
    shard.evictOne.Ahead := by
  rcases hAhead.exists_scan_of_len hTwo with
    ⟨pre, victim, post, hScan⟩
  constructor
  · rw [hScan.evictOne_eq hAhead hTwo]
    exact (hScan.before_end hAhead hTwo).le
  · intro other hLive
    rw [hScan.queue_evictOne hAhead hTwo]
    rw [hScan.items_evictOne hAhead hTwo] at hLive
    have hMem := AList.mem_erase.mp hLive
    exact hScan.mem_post hAhead hMem.2 hMem.1

/- A new slot is put at the end of the queue. -/
theorem queue_store
    {key : Key}
    (hIdx : shard.evictIdx ≤ shard.keys.length)
    (hAbsent : key ∉ shard.items)
    (entry : L1Entry) :
    (shard.store key entry).queue = shard.queue ++ [key] := by
  simp only [queue, store, if_neg hAbsent]
  exact List.drop_append_of_le_length hIdx

theorem Ahead.store
    (hAhead : shard.Ahead)
    (key : Key)
    (entry : L1Entry) :
    (shard.store key entry).Ahead := by
  by_cases hKey : key ∈ shard.items
  · have hQueue :
        (shard.store key entry).queue = shard.queue := by
      simp [queue, L1Shard.store, hKey]
    constructor
    · simpa [L1Shard.store, hKey] using hAhead.idx_le
    · intro other hLive
      rw [hQueue]
      have hOther : other = key ∨ other ∈ shard.items := by
        simpa [L1Shard.store] using hLive
      rcases hOther with rfl | hOld
      · exact hAhead.waits other hKey
      · exact hAhead.waits other hOld
  · constructor
    · have hIdx := hAhead.idx_le
      simp only [L1Shard.store, if_neg hKey,
        List.length_append]
      omega
    · intro other hLive
      rw [queue_store hAhead.idx_le hKey, List.mem_append]
      have hOther : other = key ∨ other ∈ shard.items := by
        simpa [L1Shard.store] using hLive
      rcases hOther with rfl | hOld
      · exact Or.inr List.mem_cons_self
      · exact Or.inl (hAhead.waits other hOld)

theorem Ahead.makeRoom
    {cap : Nat}
    (hAhead : shard.Ahead)
    (hBounded : shard.Bounded cap)
    (hTwo : 2 ≤ cap)
    (key : Key) :
    (shard.makeRoom key).Ahead := by
  rcases shard.makeRoom_cases key with h | ⟨hFull, _, h⟩
  · rw [h]
    exact hAhead
  · rw [h]
    have hSize := hBounded.maxSize_eq
    unfold Full at hFull
    exact hAhead.evictOne (by omega)

theorem Ahead.set
    {cap : Nat}
    (hAhead : shard.Ahead)
    (hBounded : shard.Bounded cap)
    (hTwo : 2 ≤ cap)
    (key : Key)
    (entry : L1Entry) :
    (shard.set key entry).Ahead :=
  (hAhead.makeRoom hBounded hTwo key).store key entry

theorem Ahead.delete
    (hAhead : shard.Ahead)
    (key : Key) :
    (shard.delete key).Ahead := by
  refine ⟨hAhead.idx_le, ?_⟩
  intro other hMem
  exact hAhead.waits other (AList.mem_erase.mp hMem).2

end L1Shard

/- A bounded shard for two whose live keys wait ahead. -/
structure L1Shard.Sound
    (cap : Nat)
    (shard : L1Shard) :
    Prop where
  two : 2 ≤ cap
  bounded : shard.Bounded cap
  ahead : shard.Ahead

theorem L1Shard.Sound.set
    {cap : Nat}
    {shard : L1Shard}
    (h : shard.Sound cap)
    (key : Key)
    (entry : L1Entry) :
    (shard.set key entry).Sound cap :=
  ⟨h.two, h.bounded.set key entry,
    h.ahead.set h.bounded h.two key entry⟩

theorem L1Shard.Sound.delete
    {cap : Nat}
    {shard : L1Shard}
    (h : shard.Sound cap)
    (key : Key) :
    (shard.delete key).Sound cap :=
  ⟨h.two, h.bounded.delete key, h.ahead.delete key⟩

theorem L1Shard.Sound.two_le_len
    {cap : Nat}
    {shard : L1Shard}
    (h : shard.Sound cap)
    (hFull : shard.Full) :
    2 ≤ shard.items.len := by
  have hTwo := h.two
  have hSize := h.bounded.maxSize_eq
  unfold L1Shard.Full at hFull
  omega

theorem L1Shard.sound_newL1
    (maxSize : Int)
    (ttl : Int)
    (i : Fin numShards) :
    ((newL1 maxSize ttl).shards i).Sound
      (perShardCap maxSize).toNat := by
  have h64 : 64 ≤ perShardCap maxSize := le_max_left _ _
  refine
    ⟨by omega, L1Shard.bounded_newL1 maxSize ttl i,
      Nat.zero_le _, fun key hMem => ?_⟩
  exact absurd hMem (AList.notMem_empty key)

end CacheServer

------------------------------------------------------------
-- Residencies
------------------------------------------------------------

namespace CacheServer

/- The number of insertions, and the last one of each key. -/
structure ResidencyLog where
  now : Nat
  born : Key → Nat

/- A `Set` of an absent key begins a residency. -/
def L1System.logInsert
    (s : L1System)
    (a : L1Action)
    (log : ResidencyLog) :
    ResidencyLog :=
  match a with
  | .set key _ =>
      if key ∈ (s.cache.getShard key).items then
        log
      else
        { now := log.now + 1
          born := Function.update log.born key log.now }
  | _ => log

namespace L1Shard

/- What waits, but for dead slots that eviction goes by. -/
def waiting
    (shard : L1Shard) :
    List Key :=
  if shard.Full then
    shard.queue.dropWhile
      (fun key => decide (key ∉ shard.items))
  else
    shard.queue

/- A key that comes back has no slot before a live key's. -/
def InsertsInOrder
    (shard : L1Shard)
    (key : Key) :
    Prop :=
  key ∉ shard.items →
    ∀ other ∈ shard.items,
      shard.waiting.idxOf other < shard.waiting.idxOf key

/- The live keys wait in the order of their residencies. -/
def InLine
    (shard : L1Shard)
    (born : Key → Nat) :
    Prop :=
  ∀ first ∈ shard.items, ∀ last ∈ shard.items,
    shard.queue.idxOf first < shard.queue.idxOf last →
      born first < born last

variable {shard : L1Shard}
variable {pre post : List Key}
variable {victim : Key}
variable {born : Key → Nat}

theorem Scan.idxOf_victim
    (hScan : shard.Scan pre victim post) :
    shard.queue.idxOf victim = pre.length := by
  have hPre : victim ∉ pre := by
    intro hMem
    exact hScan.dead victim hMem hScan.live
  rw [hScan.queue_eq, List.idxOf_append_of_notMem hPre,
    List.idxOf_cons_self]
  rfl

theorem Scan.idxOf_other
    {other : Key}
    (hScan : shard.Scan pre victim post)
    (hLive : other ∈ shard.items)
    (hNe : other ≠ victim) :
    shard.queue.idxOf other =
      pre.length + (post.idxOf other + 1) := by
  have hPre : other ∉ pre := by
    intro hMem
    exact hScan.dead other hMem hLive
  rw [hScan.queue_eq, List.idxOf_append_of_notMem hPre,
    List.idxOf_cons_ne _ (Ne.symm hNe)]

/- The victim began its residency before every other key. -/
theorem InLine.born_victim
    {other : Key}
    (hLine : shard.InLine born)
    (hScan : shard.Scan pre victim post)
    (hLive : other ∈ shard.items)
    (hNe : other ≠ victim) :
    born victim < born other := by
  apply hLine victim hScan.live other hLive
  rw [hScan.idxOf_victim, hScan.idxOf_other hLive hNe]
  omega

theorem InLine.delete
    (hLine : shard.InLine born)
    (key : Key) :
    (shard.delete key).InLine born := by
  intro first hFirst last hLast
  exact
    hLine first (AList.mem_erase.mp hFirst).2 last
      (AList.mem_erase.mp hLast).2

theorem Scan.inLine_evictOne
    (hScan : shard.Scan pre victim post)
    (hAhead : shard.Ahead)
    (hTwo : 2 ≤ shard.items.len)
    (hLine : shard.InLine born) :
    shard.evictOne.InLine born := by
  intro first hFirst last hLast hLt
  rw [hScan.queue_evictOne hAhead hTwo] at hLt
  rw [hScan.items_evictOne hAhead hTwo] at hFirst hLast
  have hMemFirst := AList.mem_erase.mp hFirst
  have hMemLast := AList.mem_erase.mp hLast
  apply hLine first hMemFirst.2 last hMemLast.2
  rw [hScan.idxOf_other hMemFirst.2 hMemFirst.1,
    hScan.idxOf_other hMemLast.2 hMemLast.1]
  omega

/- In a full shard the queue that waits starts at the victim. -/
theorem Scan.waiting_eq
    (hScan : shard.Scan pre victim post)
    (hFull : shard.Full) :
    shard.waiting = victim :: post := by
  rw [waiting, if_pos hFull, hScan.queue_eq,
    List.dropWhile_append_of_pos]
  · rw [List.dropWhile_cons_of_neg]
    simpa using hScan.live
  · intro key hPre
    exact decide_eq_true (hScan.dead key hPre)

/- Room is made for a key behind all that stay. -/
theorem InsertsInOrder.makeRoom
    {key : Key}
    {cap : Nat}
    (hOrder : shard.InsertsInOrder key)
    (hAbsent : key ∉ shard.items)
    (hShard : shard.Sound cap)
    (hLine : shard.InLine born) :
    (shard.makeRoom key).InLine born ∧
      ∀ other ∈ (shard.makeRoom key).items,
        (shard.makeRoom key).queue.idxOf other <
          (shard.makeRoom key).queue.idxOf key := by
  have hWait := hOrder hAbsent
  by_cases hFull : shard.Full
  · have hAhead := hShard.ahead
    have hLen := hShard.two_le_len hFull
    rcases hAhead.exists_scan_of_len hLen with
      ⟨pre, victim, post, hScan⟩
    rw [makeRoom_of_full hFull hAbsent]
    refine ⟨hScan.inLine_evictOne hAhead hLen hLine, ?_⟩
    intro other hLive
    rw [hScan.queue_evictOne hAhead hLen]
    rw [hScan.items_evictOne hAhead hLen] at hLive
    have hMem := AList.mem_erase.mp hLive
    have hNe : key ≠ victim := by
      intro hEq
      exact hAbsent (hEq ▸ hScan.live)
    have hLt := hWait other hMem.2
    rw [hScan.waiting_eq hFull,
      List.idxOf_cons_ne _ (Ne.symm hMem.1),
      List.idxOf_cons_ne _ (Ne.symm hNe)] at hLt
    omega
  · rw [makeRoom_of_not_full hFull]
    rw [waiting, if_neg hFull] at hWait
    exact ⟨hLine, hWait⟩

/- A key stored behind all others is the youngest. -/
theorem InLine.store
    {key : Key}
    {now : Nat}
    (hLine : shard.InLine born)
    (hAhead : shard.Ahead)
    (hAbsent : key ∉ shard.items)
    (hLast :
      ∀ other ∈ shard.items,
        shard.queue.idxOf other < shard.queue.idxOf key)
    (hBorn : ∀ other ∈ shard.items, born other < now)
    (entry : L1Entry) :
    (shard.store key entry).InLine
      (Function.update born key now) := by
  have hOld :
      ∀ other ∈ shard.items,
        (shard.queue ++ [key]).idxOf other =
          shard.queue.idxOf other := by
    intro other hLive
    exact List.idxOf_append_of_mem (hAhead.waits other hLive)
  have hKey :
      (shard.queue ++ [key]).idxOf key =
        shard.queue.idxOf key := by
    by_cases hMem : key ∈ shard.queue
    · exact List.idxOf_append_of_mem hMem
    · rw [List.idxOf_append_of_notMem hMem,
        List.idxOf_cons_self, List.idxOf_eq_length hMem]
      rfl
  have hNe :
      ∀ other ∈ shard.items, other ≠ key := by
    intro other hLive hEq
    exact hAbsent (hEq ▸ hLive)
  intro first hFirst last hLast' hLt
  rw [queue_store hAhead.idx_le hAbsent] at hLt
  have hFirstOr : first = key ∨ first ∈ shard.items := by
    simpa [L1Shard.store] using hFirst
  have hLastOr : last = key ∨ last ∈ shard.items := by
    simpa [L1Shard.store] using hLast'
  rcases hFirstOr with rfl | hFirstOld
  · rcases hLastOr with rfl | hLastOld
    · exact absurd hLt (lt_irrefl _)
    · have hBehind := hLast last hLastOld
      rw [hKey, hOld last hLastOld] at hLt
      omega
  · rw [Function.update_of_ne (hNe first hFirstOld)]
    rcases hLastOr with rfl | hLastOld
    · rw [Function.update_self]
      exact hBorn first hFirstOld
    · rw [Function.update_of_ne (hNe last hLastOld)]
      rw [hOld first hFirstOld, hOld last hLastOld] at hLt
      exact hLine first hFirstOld last hLastOld hLt

/- A `Set` of a live key changes its entry only. -/
theorem InLine.set_of_mem
    {key : Key}
    (hLine : shard.InLine born)
    (hMem : key ∈ shard.items)
    (entry : L1Entry) :
    (shard.set key entry).InLine born := by
  have hItems :
      ∀ other ∈ (shard.set key entry).items,
        other ∈ shard.items := by
    intro other hOther
    exact mem_of_mem_set_of_mem hMem hOther
  have hQueue :
      (shard.set key entry).queue = shard.queue := by
    simp [queue, L1Shard.set, L1Shard.store,
      makeRoom_of_mem hMem, hMem]
  intro first hFirst last hLast hLt
  rw [hQueue] at hLt
  exact
    hLine first (hItems first hFirst) last
      (hItems last hLast) hLt

/- A `Set` that inserts in order keeps the line. -/
theorem InLine.set
    {key : Key}
    {cap now : Nat}
    (hLine : shard.InLine born)
    (hOrder : shard.InsertsInOrder key)
    (hAbsent : key ∉ shard.items)
    (hShard : shard.Sound cap)
    (hBorn : ∀ other ∈ shard.items, born other < now)
    (entry : L1Entry) :
    (shard.set key entry).InLine
      (Function.update born key now) := by
  rcases hOrder.makeRoom hAbsent hShard hLine with
    ⟨hRoom, hLast⟩
  have hAhead :=
    hShard.ahead.makeRoom hShard.bounded hShard.two key
  refine
    hRoom.store hAhead (notMem_makeRoom hAbsent) hLast ?_ entry
  intro other hLive
  exact hBorn other (mem_of_mem_makeRoom hLive)

end L1Shard

end CacheServer

------------------------------------------------------------
-- Runs With A Log
------------------------------------------------------------

namespace CacheServer

/- The sections of L1 calls, with the log of insertions. -/
def residencyMachine :
    Machine (L1System × ResidencyLog) L1Action :=
  l1Machine.withHistory L1System.logInsert

/- A cache just made and a log of nothing. -/
def L1System.newLogged
    (maxSize : Int)
    (ttl : Int)
    (clock : Int) :
    L1System × ResidencyLog :=
  (L1System.new maxSize ttl clock, ⟨0, fun _ => 0⟩)

/- A `Set` inserts in order, if it inserts. -/
def L1System.InsertsInOrder
    (s : L1System) :
    L1Action → Prop
| .set key _ =>
    (s.cache.getShard key).InsertsInOrder key
| _ => True

namespace L1Shard

/- The live keys of shard `i` came into it, in the past. -/
structure Dated
    (i : Fin numShards)
    (log : ResidencyLog)
    (shard : L1Shard) :
    Prop where
  home : ∀ key ∈ shard.items, shardIdx key = i
  past : ∀ key ∈ shard.items, log.born key < log.now

variable {i : Fin numShards}
variable {log : ResidencyLog}
variable {shard : L1Shard}

theorem Dated.delete
    (hDated : shard.Dated i log)
    (key : Key) :
    (shard.delete key).Dated i log := by
  constructor
  · intro other hMem
    exact hDated.home other (AList.mem_erase.mp hMem).2
  · intro other hMem
    exact hDated.past other (AList.mem_erase.mp hMem).2

theorem Dated.set_of_mem
    {key : Key}
    (hDated : shard.Dated i log)
    (hMem : key ∈ shard.items)
    (entry : L1Entry) :
    (shard.set key entry).Dated i log := by
  have hItems :
      ∀ other ∈ (shard.set key entry).items,
        other ∈ shard.items := by
    intro other hOther
    exact mem_of_mem_set_of_mem hMem hOther
  constructor
  · intro other hOther
    exact hDated.home other (hItems other hOther)
  · intro other hOther
    exact hDated.past other (hItems other hOther)

theorem Dated.set_of_notMem
    {key : Key}
    (hDated : shard.Dated i log)
    (hHome : shardIdx key = i)
    (entry : L1Entry) :
    (shard.set key entry).Dated i
      { now := log.now + 1
        born := Function.update log.born key log.now } := by
  constructor
  · intro other hOther
    rcases mem_of_mem_set hOther with rfl | hOld
    · exact hHome
    · exact hDated.home other (mem_of_mem_makeRoom hOld)
  · intro other hOther
    by_cases hEq : other = key
    · subst hEq
      simp
    · rcases mem_of_mem_set hOther with hSame | hOld
      · exact absurd hSame hEq
      · have hPast :=
          hDated.past other (mem_of_mem_makeRoom hOld)
        simp only [Function.update_of_ne hEq]
        omega

/- An insertion elsewhere is later than all that is here. -/
theorem Dated.elsewhere
    {key : Key}
    (hDated : shard.Dated i log)
    (hAway : i ≠ shardIdx key) :
    shard.Dated i
      { now := log.now + 1
        born := Function.update log.born key log.now } := by
  refine ⟨hDated.home, ?_⟩
  intro other hOther
  have hNe : other ≠ key := by
    intro hEq
    exact hAway (hEq ▸ (hDated.home other hOther).symm)
  have hPast := hDated.past other hOther
  simp only [Function.update_of_ne hNe]
  omega

/- It leaves the line here as it is. -/
theorem InLine.elsewhere
    {key : Key}
    (hLine : shard.InLine log.born)
    (hDated : shard.Dated i log)
    (hAway : i ≠ shardIdx key) :
    shard.InLine (Function.update log.born key log.now) := by
  have hNe : ∀ other ∈ shard.items, other ≠ key := by
    intro other hOther hEq
    exact hAway (hEq ▸ (hDated.home other hOther).symm)
  intro first hFirst last hLast hLt
  rw [Function.update_of_ne (hNe first hFirst),
    Function.update_of_ne (hNe last hLast)]
  exact hLine first hFirst last hLast hLt

end L1Shard

namespace L1System

/- The log follows the sections. -/
def Logged
    (cap : Nat)
    (t : L1System × ResidencyLog) :
    Prop :=
  ∀ i,
    (t.1.cache.shards i).Sound cap ∧
      (t.1.cache.shards i).Dated i t.2

/- In every shard the live keys wait in line. -/
def LinesUp
    (t : L1System × ResidencyLog) :
    Prop :=
  ∀ i, (t.1.cache.shards i).InLine t.2.born

theorem logInsert_of_ne_set
    {s : L1System}
    {a : L1Action}
    (hNoSet : ∀ key value, a ≠ .set key value)
    (log : ResidencyLog) :
    s.logInsert a log = log := by
  cases a with
  | set key value => exact absurd rfl (hNoSet key value)
  | _ => rfl

theorem logInsert_of_mem
    {s : L1System}
    {key : Key}
    {value : Value}
    (hMem : key ∈ (s.cache.getShard key).items)
    (log : ResidencyLog) :
    s.logInsert (.set key value) log = log := by
  simp [logInsert, hMem]

theorem logInsert_of_notMem
    {s : L1System}
    {key : Key}
    {value : Value}
    (hAbsent : key ∉ (s.cache.getShard key).items)
    (log : ResidencyLog) :
    s.logInsert (.set key value) log =
      { now := log.now + 1
        born := Function.update log.born key log.now } := by
  simp [logInsert, hAbsent]

theorem residency_step
    {t t' : L1System × ResidencyLog}
    {a : L1Action}
    (h : residencyMachine.step t a = some t') :
    t.1.step a = some t'.1 ∧ t'.2 = t.1.logInsert a t.2 :=
  Machine.withHistory_step.mp h

theorem logged_step
    {cap : Nat}
    {t t' : L1System × ResidencyLog}
    {a : L1Action}
    (hLogged : Logged cap t)
    (h : residencyMachine.step t a = some t') :
    Logged cap t' := by
  rcases residency_step h with ⟨hStep, hLog⟩
  have hSound :=
    step_shards
      (P := fun shard => shard.Sound cap)
      (fun _ key entry hS => hS.set key entry)
      (fun _ key hS => hS.delete key)
      hStep (fun i => (hLogged i).1)
  intro i
  refine ⟨hSound i, ?_⟩
  have hDated := (hLogged i).2
  rw [hLog]
  rcases step_shard_cases hStep i with
    ⟨key, value, entry, rfl, rfl, hSelf⟩ |
      ⟨key, value, rfl, hAway, hSame⟩ |
      ⟨hNoSet, hKept⟩
  · rw [hSelf]
    by_cases hMem : key ∈ (t.1.cache.getShard key).items
    · rw [logInsert_of_mem hMem]
      exact hDated.set_of_mem hMem entry
    · rw [logInsert_of_notMem hMem]
      exact hDated.set_of_notMem rfl entry
  · rw [hSame]
    by_cases hMem : key ∈ (t.1.cache.getShard key).items
    · rw [logInsert_of_mem hMem]
      exact hDated
    · rw [logInsert_of_notMem hMem]
      exact hDated.elsewhere hAway
  · rw [logInsert_of_ne_set hNoSet]
    rcases hKept with hSame | ⟨key, hDelete⟩
    · rw [hSame]
      exact hDated
    · rw [hDelete]
      exact hDated.delete key

/- Inserting in order keeps every line. -/
theorem linesUp_step
    {cap : Nat}
    {t t' : L1System × ResidencyLog}
    {a : L1Action}
    (hLogged : Logged cap t)
    (hLines : LinesUp t)
    (hOrder : t.1.InsertsInOrder a)
    (h : residencyMachine.step t a = some t') :
    LinesUp t' := by
  rcases residency_step h with ⟨hStep, hLog⟩
  intro i
  have hLine := hLines i
  rw [hLog]
  rcases step_shard_cases hStep i with
    ⟨key, value, entry, rfl, rfl, hSelf⟩ |
      ⟨key, value, rfl, hAway, hSame⟩ |
      ⟨hNoSet, hKept⟩
  · rw [hSelf]
    by_cases hMem : key ∈ (t.1.cache.getShard key).items
    · rw [logInsert_of_mem hMem]
      exact hLine.set_of_mem hMem entry
    · rw [logInsert_of_notMem hMem]
      exact
        hLine.set hOrder hMem (hLogged _).1
          (hLogged _).2.past entry
  · rw [hSame]
    by_cases hMem : key ∈ (t.1.cache.getShard key).items
    · rw [logInsert_of_mem hMem]
      exact hLine
    · rw [logInsert_of_notMem hMem]
      exact hLine.elsewhere (hLogged i).2 hAway
  · rw [logInsert_of_ne_set hNoSet]
    rcases hKept with hSame | ⟨key, hDelete⟩
    · rw [hSame]
      exact hLine
    · rw [hDelete]
      exact hLine.delete key

theorem logged_new
    (maxSize : Int)
    (ttl : Int)
    (clock : Int) :
    Logged (perShardCap maxSize).toNat
      (newLogged maxSize ttl clock) := by
  intro i
  refine ⟨L1Shard.sound_newL1 maxSize ttl i, ?_, ?_⟩
  · intro key hMem
    exact absurd hMem (AList.notMem_empty key)
  · intro key hMem
    exact absurd hMem (AList.notMem_empty key)

end L1System

/- The log is right after every run. -/
theorem logged_exec
    {maxSize : Int}
    {ttl : Int}
    {clock : Int}
    {actions : List L1Action}
    {t : L1System × ResidencyLog}
    (hRun :
      residencyMachine.exec
          (L1System.newLogged maxSize ttl clock) actions =
        some t) :
    L1System.Logged (perShardCap maxSize).toNat t :=
  Machine.exec_invariant
    (fun _ _ _ hI hStep => L1System.logged_step hI hStep)
    hRun (L1System.logged_new maxSize ttl clock)

/-
  In every run whose `Set` calls insert in order, the key
  that a full shard evicts for an absent one is the live key
  whose residency began first, and not the only live key.
-/
theorem l1_evicts_oldest
    (maxSize : Int)
    (ttl : Int)
    (clock : Int)
    (actions : List L1Action)
    (t : L1System × ResidencyLog)
    (hOrder :
      residencyMachine.Along
        (fun t a => t.1.InsertsInOrder a)
        (L1System.newLogged maxSize ttl clock) actions)
    (hRun :
      residencyMachine.exec
          (L1System.newLogged maxSize ttl clock) actions =
        some t)
    (key : Key)
    (hFull : (t.1.cache.getShard key).Full)
    (_hAbsent : key ∉ (t.1.cache.getShard key).items) :
    ∃ victim ∈ (t.1.cache.getShard key).items,
      (t.1.cache.getShard key).evictOne.items =
          (t.1.cache.getShard key).items.erase victim ∧
        (∀ other ∈ (t.1.cache.getShard key).items,
          other ≠ victim →
            t.2.born victim < t.2.born other) ∧
        ∃ other ∈ (t.1.cache.getShard key).items,
          other ≠ victim := by
  have hBoth :
      L1System.Logged (perShardCap maxSize).toNat t ∧
        L1System.LinesUp t := by
    refine
      Machine.exec_invariant_along
        (I := fun u =>
          L1System.Logged (perShardCap maxSize).toNat u ∧
            L1System.LinesUp u)
        ?_ hOrder hRun ⟨L1System.logged_new _ _ _, ?_⟩
    · intro u a u' hI hIn hStep
      exact
        ⟨L1System.logged_step hI.1 hStep,
          L1System.linesUp_step hI.1 hI.2 hIn hStep⟩
    · intro i first hFirst
      exact absurd hFirst (AList.notMem_empty first)
  have hShard := (hBoth.1 (shardIdx key)).1
  have hLine := hBoth.2 (shardIdx key)
  have hLen := hShard.two_le_len hFull
  rcases hShard.ahead.exists_scan_of_len hLen with
    ⟨pre, victim, post, hScan⟩
  refine ⟨victim, hScan.live, ?_, ?_, ?_⟩
  · exact hScan.items_evictOne hShard.ahead hLen
  · intro other hLive hNe
    exact hLine.born_victim hScan hLive hNe
  · exact L1Shard.exists_other hScan.live hLen

end CacheServer

------------------------------------------------------------
-- New Keys And Keys That Come Back
------------------------------------------------------------

namespace CacheServer

namespace L1Shard

variable {shard : L1Shard}

/- A live key is not among the slots that are gone by. -/
theorem Ahead.mem_waiting
    {key : Key}
    (hAhead : shard.Ahead)
    (hLive : key ∈ shard.items) :
    key ∈ shard.waiting := by
  rcases exists_scan hAhead hLive with
    ⟨pre, victim, post, hScan⟩
  by_cases hFull : shard.Full
  · rw [hScan.waiting_eq hFull]
    by_cases hEq : key = victim
    · exact hEq ▸ List.mem_cons_self
    · exact
        List.mem_cons_of_mem _
          (hScan.mem_post hAhead hLive hEq)
  · rw [waiting, if_neg hFull]
    exact hAhead.waits key hLive

/- A key with no slot goes behind every live key. -/
theorem insertsInOrder_of_notMem
    {key : Key}
    (hAhead : shard.Ahead)
    (hNew : key ∉ shard.keys) :
    shard.InsertsInOrder key := by
  intro _ other hLive
  have hNotWaiting : key ∉ shard.waiting := by
    intro hMem
    apply hNew
    unfold waiting at hMem
    by_cases hFull : shard.Full
    · rw [if_pos hFull] at hMem
      exact
        List.mem_of_mem_drop
          ((List.dropWhile_sublist _).subset hMem)
    · rw [if_neg hFull] at hMem
      exact List.mem_of_mem_drop hMem
  rw [List.idxOf_eq_length hNotWaiting]
  exact List.idxOf_lt_length_iff.mpr (hAhead.mem_waiting hLive)

/- The key is next again, with its slot from before. -/
theorem Filled.comesBack
    {key : Key}
    {rest : List Key}
    (hFilled : shard.Filled (key :: rest))
    (hSize : shard.maxSize = (key :: rest).length)
    (entry : L1Entry) :
    let next := (shard.delete key).set key entry
    next.Full ∧ next.Scan [] key (rest ++ [key]) ∧
      ∀ other, other ∈ next.items ↔ other ∈ key :: rest := by
  have hAbsent : key ∉ (shard.delete key).items := by
    intro hMem
    exact (AList.mem_erase.mp hMem).1 rfl
  have hLive : key ∈ shard.items := by
    rw [hFilled.mem]
    exact List.mem_cons_self
  have hErase : Table.len (shard.delete key).items + 1 =
      shard.items.len :=
    Table.len_erase_of_mem hLive
  have hLen := hFilled.len_eq
  have hNotFull : ¬ (shard.delete key).Full := by
    change ¬ shard.maxSize ≤ Table.len (shard.delete key).items
    omega
  have hSet :
      (shard.delete key).set key entry =
        (shard.delete key).store key entry := by
    unfold L1Shard.set
    rw [makeRoom_of_not_full hNotFull]
  have hMem :
      ∀ other,
        other ∈ ((shard.delete key).store key entry).items ↔
          other ∈ key :: rest := by
    intro other
    have hOld := hFilled.mem other
    by_cases hEq : other = key
    · simp [L1Shard.store, hEq]
    · rw [← hOld]
      simp [L1Shard.store, L1Shard.delete, hEq]
  simp only [hSet]
  refine ⟨?_, ⟨?_, ?_, ?_⟩, hMem⟩
  · change shard.maxSize ≤
      Table.len
        (AList.insert key entry (shard.delete key).items)
    rw [Table.len_insert_of_notMem entry hAbsent]
    omega
  · rw [queue_store (by simp [L1Shard.delete, hFilled.start])
      hAbsent]
    simp [queue, L1Shard.delete, hFilled.start,
      hFilled.keys_eq]
  · intro other hPre
    cases hPre
  · rw [hMem]
    exact List.mem_cons_self

end L1Shard

/- Setting keys that have no slot yet is in order. -/
theorem along_sets
    {cap : Nat}
    {keys : List Key}
    {t : L1System × ResidencyLog}
    (value : Value)
    (hLogged : L1System.Logged cap t)
    (hNodup : keys.Nodup)
    (hNew :
      ∀ key ∈ keys, ∀ i, key ∉ (t.1.cache.shards i).keys) :
    residencyMachine.Along
      (fun t a => t.1.InsertsInOrder a)
      t (L1System.sets value keys) := by
  induction keys generalizing t with
  | nil => trivial
  | cons key keys ih =>
      rcases List.nodup_cons.mp hNodup with ⟨hApart, hRest⟩
      constructor
      · exact
          L1Shard.insertsInOrder_of_notMem
            (hLogged (shardIdx key)).1.ahead
            (hNew key List.mem_cons_self _)
      · intro t' hStep
        refine
          ih (L1System.logged_step hLogged hStep) hRest ?_
        intro other hOther i hMem
        have hOld :=
          hNew other (List.mem_cons_of_mem key hOther) i
        have hNe : other ≠ key := by
          intro hEq
          exact hApart (hEq ▸ hOther)
        rcases L1System.step_set
            (L1System.residency_step hStep).1 with
          ⟨⟨entry, hSelf⟩, hOthers⟩
        by_cases hEq : i = shardIdx key
        · subst hEq
          rw [hSelf] at hMem
          by_cases hLive :
              key ∈ (t.1.cache.getShard key).items
          · rw [L1Shard.set_keys_of_mem entry hLive] at hMem
            exact hOld hMem
          · rw [L1Shard.set_keys_of_notMem entry hLive,
              List.mem_append, List.mem_singleton] at hMem
            rcases hMem with hKeys | hSame
            · exact hOld hKeys
            · exact hNe hSame
        · rw [hOthers i hEq] at hMem
          exact hOld hMem

/- A run that fills shard `i`, with its log. -/
theorem exec_seats
    (i : Fin numShards) :
    ∃ t,
      residencyMachine.exec (L1System.newLogged 0 5 0)
          (L1System.sets [] (seats i 64)) =
        some t ∧
        (t.1.cache.shards i).Filled (seats i 64) ∧
          (t.1.cache.shards i).maxSize = 64 := by
  rcases exec_seats_new i with ⟨s, hRun, hFilled, hSize⟩
  have hLogged :
      ∃ log,
        residencyMachine.exec (L1System.newLogged 0 5 0)
            (L1System.sets [] (seats i 64)) =
          some (s, log) :=
    Machine.exec_withHistory _ hRun
  rcases hLogged with ⟨log, hBoth⟩
  exact ⟨(s, log), hBoth, hFilled, hSize⟩

/- A new key in a full shard evicts the one set first. -/
theorem l1_evicts_oldest_latecomer :
    ∃ t key,
      residencyMachine.exec (L1System.newLogged 0 5 0)
          (L1System.sets [] (seats (shardIdx []) 64)) =
        some t ∧
        key ∉ (t.1.cache.getShard key).items ∧
          ∃ victim ∈ (t.1.cache.getShard key).items,
            ∀ other ∈ (t.1.cache.getShard key).items,
              other ≠ victim →
                t.2.born victim < t.2.born other := by
  rcases exec_seats (shardIdx []) with
    ⟨t, hRun, hFilled, hSize⟩
  let key := latecomer (shardIdx [])
  have hAlong :
      residencyMachine.Along
        (fun t a => t.1.InsertsInOrder a)
        (L1System.newLogged 0 5 0)
        (L1System.sets [] (seats (shardIdx []) 64)) := by
    refine
      along_sets [] (L1System.logged_new 0 5 0)
        (nodup_seats _ (by decide)) ?_
    intro key _ i hMem
    cases hMem
  have hShard := getShard_latecomer t.1.cache (shardIdx [])
  have hFull : (t.1.cache.getShard key).Full := by
    rw [hShard]
    unfold L1Shard.Full
    rw [hSize, hFilled.len_eq, length_seats]
  have hAbsent : key ∉ (t.1.cache.getShard key).items := by
    rw [hShard, hFilled.mem]
    exact latecomer_notMem _
  rcases l1_evicts_oldest 0 5 0 _ t hAlong hRun key
      hFull hAbsent with ⟨victim, hLive, _, hOldest, _⟩
  exact ⟨t, key, hRun, hAbsent, victim, hLive, hOldest⟩

/- The run that deletes a live key and sets it again. -/
theorem exec_comesBack
    (t : L1System × ResidencyLog)
    (key : Key) :
    ∃ t' entry,
      residencyMachine.exec t [.delete key, .set key []] =
        some t' ∧
        t'.1.cache.getShard key =
            ((t.1.cache.getShard key).delete key).set key
              entry ∧
          t'.2.born key = t.2.now ∧
            t'.2.now = t.2.now + 1 := by
  let c := t.1.cache.delete key
  have hDelete :
      c.getShard key = (t.1.cache.getShard key).delete key :=
    L1System.shards_modifyShard_self t.1.cache key
      (fun shard => shard.delete key)
  have hAbsent : key ∉ (c.getShard key).items := by
    rw [hDelete]
    intro hMem
    exact (AList.mem_erase.mp hMem).1 rfl
  let s : L1System := { t.1 with cache := c }
  let s' : L1System :=
    { t.1 with cache := c.set t.1.clock key [] }
  have hSet : s.step (.set key []) = some s' := rfl
  rcases (L1System.step_set hSet).1 with ⟨entry, hSelf⟩
  let log : ResidencyLog :=
    { now := t.2.now + 1
      born := Function.update t.2.born key t.2.now }
  have hLog : s.logInsert (.set key []) t.2 = log :=
    L1System.logInsert_of_notMem hAbsent t.2
  refine ⟨(s', log), entry, ?_, ?_, ?_, rfl⟩
  · have hFirst :
        residencyMachine.step t (.delete key) =
          some (s, t.2) := rfl
    have hSecond :
        residencyMachine.step (s, t.2) (.set key []) =
          some (s', log) :=
      Machine.withHistory_step.mpr ⟨hSet, hLog.symm⟩
    exact
      Machine.exec_cons.mpr
        ⟨_, hFirst,
          Machine.exec_cons.mpr ⟨_, hSecond, rfl⟩⟩
  · rw [← hDelete]
    exact hSelf
  · exact Function.update_self key t.2.now t.2.born

/-
  The first key of a full shard, deleted and set again, is
  the youngest, and the one that is evicted.
-/
theorem l1_evicts_newest :
    ¬ ∀ maxSize ttl clock actions t,
      residencyMachine.exec
          (L1System.newLogged maxSize ttl clock) actions =
        some t →
        ∀ key,
          (t.1.cache.getShard key).Full →
          key ∉ (t.1.cache.getShard key).items →
            ∃ victim ∈ (t.1.cache.getShard key).items,
              (t.1.cache.getShard key).evictOne.items =
                  (t.1.cache.getShard key).items.erase
                    victim ∧
                ∀ other ∈ (t.1.cache.getShard key).items,
                  other ≠ victim →
                    t.2.born victim < t.2.born other := by
  intro h
  let i := shardIdx []
  rcases exec_seats i with ⟨t, hRun, hFilled, hSize⟩
  have hHome : ∀ key ∈ seats i 64, shardIdx key = i :=
    fun key hKey => shardIdx_of_seats hKey
  have hLen := length_seats i 64
  have hNew := latecomer_notMem i
  cases hSeats : seats i 64 with
  | nil =>
      rw [hSeats] at hLen
      cases hLen
  | cons first rest =>
      rw [hSeats] at hFilled hLen hNew hHome
      rcases exec_comesBack t first with
        ⟨t', entry, hAgain, hShard, hBorn, hNow⟩
      have hFirst : shardIdx first = i :=
        hHome first List.mem_cons_self
      have hBoth := Machine.exec_append.mpr ⟨t, hRun, hAgain⟩
      have hLogged := logged_exec hBoth i
      unfold L1Cache.getShard at hShard
      rw [hFirst] at hShard
      rcases hFilled.comesBack (hSize.trans hLen.symm) entry
        with ⟨hFull, hScan, hItems⟩
      rw [← hShard] at hFull hScan hItems
      have hLast := getShard_latecomer t'.1.cache i
      have hAbsent :
          latecomer i ∉
            (t'.1.cache.getShard (latecomer i)).items := by
        rw [hLast, hItems]
        exact hNew
      rcases h 0 5 0 _ t' hBoth (latecomer i)
          (hLast ▸ hFull) hAbsent with
        ⟨victim, hLive, hEvict, hOldest⟩
      rw [hLast] at hLive hEvict hOldest
      have hTwo := hLogged.1.two_le_len hFull
      rw [hScan.items_evictOne hLogged.1.ahead hTwo] at hEvict
      have hVictim : victim = first := by
        by_contra hNe
        have hStays :
            victim ∈
              (t'.1.cache.shards i).items.erase first :=
          AList.mem_erase.mpr ⟨hNe, hLive⟩
        rw [hEvict] at hStays
        exact (AList.mem_erase.mp hStays).1 rfl
      subst hVictim
      rcases L1Shard.exists_other hScan.live hTwo with
        ⟨other, hOther, hNe⟩
      have hOlder := hOldest other hOther hNe
      have hPast := hLogged.2.past other hOther
      omega

end CacheServer
