import CacheServer.Cache.L1Order

/-
  The cursor of a shard's evictions.

  `evictOne` goes round `keys` modulo their number. But every
  live key has a slot from `evictIdx` on, a full shard has at
  least two of them, and `keys` only grows. So the scan stops
  before the end of `keys`, `evictIdx` only moves on, and no
  slot is looked at twice in a run.

  Key definitions include:
    * `CacheServer.L1Shard.examined`
    * `CacheServer.L1System.logScan`
    * `CacheServer.L1Shard.OneWay`
    * `CacheServer.L1Shard.MovesOn`

  Key theorems include:
    * `CacheServer.L1Shard.Scan.stops`
    * `CacheServer.L1Shard.Sound.set_movesOn`
    * `CacheServer.L1System.movesOn_step`
    * `CacheServer.l1_cursor_never_wraps`
-/

------------------------------------------------------------
-- The Slots Examined
------------------------------------------------------------

namespace CacheServer

/- The slots each shard's evictions have looked at, in order. -/
abbrev ScanLog :=
  Fin numShards → List Nat

namespace L1Shard

/- The slots whose key `evictOne` looks up. -/
def examined
    (shard : L1Shard) :
    List Nat :=
  CyclicScan.visits (fun key => decide (key ∈ shard.items))
    shard.keys shard.evictIdx

/- The slots that a `Set` of the key makes it look at. -/
def examinedBySet
    (shard : L1Shard)
    (key : Key) :
    List Nat :=
  if shard.Full then
    if key ∈ shard.items then [] else shard.examined
  else
    []

end L1Shard

/- A `Set` adds to the log of its shard. -/
def L1System.logScan
    (s : L1System)
    (a : L1Action)
    (log : ScanLog) :
    ScanLog :=
  match a with
  | .set key _ =>
      Function.update log (shardIdx key)
        (log (shardIdx key) ++
          (s.cache.getShard key).examinedBySet key)
  | _ => log

/- The sections of L1 calls, with the log of the scans. -/
def scanMachine :
    Machine (L1System × ScanLog) L1Action :=
  l1Machine.withHistory L1System.logScan

/- A cache just made, whose slots nobody has looked at. -/
def L1System.newScanned
    (maxSize : Int)
    (ttl : Int)
    (clock : Int) :
    L1System × ScanLog :=
  (L1System.new maxSize ttl clock, fun _ => [])

namespace L1Shard

/-
  The scan of `evictOne` goes straight from `evictIdx` to a
  slot of a live key, and there are slots behind that one.
-/
structure Stops
    (shard : L1Shard)
    (slot : Nat)
    (victim : Key) :
    Prop where
  found : shard.victim? = some (slot, victim)
  live : victim ∈ shard.items
  examined_eq :
    shard.examined =
      List.range' shard.evictIdx (slot + 1 - shard.evictIdx)
  ahead : shard.evictIdx ≤ slot
  before_end : slot + 1 < shard.keys.length
  cursor : shard.evictOne.evictIdx = slot + 1

/-
  The cursor, with what its shard's evictions have looked at
  so far: it is where all that is live lies ahead, an eviction
  takes it on, and no slot behind it was looked at twice.
-/
structure OneWay
    (log : List Nat)
    (shard : L1Shard) :
    Prop where
  idx_le : shard.evictIdx ≤ shard.keys.length
  waits :
    ∀ key ∈ shard.items,
      ∃ slot,
        shard.evictIdx ≤ slot ∧ shard.keys[slot]? = some key
  stops : shard.Full → ∃ slot victim, shard.Stops slot victim
  once : log.Nodup
  behind : ∀ slot ∈ log, slot < shard.evictIdx

/-
  From one state of a shard to a later one: slots are added
  behind those there are, the cursor does not go back, and the
  slots looked at meanwhile come in order from the cursor on.
-/
structure MovesOn
    (shard : L1Shard)
    (slots : List Nat)
    (shard' : L1Shard) :
    Prop where
  keys_grow : shard.keys <+: shard'.keys
  idx_le : shard.evictIdx ≤ shard'.evictIdx
  in_order : slots.Pairwise (· < ·)
  between :
    ∀ slot ∈ slots,
      shard.evictIdx ≤ slot ∧ slot < shard'.evictIdx

end L1Shard

end CacheServer

------------------------------------------------------------
-- One Eviction
------------------------------------------------------------

namespace CacheServer

namespace L1Shard

variable {shard shard' shard'' : L1Shard}
variable {pre post : List Key}
variable {victim : Key}
variable {cap : Nat}

theorem Scan.examined_eq
    (hScan : shard.Scan pre victim post) :
    shard.examined =
      List.range' shard.evictIdx (pre.length + 1) := by
  refine CyclicScan.visits_of_drop hScan.queue_eq ?_ ?_
  · intro key hPre
    exact decide_eq_false (hScan.dead key hPre)
  · exact decide_eq_true hScan.live

/- The scan stops there, and there are slots behind it. -/
theorem Scan.stops
    (hScan : shard.Scan pre victim post)
    (hAhead : shard.Ahead)
    (hTwo : 2 ≤ shard.items.len) :
    shard.Stops (shard.evictIdx + pre.length) victim := by
  refine
    ⟨hScan.victim?_eq, hScan.live, ?_, Nat.le_add_right _ _,
      hScan.before_end hAhead hTwo, ?_⟩
  · rw [hScan.examined_eq]
    congr 1
    omega
  · rw [hScan.evictOne_eq hAhead hTwo]

theorem Sound.stops
    (hSound : shard.Sound cap)
    (hFull : shard.Full) :
    ∃ slot victim, shard.Stops slot victim := by
  have hTwo := hSound.two_le_len hFull
  rcases hSound.ahead.exists_scan_of_len hTwo with
    ⟨pre, victim, post, hScan⟩
  exact ⟨_, victim, hScan.stops hSound.ahead hTwo⟩

/- A key that waits in the queue has a slot ahead. -/
theorem Ahead.exists_slot
    {key : Key}
    (hAhead : shard.Ahead)
    (hLive : key ∈ shard.items) :
    ∃ slot,
      shard.evictIdx ≤ slot ∧ shard.keys[slot]? = some key := by
  rcases List.mem_iff_getElem?.mp (hAhead.waits key hLive) with
    ⟨n, hSlot⟩
  rw [queue, List.getElem?_drop] at hSlot
  exact ⟨shard.evictIdx + n, Nat.le_add_right _ _, hSlot⟩

end L1Shard

end CacheServer

------------------------------------------------------------
-- Moving On
------------------------------------------------------------

namespace CacheServer

namespace L1Shard

variable {shard shard' shard'' : L1Shard}
variable {slots slots' : List Nat}
variable {cap : Nat}

/- Slots are added behind the others, and none is looked at. -/
theorem MovesOn.still
    (hKeys : shard.keys <+: shard'.keys)
    (hIdx : shard'.evictIdx = shard.evictIdx) :
    shard.MovesOn [] shard' :=
  ⟨hKeys, hIdx.ge, List.Pairwise.nil,
    fun _ hSlot => absurd hSlot List.not_mem_nil⟩

theorem MovesOn.refl
    (shard : L1Shard) :
    shard.MovesOn [] shard :=
  .still List.prefix_rfl rfl

/- What is looked at later lies behind what was before. -/
theorem MovesOn.trans
    (hFirst : shard.MovesOn slots shard')
    (hLast : shard'.MovesOn slots' shard'') :
    shard.MovesOn (slots ++ slots') shard'' := by
  have hIdx := hFirst.idx_le
  have hIdx' := hLast.idx_le
  refine
    ⟨hFirst.keys_grow.trans hLast.keys_grow,
      hIdx.trans hIdx', ?_, ?_⟩
  · refine
      List.pairwise_append.mpr
        ⟨hFirst.in_order, hLast.in_order, ?_⟩
    intro slot hSlot slot' hSlot'
    have hBefore := hFirst.between slot hSlot
    have hAfter := hLast.between slot' hSlot'
    omega
  · intro slot hSlot
    rcases List.mem_append.mp hSlot with hOld | hNew
    · have hBetween := hFirst.between slot hOld
      omega
    · have hBetween := hLast.between slot hNew
      omega

theorem delete_movesOn
    (shard : L1Shard)
    (key : Key) :
    shard.MovesOn [] (shard.delete key) :=
  .still List.prefix_rfl rfl

theorem store_movesOn
    (shard : L1Shard)
    (key : Key)
    (entry : L1Entry) :
    shard.MovesOn [] (shard.store key entry) := by
  refine .still ?_ rfl
  by_cases hKey : key ∈ shard.items
  · simp [store, hKey]
  · simp [store, hKey]

/- An eviction looks at the slots that it goes by. -/
theorem Stops.movesOn
    {slot : Nat}
    {victim : Key}
    (hStops : shard.Stops slot victim) :
    shard.MovesOn shard.examined shard.evictOne := by
  have hAhead := hStops.ahead
  constructor
  · exact ⟨[], by rw [List.append_nil, evictOne_keys]⟩
  · rw [hStops.cursor]
    omega
  · rw [hStops.examined_eq]
    exact List.pairwise_lt_range'
  · intro other hOther
    rw [hStops.examined_eq, List.mem_range'_1] at hOther
    rw [hStops.cursor]
    omega

theorem Sound.makeRoom_movesOn
    (hSound : shard.Sound cap)
    (key : Key) :
    shard.MovesOn (shard.examinedBySet key)
      (shard.makeRoom key) := by
  by_cases hFull : shard.Full
  · by_cases hMem : key ∈ shard.items
    · rw [makeRoom_of_mem hMem, examinedBySet, if_pos hFull,
        if_pos hMem]
      exact MovesOn.refl shard
    · rw [makeRoom_of_full hFull hMem, examinedBySet,
        if_pos hFull, if_neg hMem]
      rcases hSound.stops hFull with ⟨slot, victim, hStops⟩
      exact hStops.movesOn
  · rw [makeRoom_of_not_full hFull, examinedBySet,
      if_neg hFull]
    exact MovesOn.refl shard

theorem Sound.set_movesOn
    (hSound : shard.Sound cap)
    (key : Key)
    (entry : L1Entry) :
    shard.MovesOn (shard.examinedBySet key)
      (shard.set key entry) := by
  have hBoth :=
    (hSound.makeRoom_movesOn key).trans
      (store_movesOn (shard.makeRoom key) key entry)
  rwa [List.append_nil] at hBoth

/- A cursor that has moved on from the start is one-way. -/
theorem Sound.oneWay
    (hSound : shard.Sound cap)
    (hMoves : shard'.MovesOn slots shard) :
    shard.OneWay slots := by
  refine
    ⟨hSound.ahead.idx_le, ?_, hSound.stops, ?_, ?_⟩
  · intro key hLive
    exact hSound.ahead.exists_slot hLive
  · exact hMoves.in_order.imp Nat.ne_of_lt
  · intro slot hSlot
    exact (hMoves.between slot hSlot).2

end L1Shard

end CacheServer

------------------------------------------------------------
-- Runs
------------------------------------------------------------

namespace CacheServer

namespace L1System

/- Every shard is sound, for two entries or more. -/
def AllSound
    (cap : Nat)
    (s : L1System) :
    Prop :=
  ∀ i, (s.cache.shards i).Sound cap

/- From one point of a run to a later one, every shard. -/
def MovesOn
    (t t' : L1System × ScanLog) :
    Prop :=
  ∀ i,
    ∃ later,
      t'.2 i = t.2 i ++ later ∧
        (t.1.cache.shards i).MovesOn later
          (t'.1.cache.shards i)

theorem MovesOn.refl
    (t : L1System × ScanLog) :
    MovesOn t t := by
  intro i
  exact ⟨[], (List.append_nil _).symm, L1Shard.MovesOn.refl _⟩

theorem MovesOn.trans
    {t t' t'' : L1System × ScanLog}
    (hFirst : MovesOn t t')
    (hLast : MovesOn t' t'') :
    MovesOn t t'' := by
  intro i
  rcases hFirst i with ⟨slots, hSlots, hMoves⟩
  rcases hLast i with ⟨slots', hSlots', hMoves'⟩
  refine ⟨slots ++ slots', ?_, hMoves.trans hMoves'⟩
  rw [hSlots', hSlots, List.append_assoc]

theorem allSound_step
    {cap : Nat}
    {s s' : L1System}
    {a : L1Action}
    (hSound : s.AllSound cap)
    (h : s.step a = some s') :
    s'.AllSound cap :=
  step_shards
    (fun _ key entry hShard => hShard.set key entry)
    (fun _ key hShard => hShard.delete key)
    h hSound

theorem movesOn_step
    {cap : Nat}
    {t t' : L1System × ScanLog}
    {a : L1Action}
    (hSound : t.1.AllSound cap)
    (h : scanMachine.step t a = some t') :
    MovesOn t t' := by
  rcases Machine.withHistory_step.mp h with ⟨hStep, hLog⟩
  intro i
  rw [hLog]
  rcases step_shard_cases hStep i with
    ⟨key, value, entry, rfl, rfl, hSelf⟩ |
      ⟨key, value, rfl, hAway, hSame⟩ |
      ⟨hNoSet, hKept⟩
  · refine
      ⟨(t.1.cache.getShard key).examinedBySet key, ?_, ?_⟩
    · simp [logScan]
    · rw [hSelf]
      exact (hSound (shardIdx key)).set_movesOn key entry
  · refine ⟨[], ?_, ?_⟩
    · simp [logScan, hAway]
    · rw [hSame]
      exact L1Shard.MovesOn.refl _
  · have hLog : t.1.logScan a t.2 = t.2 := by
      cases a with
      | set key value => exact absurd rfl (hNoSet key value)
      | _ => rfl
    refine ⟨[], ?_, ?_⟩
    · rw [hLog, List.append_nil]
    · rcases hKept with hSame | ⟨key, hDelete⟩
      · rw [hSame]
        exact L1Shard.MovesOn.refl _
      · rw [hDelete]
        exact L1Shard.delete_movesOn _ key

/- What one step keeps and how it moves on, a run does. -/
theorem movesOn_exec
    {cap : Nat}
    {t t' : L1System × ScanLog}
    {actions : List L1Action}
    (hSound : t.1.AllSound cap)
    (hRun : scanMachine.exec t actions = some t') :
    t'.1.AllSound cap ∧ MovesOn t t' := by
  refine
    Machine.exec_relation
      (R := fun u u' =>
        u.1.AllSound cap → u'.1.AllSound cap ∧ MovesOn u u')
      ?_ ?_ ?_ hRun hSound
  · intro u hU
    exact ⟨hU, MovesOn.refl u⟩
  · intro u v w hFirst hLast hU
    rcases hFirst hU with ⟨hV, hMoves⟩
    rcases hLast hV with ⟨hW, hMoves'⟩
    exact ⟨hW, hMoves.trans hMoves'⟩
  · intro u a u' hStep hU
    have hPlain := (Machine.withHistory_step.mp hStep).1
    exact
      ⟨allSound_step hU hPlain, movesOn_step hU hStep⟩

end L1System

/-
  At every point of every run the cursor of each shard is
  one-way, and from there to every later point it moves on:
  no slot before it is looked at again.
-/
theorem l1_cursor_never_wraps
    (maxSize : Int)
    (ttl : Int)
    (clock : Int)
    (actions : List L1Action)
    (more : List L1Action)
    (t u : L1System × ScanLog)
    (hRun :
      scanMachine.exec
          (L1System.newScanned maxSize ttl clock) actions =
        some t)
    (hMore : scanMachine.exec t more = some u)
    (i : Fin numShards) :
    (t.1.cache.shards i).OneWay (t.2 i) ∧
      ∃ later,
        u.2 i = t.2 i ++ later ∧
          (t.1.cache.shards i).MovesOn later
            (u.1.cache.shards i) := by
  have hNew :
      (L1System.newScanned maxSize ttl clock).1.AllSound
        (perShardCap maxSize).toNat :=
    L1Shard.sound_newL1 maxSize ttl
  rcases L1System.movesOn_exec hNew hRun with
    ⟨hSound, hFirst⟩
  rcases L1System.movesOn_exec hSound hMore with ⟨_, hLast⟩
  rcases hFirst i with ⟨slots, hSlots, hMoves⟩
  refine ⟨?_, hLast i⟩
  have hLog : t.2 i = slots := hSlots
  rw [hLog]
  exact (hSound i).oneWay hMoves

/- A full shard, and the eviction that a new key makes. -/
theorem l1_cursor_never_wraps_latecomer :
    ∃ t u,
      scanMachine.exec (L1System.newScanned 0 5 0)
          (L1System.sets [] (seats (shardIdx []) 64)) =
        some t ∧
        scanMachine.exec t
            [.set (latecomer (shardIdx [])) []] =
          some u ∧
        (t.1.cache.shards (shardIdx [])).Full ∧
          (∃ slot victim,
            (t.1.cache.shards (shardIdx [])).Stops slot
              victim) ∧
          (t.1.cache.shards (shardIdx [])).evictIdx ≤
            (u.1.cache.shards (shardIdx [])).evictIdx := by
  rcases exec_seats (shardIdx []) with
    ⟨filled, hFill, hFilled, hSize⟩
  have hScanned :
      ∃ log,
        scanMachine.exec (L1System.newScanned 0 5 0)
            (L1System.sets [] (seats (shardIdx []) 64)) =
          some (filled.1, log) :=
    Machine.exec_withHistory _
      (Machine.exec_of_withHistory hFill)
  rcases hScanned with ⟨log, hRun⟩
  let t : L1System × ScanLog := (filled.1, log)
  have hMore :
      (scanMachine.exec t
        [.set (latecomer (shardIdx [])) []]).isSome := rfl
  rcases l1_cursor_never_wraps 0 5 0 _ _ t _ hRun
      (Machine.exec_get hMore) (shardIdx []) with
    ⟨hOneWay, later, _, hMoves⟩
  have hFull : (t.1.cache.shards (shardIdx [])).Full := by
    unfold L1Shard.Full
    rw [hSize, hFilled.len_eq, length_seats]
  exact
    ⟨t, _, hRun, Machine.exec_get hMore, hFull,
      hOneWay.stops hFull, hMoves.idx_le⟩

end CacheServer
