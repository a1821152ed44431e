import CacheServer.Cache.SerialRuns

/-
  What a failed `Set` leaves behind.

  `Manager.Set` stores its value in L1 before it issues its
  Redis command, and does not take it back if that fails. The
  rejected value can be told from those that the key could
  have returned without the `Set`, unless L1 entries expire
  at once or the key held the value for as long already.

  Key definitions include:
    * `CacheServer.CacheStore.CouldReturn`
    * `CacheServer.FailedSetInvisible`
    * `CacheServer.CacheStore.AlreadyHolds`

  Key theorems include:
    * `CacheServer.CacheStore.within_step`
    * `CacheServer.CacheStore.could_return_of_run`
    * `CacheServer.failed_set_invisible_iff`
    * `CacheServer.failed_set_visible`
-/

------------------------------------------------------------
-- What A Key Could Return
------------------------------------------------------------

namespace CacheServer

namespace SerialAction

/- No write of the key by a client. -/
def LeavesKey
    (key : Key) :
    SerialAction → Prop
| .set k _ _ => k ≠ key
| .invalidate k _ => k ≠ key
| _ => True

/- The value that the origin has for a `Get` of the key. -/
def originValue
    (key : Key) :
    SerialAction → Option Value
| .get k input =>
    match input.origin with
    | .value value => if k = key then some value else none
    | .error _ => none
| _ => none

/- The values that the origin has for the key in a run. -/
def originValues
    (key : Key)
    (actions : List SerialAction) :
    List Value :=
  actions.filterMap (originValue key)

end SerialAction

namespace CacheStore

/- L1 holds the value for the key, unexpired at `now`. -/
def L1Keeps
    (s : CacheStore)
    (key : Key)
    (now : Int)
    (value : Value) :
    Prop :=
  ∃ entry,
    s.l1.read key = some entry ∧ entry.value = value ∧
      now ≤ entry.expiresAt

/-
  L2 holds the value for the key until `now`, or until a copy
  made of it in time is in L1 at `now`.
-/
def L2Keeps
    (s : CacheStore)
    (key : Key)
    (now : Int)
    (value : Value) :
    Prop :=
  ∃ obj,
    s.redis.live s.clock key = some obj ∧
      obj.value = .str value ∧
        ∀ time,
          obj.expiresAt = some time →
            now ≤ time + max 0 s.l1.ttl

/-
  A value that a `Get` of the key could return at `now`, in
  runs from here on in which no client writes the key: one
  that a tier keeps until then, or one of the origin's.
-/
def CouldReturn
    (s : CacheStore)
    (key : Key)
    (origins : List Value)
    (now : Int)
    (value : Value) :
    Prop :=
  s.L1Keeps key now value ∨ s.L2Keeps key now value ∨
    value ∈ origins

/- What is kept until later is kept until now. -/
theorem L2Keeps.earlier
    {s : CacheStore}
    {key : Key}
    {now later : Int}
    {value : Value}
    (h : s.L2Keeps key later value)
    (hLe : now ≤ later) :
    s.L2Keeps key now value := by
  rcases h with ⟨obj, hLive, hValue, hTime⟩
  refine ⟨obj, hLive, hValue, ?_⟩
  intro time hSome
  exact le_trans hLe (hTime time hSome)

end CacheStore

end CacheServer

------------------------------------------------------------
-- Runs Without Writes Of The Key
------------------------------------------------------------

namespace CacheServer

namespace CacheStore

/-
  Where the entries of the key come from in such a run: they
  were there at the start, L1 copies what L2 had then, or
  they are the origin's.
-/
structure Within
    (start : CacheStore)
    (key : Key)
    (origins : List Value)
    (s : CacheStore) :
    Prop where
  ttl : s.l1.ttl = start.l1.ttl
  clock : start.clock ≤ s.clock
  l1 :
    ∀ entry,
      s.l1.read key = some entry →
        start.l1.read key = some entry ∨
          start.L2Keeps key entry.expiresAt entry.value ∨
            entry.value ∈ origins
  l2 :
    ∀ obj value,
      s.redis.lookup key = some obj →
        obj.value = .str value →
          start.redis.lookup key = some obj ∨
            value ∈ origins

variable {cfg : ManagerConfig}
variable {start s s' : CacheStore}
variable {key : Key}
variable {origins : List Value}

theorem Within.refl
    (s : CacheStore)
    (key : Key)
    (origins : List Value) :
    Within s key origins s :=
  ⟨rfl, le_refl _, fun _ h => Or.inl h,
    fun _ _ h _ => Or.inl h⟩

/- A live L2 value was kept from the start or is the origin's. -/
theorem Within.of_live
    {obj : RedisObj}
    {value : Value}
    (h : Within start key origins s)
    (hLookup : s.redis.lookup key = some obj)
    (hFresh : obj.expired s.clock = false)
    (hValue : obj.value = .str value) :
    start.L2Keeps key (s.clock + max 0 s.l1.ttl) value ∨
      value ∈ origins := by
  rcases h.l2 obj value hLookup hValue with hOld | hOrigin
  · apply Or.inl
    have hClock := h.clock
    cases hTime : obj.expiresAt with
    | none =>
        refine
          ⟨obj, Redis.live_eq_some.mpr ⟨hOld, ?_⟩, hValue, ?_⟩
        · simp [RedisObj.expired, hTime]
        · intro time hSome
          rw [hTime] at hSome
          cases hSome
    | some time =>
        have hAlive : s.clock ≤ time := by
          simpa [RedisObj.expired, hTime] using hFresh
        refine
          ⟨obj, Redis.live_eq_some.mpr ⟨hOld, ?_⟩, hValue, ?_⟩
        · simp only [RedisObj.expired, hTime,
            decide_eq_false_iff_not, not_lt]
          omega
        · intro time' hSome
          rw [hTime] at hSome
          cases hSome
          rw [h.ttl]
          omega
  · exact Or.inr hOrigin

/- A call on another key leaves the entries of this one. -/
theorem Within.other
    (h : Within start key origins s)
    (hTtl : s'.l1.ttl = s.l1.ttl)
    (hClock : s.clock ≤ s'.clock)
    (hL1 :
      s'.l1.read key = s.l1.read key ∨
        s'.l1.read key = none)
    (hL2 : s'.redis.lookup key = s.redis.lookup key) :
    Within start key origins s' := by
  refine
    ⟨hTtl.trans h.ttl, le_trans h.clock hClock, ?_, ?_⟩
  · intro entry hRead
    rcases hL1 with hSame | hNone
    · rw [hSame] at hRead
      exact h.l1 entry hRead
    · rw [hNone] at hRead
      cases hRead
  · intro obj value hLookup hValue
    rw [hL2] at hLookup
    exact h.l2 obj value hLookup hValue

/- A `Get` of the key copies what it returns into L1. -/
theorem Within.get
    {input : GetInput}
    (h : Within start key origins s)
    (hOrigin :
      ∀ value, input.origin = .value value → value ∈ origins) :
    Within start key origins (s.get cfg key input).2 := by
  rcases s.get_cases cfg key input with
    hL1 | hL2 | hFetched | hFailed
  · rcases hL1 with ⟨_, _, _, _, hClock, hSame, hRedis⟩
    exact
      h.other (by rw [hSame]) (le_of_eq hClock.symm)
        (Or.inl (by rw [hSame])) (by rw [hRedis])
  · rcases hL2 with
      ⟨value, l1, _, hMissed, hHit, hClock, hSet, hRedis⟩
    rcases L2Cache.get_eq_hit hHit with
      ⟨obj, hLookup, hFresh, hValue⟩
    have hLive := h.of_live hLookup hFresh hValue
    refine ⟨?_, ?_, ?_, ?_⟩
    · rw [hSet]
      exact hMissed.ttl.trans h.ttl
    · rw [hClock]
      exact h.clock
    · intro entry hRead
      rw [hSet, L1Cache.read_set_self, hMissed.ttl] at hRead
      cases hRead
      apply Or.inr
      rcases hLive with hKeeps | hIn
      · exact
          Or.inl
            (hKeeps.earlier
              (Int.add_le_add_left (le_max_right _ _) _))
      · exact Or.inr hIn
    · intro obj' value' hLookup' hValue'
      rw [hRedis] at hLookup'
      exact h.l2 obj' value' hLookup' hValue'
  · rcases hFetched with
      ⟨value, l1, _, hReply, hMissed, hClock, hSet, hRedis⟩
    have hIn := hOrigin value hReply
    refine ⟨?_, ?_, ?_, ?_⟩
    · rw [hSet]
      exact hMissed.ttl.trans h.ttl
    · rw [hClock]
      exact h.clock
    · intro entry hRead
      rw [hSet, L1Cache.read_set_self] at hRead
      cases hRead
      exact Or.inr (Or.inr hIn)
    · intro obj value' hLookup hValue
      rw [hRedis] at hLookup
      rcases L2Cache.lookup_set_cases s.redis s.clock
        cfg.l2TTL key value input.l2Set with hKept | hNew
      · rw [hKept] at hLookup
        exact h.l2 obj value' hLookup hValue
      · rw [hNew] at hLookup
        cases hLookup
        cases hValue
        exact Or.inr hIn
  · rcases hFailed with
      ⟨_, l1, _, _, hMissed, hClock, hSame, hRedis⟩
    exact
      h.other (by rw [hSame, hMissed.ttl])
        (le_of_eq hClock.symm)
        (Or.inr (by rw [hSame, hMissed.self]))
        (by rw [hRedis])

/- A `Get` of another key may evict this one from L1. -/
theorem Within.get_other
    {k : Key}
    {input : GetInput}
    (h : Within start key origins s)
    (hNe : key ≠ k) :
    Within start key origins (s.get cfg k input).2 := by
  rcases s.get_cases cfg k input with
    hL1 | hL2 | hFetched | hFailed
  · rcases hL1 with ⟨_, _, _, _, hClock, hSame, hRedis⟩
    exact
      h.other (by rw [hSame]) (le_of_eq hClock.symm)
        (Or.inl (by rw [hSame])) (by rw [hRedis])
  · rcases hL2 with
      ⟨value, l1, _, hMissed, _, hClock, hSet, hRedis⟩
    refine h.other ?_ (le_of_eq hClock.symm) ?_ ?_
    · rw [hSet]
      exact hMissed.ttl
    · rw [hSet]
      exact hMissed.read_set_ne _ _ hNe
    · rw [hRedis]
  · rcases hFetched with
      ⟨value, l1, _, _, hMissed, hClock, hSet, hRedis⟩
    refine h.other ?_ (le_of_eq hClock.symm) ?_ ?_
    · rw [hSet]
      exact hMissed.ttl
    · rw [hSet]
      exact hMissed.read_set_ne _ _ hNe
    · rw [hRedis]
      exact L2Cache.lookup_set_ne _ _ _ _ _ hNe
  · rcases hFailed with
      ⟨_, l1, _, _, hMissed, hClock, hSame, hRedis⟩
    refine h.other ?_ (le_of_eq hClock.symm) ?_ ?_
    · rw [hSame]
      exact hMissed.ttl
    · rw [hSame]
      exact Or.inl (hMissed.other key hNe)
    · rw [hRedis]

theorem within_step
    {a : SerialAction}
    (h : Within start key origins s)
    (hLeaves : a.LeavesKey key)
    (hOrigin :
      ∀ value, a.originValue key = some value →
        value ∈ origins)
    (hStep : s.serialStep cfg a = some s') :
    Within start key origins s' := by
  cases a with
  | get k input =>
      cases hStep
      by_cases hEq : k = key
      · subst hEq
        apply h.get
        intro value hValue
        apply hOrigin value
        simp [SerialAction.originValue, hValue]
      · exact h.get_other (Ne.symm hEq)
  | set k value fault =>
      cases hStep
      have hNe : key ≠ k := Ne.symm hLeaves
      exact
        h.other rfl (le_refl _)
          (s.l1.read_set_ne_or_none s.clock value hNe)
          (L2Cache.lookup_set_ne _ _ _ _ _ hNe)
  | invalidate k fault =>
      cases hStep
      have hNe : key ≠ k := Ne.symm hLeaves
      exact
        h.other rfl (le_refl _)
          (Or.inl (s.l1.read_delete_ne hNe))
          (L2Cache.lookup_delete_ne _ _ hNe)
  | tick elapsed =>
      cases hStep
      exact
        h.other rfl
          (Int.le_add_of_nonneg_right
            (Int.natCast_nonneg elapsed))
          (Or.inl rfl) rfl

/- What a `Get` of the key returns it could return. -/
theorem Within.couldReturn
    {input : GetInput}
    {value : Value}
    (h : Within start key origins s)
    (hOrigin :
      ∀ v, input.origin = .value v → v ∈ origins)
    (hGet : (s.get cfg key input).1 = .ok value) :
    start.CouldReturn key origins s.clock value := by
  rw [get_result] at hGet
  rcases s.get_cases cfg key input with
    hL1 | hL2 | hFetched | hFailed
  · rcases hL1 with ⟨entry, hAnswer, hRead, hFresh, _⟩
    rw [hAnswer] at hGet
    cases hGet
    have hNow : s.clock ≤ entry.expiresAt :=
      not_lt.mp (of_decide_eq_false hFresh)
    rcases h.l1 entry hRead with hOld | hKeeps | hIn
    · exact Or.inl ⟨entry, hOld, rfl, hNow⟩
    · exact Or.inr (Or.inl (hKeeps.earlier hNow))
    · exact Or.inr (Or.inr hIn)
  · rcases hL2 with ⟨found, _, hAnswer, _, hHit, _⟩
    rw [hAnswer] at hGet
    cases hGet
    rcases L2Cache.get_eq_hit hHit with
      ⟨obj, hLookup, hFresh, hValue⟩
    apply Or.inr
    rcases h.of_live hLookup hFresh hValue with hKeeps | hIn
    · exact
        Or.inl
          (hKeeps.earlier
            (Int.le_add_of_nonneg_right (le_max_left _ _)))
    · exact Or.inr hIn
  · rcases hFetched with ⟨found, _, hAnswer, hReply, _⟩
    rw [hAnswer, hReply] at hGet
    cases hGet
    exact Or.inr (Or.inr (hOrigin _ hReply))
  · rcases hFailed with ⟨_, _, hAnswer, hReply, _⟩
    rw [hAnswer, hReply] at hGet
    cases hGet

/- Runs without writes of the key stay within its sources. -/
theorem within_of_run
    {actions : List SerialAction}
    (hLeaves : ∀ a ∈ actions, a.LeavesKey key)
    (hOrigin :
      ∀ a ∈ actions, ∀ value,
        a.originValue key = some value → value ∈ origins)
    (hRun :
      (serialMachine cfg).exec start actions = some s) :
    Within start key origins s := by
  refine
    Machine.exec_invariant_along
      (I := Within start key origins)
      (P := fun _ a =>
        a.LeavesKey key ∧
          ∀ value,
            a.originValue key = some value →
              value ∈ origins)
      ?_ (Machine.along_of_forall_mem ?_) hRun
      (Within.refl start key origins)
  · intro t a t' hI hP hStep
    exact within_step hI hP.1 hP.2 hStep
  · intro a ha
    exact ⟨hLeaves a ha, hOrigin a ha⟩

theorem mem_originValues
    {actions : List SerialAction}
    {a : SerialAction}
    {value : Value}
    (hMem : a ∈ actions)
    (hValue : a.originValue key = some value) :
    value ∈ SerialAction.originValues key actions :=
  List.mem_filterMap.mpr ⟨a, hMem, hValue⟩

/-
  In every serial run without writes of the key, a `Get`
  returns a value that it could return.
-/
theorem could_return_of_run
    {actions : List SerialAction}
    {input : GetInput}
    {value : Value}
    (hLeaves : ∀ a ∈ actions, a.LeavesKey key)
    (hRun :
      (serialMachine cfg).exec start actions = some s)
    (hGet : (s.get cfg key input).1 = .ok value) :
    start.CouldReturn key
      (SerialAction.originValues key
        (actions ++ [.get key input]))
      s.clock value := by
  have hWithin :
      Within start key
        (SerialAction.originValues key
          (actions ++ [.get key input])) s := by
    refine within_of_run hLeaves ?_ hRun
    intro a ha v hv
    exact mem_originValues (List.mem_append_left _ ha) hv
  refine hWithin.couldReturn ?_ hGet
  intro v hv
  have hLast : (SerialAction.get key input).originValue key =
      some v := by
    simp [SerialAction.originValue, hv]
  exact mem_originValues (by simp) hLast

end CacheStore

end CacheServer

------------------------------------------------------------
-- Failed Sets
------------------------------------------------------------

namespace CacheServer

open CacheStore

/- A Redis error of a command that was not applied. -/
def Fault.refused
    (text : Bytes) :
    Fault :=
  .error false text

/-
  After the failed `Set`, in every run in which no client
  writes the key, each `Get` of the key returns a value that
  it could have returned without that `Set`.
-/
def FailedSetInvisible
    (cfg : ManagerConfig)
    (s : CacheStore)
    (key : Key)
    (value : Value)
    (text : Bytes) :
    Prop :=
  ∀ actions s' input found,
    (∀ a ∈ actions, a.LeavesKey key) →
      (serialMachine cfg).exec
          (s.set cfg key value (.refused text)).2 actions =
        some s' →
      (s'.get cfg key input).1 = .ok found →
        s.CouldReturn key
          (SerialAction.originValues key
            (actions ++ [.get key input]))
          s'.clock found

/-
  The key holds the value in L2, or in L1 for as long as an
  entry stored now.
-/
def CacheStore.AlreadyHolds
    (s : CacheStore)
    (key : Key)
    (value : Value) :
    Prop :=
  s.L1Keeps key (s.clock + s.l1.ttl) value ∨
    ∃ obj,
      s.redis.live s.clock key = some obj ∧
        obj.value = .str value

namespace CacheStore

variable {cfg : ManagerConfig}
variable {s : CacheStore}
variable {key : Key}
variable {value : Value}
variable {text : Bytes}

/- What L2 holds now it keeps for a whole L1 lifetime. -/
theorem l2Keeps_iff :
    s.L2Keeps key (s.clock + s.l1.ttl) value ↔
      ∃ obj,
        s.redis.live s.clock key = some obj ∧
          obj.value = .str value := by
  constructor
  · intro h
    rcases h with ⟨obj, hLive, hValue, _⟩
    exact ⟨obj, hLive, hValue⟩
  · intro h
    rcases h with ⟨obj, hLive, hValue⟩
    refine ⟨obj, hLive, hValue, ?_⟩
    intro time hTime
    have hFresh := (Redis.live_eq_some.mp hLive).2
    have hNow : s.clock ≤ time := by
      simpa [RedisObj.expired, hTime] using hFresh
    have hMax : s.l1.ttl ≤ max 0 s.l1.ttl := le_max_right _ _
    omega

theorem alreadyHolds_iff :
    s.AlreadyHolds key value ↔
      s.CouldReturn key [] (s.clock + s.l1.ttl) value := by
  unfold AlreadyHolds CouldReturn
  rw [l2Keeps_iff]
  simp

/- A failed `Set` changes the L1 entry of the key only. -/
theorem couldReturn_after_failed_set
    {origins : List Value}
    {now : Int}
    {found : Value}
    (h :
      (s.set cfg key value (.refused text)).2.CouldReturn key
        origins now found) :
    s.CouldReturn key origins now found ∨
      (found = value ∧ now ≤ s.clock + s.l1.ttl) := by
  rcases h with ⟨entry, hRead, hValue, hNow⟩ | hL2 | hOrigin
  · apply Or.inr
    simp only [set, l1Set, l2Set, L1Cache.read_set_self]
      at hRead
    cases hRead
    exact ⟨hValue.symm, hNow⟩
  · exact Or.inl (Or.inr (Or.inl hL2))
  · exact Or.inl (Or.inr (Or.inr hOrigin))

theorem CouldReturn.earlier
    {origins : List Value}
    {now later : Int}
    (h : s.CouldReturn key [] later value)
    (hLe : now ≤ later) :
    s.CouldReturn key origins now value := by
  rcases h with ⟨entry, hRead, hValue, hNow⟩ | hL2 | hOrigin
  · exact Or.inl ⟨entry, hRead, hValue, le_trans hLe hNow⟩
  · exact Or.inr (Or.inl (hL2.earlier hLe))
  · cases hOrigin

/- Until its lifetime is over the rejected value is returned. -/
theorem get_rejected
    (input : GetInput) :
    ({ (s.set cfg key value (.refused text)).2 with
        clock := s.clock + s.l1.ttl }.get cfg key input).1 =
      .ok value := by
  have hAnswer :=
    l1Get_of_fresh
      (s :=
        { (s.set cfg key value (.refused text)).2 with
          clock := s.clock + s.l1.ttl })
      (s.l1.read_set_self s.clock key value)
      (by simp [L1Entry.expired])
  rw [get_result]
  simp [tierAnswer, hAnswer]

end CacheStore

/-
  A failed `Set` stays invisible exactly if L1 entries expire
  at once or the key already held the value: in L2, or in L1
  for as long as an entry stored now.
-/
theorem failed_set_invisible_iff
    (cfg : ManagerConfig)
    (s : CacheStore)
    (key : Key)
    (value : Value)
    (text : Bytes) :
    FailedSetInvisible cfg s key value text ↔
      s.l1.ttl < 0 ∨ s.AlreadyHolds key value := by
  constructor
  · intro h
    by_cases hTtl : s.l1.ttl < 0
    · exact Or.inl hTtl
    · apply Or.inr
      have hNonneg : 0 ≤ s.l1.ttl := not_lt.mp hTtl
      have hClock :
          s.clock + (s.l1.ttl.toNat : Int) =
            s.clock + s.l1.ttl := by
        rw [Int.toNat_of_nonneg hNonneg]
      -- The origin has no value, so none can come from it.
      have hCould :=
        h [.tick s.l1.ttl.toNat]
          { (s.set cfg key value (.refused text)).2 with
            clock := s.clock + s.l1.ttl }
          ⟨.none, .error (.failed []), .none⟩ value
          (by
            intro a ha
            rw [List.mem_singleton.mp ha]
            trivial)
          (by
            rw [← hClock]
            rfl)
          (get_rejected _)
      exact alreadyHolds_iff.mpr hCould
  · intro h actions s' input found hLeaves hRun hGet
    rcases couldReturn_after_failed_set
      (could_return_of_run hLeaves hRun hGet) with
      hCould | ⟨rfl, hNow⟩
    · exact hCould
    · rcases h with hTtl | hHolds
      · have hLater : s.clock ≤ s'.clock :=
          (within_of_run hLeaves
            (fun _ ha _ => mem_originValues ha) hRun).clock
        omega
      · exact (alreadyHolds_iff.mp hHolds).earlier hNow

/- A rejected value is returned, and the origin has another. -/
theorem failed_set_visible :
    ¬ FailedSetInvisible ⟨true, 100⟩
      (CacheStore.new 1000 5 ∅ 0) [1] [7] [] := by
  intro h
  have hCould :=
    h [] _ ⟨.none, .value [9], .none⟩ [7] (by simp) rfl rfl
  rcases hCould with ⟨entry, hRead, _⟩ | hL2 | hOrigin
  · cases hRead
  · rcases hL2 with ⟨obj, hLive, _⟩
    cases hLive
  · exact absurd hOrigin (by decide)

end CacheServer
