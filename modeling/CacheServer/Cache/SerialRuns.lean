import CacheServer.Cache.Manager
import CacheServer.Lib.Machine
import CacheServer.Lib.TtlCell

/-
  Serial runs of the two-tier cache against a store with one
  lifetime.

  The abstract store remembers the last write of each key in
  a cell that lives as long as an L2 entry; copies in L1 lag
  behind by at most the L1 TTL. Every call preserves that
  the tiers hold what the cells allow.

  Key definitions include:
    * `CacheServer.serialMachine`
    * `CacheServer.CacheStore.recordWrite`
    * `CacheServer.TierCell`
    * `CacheServer.CacheStore.Simulates`

  Key theorems include:
    * `CacheServer.CacheStore.get_cases`
    * `CacheServer.CacheStore.simulates_step`
    * `CacheServer.CacheStore.tierAnswer_mayAnswer`
    * `CacheServer.serial_reads_equal_ttl_store`
-/

------------------------------------------------------------
-- Serial Runs
------------------------------------------------------------

namespace CacheServer

/- A call from start to end, or the passing of time. -/
inductive SerialAction
| get (key : Key) (input : GetInput)
| set (key : Key) (value : Value) (fault : Fault)
| invalidate (key : Key) (fault : Fault)
| tick (elapsed : Nat)
deriving DecidableEq

namespace CacheStore

def serialStep
    (cfg : ManagerConfig)
    (s : CacheStore) :
    SerialAction → Option CacheStore
| .get key input => some (s.get cfg key input).2
| .set key value fault => some (s.set cfg key value fault).2
| .invalidate key fault => some (s.invalidate key fault).2
| .tick elapsed => some { s with clock := s.clock + elapsed }

/-
  The last write of each key: a `Set`, or an origin value
  that a `Get` stored. `Invalidate` leaves none.
-/
def recordWrite
    (s : CacheStore)
    (a : SerialAction)
    (cells : Key → TtlCell Value) :
    Key → TtlCell Value :=
  match a with
  | .get key input =>
      match s.tierAnswer key input.l2Get, input.origin with
      | none, .value value =>
          Function.update cells key (.stored value s.clock)
      | _, _ => cells
  | .set key value _ =>
      Function.update cells key (.stored value s.clock)
  | .invalidate key _ => Function.update cells key .absent
  | .tick _ => cells

end CacheStore

def serialMachine
    (cfg : ManagerConfig) :
    Machine CacheStore SerialAction :=
  { step := CacheStore.serialStep cfg }

/- No Redis call of the `Get` fails. -/
def GetInput.NoFault
    (input : GetInput) :
    Prop :=
  input.l2Get = .none ∧ input.l2Set = .none

/- No Redis call fails. -/
def SerialAction.NoFault :
    SerialAction → Prop
| .get _ input => input.NoFault
| .set _ _ fault => fault = .none
| .invalidate _ fault => fault = .none
| .tick _ => True

end CacheServer

------------------------------------------------------------
-- What A Get Does To The Tiers
------------------------------------------------------------

namespace CacheServer

namespace CacheStore

/- L1 after a miss: the key has no entry, others are kept. -/
structure L1Missed
    (s : CacheStore)
    (key : Key)
    (l1 : L1Cache) :
    Prop where
  ttl : l1.ttl = s.l1.ttl
  self : l1.read key = none
  other :
    ∀ k, k ≠ key → l1.read k = s.l1.read k

theorem l1Missed_of_l1Get
    {s : CacheStore}
    {key : Key}
    (h :
      (s.l1Get key).2.l1 = s.l1 ∧ s.l1.read key = none ∨
        (s.l1Get key).2.l1 = s.l1.delete key) :
    s.L1Missed key (s.l1Get key).2.l1 := by
  rcases h with ⟨hSame, hNone⟩ | hDelete
  · rw [hSame]
    exact ⟨rfl, hNone, fun _ _ => rfl⟩
  · rw [hDelete]
    refine ⟨rfl, s.l1.read_delete_self key, ?_⟩
    intro k hNe
    exact s.l1.read_delete_ne hNe

/-
  A `Get` is answered by L1, or by L2 with a copy into L1, or
  by the origin with a copy into both tiers, or it fails.
-/
theorem get_cases
    (cfg : ManagerConfig)
    (s : CacheStore)
    (key : Key)
    (input : GetInput) :
    let s' := (s.get cfg key input).2
    (∃ entry,
      s.tierAnswer key input.l2Get = some entry.value ∧
        s.l1.read key = some entry ∧
        entry.expired s.clock = false ∧
        s'.clock = s.clock ∧ s'.l1 = s.l1 ∧
        s'.redis = s.redis) ∨
    (∃ value l1,
      s.tierAnswer key input.l2Get = some value ∧
        s.L1Missed key l1 ∧
        L2Cache.get s.redis s.clock key input.l2Get =
          .hit value ∧
        s'.clock = s.clock ∧
        s'.l1 = l1.set s.clock key value ∧
        s'.redis = s.redis) ∨
    (∃ value l1,
      s.tierAnswer key input.l2Get = none ∧
        input.origin = .value value ∧
        s.L1Missed key l1 ∧
        s'.clock = s.clock ∧
        s'.l1 = l1.set s.clock key value ∧
        s'.redis =
          L2Cache.set s.redis s.clock cfg.l2TTL key value
            input.l2Set) ∨
    (∃ cause l1,
      s.tierAnswer key input.l2Get = none ∧
        input.origin = .error cause ∧
        s.L1Missed key l1 ∧
        s'.clock = s.clock ∧ s'.l1 = l1 ∧
        s'.redis = s.redis) := by
  intro s'
  have hClock := s.l1Get_clock key
  have hRedis := s.l1Get_redis key
  rcases s.l1Get_cases key with hHit | ⟨hNone, hL1⟩
  · rcases hHit with ⟨entry, hRead, hFresh, hAnswer, hL1⟩
    refine Or.inl ⟨entry, ?_, hRead, hFresh, ?_⟩
    · simp [tierAnswer, hAnswer]
    · rcases hFirst : s.l1Get key with ⟨answer, s₁⟩
      rw [hFirst] at hAnswer hL1 hClock hRedis
      simp only at hAnswer hL1 hClock hRedis
      subst hAnswer
      simp [s', get, hFirst, recordLatency, hL1, hClock,
        hRedis]
  · apply Or.inr
    have hMissed := l1Missed_of_l1Get hL1
    rcases hFirst : s.l1Get key with ⟨answer, s₁⟩
    rw [hFirst] at hNone hMissed hClock hRedis
    simp only at hNone hMissed hClock hRedis
    subst hNone
    have hClock₂ := s₁.l2Get_clock key input.l2Get
    have hL1₂ := s₁.l2Get_l1 key input.l2Get
    have hRedis₂ := s₁.l2Get_redis key input.l2Get
    rcases hSecond : s₁.l2Get key input.l2Get with
      ⟨found, s₂⟩
    rw [hSecond] at hClock₂ hL1₂ hRedis₂
    simp only at hClock₂ hL1₂ hRedis₂
    have hAnswer : s.tierAnswer key input.l2Get = found := by
      simp [tierAnswer, hFirst, hSecond]
    cases found with
    | some value =>
        apply Or.inl
        refine ⟨value, s₁.l1, hAnswer, hMissed, ?_, ?_⟩
        · have hHit :
              L2Cache.get s₁.redis s₁.clock key
                input.l2Get = .hit value :=
            l2Get_eq_some.mp (by rw [hSecond])
          rw [← hClock, ← hRedis]
          exact hHit
        · simp [s', get, hFirst, hSecond, recordLatency,
            l1Set, hL1₂, hClock₂, hRedis₂, hClock, hRedis]
    | none =>
        apply Or.inr
        cases hOrigin : input.origin with
        | value value =>
            apply Or.inl
            refine
              ⟨value, s₁.l1, hAnswer, rfl, hMissed, ?_⟩
            simp [s', get, hFirst, hSecond, recordLatency,
              doOriginFetch, hOrigin, l1Set, l2Set, hL1₂,
              hClock₂, hRedis₂, hClock, hRedis]
        | error cause =>
            apply Or.inr
            refine
              ⟨cause, s₁.l1, hAnswer, rfl, hMissed, ?_⟩
            simp [s', get, hFirst, hSecond, recordLatency,
              doOriginFetch, hOrigin, hL1₂, hClock₂,
              hRedis₂, hClock, hRedis]

end CacheStore

end CacheServer

------------------------------------------------------------
-- What A Cell Allows The Tiers To Hold
------------------------------------------------------------

namespace CacheServer

/-
  The entries of one key that are in line with its cell. L2
  holds the last write until `life` after it; a copy in L1
  expires at most `lag` later.
-/
def TierCell
    (life : Int)
    (lag : Int)
    (now : Int)
    (l1 : Option L1Entry)
    (l2 : Option RedisObj) :
    TtlCell Value → Prop
| .unknown =>
    ∀ entry ∈ l1, ∃ obj ∈ l2, obj.value = .str entry.value
| .absent => l1 = none ∧ l2 = none
| .stored value writtenAt =>
    l2 =
        some
          { value := .str value
            expiresAt := some (writtenAt + life) } ∧
      writtenAt ≤ now ∧
        ∀ entry ∈ l1,
          entry.value = value ∧
            entry.expiresAt ≤ writtenAt + life + lag

namespace TierCell

variable {life lag now : Int}
variable {l1 l1' : Option L1Entry}
variable {l2 : Option RedisObj}
variable {cell : TtlCell Value}

/- L1 may lose its entry. -/
theorem forget
    (h : TierCell life lag now l1 l2 cell)
    (hForget : l1' = l1 ∨ l1' = none) :
    TierCell life lag now l1' l2 cell := by
  rcases hForget with rfl | rfl
  · exact h
  · cases cell with
    | unknown =>
        intro entry hEntry
        cases hEntry
    | absent => exact ⟨rfl, h.2⟩
    | stored value writtenAt =>
        refine ⟨h.1, h.2.1, ?_⟩
        intro entry hEntry
        cases hEntry

/- Time may pass. -/
theorem later
    {now' : Int}
    (h : TierCell life lag now l1 l2 cell)
    (hLe : now ≤ now') :
    TierCell life lag now' l1 l2 cell := by
  cases cell with
  | unknown => exact h
  | absent => exact h
  | stored value writtenAt =>
      exact ⟨h.1, le_trans h.2.1 hLe, h.2.2⟩

/- Both tiers have just been written. -/
theorem write
    (hLife : 0 < life)
    (value : Value) :
    TierCell life lag now
      (some { value := value, expiresAt := now + lag })
      (some
        { value := .str value
          expiresAt := Redis.expiry now life })
      (.stored value now) := by
  refine ⟨by simp [Redis.expiry, hLife], le_refl _, ?_⟩
  intro entry hEntry
  cases hEntry
  refine ⟨rfl, ?_⟩
  simp only
  omega

/- A live L2 value may be copied into L1. -/
theorem copy
    {obj : RedisObj}
    {value : Value}
    (h : TierCell life lag now l1 (some obj) cell)
    (hFresh : obj.expired now = false)
    (hValue : obj.value = .str value) :
    TierCell life lag now
      (some { value := value, expiresAt := now + lag })
      (some obj) cell := by
  cases cell with
  | unknown =>
      intro entry hEntry
      cases hEntry
      exact ⟨obj, rfl, hValue⟩
  | absent => cases h.2
  | stored last writtenAt =>
      refine ⟨h.1, h.2.1, ?_⟩
      intro entry hEntry
      cases hEntry
      have hObj := Option.some.inj h.1
      rw [hObj] at hFresh hValue
      have hWithin : now ≤ writtenAt + life := by
        simpa [RedisObj.expired] using hFresh
      refine ⟨(RedisValue.str.inj hValue).symm, ?_⟩
      simp only
      omega

/- An unexpired L1 entry is an answer the cell allows. -/
theorem mayAnswer_l1
    {entry : L1Entry}
    (h : TierCell life lag now (some entry) l2 cell)
    (hFresh : entry.expired now = false) :
    cell.MayAnswer life lag now (some entry.value) := by
  cases cell with
  | unknown => trivial
  | absent => cases h.1
  | stored value writtenAt =>
      have hEntry := h.2.2 entry rfl
      have hNow : ¬ entry.expiresAt < now :=
        of_decide_eq_false hFresh
      refine ⟨hEntry.1, ?_⟩
      omega

/- A live L2 value is an answer the cell allows. -/
theorem mayAnswer_l2
    {obj : RedisObj}
    {value : Value}
    (h : TierCell life lag now none (some obj) cell)
    (hLag : 0 ≤ lag)
    (hFresh : obj.expired now = false)
    (hValue : obj.value = .str value) :
    cell.MayAnswer life lag now (some value) := by
  cases cell with
  | unknown => trivial
  | absent => cases h.2
  | stored last writtenAt =>
      have hObj := Option.some.inj h.1
      rw [hObj] at hFresh hValue
      have hWithin : now ≤ writtenAt + life := by
        simpa [RedisObj.expired] using hFresh
      refine ⟨(RedisValue.str.inj hValue).symm, ?_⟩
      omega

/- No live L2 value means that the lifetime has passed. -/
theorem mayAnswer_none
    (h : TierCell life lag now none l2 cell)
    (hMiss :
      ∀ obj value,
        l2 = some obj → obj.expired now = false →
          obj.value ≠ .str value) :
    cell.MayAnswer life lag now none := by
  cases cell with
  | unknown => trivial
  | absent => rfl
  | stored value writtenAt =>
      have hExpired :
          ¬ RedisObj.expired
            { value := .str value
              expiresAt := some (writtenAt + life) }
            now = false := by
        intro hFresh
        exact hMiss _ value h.1 hFresh rfl
      have hOver : writtenAt + life < now := by
        simpa [RedisObj.expired] using hExpired
      exact hOver

/- Unexpired entries of both tiers have the same value. -/
theorem agree
    {entry : L1Entry}
    {obj : RedisObj}
    (h : TierCell life lag now (some entry) (some obj) cell) :
    obj.value = .str entry.value := by
  cases cell with
  | unknown =>
      rcases h entry rfl with ⟨obj', hObj, hValue⟩
      cases hObj
      exact hValue
  | absent => cases h.1
  | stored value writtenAt =>
      have hObj := Option.some.inj h.1
      have hEntry := h.2.2 entry rfl
      rw [hObj, hEntry.1]

end TierCell

end CacheServer

------------------------------------------------------------
-- Simulation
------------------------------------------------------------

namespace CacheServer

namespace CacheStore

/- The tiers hold what the cells allow, key by key. -/
structure Simulates
    (life : Int)
    (lag : Int)
    (s : CacheStore)
    (cells : Key → TtlCell Value) :
    Prop where
  ttl : s.l1.ttl = lag
  cell :
    ∀ key,
      TierCell life lag s.clock (s.l1.read key)
        (s.redis.lookup key) (cells key)

variable {life lag : Int}
variable {s s' : CacheStore}
variable {cells : Key → TtlCell Value}

/-
  A call that changes one key of the tiers in line with its
  new cell, and forgets at most L1 entries of other keys.
-/
theorem Simulates.update
    {key : Key}
    {cell : TtlCell Value}
    (h : s.Simulates life lag cells)
    (hTtl : s'.l1.ttl = s.l1.ttl)
    (hClock : s'.clock = s.clock)
    (hSelf :
      TierCell life lag s.clock (s'.l1.read key)
        (s'.redis.lookup key) cell)
    (hL1 :
      ∀ k, k ≠ key →
        s'.l1.read k = s.l1.read k ∨ s'.l1.read k = none)
    (hL2 :
      ∀ k, k ≠ key →
        s'.redis.lookup k = s.redis.lookup k) :
    s'.Simulates life lag
      (Function.update cells key cell) := by
  refine ⟨hTtl.trans h.ttl, ?_⟩
  intro k
  rw [hClock]
  by_cases hEq : k = key
  · subst hEq
    simpa using hSelf
  · rw [Function.update_of_ne hEq, hL2 k hEq]
    exact (h.cell k).forget (hL1 k hEq)

/- The cells stay as they are if the key's cell does. -/
theorem Simulates.keep
    (h : s.Simulates life lag cells)
    (key : Key)
    (hTtl : s'.l1.ttl = s.l1.ttl)
    (hClock : s'.clock = s.clock)
    (hSelf :
      TierCell life lag s.clock (s'.l1.read key)
        (s'.redis.lookup key) (cells key))
    (hL1 :
      ∀ k, k ≠ key →
        s'.l1.read k = s.l1.read k ∨ s'.l1.read k = none)
    (hL2 :
      ∀ k, k ≠ key →
        s'.redis.lookup k = s.redis.lookup k) :
    s'.Simulates life lag cells := by
  have hUpdate := h.update hTtl hClock hSelf hL1 hL2
  rwa [Function.update_eq_self] at hUpdate

/- L1 after a miss and a `Set`, on the keys not set. -/
theorem L1Missed.read_set_ne
    {key k : Key}
    {l1 : L1Cache}
    (h : s.L1Missed key l1)
    (now : Int)
    (value : Value)
    (hNe : k ≠ key) :
    (l1.set now key value).read k = s.l1.read k ∨
      (l1.set now key value).read k = none := by
  rw [← h.other k hNe]
  exact l1.read_set_ne_or_none now value hNe

theorem simulates_get
    (cfg : ManagerConfig)
    (key : Key)
    (input : GetInput)
    (hLife : 0 < cfg.l2TTL)
    (hOk : input.NoFault)
    (h : s.Simulates cfg.l2TTL lag cells) :
    (s.get cfg key input).2.Simulates cfg.l2TTL lag
      (s.recordWrite (.get key input) cells) := by
  rcases s.get_cases cfg key input with
    hL1 | hL2 | hOrigin | hFail
  · rcases hL1 with
      ⟨entry, hAnswer, _, _, hClock, hSame, hRedis⟩
    simp only [recordWrite, hAnswer]
    refine ⟨by rw [hSame]; exact h.ttl, ?_⟩
    intro k
    rw [hClock, hSame, hRedis]
    exact h.cell k
  · rcases hL2 with
      ⟨value, l1, hAnswer, hMissed, hHit, hClock, hSet,
        hRedis⟩
    rcases L2Cache.get_eq_hit hHit with
      ⟨obj, hLookup, hFresh, hValue⟩
    simp only [recordWrite, hAnswer]
    have hCell := h.cell key
    rw [hLookup] at hCell
    have hCopy := hCell.copy hFresh hValue
    refine h.keep key ?_ hClock ?_ ?_ ?_
    · rw [hSet]
      exact hMissed.ttl
    · rw [hSet, hRedis, hLookup, L1Cache.read_set_self,
        hMissed.ttl, h.ttl]
      exact hCopy
    · intro k hNe
      rw [hSet]
      exact hMissed.read_set_ne _ _ hNe
    · intro k _
      rw [hRedis]
  · rcases hOrigin with
      ⟨value, l1, hAnswer, hValue, hMissed, hClock, hSet,
        hRedis⟩
    simp only [recordWrite, hAnswer, hValue]
    rw [hOk.2, L2Cache.set, Fault.apply_none] at hRedis
    refine h.update ?_ hClock ?_ ?_ ?_
    · rw [hSet]
      exact hMissed.ttl
    · rw [hSet, hRedis, L1Cache.read_set_self, hMissed.ttl,
        h.ttl, Redis.set_lookup_self]
      exact TierCell.write hLife value
    · intro k hNe
      rw [hSet]
      exact hMissed.read_set_ne _ _ hNe
    · intro k hNe
      rw [hRedis]
      exact s.redis.set_lookup_ne _ _ _ hNe
  · rcases hFail with
      ⟨cause, l1, hAnswer, hCause, hMissed, hClock, hSame,
        hRedis⟩
    simp only [recordWrite, hAnswer, hCause]
    refine h.keep key ?_ hClock ?_ ?_ ?_
    · rw [hSame]
      exact hMissed.ttl
    · rw [hSame, hRedis]
      exact (h.cell key).forget (Or.inr hMissed.self)
    · intro k hNe
      rw [hSame]
      exact Or.inl (hMissed.other k hNe)
    · intro k _
      rw [hRedis]

/- Every call keeps the tiers in line with the last writes. -/
theorem simulates_step
    (cfg : ManagerConfig)
    {a : SerialAction}
    (hLife : 0 < cfg.l2TTL)
    (hOk : a.NoFault)
    (h : s.Simulates cfg.l2TTL lag cells)
    (hStep : s.serialStep cfg a = some s') :
    s'.Simulates cfg.l2TTL lag (s.recordWrite a cells) := by
  cases a with
  | get key input =>
      simp only [serialStep, Option.some.injEq] at hStep
      subst hStep
      exact simulates_get cfg key input hLife hOk h
  | set key value fault =>
      simp only [serialStep, Option.some.injEq] at hStep
      subst hStep
      have hFault : fault = .none := hOk
      subst hFault
      refine h.update rfl rfl ?_ ?_ ?_
      · simp only [set, l1Set, l2Set, L2Cache.set,
          Fault.apply_none, L1Cache.read_set_self, h.ttl,
          Redis.set_lookup_self]
        exact TierCell.write hLife value
      · intro k hNe
        exact s.l1.read_set_ne_or_none _ _ hNe
      · intro k hNe
        exact s.redis.set_lookup_ne _ _ _ hNe
  | invalidate key fault =>
      simp only [serialStep, Option.some.injEq] at hStep
      subst hStep
      have hFault : fault = .none := hOk
      subst hFault
      refine h.update rfl rfl ?_ ?_ ?_
      · exact
          ⟨s.l1.read_delete_self key,
            s.redis.del_lookup_self key⟩
      · intro k _
        exact s.l1.read_delete_or_none key k
      · intro k hNe
        exact s.redis.del_lookup_ne hNe
  | tick elapsed =>
      simp only [serialStep, Option.some.injEq] at hStep
      subst hStep
      refine ⟨h.ttl, ?_⟩
      intro k
      exact (h.cell k).later (by simp)

/- The tiers of a server just started hold no L1 entry. -/
theorem simulates_new
    (life : Int)
    (maxSize : Int)
    (l1TTL : Int)
    (redis : Redis)
    (clock : Int) :
    (CacheStore.new maxSize l1TTL redis clock).Simulates life
      l1TTL (fun _ => .unknown) := by
  refine ⟨rfl, ?_⟩
  intro key entry hEntry
  cases hEntry

/- Without an L1 entry the answer is that of `GET`. -/
theorem tierAnswer_of_l1Get_none
    {key : Key}
    {fault : Fault}
    {value : Value}
    (hNone : (s.l1Get key).1 = none) :
    s.tierAnswer key fault = some value ↔
      L2Cache.get s.redis s.clock key fault =
        .hit value := by
  unfold tierAnswer
  rw [hNone]
  simp only [l2Get_eq_some, l1Get_redis, l1Get_clock]

/- What the tiers answer is what the cell allows. -/
theorem tierAnswer_mayAnswer
    (key : Key)
    (hLag : 0 ≤ lag)
    (h : s.Simulates life lag cells) :
    (cells key).MayAnswer life lag s.clock
      (s.tierAnswer key .none) := by
  have hCell := h.cell key
  rcases s.l1Get_cases key with hHit | ⟨hNone, _⟩
  · rcases hHit with ⟨entry, hRead, hFresh, hAnswer, _⟩
    have hTier :
        s.tierAnswer key .none = some entry.value := by
      simp [tierAnswer, hAnswer]
    rw [hTier]
    rw [hRead] at hCell
    exact hCell.mayAnswer_l1 hFresh
  · have hBare :
        TierCell life lag s.clock none (s.redis.lookup key)
          (cells key) :=
      hCell.forget (Or.inr rfl)
    cases hTier : s.tierAnswer key .none with
    | some value =>
        have hGet := (tierAnswer_of_l1Get_none hNone).mp hTier
        rcases L2Cache.get_eq_hit hGet with
          ⟨obj, hLookup, hFresh, hValue⟩
        rw [hLookup] at hBare
        exact hBare.mayAnswer_l2 hLag hFresh hValue
    | none =>
        apply hBare.mayAnswer_none
        intro obj value hLookup hFresh hValue
        have hGet :=
          L2Cache.get_of_live hLookup hFresh hValue
        have hSome := (tierAnswer_of_l1Get_none hNone).mpr hGet
        rw [hTier] at hSome
        cases hSome

/- Tiers in line with the cells agree on every key. -/
theorem Simulates.agreeOn
    (h : s.Simulates life lag cells)
    (key : Key) :
    s.AgreeOn key := by
  intro entry obj hRead _ hLive
  have hCell := h.cell key
  rw [hRead, (Redis.live_eq_some.mp hLive).1] at hCell
  exact hCell.agree

end CacheStore

end CacheServer

------------------------------------------------------------
-- Serial Reads
------------------------------------------------------------

namespace CacheServer

open CacheStore

/-
  After every serial run without failing Redis calls: the
  tiers agree on every key. A value last written at `t₀` is
  what a `Get` returns until its L2 lifetime is over. A `Get`
  that the tiers answer returns the last value written, at
  most the two TTLs after that write; later, and after an
  `Invalidate`, a `Get` returns what the origin replies.
-/
theorem serial_reads_equal_ttl_store
    (cfg : ManagerConfig)
    (maxSize : Int)
    (l1TTL : Int)
    (redis : Redis)
    (clock : Int)
    (actions : List SerialAction)
    (s : CacheStore × (Key → TtlCell Value))
    (hL1 : 0 ≤ l1TTL)
    (hL2 : 0 < cfg.l2TTL)
    (hNoFault : ∀ a ∈ actions, a.NoFault)
    (hRun :
      ((serialMachine cfg).withHistory recordWrite).exec
        (CacheStore.new maxSize l1TTL redis clock,
          fun _ => .unknown) actions = some s) :
    (∀ key, s.1.AgreeOn key) ∧
      ∀ key input, input.NoFault →
        (∀ value t₀,
          s.2 key = .stored value t₀ →
            (s.1.clock ≤ t₀ + cfg.l2TTL →
              (s.1.get cfg key input).1 = .ok value) ∧
            (∀ found,
              s.1.tierAnswer key input.l2Get = some found →
                found = value ∧
                  s.1.clock ≤ t₀ + cfg.l2TTL + l1TTL) ∧
            (t₀ + cfg.l2TTL + l1TTL < s.1.clock →
              (s.1.get cfg key input).1 =
                input.origin.result key)) ∧
          (s.2 key = .absent →
            (s.1.get cfg key input).1 =
              input.origin.result key) := by
  have hSim : s.1.Simulates cfg.l2TTL l1TTL s.2 := by
    refine
      Machine.exec_invariant_along
        (I := fun t => t.1.Simulates cfg.l2TTL l1TTL t.2)
        ?_ (Machine.along_of_forall_mem hNoFault) hRun
        (simulates_new _ maxSize l1TTL redis clock)
    intro t a t' hI hOk hStep
    rcases Machine.withHistory_step.mp hStep with
      ⟨hFirst, hCells⟩
    rw [hCells]
    exact simulates_step cfg hL2 hOk hI hFirst
  refine ⟨hSim.agreeOn, ?_⟩
  intro key input hOk
  have hMay := tierAnswer_mayAnswer key hL1 hSim
  rw [hOk.1]
  constructor
  · intro value t₀ hCell
    rw [hCell] at hMay
    refine ⟨?_, ?_, ?_⟩
    · intro hAlive
      rw [get_result, hOk.1,
        TtlCell.answer_of_alive hMay hAlive]
    · intro found hFound
      rw [hFound] at hMay
      exact hMay
    · intro hOver
      rw [get_result, hOk.1,
        TtlCell.answer_of_over hMay hOver]
  · intro hCell
    rw [hCell] at hMay
    rw [get_result, hOk.1,
      show s.1.tierAnswer key .none = none from hMay]

/- A `Set`, and a `Get` after the L1 copy has expired. -/
theorem serial_reads_equal_ttl_store_after_l1_expiry :
    ∃ s,
      ((serialMachine ⟨true, 100⟩).withHistory
            recordWrite).exec
          (CacheStore.new 1000 5 ∅ 0, fun _ => .unknown)
          [.set [1] [7] .none, .tick 10] = some s ∧
        s.1.AgreeOn [1] ∧
          (s.1.get ⟨true, 100⟩ [1]
            ⟨.none, .value [8], .none⟩).1 = .ok [7] := by
  have h :=
    serial_reads_equal_ttl_store ⟨true, 100⟩ 1000 5 ∅ 0
      [.set [1] [7] .none, .tick 10] _ (by decide)
      (by decide) (by simp [SerialAction.NoFault])
      (Machine.exec_get rfl)
  have hGet := h.2 [1] ⟨.none, .value [8], .none⟩ ⟨rfl, rfl⟩
  exact
    ⟨_, Machine.exec_get rfl, h.1 [1],
      (hGet.1 [7] 0 (by decide)).1 (by decide)⟩

end CacheServer
