import CacheServer.Cache.L1
import CacheServer.Cache.L2

/-
  The two-tier cache of `internal/cache/manager.go`, one call
  at a time.

  Each function is a call that runs from start to end with
  no other call in between and no time passing. A call alone
  in its singleflight group simply runs its function, so the
  switch for coalescing plays no part here. The outcomes of
  backend calls are arguments.

  Key definitions include:
    * `CacheServer.CacheStore`
    * `CacheServer.CacheStore.doOriginFetch`
    * `CacheServer.CacheStore.get`
    * `CacheServer.CacheStore.set`
    * `CacheServer.CacheStore.invalidate`

  Key theorems include:
    * `CacheServer.CacheStore.l1Get_cases`
    * `CacheServer.CacheStore.l2Get_eq_some`
    * `CacheServer.CacheStore.get_result`
-/

------------------------------------------------------------
-- The Tiers And The Origin
------------------------------------------------------------

namespace CacheServer

structure ManagerConfig where
  useSF : Bool
  l2TTL : Int
deriving DecidableEq, Repr

/- The clock, both tiers and the global counters. -/
structure CacheStore where
  clock : Int
  l1 : L1Cache
  redis : Redis
  metrics : Metrics

/- A server just started on a Redis that may hold data. -/
def CacheStore.new
    (maxSize : Int)
    (l1TTL : Int)
    (redis : Redis)
    (clock : Int) :
    CacheStore :=
  { clock := clock
    l1 := newL1 maxSize l1TTL
    redis := redis
    metrics := Metrics.zero }

/- Why an origin call fails: by itself or by its context. -/
inductive OriginError
| failed (text : Bytes)
| cancelled
deriving DecidableEq, Repr

/- What the origin answers to one call. -/
inductive OriginReply
| value (value : Value)
| error (cause : OriginError)
deriving DecidableEq, Repr

/-
  What `Manager.Get` returns. Its only error wraps that of
  the origin: `origin fetch failed for key %q: %w`.
-/
inductive GetResult
| ok (value : Value)
| originFailed (key : Key) (cause : OriginError)
deriving DecidableEq, Repr

/- The result of an origin call for a key. -/
def OriginReply.result
    (key : Key) :
    OriginReply → GetResult
| .value found => .ok found
| .error cause => .originFailed key cause

/- How the backend calls of one `Get` turn out. -/
structure GetInput where
  l2Get : Fault
  origin : OriginReply
  l2Set : Fault
deriving DecidableEq

end CacheServer

------------------------------------------------------------
-- Calls
------------------------------------------------------------

namespace CacheServer

namespace CacheStore

/- `L1Cache.Get` with its counters. -/
def l1Get
    (s : CacheStore)
    (key : Key) :
    Option Value × CacheStore :=
  match s.l1.get s.clock key with
  | (some value, l1) =>
      (some value,
        { s with
          l1 := l1
          metrics :=
            { s.metrics with
              l1Hits := s.metrics.l1Hits + 1 } })
  | (none, l1) =>
      (none,
        { s with
          l1 := l1
          metrics :=
            { s.metrics with
              l1Misses := s.metrics.l1Misses + 1 } })

def l1Set
    (s : CacheStore)
    (key : Key)
    (value : Value) :
    CacheStore :=
  { s with l1 := s.l1.set s.clock key value }

/- `L2Cache.Get` with its counters. -/
def l2Get
    (s : CacheStore)
    (key : Key)
    (fault : Fault) :
    Option Value × CacheStore :=
  match L2Cache.get s.redis s.clock key fault with
  | .hit value =>
      (some value,
        { s with
          metrics :=
            { s.metrics with
              l2Hits := s.metrics.l2Hits + 1 } })
  | .nil =>
      (none,
        { s with
          metrics :=
            { s.metrics with
              l2Misses := s.metrics.l2Misses + 1 } })
  | .error =>
      (none,
        { s with
          metrics :=
            { s.metrics with
              originErrors := s.metrics.originErrors + 1
              l2Misses := s.metrics.l2Misses + 1 } })

def l2Set
    (cfg : ManagerConfig)
    (s : CacheStore)
    (key : Key)
    (value : Value)
    (fault : Fault) :
    CacheStore :=
  { s with
    redis :=
      L2Cache.set s.redis s.clock cfg.l2TTL key value fault }

def recordLatency
    (s : CacheStore)
    (elapsed : Int) :
    CacheStore :=
  { s with
    metrics :=
      { s.metrics with
        totalLatencyNs := s.metrics.totalLatencyNs + elapsed
        totalRequests := s.metrics.totalRequests + 1 } }

/- The background `L2Cache.Set` runs before the L1 one. -/
def doOriginFetch
    (cfg : ManagerConfig)
    (s : CacheStore)
    (key : Key)
    (input : GetInput) :
    GetResult × CacheStore :=
  let called :=
    { s with
      metrics :=
        { s.metrics with
          originCalls := s.metrics.originCalls + 1 } }
  match input.origin with
  | .error cause =>
      (.originFailed key cause,
        { called with
          metrics :=
            { called.metrics with
              originErrors :=
                called.metrics.originErrors + 1 } })
  | .value value =>
      (.ok value,
        (called.l2Set cfg key value input.l2Set).l1Set key
          value)

def get
    (cfg : ManagerConfig)
    (s : CacheStore)
    (key : Key)
    (input : GetInput) :
    GetResult × CacheStore :=
  match s.l1Get key with
  | (some value, s₁) => (.ok value, s₁.recordLatency 0)
  | (none, s₁) =>
      match s₁.l2Get key input.l2Get with
      | (some value, s₂) =>
          (.ok value, (s₂.l1Set key value).recordLatency 0)
      | (none, s₂) =>
          let fetched := s₂.doOriginFetch cfg key input
          (fetched.1, fetched.2.recordLatency 0)

/- The error of `Set` is that of its Redis command. -/
def set
    (cfg : ManagerConfig)
    (s : CacheStore)
    (key : Key)
    (value : Value)
    (fault : Fault) :
    Option Bytes × CacheStore :=
  (fault.reply, (s.l1Set key value).l2Set cfg key value fault)

def invalidate
    (s : CacheStore)
    (key : Key)
    (fault : Fault) :
    Option Bytes × CacheStore :=
  (fault.reply,
    { s with
      l1 := s.l1.delete key
      redis := L2Cache.delete s.redis key fault })

end CacheStore

end CacheServer

------------------------------------------------------------
-- What The Tiers Answer
------------------------------------------------------------

namespace CacheServer

namespace CacheStore

@[simp] theorem l1Get_clock
    (s : CacheStore)
    (key : Key) :
    (s.l1Get key).2.clock = s.clock := by
  unfold l1Get
  split <;> rfl

@[simp] theorem l1Get_redis
    (s : CacheStore)
    (key : Key) :
    (s.l1Get key).2.redis = s.redis := by
  unfold l1Get
  split <;> rfl

@[simp] theorem l2Get_clock
    (s : CacheStore)
    (key : Key)
    (fault : Fault) :
    (s.l2Get key fault).2.clock = s.clock := by
  unfold l2Get
  split <;> rfl

@[simp] theorem l2Get_l1
    (s : CacheStore)
    (key : Key)
    (fault : Fault) :
    (s.l2Get key fault).2.l1 = s.l1 := by
  unfold l2Get
  split <;> rfl

@[simp] theorem l2Get_redis
    (s : CacheStore)
    (key : Key)
    (fault : Fault) :
    (s.l2Get key fault).2.redis = s.redis := by
  unfold l2Get
  split <;> rfl

/-
  `L1Cache.Get` answers with an unexpired entry; otherwise
  the key is left without one and other keys are unchanged.
-/
theorem l1Get_cases
    (s : CacheStore)
    (key : Key) :
    (∃ entry,
      s.l1.read key = some entry ∧
        entry.expired s.clock = false ∧
          (s.l1Get key).1 = some entry.value ∧
            (s.l1Get key).2.l1 = s.l1) ∨
      ((s.l1Get key).1 = none ∧
        ((s.l1Get key).2.l1 = s.l1 ∧
            s.l1.read key = none ∨
          (s.l1Get key).2.l1 = s.l1.delete key)) := by
  cases hRead : s.l1.read key with
  | none =>
      have hGet : s.l1.get s.clock key = (none, s.l1) := by
        simp [L1Cache.get, hRead]
      apply Or.inr
      simp [l1Get, hGet]
  | some entry =>
      cases hExp : entry.expired s.clock with
      | false =>
          have hGet :
              s.l1.get s.clock key =
                (some entry.value, s.l1) := by
            simp [L1Cache.get, hRead, hExp]
          exact
            Or.inl
              ⟨entry, rfl, hExp, by simp [l1Get, hGet],
                by simp [l1Get, hGet]⟩
      | true =>
          have hGet :
              s.l1.get s.clock key =
                (none, s.l1.lazyDelete key) := by
            simp [L1Cache.get, hRead, hExp]
          apply Or.inr
          simp [l1Get, hGet, L1Cache.lazyDelete_eq_delete]

/- An unexpired L1 entry is the answer. -/
theorem l1Get_of_fresh
    {s : CacheStore}
    {key : Key}
    {entry : L1Entry}
    (hRead : s.l1.read key = some entry)
    (hFresh : entry.expired s.clock = false) :
    (s.l1Get key).1 = some entry.value := by
  simp [l1Get, L1Cache.get, hRead, hFresh]

/- `L2Cache.Get` answers with hits only. -/
theorem l2Get_eq_some
    {s : CacheStore}
    {key : Key}
    {fault : Fault}
    {value : Value} :
    (s.l2Get key fault).1 = some value ↔
      L2Cache.get s.redis s.clock key fault =
        .hit value := by
  cases h : L2Cache.get s.redis s.clock key fault with
  | hit found => simp [l2Get, h]
  | nil => simp [l2Get, h]
  | error => simp [l2Get, h]

/- The answer of the tiers to a `Get`, if they have one. -/
def tierAnswer
    (s : CacheStore)
    (key : Key)
    (fault : Fault) :
    Option Value :=
  match (s.l1Get key).1 with
  | some value => some value
  | none => ((s.l1Get key).2.l2Get key fault).1

/-
  If both tiers hold an unexpired entry for the key, it is
  the same value.
-/
def AgreeOn
    (s : CacheStore)
    (key : Key) :
    Prop :=
  ∀ entry obj,
    s.l1.read key = some entry →
      entry.expired s.clock = false →
        s.redis.live s.clock key = some obj →
          obj.value = .str entry.value

/- A `Get` that no tier answers returns the origin's reply. -/
theorem get_result
    (cfg : ManagerConfig)
    (s : CacheStore)
    (key : Key)
    (input : GetInput) :
    (s.get cfg key input).1 =
      match s.tierAnswer key input.l2Get with
      | some value => .ok value
      | none => input.origin.result key := by
  rcases hFirst : s.l1Get key with ⟨_ | value, s₁⟩
  · rcases hSecond : s₁.l2Get key input.l2Get with
      ⟨_ | value, s₂⟩
    · cases hOrigin : input.origin with
      | value found =>
          simp [get, tierAnswer, hFirst, hSecond,
            doOriginFetch, hOrigin, OriginReply.result]
      | error cause =>
          simp [get, tierAnswer, hFirst, hSecond,
            doOriginFetch, hOrigin, OriginReply.result]
    · simp [get, tierAnswer, hFirst, hSecond]
  · simp [get, tierAnswer, hFirst]

end CacheStore

end CacheServer
