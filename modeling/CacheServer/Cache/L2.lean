import CacheServer.Redis

/-
  The Redis tier of `internal/cache/l2.go`, and the counters
  of `internal/metrics/metrics.go`.

  Key definitions include:
    * `CacheServer.Metrics`
    * `CacheServer.L2Cache.get`
    * `CacheServer.L2Cache.set`
    * `CacheServer.L2Cache.delete`

  Key theorems include:
    * `CacheServer.L2Cache.get_eq_hit`
    * `CacheServer.L2Cache.get_of_live`
-/

------------------------------------------------------------
-- Counters
------------------------------------------------------------

namespace CacheServer

structure Metrics where
  l1Hits : Nat
  l1Misses : Nat
  l2Hits : Nat
  l2Misses : Nat
  originCalls : Nat
  originErrors : Nat
  coalescedCalls : Nat
  totalRequests : Nat
  totalLatencyNs : Int
deriving DecidableEq, Repr

/- The counters of a server just started. -/
def Metrics.zero : Metrics :=
  { l1Hits := 0
    l1Misses := 0
    l2Hits := 0
    l2Misses := 0
    originCalls := 0
    originErrors := 0
    coalescedCalls := 0
    totalRequests := 0
    totalLatencyNs := 0 }

end CacheServer

------------------------------------------------------------
-- The Redis Tier
------------------------------------------------------------

namespace CacheServer

/- What `L2Cache.Get` distinguishes in the reply to `GET`. -/
inductive L2Reply
| hit (value : Value)
| nil
| error
deriving DecidableEq, Repr

/- What a caller sees of a command that has no value. -/
def Fault.reply :
    Fault → Option Bytes
| .none => Option.none
| .error _ text => some text

namespace L2Cache

/- The reply to `GET`; a key of another type is an error. -/
def get
    (redis : Redis)
    (now : Int)
    (key : Key)
    (fault : Fault) :
    L2Reply :=
  match fault with
  | .error _ _ => .error
  | .none =>
      match redis.get now key with
      | .value value => .hit value
      | .nil => .nil
      | .wrongType => .error

def set
    (redis : Redis)
    (now : Int)
    (ttl : Int)
    (key : Key)
    (value : Value)
    (fault : Fault) :
    Redis :=
  fault.apply redis (redis.set now ttl key value)

def delete
    (redis : Redis)
    (key : Key)
    (fault : Fault) :
    Redis :=
  fault.apply redis (redis.del key)

/- A hit is the string of a live key. -/
theorem get_eq_hit
    {redis : Redis}
    {now : Int}
    {key : Key}
    {fault : Fault}
    {value : Value}
    (h : get redis now key fault = .hit value) :
    ∃ obj,
      redis.lookup key = some obj ∧
        obj.expired now = false ∧ obj.value = .str value := by
  cases fault with
  | error applied text =>
      simp [get] at h
  | none =>
      cases hGet : redis.get now key with
      | nil => simp [get, hGet] at h
      | wrongType => simp [get, hGet] at h
      | value found =>
          have hEq : found = value := by
            simpa [get, hGet] using h
          subst hEq
          rcases Redis.get_eq_value.mp hGet with
            ⟨obj, hLive, hValue⟩
          rcases Redis.live_eq_some.mp hLive with
            ⟨hLookup, hFresh⟩
          exact ⟨obj, hLookup, hFresh, hValue⟩

/- Nil is the reply for a key without an unexpired entry. -/
theorem live_of_get_nil
    {redis : Redis}
    {now : Int}
    {key : Key}
    {fault : Fault}
    (h : get redis now key fault = .nil) :
    redis.live now key = none := by
  cases fault with
  | error applied text =>
      simp [get] at h
  | none =>
      cases hLive : redis.live now key with
      | none => rfl
      | some obj =>
          cases hValue : obj.value with
          | _ =>
              simp [get, Redis.get, hLive, hValue] at h

/- A live string is a hit, unless the command fails. -/
theorem get_of_live
    {redis : Redis}
    {now : Int}
    {key : Key}
    {obj : RedisObj}
    {value : Value}
    (hLookup : redis.lookup key = some obj)
    (hFresh : obj.expired now = false)
    (hValue : obj.value = .str value) :
    get redis now key .none = .hit value := by
  have hGet : redis.get now key = .value value :=
    Redis.get_eq_value.mpr
      ⟨obj, Redis.live_eq_some.mpr ⟨hLookup, hFresh⟩, hValue⟩
  simp [get, hGet]

/- A command on one key leaves the others, failed or not. -/
theorem lookup_set_ne
    (redis : Redis)
    (now : Int)
    (ttl : Int)
    {key other : Key}
    (value : Value)
    (fault : Fault)
    (hNe : other ≠ key) :
    (set redis now ttl key value fault).lookup other =
      redis.lookup other := by
  unfold set
  rcases fault.apply_cases redis
    (redis.set now ttl key value) with h | h
  · rw [h]
  · rw [h]
    exact redis.set_lookup_ne now ttl value hNe

theorem lookup_delete_ne
    (redis : Redis)
    {key other : Key}
    (fault : Fault)
    (hNe : other ≠ key) :
    (delete redis key fault).lookup other =
      redis.lookup other := by
  unfold delete
  rcases fault.apply_cases redis (redis.del key) with h | h
  · rw [h]
  · rw [h]
    exact redis.del_lookup_ne hNe

/- A `SET` leaves what was there, or its own value. -/
theorem lookup_set_cases
    (redis : Redis)
    (now : Int)
    (ttl : Int)
    (key : Key)
    (value : Value)
    (fault : Fault) :
    (set redis now ttl key value fault).lookup key =
        redis.lookup key ∨
      (set redis now ttl key value fault).lookup key =
        some
          { value := .str value
            expiresAt := Redis.expiry now ttl } := by
  unfold set
  rcases fault.apply_cases redis
    (redis.set now ttl key value) with h | h
  · rw [h]
    exact Or.inl rfl
  · rw [h]
    exact Or.inr (redis.set_lookup_self now ttl key value)

end L2Cache

end CacheServer
