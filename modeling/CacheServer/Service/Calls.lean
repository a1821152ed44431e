import CacheServer.Cache.Manager
import CacheServer.Lib.Program
import Mathlib.Data.Rat.Defs

/-
  What the request handlers call.

  A handler calls the manager, reads the clock, or loads one
  counter, one shard length or the pool statistics at a time.
  Rates are exact fractions; the server rounds them to
  floating point.

  Key definitions include:
    * `CacheServer.ServiceCall`
    * `CacheServer.ServiceProgram`
    * `CacheServer.snapshot`
    * `CacheServer.stats`
    * `CacheServer.SerialService.handle`
-/

------------------------------------------------------------
-- Calls And Answers
------------------------------------------------------------

namespace CacheServer

/- What Redis reports of its connections. -/
structure PoolStats where
  hits : UInt32
  misses : UInt32
  totalConns : UInt32
deriving DecidableEq, Repr

/- The counters of `Metrics`, by name. -/
inductive Counter
| l1Hits
| l1Misses
| l2Hits
| l2Misses
| originCalls
| originErrors
| coalescedCalls
| totalRequests
| totalLatencyNs
deriving DecidableEq, Repr

def Metrics.load
    (m : Metrics) :
    Counter → Int
| .l1Hits => m.l1Hits
| .l1Misses => m.l1Misses
| .l2Hits => m.l2Hits
| .l2Misses => m.l2Misses
| .originCalls => m.originCalls
| .originErrors => m.originErrors
| .coalescedCalls => m.coalescedCalls
| .totalRequests => m.totalRequests
| .totalLatencyNs => m.totalLatencyNs

inductive ServiceCall
| get (key : Key)
| set (key : Key) (value : Value)
| invalidate (key : Key)
| now
| load (counter : Counter)
| shardLen (i : Fin numShards)
| poolStats
deriving DecidableEq

/- The answers; a write answers with its error, if any. -/
abbrev ServiceCall.Answer :
    ServiceCall → Type
| .get _ => GetResult
| .set _ _ => Option Bytes
| .invalidate _ => Option Bytes
| .now => Int
| .load _ => Int
| .shardLen _ => Nat
| .poolStats => PoolStats

abbrev ServiceProgram (α : Type) :=
  Program ServiceCall ServiceCall.Answer α

end CacheServer

------------------------------------------------------------
-- Statistics
------------------------------------------------------------

namespace CacheServer

/- `metrics.Snapshot`. -/
structure Snapshot where
  l1Hits : Int
  l1Misses : Int
  l1HitRate : ℚ
  l2Hits : Int
  l2Misses : Int
  l2HitRate : ℚ
  originCalls : Int
  originErrors : Int
  coalescedCalls : Int
  totalRequests : Int
  avgLatencyUs : ℚ
  overallHitRate : ℚ

/- A part of a total; there is no rate of nothing. -/
def rate
    (part : Int)
    (total : Int) :
    ℚ :=
  if 0 < total then part / total else 0

def load
    (counter : Counter) :
    ServiceProgram Int :=
  Program.perform (ServiceCall.load counter)

/- `Metrics.Snapshot` loads the counters one by one. -/
def snapshot : ServiceProgram Snapshot := do
  let l1Hits ← load .l1Hits
  let l1Misses ← load .l1Misses
  let l2Hits ← load .l2Hits
  let l2Misses ← load .l2Misses
  let originCalls ← load .originCalls
  let originErrors ← load .originErrors
  let coalescedCalls ← load .coalescedCalls
  let totalRequests ← load .totalRequests
  let totalNs ←
    if 0 < totalRequests then
      load .totalLatencyNs
    else
      pure 0
  return {
    l1Hits := l1Hits
    l1Misses := l1Misses
    l1HitRate := rate l1Hits (l1Hits + l1Misses)
    l2Hits := l2Hits
    l2Misses := l2Misses
    l2HitRate := rate l2Hits (l2Hits + l2Misses)
    originCalls := originCalls
    originErrors := originErrors
    coalescedCalls := coalescedCalls
    totalRequests := totalRequests
    avgLatencyUs := rate totalNs totalRequests / 1000
    overallHitRate := rate (l1Hits + l2Hits) totalRequests }

/- `L1Cache.Stats` locks one shard after the other. -/
def l1Stats : ServiceProgram Nat :=
  .loop
    (fun total i =>
      (Program.perform (.shardLen i)).bind
        (fun size => .ret (total + size)))
    0 (List.finRange numShards)

structure Stats where
  l1Size : Nat
  l2PoolHits : UInt32
  l2PoolMiss : UInt32
  l2Conns : UInt32
  metrics : Snapshot

/- `Manager.Stats`. -/
def stats : ServiceProgram Stats := do
  let pool ← Program.perform ServiceCall.poolStats
  let l1Size ← l1Stats
  let metrics ← snapshot
  return {
    l1Size := l1Size
    l2PoolHits := pool.hits
    l2PoolMiss := pool.misses
    l2Conns := pool.totalConns
    metrics := metrics }

end CacheServer

------------------------------------------------------------
-- Handlers That Run Alone
------------------------------------------------------------

namespace CacheServer

/-
  How one call of a handler turns out: the time that passes
  before it, and the outcome of its backend calls.
-/
structure SerialInput where
  elapsed : Nat
  get : GetInput
  write : Fault
  pool : PoolStats

/- The stores, and how the calls to come turn out. -/
structure SerialService where
  store : CacheStore
  inputs : Nat → SerialInput

namespace SerialService

/- The store at the time of the next call. -/
def current
    (s : SerialService) :
    CacheStore :=
  { s.store with
    clock := s.store.clock + (s.inputs 0).elapsed }

/- The service after a call that left this store. -/
def after
    (s : SerialService)
    (store : CacheStore) :
    SerialService :=
  { store := store
    inputs := fun n => s.inputs (n + 1) }

/- Calls of one handler, with no other call in between. -/
def handle
    (cfg : ManagerConfig) :
    (c : ServiceCall) →
      SerialService → c.Answer × SerialService
| .get key, s =>
    let r := s.current.get cfg key (s.inputs 0).get
    (r.1, s.after r.2)
| .set key value, s =>
    let r := s.current.set cfg key value (s.inputs 0).write
    (r.1, s.after r.2)
| .invalidate key, s =>
    let r := s.current.invalidate key (s.inputs 0).write
    (r.1, s.after r.2)
| .now, s => (s.store.clock, s)
| .load counter, s => (s.store.metrics.load counter, s)
| .shardLen i, s => ((s.store.l1.shards i).items.len, s)
| .poolStats, s => ((s.inputs 0).pool, s)

end SerialService

end CacheServer
