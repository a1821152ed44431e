import CacheServer.Cache.Manager
import CacheServer.Lib.Machine

/-
  Interleavings of concurrent `Manager` calls.

  One step of a call is one critical section of L1, one Redis
  command, one counter, one operation of the singleflight
  group, or the origin call. The goroutine that stores an
  origin value in L2 takes its only step on its own.

  Key definitions include:
    * `CacheServer.GetPc`
    * `CacheServer.GetPc.run`
    * `CacheServer.Proc.run`
    * `CacheServer.ManagerSystem`
    * `CacheServer.managerMachine`
-/

------------------------------------------------------------
-- Calls In Progress
------------------------------------------------------------

namespace CacheServer

/- A running call of a singleflight group. -/
structure Flight where
  leader : Nat
  dups : Nat
deriving DecidableEq, Repr

/- Where a `Manager.Get` stands. -/
inductive GetPc
-- `L1Cache.Get`
| l1Read
| l1Check (entry : L1Entry)
| lazyDelete
| countL1Miss
| countL1Hit (value : Value)
-- `L2Cache.Get` and the copy into L1
| l2Get
| countL2Err
| countL2Miss
| countL2Hit (value : Value)
| backPopulate (value : Value)
-- `fetchFromOrigin`, up to the wait for another's call
| fetch
| joined (leader : Nat)
-- `doOriginFetch`
| countOriginCall
| originCall
| countOriginErr (cause : OriginError)
| spawn (value : Value)
| l1Store (value : Value)
-- the end of `Group.Do`, and the deferred `RecordLatency`
| fnReturn (result : GetResult)
| countCoalesced (result : GetResult)
| addLatency (result : GetResult)
| countRequest (result : GetResult)
| done (result : GetResult)
deriving DecidableEq

/- Where a `Manager.Set` or `Manager.Invalidate` stands. -/
inductive WritePc
| l1
| l2
| done (error : Option Bytes)
deriving DecidableEq

/- A call, from its start to its return and after. -/
inductive Proc
| get (key : Key) (start : Int) (pc : GetPc)
| set (key : Key) (value : Value) (pc : WritePc)
| invalidate (key : Key) (pc : WritePc)
deriving DecidableEq

/-
  What all calls share. A finished singleflight call leaves
  its result for those that have joined it. A background
  write goes by the number of the call that started it.
-/
structure Shared where
  store : CacheStore
  group : Key → Option Flight
  finished : Nat → Option GetResult
  background : Nat → Option (Key × Value)

/- The identity of a running `Get`. -/
structure Caller where
  id : Nat
  key : Key
  start : Int
  cancelled : Bool
deriving DecidableEq

end CacheServer

------------------------------------------------------------
-- Steps Of A Call
------------------------------------------------------------

namespace CacheServer

namespace Shared

def setL1
    (s : Shared)
    (l1 : L1Cache) :
    Shared :=
  { s with store := { s.store with l1 := l1 } }

def setRedis
    (s : Shared)
    (redis : Redis) :
    Shared :=
  { s with store := { s.store with redis := redis } }

def setMetrics
    (s : Shared)
    (metrics : Metrics) :
    Shared :=
  { s with store := { s.store with metrics := metrics } }

end Shared

namespace GetPc

/- `Group.Do`: join the running call of the key or lead one. -/
def runFetch
    (cfg : ManagerConfig)
    (s : Shared)
    (c : Caller) :
    Shared × GetPc :=
  if cfg.useSF then
    match s.group c.key with
    | some flight =>
        ({ s with
            group :=
              Function.update s.group c.key
                (some { flight with dups := flight.dups + 1 }) },
          .joined flight.leader)
    | none =>
        ({ s with
            group :=
              Function.update s.group c.key
                (some { leader := c.id, dups := 0 }) },
          .countOriginCall)
  else
    (s, .countOriginCall)

/- The call's result is handed on and the group forgets it. -/
def runFnReturn
    (cfg : ManagerConfig)
    (s : Shared)
    (c : Caller)
    (result : GetResult) :
    Shared × GetPc :=
  if cfg.useSF then
    ({ s with
        group := Function.update s.group c.key none
        finished :=
          Function.update s.finished c.id (some result) },
      match s.group c.key with
      | some { dups := _ + 1, .. } => .countCoalesced result
      | _ => .addLatency result)
  else
    (s, .addLatency result)

/-
  A step of `Manager.Get`, given how a Redis command and an
  origin call turn out. Only a cancelled call can have its
  origin call fail by cancellation.
-/
def run
    (cfg : ManagerConfig)
    (s : Shared)
    (c : Caller)
    (fault : Fault)
    (origin : OriginReply) :
    GetPc → Option (Shared × GetPc)
| .l1Read =>
    match s.store.l1.read c.key with
    | none => some (s, .countL1Miss)
    | some entry => some (s, .l1Check entry)
| .l1Check entry =>
    if entry.expired s.store.clock then
      some (s, .lazyDelete)
    else
      some (s, .countL1Hit entry.value)
| .lazyDelete =>
    some
      (s.setL1 (s.store.l1.lazyDelete c.key), .countL1Miss)
| .countL1Miss =>
    some
      (s.setMetrics
        { s.store.metrics with
          l1Misses := s.store.metrics.l1Misses + 1 },
        .l2Get)
| .countL1Hit value =>
    some
      (s.setMetrics
        { s.store.metrics with
          l1Hits := s.store.metrics.l1Hits + 1 },
        .addLatency (.ok value))
| .l2Get =>
    match L2Cache.get s.store.redis s.store.clock c.key
        fault with
    | .hit value => some (s, .countL2Hit value)
    | .nil => some (s, .countL2Miss)
    | .error => some (s, .countL2Err)
| .countL2Err =>
    some
      (s.setMetrics
        { s.store.metrics with
          originErrors := s.store.metrics.originErrors + 1 },
        .countL2Miss)
| .countL2Miss =>
    some
      (s.setMetrics
        { s.store.metrics with
          l2Misses := s.store.metrics.l2Misses + 1 },
        .fetch)
| .countL2Hit value =>
    some
      (s.setMetrics
        { s.store.metrics with
          l2Hits := s.store.metrics.l2Hits + 1 },
        .backPopulate value)
| .backPopulate value =>
    some
      (s.setL1 (s.store.l1.set s.store.clock c.key value),
        .addLatency (.ok value))
| .fetch => some (runFetch cfg s c)
| .joined leader =>
    match s.finished leader with
    | none => none
    | some result => some (s, .countCoalesced result)
| .countOriginCall =>
    some
      (s.setMetrics
        { s.store.metrics with
          originCalls := s.store.metrics.originCalls + 1 },
        .originCall)
| .originCall =>
    match origin with
    | .value value => some (s, .spawn value)
    | .error (.failed text) =>
        some (s, .countOriginErr (.failed text))
    | .error .cancelled =>
        if c.cancelled then
          some (s, .countOriginErr .cancelled)
        else
          none
| .countOriginErr cause =>
    some
      (s.setMetrics
        { s.store.metrics with
          originErrors := s.store.metrics.originErrors + 1 },
        .fnReturn (.originFailed c.key cause))
| .spawn value =>
    some
      ({ s with
          background :=
            Function.update s.background c.id
              (some (c.key, value)) },
        .l1Store value)
| .l1Store value =>
    some
      (s.setL1 (s.store.l1.set s.store.clock c.key value),
        .fnReturn (.ok value))
| .fnReturn result => some (runFnReturn cfg s c result)
| .countCoalesced result =>
    some
      (s.setMetrics
        { s.store.metrics with
          coalescedCalls :=
            s.store.metrics.coalescedCalls + 1 },
        .addLatency result)
| .addLatency result =>
    some
      (s.setMetrics
        { s.store.metrics with
          totalLatencyNs :=
            s.store.metrics.totalLatencyNs +
              (s.store.clock - c.start) },
        .countRequest result)
| .countRequest result =>
    some
      (s.setMetrics
        { s.store.metrics with
          totalRequests :=
            s.store.metrics.totalRequests + 1 },
        .done result)
| .done _ => none

end GetPc

/- A step of `Manager.Set`. -/
def WritePc.runSet
    (cfg : ManagerConfig)
    (s : Shared)
    (key : Key)
    (value : Value)
    (fault : Fault) :
    WritePc → Option (Shared × WritePc)
| .l1 =>
    some (s.setL1 (s.store.l1.set s.store.clock key value), .l2)
| .l2 =>
    some
      (s.setRedis
        (L2Cache.set s.store.redis s.store.clock cfg.l2TTL key
          value fault),
        .done fault.reply)
| .done _ => none

/- A step of `Manager.Invalidate`. -/
def WritePc.runInvalidate
    (s : Shared)
    (key : Key)
    (fault : Fault) :
    WritePc → Option (Shared × WritePc)
| .l1 => some (s.setL1 (s.store.l1.delete key), .l2)
| .l2 =>
    some
      (s.setRedis (L2Cache.delete s.store.redis key fault),
        .done fault.reply)
| .done _ => none

/- A step of the call numbered `id`. -/
def Proc.run
    (cfg : ManagerConfig)
    (s : Shared)
    (id : Nat)
    (cancelled : Bool)
    (fault : Fault)
    (origin : OriginReply) :
    Proc → Option (Shared × Proc)
| .get key start pc =>
    (pc.run cfg s
      { id := id, key := key, start := start
        cancelled := cancelled } fault origin).map
      (fun r => (r.1, .get key start r.2))
| .set key value pc =>
    (pc.runSet cfg s key value fault).map
      (fun r => (r.1, .set key value r.2))
| .invalidate key pc =>
    (pc.runInvalidate s key fault).map
      (fun r => (r.1, .invalidate key r.2))

end CacheServer

------------------------------------------------------------
-- The Machine
------------------------------------------------------------

namespace CacheServer

/- A call that a client of the manager makes. -/
inductive ManagerCall
| get (key : Key)
| set (key : Key) (value : Value)
| invalidate (key : Key)
deriving DecidableEq

/- A call before its first step. -/
def ManagerCall.proc
    (now : Int) :
    ManagerCall → Proc
| .get key => .get key now .l1Read
| .set key value => .set key value .l1
| .invalidate key => .invalidate key .l1

/- The shared state and every call made so far. -/
structure ManagerSystem where
  shared : Shared
  procs : Nat → Option Proc
  next : Nat
  cancelled : Nat → Bool

/-
  A call begins, a call or a background write takes a step,
  a call's context is cancelled, Redis drops a key of its
  own accord, or time passes.
-/
inductive ManagerAction
| call (call : ManagerCall)
| run (id : Nat) (fault : Fault) (origin : OriginReply)
| background (id : Nat) (fault : Fault)
| cancel (id : Nat)
| redisDrop (key : Key)
| tick (elapsed : Nat)
deriving DecidableEq

namespace ManagerSystem

/- A manager just started on a Redis that may hold data. -/
def new
    (maxSize : Int)
    (l1TTL : Int)
    (redis : Redis)
    (clock : Int) :
    ManagerSystem :=
  { shared :=
      { store := CacheStore.new maxSize l1TTL redis clock
        group := fun _ => none
        finished := fun _ => none
        background := fun _ => none }
    procs := fun _ => none
    next := 0
    cancelled := fun _ => false }

/- The background `L2Cache.Set` of a call. -/
def runBackground
    (cfg : ManagerConfig)
    (s : Shared)
    (id : Nat)
    (fault : Fault) :
    Option Shared :=
  match s.background id with
  | none => none
  | some (key, value) =>
      some
        { s.setRedis
            (L2Cache.set s.store.redis s.store.clock
              cfg.l2TTL key value fault) with
          background := Function.update s.background id none }

def step
    (cfg : ManagerConfig)
    (s : ManagerSystem) :
    ManagerAction → Option ManagerSystem
| .call call =>
    some
      { s with
        procs :=
          Function.update s.procs s.next
            (some (call.proc s.shared.store.clock))
        next := s.next + 1 }
| .run id fault origin =>
    match s.procs id with
    | none => none
    | some proc =>
        (proc.run cfg s.shared id (s.cancelled id) fault
          origin).map
          (fun r =>
            { s with
              shared := r.1
              procs := Function.update s.procs id (some r.2) })
| .background id fault =>
    (runBackground cfg s.shared id fault).map
      (fun shared => { s with shared := shared })
| .cancel id =>
    some
      { s with
        cancelled := Function.update s.cancelled id true }
| .redisDrop key =>
    some
      { s with
        shared :=
          s.shared.setRedis (s.shared.store.redis.del key) }
| .tick elapsed =>
    some
      { s with
        shared :=
          { s.shared with
            store :=
              { s.shared.store with
                clock := s.shared.store.clock + elapsed } } }

end ManagerSystem

/- Interleavings of manager calls are this machine's runs. -/
def managerMachine
    (cfg : ManagerConfig) :
    Machine ManagerSystem ManagerAction :=
  { step := ManagerSystem.step cfg }

/- A step of a call in which nothing fails. -/
def ManagerAction.proceed
    (id : Nat) :
    ManagerAction :=
  .run id .none (.value [])

/- A manager with small TTLs on an empty Redis. -/
def freshManager : ManagerSystem :=
  ManagerSystem.new 1000 5 ∅ 0

end CacheServer
