import CacheServer.Cache.Singleflight

/-
  The start-up of `cmd/server/main.go`, and the cache manager
  on the L2 tier that it has set up.

  If no attempt to connect succeeds, `mustCreateFallbackL2`
  returns a nil `L2Cache`. `main` goes on with it, and the
  next method called on it ends the process. If one attempt
  succeeds, every later failure of Redis is survived: a
  `Get` that finds an L1 entry in time, or whose origin call
  succeeds, returns a value.

  Key definitions include:
    * `CacheServer.newL2`
    * `CacheServer.mustCreateFallbackL2`
    * `CacheServer.Server`
    * `CacheServer.serverMachine`
    * `CacheServer.DegradesGracefully`

  Key theorems include:
    * `CacheServer.connect_eq_none`
    * `CacheServer.GetPc.secured_run`
    * `CacheServer.available_of_connected`
    * `CacheServer.degrades_gracefully_iff`
    * `CacheServer.start_up_crashes`
-/

------------------------------------------------------------
-- Connecting To Redis
------------------------------------------------------------

namespace CacheServer

/- `REDIS_ADDRS`; `envSlice` never returns an empty slice. -/
structure RedisAddrs where
  first : Bytes
  more : List Bytes
deriving DecidableEq

/- What `main` reads of the configuration. -/
structure Config where
  l1MaxSize : Int
  l1TTL : Int
  redisAddrs : RedisAddrs
  redisPassword : Bytes
  redisPoolSize : Int
  l2TTL : Int
  enableSingleflight : Bool
deriving DecidableEq

/- A Redis client and the options that its mode takes. -/
inductive RedisClient
| cluster
    (addrs : List Bytes)
    (password : Bytes)
    (poolSize minIdleConns : Int)
| node
    (addr : Bytes)
    (password : Bytes)
    (poolSize minIdleConns : Int)
deriving DecidableEq

structure L2Cache where
  client : RedisClient
  ttl : Int
deriving DecidableEq

/- `NewL2`, given the error of its `PING`. -/
def newL2
    (addrs : RedisAddrs)
    (password : Bytes)
    (poolSize : Int)
    (ttl : Int)
    (ping : Option Bytes) :
    Option L2Cache × Option Bytes :=
  let client :=
    match addrs.more with
    | [] =>
        .node addrs.first password poolSize
          (poolSize.tdiv 4)
    | more =>
        .cluster (addrs.first :: more) password poolSize
          (poolSize.tdiv 4)
  match ping with
  | some text =>
      (none, some (bytes "redis ping failed: " ++ text))
  | none => (some { client := client, ttl := ttl }, none)

/- The errors of the `PING`s, if they are sent at all. -/
structure ConnectErrors where
  first : Option Bytes
  retry : Option Bytes
  localhost : Option Bytes
deriving DecidableEq

/- The error of the last attempt is not looked at. -/
def mustCreateFallbackL2
    (cfg : Config)
    (errors : ConnectErrors) :
    Option L2Cache :=
  match
    newL2 cfg.redisAddrs cfg.redisPassword cfg.redisPoolSize
      cfg.l2TTL errors.retry with
  | (_, some _) =>
      (newL2 { first := bytes "localhost:6379", more := [] }
        [] 1 cfg.l2TTL errors.localhost).1
  | (l2, none) => l2

/- The set-up of L2 in `main`; `none` is a nil pointer. -/
def connect
    (cfg : Config)
    (errors : ConnectErrors) :
    Option L2Cache :=
  match
    newL2 cfg.redisAddrs cfg.redisPassword cfg.redisPoolSize
      cfg.l2TTL errors.first with
  | (_, some _) => mustCreateFallbackL2 cfg errors
  | (l2, none) => l2

/- No `L2Cache` comes of three failed attempts. -/
theorem connect_eq_none
    (cfg : Config)
    (errors : ConnectErrors) :
    connect cfg errors = none ↔
      errors.first ≠ none ∧ errors.retry ≠ none ∧
        errors.localhost ≠ none := by
  rcases errors with ⟨_ | first, _ | retry, _ | localhost⟩
  · simp [connect, newL2]
  · simp [connect, newL2]
  · simp [connect, newL2]
  · simp [connect, newL2]
  · simp [connect, newL2, mustCreateFallbackL2]
  · simp [connect, newL2, mustCreateFallbackL2]
  · simp [connect, newL2, mustCreateFallbackL2]
  · simp [connect, newL2, mustCreateFallbackL2]

end CacheServer

------------------------------------------------------------
-- The Server
------------------------------------------------------------

namespace CacheServer

def Config.manager
    (cfg : Config) :
    ManagerConfig :=
  { useSF := cfg.enableSingleflight, l2TTL := cfg.l2TTL }

/- How far `main` has come. -/
inductive ServerPhase
-- the manager is made, the gRPC server is not started
| connected
-- gRPC calls are served, HTTP requests are not
| grpc
-- both are served
| ready
-- `main` has returned or called `os.Exit`
| stopped
deriving DecidableEq

/- Whether calls of the manager run. -/
def ServerPhase.serving :
    ServerPhase → Bool
| .grpc => true
| .ready => true
| _ => false

/-
  The process: what `main` holds as `l2`, and the manager
  made with it. A nil dereference ends the process, since
  nothing recovers from a panic outside the HTTP handlers.
-/
structure Server where
  l2 : Option L2Cache
  phase : ServerPhase
  system : ManagerSystem
  crashed : Bool

inductive ServerAction
-- `grpcserver.StartGRPC`, with the error of its `Listen`
| startGRPC (error : Option Bytes)
-- `binaryhandler.New` takes `l2.Client()`; then HTTP starts
| startHTTP
-- a step of the manager's calls, or of what is around them
| manager (a : ManagerAction)
-- `Manager.Stats` reads `l2.PoolStats()`
| stats
-- `ListenAndServe` returns; `l2.Close()` is deferred, but an
-- error other than `ErrServerClosed` leads to `os.Exit`
| stop (error : Option Bytes)
deriving DecidableEq

/- Whether a step calls a method of the `L2Cache`. -/
def ManagerSystem.usesL2
    (s : ManagerSystem) :
    ManagerAction → Bool
| .run id _ _ =>
    match s.procs id with
    | some (.get _ _ .l2Get) => true
    | some (.set _ _ .l2) => true
    | some (.invalidate _ .l2) => true
    | _ => false
| .background _ _ => true
| _ => false

namespace Server

/- The state in which `main` has called `NewManager`. -/
def start
    (cfg : Config)
    (errors : ConnectErrors)
    (redis : Redis)
    (clock : Int) :
    Server :=
  { l2 := connect cfg errors
    phase := .connected
    system :=
      ManagerSystem.new cfg.l1MaxSize cfg.l1TTL redis clock
    crashed := false }

/- A method called on `l2`: a nil pointer is a crash. -/
def deref
    (s t : Server) :
    Server :=
  match s.l2 with
  | some _ => t
  | none => { s with crashed := true }

def step
    (cfg : Config)
    (s : Server)
    (a : ServerAction) :
    Option Server :=
  if s.crashed then
    none
  else
    match a with
    | .startGRPC error =>
        if s.phase = .connected then
          match error with
          | none => some { s with phase := .grpc }
          | some _ => some { s with phase := .stopped }
        else
          none
    | .startHTTP =>
        if s.phase = .grpc then
          some (s.deref { s with phase := .ready })
        else
          none
    | .manager a =>
        if s.phase.serving then
          (s.system.step cfg.manager a).map
            (fun t =>
              if s.system.usesL2 a then
                s.deref { s with system := t }
              else
                { s with system := t })
        else
          none
    | .stats =>
        if s.phase.serving then some (s.deref s) else none
    | .stop error =>
        if s.phase = .ready then
          match error with
          | none => some (s.deref { s with phase := .stopped })
          | some _ => some { s with phase := .stopped }
        else
          none

end Server

/- The runs of the process from `NewManager` on. -/
def serverMachine
    (cfg : Config) :
    Machine Server ServerAction :=
  { step := Server.step cfg }

end CacheServer

------------------------------------------------------------
-- Values Promised
------------------------------------------------------------

namespace CacheServer

/- The values that calls are bound to return. -/
abbrev Promises :=
  List (Nat × Value)

namespace ManagerSystem

/-
  A `Get` is bound to return a value once its lookup has
  found the L1 entry in time, or its origin call succeeded.
-/
def promise
    (s : ManagerSystem) :
    ManagerAction → Promises
| .run id _ origin =>
    match s.procs id, origin with
    | some (.get _ _ (.l1Check entry)), _ =>
        if entry.expired s.shared.store.clock then
          []
        else
          [(id, entry.value)]
    | some (.get _ _ .originCall), .value value =>
        [(id, value)]
    | _, _ => []
| _ => []

end ManagerSystem

def Server.recordPromise
    (s : Server)
    (a : ServerAction)
    (promises : Promises) :
    Promises :=
  match a with
  | .manager a => promises ++ s.system.promise a
  | _ => promises

/- Runs of the process, with the promises made. -/
def promiseMachine
    (cfg : Config) :
    Machine (Server × Promises) ServerAction :=
  (serverMachine cfg).withHistory Server.recordPromise

theorem promiseMachine_step
    {cfg : Config}
    {s s' : Server × Promises}
    {a : ServerAction}
    (h : (promiseMachine cfg).step s a = some s') :
    s.1.step cfg a = some s'.1 ∧
      s'.2 = s.1.recordPromise a s.2 :=
  Machine.withHistory_step.mp h

/- A step of one call, whatever its backend calls do. -/
def OwnStep
    (id : Nat)
    (a : ServerAction) :
    Prop :=
  ∃ fault origin, a = .manager (.run id fault origin)

/- The `Get` with this number has returned the value. -/
def Server.Returned
    (id : Nat)
    (value : Value)
    (s : Server) :
    Prop :=
  ∃ key start,
    s.system.procs id =
      some (.get key start (.done (.ok value)))

/- The `Get` returns the value if it is let run. -/
def Server.WillReturn
    (cfg : Config)
    (s : Server)
    (id : Nat)
    (value : Value) :
    Prop :=
  (serverMachine cfg).LeadsTo (OwnStep id)
    (Server.Returned id value) s

/-
  The process has not crashed. While it serves, a `Get` that
  is about to look up a key with an unexpired L1 entry will
  return its value, and so does every `Get` bound to one.
-/
structure Available
    (cfg : Config)
    (s : Server × Promises) :
    Prop where
  running : s.1.crashed = false
  cached :
    s.1.phase.serving = true →
      ∀ id key start entry,
        s.1.system.procs id = some (.get key start .l1Read) →
          s.1.system.l1.read key = some entry →
            entry.expired s.1.system.clock = false →
              s.1.WillReturn cfg id entry.value
  promised :
    s.1.phase.serving = true →
      ∀ id value,
        (id, value) ∈ s.2 → s.1.WillReturn cfg id value

/- The server is available throughout every run. -/
def DegradesGracefully
    (cfg : Config)
    (errors : ConnectErrors)
    (redis : Redis)
    (clock : Int) :
    Prop :=
  ∀ actions s,
    (promiseMachine cfg).exec
        (Server.start cfg errors redis clock, []) actions =
      some s →
    Available cfg s

end CacheServer

------------------------------------------------------------
-- Gets That Hold A Value For Good
------------------------------------------------------------

namespace CacheServer

namespace GetPc

/- The value that a `Get` can no longer lose. -/
def secured :
    GetPc → Option Value
| .l1Check _ => none
| pc => pc.carried

/- How many steps are left at most once it is secured. -/
def remaining :
    GetPc → Nat
| .spawn _ => 6
| .l1Store _ => 5
| .countL2Hit _ => 4
| .fnReturn _ => 4
| .countL1Hit _ => 3
| .backPopulate _ => 3
| .countCoalesced _ => 3
| .addLatency _ => 2
| .countRequest _ => 1
| _ => 0

variable {cfg : ManagerConfig}
variable {s : Shared}
variable {c : Caller}
variable {fault : Fault}
variable {origin : OriginReply}
variable {pc pc' : GetPc}
variable {value : Value}

/- A step keeps the value and comes closer to the return. -/
theorem next_secured
    (h : Next cfg s c fault origin pc pc')
    (hValue : pc.secured = some value) :
    pc'.secured = some value ∧
      pc'.remaining < pc.remaining := by
  cases h with
  | countL1Hit => exact ⟨hValue, by simp [remaining]⟩
  | countL2Hit => exact ⟨hValue, by simp [remaining]⟩
  | backPopulate => exact ⟨hValue, by simp [remaining]⟩
  | spawn => exact ⟨hValue, by simp [remaining]⟩
  | l1Store => exact ⟨hValue, by simp [remaining]⟩
  | returnShared => exact ⟨hValue, by simp [remaining]⟩
  | returnAlone => exact ⟨hValue, by simp [remaining]⟩
  | countCoalesced => exact ⟨hValue, by simp [remaining]⟩
  | addLatency => exact ⟨hValue, by simp [remaining]⟩
  | countRequest => exact ⟨hValue, by simp [remaining]⟩
  | _ => cases hValue

/- With no step left the value has been returned. -/
theorem done_of_secured
    (hValue : pc.secured = some value)
    (hZero : pc.remaining = 0) :
    pc = .done (.ok value) := by
  cases pc with
  | done result =>
      cases result with
      | ok found =>
          cases hValue
          rfl
      | originFailed key cause => cases hValue
  | countL1Hit found => cases hZero
  | countL2Hit found => cases hZero
  | backPopulate found => cases hZero
  | spawn found => cases hZero
  | l1Store found => cases hZero
  | fnReturn result => cases hZero
  | countCoalesced result => cases hZero
  | addLatency result => cases hZero
  | countRequest result => cases hZero
  | _ => cases hValue

/- Nothing can hold up a `Get` that has its value. -/
theorem secured_run
    (cfg : ManagerConfig)
    (s : Shared)
    (c : Caller)
    (fault : Fault)
    (origin : OriginReply)
    (hValue : pc.secured = some value)
    (hLeft : pc.remaining ≠ 0) :
    ∃ t pc', pc.run cfg s c fault origin = some (t, pc') := by
  cases pc with
  | countL1Hit found => exact ⟨_, _, rfl⟩
  | countL2Hit found => exact ⟨_, _, rfl⟩
  | backPopulate found => exact ⟨_, _, rfl⟩
  | spawn found => exact ⟨_, _, rfl⟩
  | l1Store found => exact ⟨_, _, rfl⟩
  | fnReturn result => exact ⟨_, _, rfl⟩
  | countCoalesced result => exact ⟨_, _, rfl⟩
  | addLatency result => exact ⟨_, _, rfl⟩
  | countRequest result => exact ⟨_, _, rfl⟩
  | done result => exact absurd rfl hLeft
  | _ => cases hValue

end GetPc

/- A step of a `Get` is one of its call. -/
theorem Proc.run_of_get
    {cfg : ManagerConfig}
    {s t : Shared}
    {id : Nat}
    {key : Key}
    {start : Int}
    {cancelled : Bool}
    {fault : Fault}
    {origin : OriginReply}
    {pc pc' : GetPc}
    (h :
      pc.run cfg s
        { id := id, key := key, start := start
          cancelled := cancelled } fault origin =
        some (t, pc')) :
    Proc.run cfg s id cancelled fault origin
        (.get key start pc) =
      some (t, .get key start pc') := by
  simp [Proc.run, h]

end CacheServer

------------------------------------------------------------
-- Steps Of A Connected Server
------------------------------------------------------------

namespace CacheServer

namespace Server

variable {cfg : Config}
variable {s s' : Server}
variable {a : ServerAction}

/- A method called on an `L2Cache` that is there. -/
theorem deref_of_l2
    (hL2 : s.l2 ≠ none)
    (t : Server) :
    s.deref t = t := by
  cases hSome : s.l2 with
  | none => exact absurd hSome hL2
  | some l2 => simp [deref, hSome]

/-
  With an `L2Cache` there, a step is one of the manager, or
  leaves the manager as it is; neither is a crash.
-/
theorem step_cases
    (hL2 : s.l2 ≠ none)
    (hRunning : s.crashed = false)
    (h : s.step cfg a = some s') :
    s'.l2 = s.l2 ∧ s'.crashed = false ∧
      ((∃ b,
        a = .manager b ∧
          s.system.step cfg.manager b = some s'.system) ∨
        ((∀ b, a ≠ .manager b) ∧ s'.system = s.system)) := by
  simp only [step, hRunning, deref_of_l2 hL2, ite_self,
    Bool.false_eq_true, if_false] at h
  cases a with
  | startGRPC error =>
      rcases Option.ite_none_right_eq_some.mp h with ⟨_, hEq⟩
      cases error with
      | none =>
          cases hEq
          exact ⟨rfl, rfl, Or.inr ⟨by simp, rfl⟩⟩
      | some text =>
          cases hEq
          exact ⟨rfl, rfl, Or.inr ⟨by simp, rfl⟩⟩
  | startHTTP =>
      rcases Option.ite_none_right_eq_some.mp h with ⟨_, hEq⟩
      cases hEq
      exact ⟨rfl, rfl, Or.inr ⟨by simp, rfl⟩⟩
  | manager b =>
      rcases Option.ite_none_right_eq_some.mp h with ⟨_, hMap⟩
      rcases Option.map_eq_some_iff.mp hMap with
        ⟨t, hStep, rfl⟩
      exact ⟨rfl, rfl, Or.inl ⟨b, rfl, hStep⟩⟩
  | stats =>
      rcases Option.ite_none_right_eq_some.mp h with ⟨_, hEq⟩
      cases hEq
      exact ⟨rfl, hRunning, Or.inr ⟨by simp, rfl⟩⟩
  | stop error =>
      rcases Option.ite_none_right_eq_some.mp h with ⟨_, hEq⟩
      cases error with
      | none =>
          cases hEq
          exact ⟨rfl, rfl, Or.inr ⟨by simp, rfl⟩⟩
      | some text =>
          cases hEq
          exact ⟨rfl, rfl, Or.inr ⟨by simp, rfl⟩⟩

/- The process has an `L2Cache` and serves. -/
structure Up
    (s : Server) :
    Prop where
  l2 : s.l2 ≠ none
  running : s.crashed = false
  serving : s.phase.serving = true

/- A serving process takes the steps of its manager. -/
theorem Up.step_manager
    {b : ManagerAction}
    {t : ManagerSystem}
    (hUp : s.Up)
    (h : s.system.step cfg.manager b = some t) :
    s.step cfg (.manager b) =
      some { s with system := t } := by
  simp [step, hUp.running, hUp.serving, h,
    deref_of_l2 hUp.l2]

theorem Up.step_get
    {id : Nat}
    {key : Key}
    {start : Int}
    {fault : Fault}
    {origin : OriginReply}
    {pc pc' : GetPc}
    {t : Shared}
    (hUp : s.Up)
    (hProc : s.system.procs id = some (.get key start pc))
    (hRun :
      pc.run cfg.manager s.system.shared
        { id := id, key := key, start := start
          cancelled := s.system.cancelled id } fault origin =
        some (t, pc')) :
    s.step cfg (.manager (.run id fault origin)) =
      some
        { s with
          system :=
            { s.system with
              shared := t
              procs :=
                Function.update s.system.procs id
                  (some (.get key start pc')) } } :=
  hUp.step_manager
    (ManagerSystem.step_of_run hProc (Proc.run_of_get hRun))

/- The `Get` holds the value, with so many steps to go. -/
def ReturnsWithin
    (id : Nat)
    (value : Value)
    (n : Nat)
    (s : Server) :
    Prop :=
  s.Up ∧
    ∃ key start pc,
      s.system.procs id = some (.get key start pc) ∧
        pc.secured = some value ∧ pc.remaining ≤ n

theorem willReturn_of_returnsWithin
    {id : Nat}
    {value : Value}
    {n : Nat}
    (h : s.ReturnsWithin id value n) :
    s.WillReturn cfg id value := by
  refine
    Machine.leadsTo_of_rank
      (I := fun n s => s.ReturnsWithin id value n) ?_ ?_ h
  · intro u hEnd
    rcases hEnd with ⟨_, key, start, pc, hProc, hValue, hLeft⟩
    have hDone :=
      GetPc.done_of_secured hValue (Nat.le_zero.mp hLeft)
    exact ⟨key, start, hDone ▸ hProc⟩
  · intro m u hWithin
    rcases hWithin with
      ⟨hUp, key, start, pc, hProc, hValue, hLeft⟩
    by_cases hZero : pc.remaining = 0
    · have hDone := GetPc.done_of_secured hValue hZero
      exact Or.inl ⟨key, start, hDone ▸ hProc⟩
    · apply Or.inr
      intro a hOwn
      rcases hOwn with ⟨fault, origin, rfl⟩
      rcases GetPc.secured_run cfg.manager u.system.shared
          { id := id, key := key, start := start
            cancelled := u.system.cancelled id }
          fault origin hValue hZero with ⟨t, pc', hRun⟩
      have hNext :=
        GetPc.next_secured (GetPc.run_next hRun) hValue
      refine ⟨_, hUp.step_get hProc hRun, ?_⟩
      refine ⟨⟨hUp.l2, hUp.running, hUp.serving⟩, ?_⟩
      refine ⟨key, start, pc', by simp, hNext.1, ?_⟩
      omega

end Server

end CacheServer

------------------------------------------------------------
-- Availability
------------------------------------------------------------

namespace CacheServer

variable {cfg : Config}
variable {s s' : Server × Promises}
variable {a : ServerAction}

/-
  There is an `L2Cache`, nothing has crashed, and each `Get`
  bound to a value holds it for good.
-/
structure Connected
    (s : Server × Promises) :
    Prop where
  l2 : s.1.l2 ≠ none
  running : s.1.crashed = false
  numbered : s.1.system.Numbered
  holds :
    ∀ id value,
      (id, value) ∈ s.2 →
        ∃ key start pc,
          s.1.system.procs id = some (.get key start pc) ∧
            pc.secured = some value

/- What a `Get` is about to do when it is bound. -/
theorem promise_cases
    {s : ManagerSystem}
    {b : ManagerAction}
    {id : Nat}
    {value : Value}
    (h : (id, value) ∈ s.promise b) :
    ∃ fault origin key start pc,
      b = .run id fault origin ∧
        s.procs id = some (.get key start pc) ∧
          ((∃ entry,
            pc = .l1Check entry ∧
              entry.expired s.shared.store.clock = false ∧
                entry.value = value) ∨
            (pc = .originCall ∧ origin = .value value)) := by
  cases b with
  | run other fault origin =>
      simp only [ManagerSystem.promise] at h
      split at h
      · rename_i key start entry hProc
        cases hExp : entry.expired s.shared.store.clock with
        | true => simp [hExp] at h
        | false =>
            rw [hExp] at h
            cases List.mem_singleton.mp h
            exact
              ⟨fault, _, key, start, _, rfl, hProc,
                Or.inl ⟨entry, rfl, hExp, rfl⟩⟩
      · rename_i key start found hProc
        cases List.mem_singleton.mp h
        exact
          ⟨fault, _, key, start, _, rfl, hProc,
            Or.inr ⟨rfl, rfl⟩⟩
      · cases h
  | _ => cases h

/- A promise is made by a step that secures the value. -/
theorem promise_secured
    {s s' : ManagerSystem}
    {b : ManagerAction}
    {id : Nat}
    {value : Value}
    (h : s.step cfg.manager b = some s')
    (hPromise : (id, value) ∈ s.promise b) :
    ∃ key start pc,
      s'.procs id = some (.get key start pc) ∧
        pc.secured = some value := by
  rcases promise_cases hPromise with
    ⟨fault, origin, key, start, pc, rfl, hProc, hPc⟩
  rcases ManagerSystem.step_run h with
    ⟨p, t, p', hCall, hRun, rfl⟩
  rw [hProc] at hCall
  cases hCall
  rcases Proc.run_get hRun with ⟨pc', rfl, hGet⟩
  refine ⟨key, start, pc', by simp, ?_⟩
  have hNext := GetPc.run_next hGet
  rcases hPc with ⟨entry, rfl, hFresh, rfl⟩ | ⟨rfl, rfl⟩
  · cases hNext with
    | l1Expired hExpired =>
        rw [hFresh] at hExpired
        cases hExpired
    | l1Fresh _ => rfl
  · cases hNext with
    | originValue hOrigin =>
        cases hOrigin
        rfl
    | originError hOrigin _ => cases hOrigin

theorem connected_step
    (hConn : Connected s)
    (h : (promiseMachine cfg).step s a = some s') :
    Connected s' := by
  rcases promiseMachine_step h with ⟨hStep, hLog⟩
  rcases Server.step_cases hConn.l2 hConn.running hStep with
    ⟨hL2, hRunning, hManager | hOther⟩
  · rcases hManager with ⟨b, rfl, hSystem⟩
    refine
      ⟨hL2 ▸ hConn.l2, hRunning,
        ManagerSystem.numbered_step hConn.numbered hSystem, ?_⟩
    intro id value hMem
    rw [hLog] at hMem
    rcases List.mem_append.mp hMem with hOld | hNew
    · rcases hConn.holds id value hOld with
        ⟨key, start, pc, hProc, hValue⟩
      rcases ManagerSystem.get_next hConn.numbered hSystem
        hProc with ⟨pc', hProc', hPc⟩
      refine ⟨key, start, pc', hProc', ?_⟩
      rcases hPc with rfl | ⟨_, _, _, hNext⟩
      · exact hValue
      · exact (GetPc.next_secured hNext hValue).1
    · exact promise_secured hSystem hNew
  · rcases hOther with ⟨hNot, hSystem⟩
    have hSame : s'.2 = s.2 := by
      rw [hLog]
      cases a with
      | manager b => exact absurd rfl (hNot b)
      | _ => rfl
    refine ⟨hL2 ▸ hConn.l2, hRunning, ?_, ?_⟩
    · rw [hSystem]
      exact hConn.numbered
    · rw [hSystem, hSame]
      exact hConn.holds

/- A `Get` that finds an entry in time will return it. -/
theorem cached_willReturn
    {s : Server}
    {id : Nat}
    {key : Key}
    {start : Int}
    {entry : L1Entry}
    (hUp : s.Up)
    (hProc : s.system.procs id = some (.get key start .l1Read))
    (hRead : s.system.l1.read key = some entry)
    (hFresh : entry.expired s.system.clock = false) :
    s.WillReturn cfg id entry.value := by
  have hLookup :
      ∀ c fault origin,
        c.key = key →
          GetPc.run cfg.manager s.system.shared c fault origin
              .l1Read =
            some (s.system.shared, .l1Check entry) := by
    intro c fault origin hKey
    subst hKey
    have hStored :
        s.system.shared.store.l1.read c.key = some entry :=
      hRead
    simp [GetPc.run, hStored]
  have hCheck :
      ∀ c fault origin,
        GetPc.run cfg.manager s.system.shared c fault origin
            (.l1Check entry) =
          some (s.system.shared, .countL1Hit entry.value) := by
    intro c fault origin
    have hTime :
        entry.expired s.system.shared.store.clock = false :=
      hFresh
    simp [GetPc.run, hTime]
  apply Machine.LeadsTo.of_step
  intro a hOwn
  rcases hOwn with ⟨fault, origin, rfl⟩
  refine ⟨_, hUp.step_get hProc (hLookup _ _ _ rfl), ?_⟩
  apply Machine.LeadsTo.of_step
  intro a hOwn
  rcases hOwn with ⟨fault, origin, rfl⟩
  refine
    ⟨_,
      Server.Up.step_get ⟨hUp.l2, hUp.running, hUp.serving⟩
        (Function.update_self _ _ _) (hCheck _ _ _), ?_⟩
  apply Server.willReturn_of_returnsWithin
  exact
    ⟨⟨hUp.l2, hUp.running, hUp.serving⟩, key, start, _,
      Function.update_self _ _ _, rfl, le_refl _⟩

/- A connected server is available. -/
theorem available_of_connected
    (hConn : Connected s) :
    Available cfg s := by
  have hUp : s.1.phase.serving = true → s.1.Up :=
    fun hServing => ⟨hConn.l2, hConn.running, hServing⟩
  refine ⟨hConn.running, ?_, ?_⟩
  · intro hServing id key start entry hProc hRead hFresh
    exact cached_willReturn (hUp hServing) hProc hRead hFresh
  · intro hServing id value hMem
    rcases hConn.holds id value hMem with
      ⟨key, start, pc, hProc, hValue⟩
    exact
      Server.willReturn_of_returnsWithin
        ⟨hUp hServing, key, start, pc, hProc, hValue,
          le_refl _⟩

/-
  Every run of the server degrades gracefully exactly if one
  of the attempts to connect to Redis succeeds.
-/
theorem degrades_gracefully_iff
    (cfg : Config)
    (errors : ConnectErrors)
    (redis : Redis)
    (clock : Int) :
    DegradesGracefully cfg errors redis clock ↔
      errors.first = none ∨ errors.retry = none ∨
        errors.localhost = none := by
  have hNone := connect_eq_none cfg errors
  constructor
  · intro h
    by_contra hFail
    have hNil : connect cfg errors = none := by
      rw [hNone]
      tauto
    have hStart :
        (promiseMachine cfg).step
            (Server.start cfg errors redis clock, [])
            (.startGRPC none) =
          some
            ({ Server.start cfg errors redis clock with
                phase := .grpc }, []) := by
      simp [promiseMachine, serverMachine,
        Machine.withHistory, Server.step, Server.start,
        Server.recordPromise]
    -- `main` takes the client out of a nil `L2Cache`
    have hCrash :
        (promiseMachine cfg).step
            ({ Server.start cfg errors redis clock with
                phase := .grpc }, [])
            .startHTTP =
          some
            ({ Server.start cfg errors redis clock with
                phase := .grpc
                crashed := true }, []) := by
      simp [promiseMachine, serverMachine,
        Machine.withHistory, Server.step, Server.start,
        Server.deref, hNil, Server.recordPromise]
    have hRun :=
      Machine.exec_cons.mpr
        ⟨_, hStart,
          Machine.exec_cons.mpr
            ⟨_, hCrash, Machine.exec_nil _⟩⟩
    cases (h _ _ hRun).running
  · intro hSome actions s hRun
    have hL2 : connect cfg errors ≠ none := by
      rw [Ne, hNone]
      tauto
    have hStart :
        Connected (Server.start cfg errors redis clock, []) :=
      ⟨hL2, rfl, ManagerSystem.numbered_new _ _ _ _, by simp⟩
    exact
      available_of_connected
        (Machine.exec_invariant
          (fun _ _ _ hConn hStep => connected_step hConn hStep)
          hRun hStart)

/- The configuration of an environment without variables. -/
def defaultConfig : Config :=
  { l1MaxSize := 50000
    l1TTL := 10000000000
    redisAddrs :=
      { first := bytes "localhost:6379", more := [] }
    redisPassword := []
    redisPoolSize := 500
    l2TTL := 300000000000
    enableSingleflight := true }

/- No Redis server can be reached. -/
def redisDown : ConnectErrors :=
  { first := some (bytes "connection refused")
    retry := some (bytes "connection refused")
    localhost := some (bytes "connection refused") }

/-
  Without Redis, `main` crashes as soon as it has started
  the gRPC server, on its way to the HTTP server.
-/
theorem start_up_crashes :
    ¬ DegradesGracefully defaultConfig redisDown ∅ 0 := by
  intro h
  have hRunning :=
    (h [.startGRPC none, .startHTTP] _
      (Machine.exec_get rfl)).running
  exact absurd hRunning (by decide)

end CacheServer
