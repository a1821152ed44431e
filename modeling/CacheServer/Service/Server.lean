import CacheServer.Service.Grpc
import CacheServer.Service.Http
import CacheServer.Cache.Counters

/-
  The server: requests over HTTP and gRPC on one manager.

  A request runs its handler. A call of the manager that the
  handler makes takes its own steps among all others, and the
  handler waits for its answer; all other calls are answered
  at once. What a gRPC handler returns goes through the
  metrics interceptor.

  Key definitions include:
    * `CacheServer.Request`
    * `CacheServer.Running.run`
    * `CacheServer.ServiceSystem`
    * `CacheServer.serviceMachine`

  Key theorems include:
    * `CacheServer.Running.run_next`
    * `CacheServer.ServiceSystem.step_cases`
    * `CacheServer.service_flow_conserved`
-/

------------------------------------------------------------
-- Requests
------------------------------------------------------------

namespace CacheServer

/- A request for a handler of `internal/handler`. -/
inductive HttpRequest
| getCache (key : Key)
| putCache (key : Key) (body : Option String)
| deleteCache (key : Key)
| batchGet
    (isNil : String → Bool)
    (body : Option (List String))
| getStats
| health

/- A request for a method of `internal/grpcserver`. -/
inductive GrpcRequest
| get (key : Key)
| set (key : Key) (value : Value)
| delete (key : Key)
| batchGet (keys : List Key)
| batchSet (entries : List (Option KeyValue))
| stats
| health

inductive Request
| http (request : HttpRequest)
| grpc (request : GrpcRequest)

def Request.isGrpc :
    Request → Bool
| .http _ => false
| .grpc _ => true

/- What a method answers. -/
inductive GrpcAnswer
| get (returned : Returned GetResponse)
| set (returned : Returned SetResponse)
| delete (returned : Returned DeleteResponse)
| batchGet (returned : Returned BatchGetResponse)
| batchSet (returned : Returned BatchSetResponse)
| stats (returned : Returned StatsResponse)
| health (returned : Returned HealthResponse)

inductive Answer
| http (reply : HttpReply)
| grpc (answer : GrpcAnswer)

def HttpRequest.program :
    HttpRequest → ServiceProgram HttpReply
| .getCache key => Http.getCache key
| .putCache key body => Http.putCache key body
| .deleteCache key => Http.deleteCache key
| .batchGet isNil body => Http.batchGet isNil body
| .getStats => Http.getStats
| .health => Http.health

/- The server has been started at some time. -/
def GrpcRequest.program
    (startTime : Int) :
    GrpcRequest → ServiceProgram GrpcAnswer
| .get key => (Grpc.get key).bind (fun r => .ret (.get r))
| .set key value =>
    (Grpc.set key value).bind (fun r => .ret (.set r))
| .delete key =>
    (Grpc.delete key).bind (fun r => .ret (.delete r))
| .batchGet keys =>
    (Grpc.batchGet keys).bind (fun r => .ret (.batchGet r))
| .batchSet entries =>
    (Grpc.batchSet entries).bind (fun r => .ret (.batchSet r))
| .stats => Grpc.stats.bind (fun r => .ret (.stats r))
| .health =>
    (Grpc.health startTime).bind (fun r => .ret (.health r))

def Request.program
    (startTime : Int) :
    Request → ServiceProgram Answer
| .http request =>
    request.program.bind (fun reply => .ret (.http reply))
| .grpc request =>
    (request.program startTime).bind
      (fun answer => .ret (.grpc answer))

end CacheServer

------------------------------------------------------------
-- Requests In Progress
------------------------------------------------------------

namespace CacheServer

/- Where a request stands. -/
inductive RequestPc
-- the handler
| handle (program : ServiceProgram Answer)
| wait
    (id : Nat)
    (call : ServiceCall)
    (rest : call.Answer → ServiceProgram Answer)
-- the metrics interceptor
| addLatency (answer : Answer)
| countRequest (answer : Answer)
| done (answer : Answer)

structure Running where
  request : Request
  start : Int
  pc : RequestPc

/- What a call that has returned answers. -/
def Proc.answer :
    Proc → (c : ServiceCall) → Option c.Answer
| .get _ _ (.done result), .get _ => some result
| .set _ _ (.done error), .set _ _ => some error
| .invalidate _ (.done error), .invalidate _ => some error
| _, _ => none

namespace ManagerSystem

/- The manager with one more call. -/
def begin
    (m : ManagerSystem)
    (call : ManagerCall) :
    ManagerSystem :=
  { m with
    procs :=
      Function.update m.procs m.next
        (some (call.proc m.shared.store.clock))
    next := m.next + 1 }

def setMetrics
    (m : ManagerSystem)
    (metrics : Metrics) :
    ManagerSystem :=
  { m with shared := m.shared.setMetrics metrics }

/- A call that a handler makes. -/
def perform
    (m : ManagerSystem)
    (pool : PoolStats) :
    (c : ServiceCall) →
      (c.Answer → ServiceProgram Answer) →
        ManagerSystem × RequestPc
| .get key, rest =>
    (m.begin (.get key), .wait m.next (.get key) rest)
| .set key value, rest =>
    (m.begin (.set key value),
      .wait m.next (.set key value) rest)
| .invalidate key, rest =>
    (m.begin (.invalidate key),
      .wait m.next (.invalidate key) rest)
| .now, rest => (m, .handle (rest m.shared.store.clock))
| .load counter, rest =>
    (m, .handle (rest (m.shared.store.metrics.load counter)))
| .shardLen i, rest =>
    (m, .handle (rest (m.shared.store.l1.shards i).items.len))
| .poolStats, rest => (m, .handle (rest pool))

end ManagerSystem

namespace Running

/- `RecoveryMiddleware`. -/
def recovered : Answer :=
  .http
    (.written
      (httpError (errorJson (bytes "internal server error"))
        500))

/- The interceptor goes on after the handler of a method. -/
def after
    (r : Running)
    (answer : Answer) :
    RequestPc :=
  if r.request.isGrpc then .addLatency answer else .done answer

/-
  A step of a request: whether the server stays alive, the
  manager, and where the request stands. Nothing recovers a
  method that crashes.
-/
def run
    (m : ManagerSystem)
    (pool : PoolStats)
    (r : Running) :
    Option (Bool × ManagerSystem × RequestPc) :=
  match r.pc with
  | .handle (.ret answer) => some (true, m, r.after answer)
  | .handle (.call c rest) => some (true, m.perform pool c rest)
  | .handle .crash =>
      if r.request.isGrpc then
        some (false, m, r.pc)
      else
        some (true, m, .done recovered)
  | .wait id c rest =>
      ((m.procs id).bind (fun p => p.answer c)).map
        (fun answer => (true, m, .handle (rest answer)))
  | .addLatency answer =>
      some
        (true,
          m.setMetrics
            { m.metrics with
              totalLatencyNs :=
                m.metrics.totalLatencyNs +
                  (m.shared.store.clock - r.start) },
          .countRequest answer)
  | .countRequest answer =>
      some
        (true,
          m.setMetrics
            { m.metrics with
              totalRequests := m.metrics.totalRequests + 1 },
          .done answer)
  | .done _ => none

end Running

end CacheServer

------------------------------------------------------------
-- The Machine
------------------------------------------------------------

namespace CacheServer

/- The manager and every request that has arrived so far. -/
structure ServiceSystem where
  manager : ManagerSystem
  requests : Nat → Option Running
  next : Nat
  startTime : Int
  alive : Bool

/-
  A request arrives or takes a step, or something happens in
  the manager. Only handlers begin calls of the manager.
-/
inductive ServiceAction
| arrive (request : Request)
| serve (id : Nat) (pool : PoolStats)
| manager (action : ManagerAction)

namespace ServiceSystem

/- A server just started on a Redis that may hold data. -/
def new
    (maxSize : Int)
    (l1TTL : Int)
    (redis : Redis)
    (clock : Int) :
    ServiceSystem :=
  { manager := ManagerSystem.new maxSize l1TTL redis clock
    requests := fun _ => none
    next := 0
    startTime := clock
    alive := true }

def stepAlive
    (cfg : ManagerConfig)
    (s : ServiceSystem) :
    ServiceAction → Option ServiceSystem
| .arrive request =>
    some
      { s with
        requests :=
          Function.update s.requests s.next
            (some
              { request := request
                start := s.manager.shared.store.clock
                pc := .handle (request.program s.startTime) })
        next := s.next + 1 }
| .serve id pool =>
    match s.requests id with
    | none => none
    | some running =>
        (running.run s.manager pool).map
          (fun r =>
            { s with
              manager := r.2.1
              requests :=
                Function.update s.requests id
                  (some { running with pc := r.2.2 })
              alive := r.1 })
| .manager (.call _) => none
| .manager action =>
    (s.manager.step cfg action).map
      (fun manager => { s with manager := manager })

def step
    (cfg : ManagerConfig)
    (s : ServiceSystem)
    (a : ServiceAction) :
    Option ServiceSystem :=
  if s.alive then s.stepAlive cfg a else none

end ServiceSystem

/- Interleavings of requests are this machine's runs. -/
def serviceMachine
    (cfg : ManagerConfig) :
    Machine ServiceSystem ServiceAction :=
  { step := ServiceSystem.step cfg }

/- A step of a request, whatever the pool is like. -/
def ServiceAction.proceed
    (id : Nat) :
    ServiceAction :=
  .serve id { hits := 0, misses := 0, totalConns := 0 }

/- Steps of one call of the manager in which nothing fails. -/
def ServiceAction.proceeds
    (id : Nat)
    (steps : Nat) :
    List ServiceAction :=
  List.replicate steps (.manager (.proceed id))

/- A server with small TTLs on an empty Redis. -/
def freshService : ServiceSystem :=
  ServiceSystem.new 1000 5 ∅ 0

end CacheServer

------------------------------------------------------------
-- Steps
------------------------------------------------------------

namespace CacheServer

/- The call of the manager that a handler makes. -/
def ServiceCall.managerCall :
    ServiceCall → Option ManagerCall
| .get key => some (.get key)
| .set key value => some (.set key value)
| .invalidate key => some (.invalidate key)
| _ => none

/- A call begins in the manager or is answered at once. -/
theorem ManagerSystem.perform_cases
    (m : ManagerSystem)
    (pool : PoolStats)
    (c : ServiceCall)
    (rest : c.Answer → ServiceProgram Answer) :
    (∃ call,
        c.managerCall = some call ∧
          m.perform pool c rest =
            (m.begin call, .wait m.next c rest)) ∨
      (c.managerCall = none ∧
        ∃ answer,
          m.perform pool c rest =
            (m, .handle (rest answer))) := by
  cases c with
  | get key => exact Or.inl ⟨_, rfl, rfl⟩
  | set key value => exact Or.inl ⟨_, rfl, rfl⟩
  | invalidate key => exact Or.inl ⟨_, rfl, rfl⟩
  | now => exact Or.inr ⟨rfl, _, rfl⟩
  | load counter => exact Or.inr ⟨rfl, _, rfl⟩
  | shardLen i => exact Or.inr ⟨rfl, _, rfl⟩
  | poolStats => exact Or.inr ⟨rfl, _, rfl⟩

theorem ManagerSystem.begin_eq_step
    (cfg : ManagerConfig)
    (m : ManagerSystem)
    (call : ManagerCall) :
    m.step cfg (.call call) = some (m.begin call) := rfl

namespace Running

/-
  What a step of a request may be: where it stands, and what
  the step makes of the server, the manager and itself.
-/
inductive Next
    (m : ManagerSystem)
    (r : Running) :
    Bool → ManagerSystem → RequestPc → Prop
| returned
    {answer : Answer}
    (hPc : r.pc = .handle (.ret answer)) :
    Next m r true m (r.after answer)
| crash
    (hPc : r.pc = .handle .crash)
    (hGrpc : r.request.isGrpc = true) :
    Next m r false m r.pc
| recover
    (hPc : r.pc = .handle .crash)
    (hHttp : r.request.isGrpc = false) :
    Next m r true m (.done recovered)
| begin
    {c : ServiceCall}
    {call : ManagerCall}
    {rest : c.Answer → ServiceProgram Answer}
    (hPc : r.pc = .handle (.call c rest))
    (hCall : c.managerCall = some call) :
    Next m r true (m.begin call) (.wait m.next c rest)
| instant
    {c : ServiceCall}
    {rest : c.Answer → ServiceProgram Answer}
    (answer : c.Answer)
    (hPc : r.pc = .handle (.call c rest))
    (hCall : c.managerCall = none) :
    Next m r true m (.handle (rest answer))
| answered
    {id : Nat}
    {c : ServiceCall}
    {rest : c.Answer → ServiceProgram Answer}
    {p : Proc}
    {answer : c.Answer}
    (hPc : r.pc = .wait id c rest)
    (hProc : m.procs id = some p)
    (hAnswer : p.answer c = some answer) :
    Next m r true m (.handle (rest answer))
| addLatency
    {answer : Answer}
    (elapsed : Int)
    (hPc : r.pc = .addLatency answer) :
    Next m r true
      (m.setMetrics
        { m.metrics with
          totalLatencyNs :=
            m.metrics.totalLatencyNs + elapsed })
      (.countRequest answer)
| countRequest
    {answer : Answer}
    (hPc : r.pc = .countRequest answer) :
    Next m r true
      (m.setMetrics
        { m.metrics with
          totalRequests := m.metrics.totalRequests + 1 })
      (.done answer)

theorem run_next
    {m m' : ManagerSystem}
    {pool : PoolStats}
    {r : Running}
    {alive : Bool}
    {pc : RequestPc}
    (h : r.run m pool = some (alive, m', pc)) :
    r.Next m alive m' pc := by
  cases hPc : r.pc with
  | handle program =>
      cases program with
      | ret answer =>
          simp only [run, hPc] at h
          cases h
          exact .returned hPc
      | call c rest =>
          simp only [run, hPc] at h
          rcases m.perform_cases pool c rest with
            ⟨call, hCall, hEq⟩ | ⟨hCall, answer, hEq⟩
          · rw [hEq] at h
            cases h
            exact .begin hPc hCall
          · rw [hEq] at h
            cases h
            exact .instant answer hPc hCall
      | crash =>
          simp only [run, hPc] at h
          split_ifs at h with hGrpc
          · cases h
            rw [← hPc]
            exact .crash hPc hGrpc
          · cases h
            exact .recover hPc (Bool.not_eq_true _ ▸ hGrpc)
  | wait id c rest =>
      simp only [run, hPc] at h
      rcases Option.map_eq_some_iff.mp h with
        ⟨answer, hAnswer, hEq⟩
      rcases Option.bind_eq_some_iff.mp hAnswer with
        ⟨p, hProc, hDone⟩
      cases hEq
      exact .answered hPc hProc hDone
  | addLatency answer =>
      simp only [run, hPc] at h
      cases h
      exact .addLatency _ hPc
  | countRequest answer =>
      simp only [run, hPc] at h
      cases h
      exact .countRequest hPc
  | done answer =>
      simp only [run, hPc] at h
      cases h

/- A request that waits goes on when its call has answered. -/
theorem Next.answered_of_wait
    {m m' : ManagerSystem}
    {r : Running}
    {alive : Bool}
    {pc : RequestPc}
    {id : Nat}
    {c : ServiceCall}
    {rest : c.Answer → ServiceProgram Answer}
    (hPc : r.pc = .wait id c rest)
    (h : r.Next m alive m' pc) :
    ∃ p answer,
      m.procs id = some p ∧
        p.answer c = some answer ∧
        m' = m ∧
        pc = .handle (rest answer) := by
  cases h with
  | answered hWait hProc hAnswer =>
      cases hPc.symm.trans hWait
      exact ⟨_, _, hProc, hAnswer, rfl, rfl⟩
  | returned hOwn => cases hPc.symm.trans hOwn
  | crash hOwn _ => cases hPc.symm.trans hOwn
  | recover hOwn _ => cases hPc.symm.trans hOwn
  | begin hOwn _ => cases hPc.symm.trans hOwn
  | instant answer hOwn _ => cases hPc.symm.trans hOwn
  | addLatency elapsed hOwn => cases hPc.symm.trans hOwn
  | countRequest hOwn => cases hPc.symm.trans hOwn

end Running

namespace ServiceSystem

variable {cfg : ManagerConfig}
variable {s s' : ServiceSystem}
variable {a : ServiceAction}

/- A request at a new place in its run. -/
def put
    (s : ServiceSystem)
    (id : Nat)
    (r : Running)
    (alive : Bool)
    (m : ManagerSystem)
    (pc : RequestPc) :
    ServiceSystem :=
  { s with
    manager := m
    requests :=
      Function.update s.requests id (some { r with pc := pc })
    alive := alive }

/- A request that has just arrived. -/
def arrived
    (s : ServiceSystem)
    (request : Request) :
    Running :=
  { request := request
    start := s.manager.shared.store.clock
    pc := .handle (request.program s.startTime) }

/- No request is needed for what is not a call. -/
theorem stepAlive_manager
    {action : ManagerAction}
    (h : s.stepAlive cfg (.manager action) = some s') :
    (∀ call, action ≠ .call call) ∧
      ∃ m,
        s.manager.step cfg action = some m ∧
          s' = { s with manager := m } := by
  have hCall : ∀ call, action ≠ .call call := by
    intro call hEq
    subst hEq
    cases h
  have hMap :
      s.stepAlive cfg (.manager action) =
        (s.manager.step cfg action).map
          (fun m => { s with manager := m }) := by
    cases action with
    | call call => exact absurd rfl (hCall call)
    | _ => rfl
  rw [hMap] at h
  rcases Option.map_eq_some_iff.mp h with ⟨m, hStep, hEq⟩
  exact ⟨hCall, m, hStep, hEq.symm⟩

theorem step_cases
    (h : s.step cfg a = some s') :
    (∃ request,
        a = .arrive request ∧
          s' =
            { s with
              requests :=
                Function.update s.requests s.next
                  (some (s.arrived request))
              next := s.next + 1 }) ∨
      (∃ id pool r alive m pc,
          a = .serve id pool ∧
            s.requests id = some r ∧
              r.Next s.manager alive m pc ∧
                s' = s.put id r alive m pc) ∨
        ∃ action m,
          a = .manager action ∧
            (∀ call, action ≠ .call call) ∧
              s.manager.step cfg action = some m ∧
                s' = { s with manager := m } := by
  unfold step at h
  split_ifs at h with hAlive
  cases a with
  | arrive request =>
      cases h
      exact Or.inl ⟨request, rfl, rfl⟩
  | serve id pool =>
      cases hRequest : s.requests id with
      | none => simp [stepAlive, hRequest] at h
      | some r =>
          simp only [stepAlive, hRequest] at h
          rcases Option.map_eq_some_iff.mp h with
            ⟨⟨alive, m, pc⟩, hRun, hEq⟩
          exact
            Or.inr
              (Or.inl
                ⟨id, pool, r, alive, m, pc, rfl, hRequest,
                  Running.run_next hRun, hEq.symm⟩)
  | manager action =>
      rcases stepAlive_manager h with ⟨hCall, m, hStep, hEq⟩
      exact
        Or.inr (Or.inr ⟨action, m, rfl, hCall, hStep, hEq⟩)

end ServiceSystem

end CacheServer

------------------------------------------------------------
-- Flow
------------------------------------------------------------

namespace CacheServer

variable {cfg : ManagerConfig}
variable {m m' : ManagerSystem}
variable {s s' : ServiceSystem}
variable {a : ServiceAction}

/- A request moves the manager by calls, or counts itself. -/
theorem Running.next_manager
    {r : Running}
    {alive : Bool}
    {pc : RequestPc}
    {I : ManagerSystem → Prop}
    (hBegin : ∀ call, I m → I (m.begin call))
    (hLatency :
      ∀ elapsed,
        I m →
          I (m.setMetrics
            { m.metrics with
              totalLatencyNs :=
                m.metrics.totalLatencyNs + elapsed }))
    (hCount :
      I m →
        I (m.setMetrics
          { m.metrics with
            totalRequests := m.metrics.totalRequests + 1 }))
    (hNext : r.Next m alive m' pc)
    (hInv : I m) :
    I m' := by
  cases hNext with
  | begin hPc hCall => exact hBegin _ hInv
  | addLatency elapsed hPc => exact hLatency elapsed hInv
  | countRequest hPc => exact hCount hInv
  | _ => exact hInv

/- Counting does not number calls. -/
theorem ManagerSystem.numbered_setMetrics
    (hNum : m.Numbered)
    (metrics : Metrics) :
    (m.setMetrics metrics).Numbered :=
  ⟨hNum.procs, hNum.background, hNum.finished⟩

/- The balances of a manager whose calls are numbered. -/
def ManagerSystem.Balanced
    (cfg : ManagerConfig)
    (m : ManagerSystem) :
    Prop :=
  m.Numbered ∧ m.Flow cfg

theorem Running.next_balanced
    {r : Running}
    {alive : Bool}
    {pc : RequestPc}
    (hNext : r.Next m alive m' pc)
    (hBalanced : m.Balanced cfg) :
    m'.Balanced cfg := by
  refine
    Running.next_manager (I := ManagerSystem.Balanced cfg)
      ?_ ?_ ?_ hNext hBalanced
  · intro call h
    have hStep := m.begin_eq_step cfg call
    exact
      ⟨ManagerSystem.numbered_step h.1 hStep,
        ManagerSystem.flow_step h.2 h.1 hStep⟩
  · intro elapsed h
    exact
      ⟨ManagerSystem.numbered_setMetrics h.1 _,
        ⟨h.2.lookups, h.2.l2, h.2.origin, h.2.direct⟩⟩
  · intro h
    exact
      ⟨ManagerSystem.numbered_setMetrics h.1 _,
        ⟨h.2.lookups, h.2.l2, h.2.origin, h.2.direct⟩⟩

theorem ServiceSystem.step_balanced
    (hBalanced : s.manager.Balanced cfg)
    (h : s.step cfg a = some s') :
    s'.manager.Balanced cfg := by
  rcases step_cases h with
    ⟨request, rfl, rfl⟩ |
      ⟨id, pool, r, alive, m, pc, rfl, _, hNext, rfl⟩ |
      ⟨action, m, rfl, _, hStep, rfl⟩
  · exact hBalanced
  · exact Running.next_balanced hNext hBalanced
  · exact
      ⟨ManagerSystem.numbered_step hBalanced.1 hStep,
        ManagerSystem.flow_step hBalanced.2 hBalanced.1 hStep⟩

theorem balanced_exec
    {maxSize l1TTL : Int}
    {redis : Redis}
    {clock : Int}
    {actions : List ServiceAction}
    (hRun :
      (serviceMachine cfg).exec
          (ServiceSystem.new maxSize l1TTL redis clock)
          actions =
        some s) :
    s.manager.Balanced cfg :=
  Machine.exec_invariant
    (I := fun t : ServiceSystem => t.manager.Balanced cfg)
    (fun _ _ _ hI hStep =>
      ServiceSystem.step_balanced hI hStep)
    hRun
    ⟨ManagerSystem.numbered_new maxSize l1TTL redis clock,
      ManagerSystem.flow_new cfg maxSize l1TTL redis clock⟩

/-
  In every state that a server reaches, over HTTP and gRPC,
  the lookup counters agree with each other.
-/
theorem service_flow_conserved
    (cfg : ManagerConfig)
    (maxSize : Int)
    (l1TTL : Int)
    (redis : Redis)
    (clock : Int)
    (actions : List ServiceAction)
    (s : ServiceSystem)
    (hRun :
      (serviceMachine cfg).exec
          (ServiceSystem.new maxSize l1TTL redis clock)
          actions =
        some s) :
    s.manager.FlowConserved cfg :=
  ManagerSystem.flowConserved_of_flow (balanced_exec hRun).2

/- A `Get` over gRPC that has missed L1. -/
theorem service_flow_conserved_missed :
    (((serviceMachine { useSF := false, l2TTL := 60 }).exec
        freshService
        ([.arrive (.grpc (.get [7])), .proceed 0,
          .proceed 0] ++ ServiceAction.proceeds 0 2)).get
      (by decide)).manager.FlowConserved
      { useSF := false, l2TTL := 60 } :=
  service_flow_conserved _ 1000 5 ∅ 0 _ _
    (Machine.exec_get (by decide))

end CacheServer
