import CacheServer.Cache.Writers
import CacheServer.Service.Server

/-
  The lifetime that a request asks for.

  `SetRequest` and `BatchSetRequest` have a `TtlSeconds` that
  is to override the default. No method reads it: values are
  stored with the lifetimes of the tiers, from L2 once more
  into L1, and may outlive what was asked for.

  Key definitions include:
    * `CacheServer.TtlRequest`
    * `CacheServer.requestMachine`
    * `CacheServer.TtlRequest.Honoured`
    * `CacheServer.ServiceSystem.StoresInTime`

  Key theorems include:
    * `CacheServer.ServiceSystem.lasting_step`
    * `CacheServer.requested_ttl_honoured`
-/

------------------------------------------------------------
-- Requests With A Lifetime
------------------------------------------------------------

namespace CacheServer

/- `cachepb.SetRequest`. -/
structure SetRequest where
  key : Key
  value : Value
  ttlSeconds : Int64
deriving DecidableEq

/- `cachepb.BatchSetRequest`. -/
structure BatchSetRequest where
  entries : List (Option KeyValue)
  ttlSeconds : Int64
deriving DecidableEq

inductive TtlRequest
| set (request : SetRequest)
| batchSet (request : BatchSetRequest)

namespace TtlRequest

def ttlSeconds :
    TtlRequest → Int64
| .set request => request.ttlSeconds
| .batchSet request => request.ttlSeconds

/- The requested lifetime in nanoseconds. -/
def lifetime
    (request : TtlRequest) :
    Int :=
  request.ttlSeconds.toInt * 1000000000

/- What `Set` and `BatchSet` read of the request. -/
def request :
    TtlRequest → Request
| .set request => .grpc (.set request.key request.value)
| .batchSet request => .grpc (.batchSet request.entries)

end TtlRequest

/-
  The writers of the values, and for each call of the
  manager's `Set` the request whose handler has made it.
-/
structure RequestLog where
  writers : WriterLog
  madeBy : Nat → Option Nat

def RequestLog.empty : RequestLog :=
  { writers := WriterLog.empty
    madeBy := fun _ => none }

/- The next step of the request is a call of `Set`. -/
def Running.beginsSet
    (r : Running) :
    Bool :=
  match r.pc with
  | .handle (.call (.set _ _) _) => true
  | _ => false

namespace ServiceSystem

def recordMade
    (s : ServiceSystem)
    (madeBy : Nat → Option Nat) :
    ServiceAction → Nat → Option Nat
| .serve id _ =>
    if (s.requests id).any Running.beginsSet then
      Function.update madeBy s.manager.next (some id)
    else
      madeBy
| _ => madeBy

def recordRequests
    (s : ServiceSystem)
    (a : ServiceAction)
    (log : RequestLog) :
    RequestLog :=
  match a with
  | .manager action =>
      { log with
        writers :=
          s.manager.recordTrace action log.writers }
  | _ => { log with madeBy := s.recordMade log.madeBy a }

/- What is stored for the request expires in time. -/
def StoresInTime
    (cfg : ManagerConfig)
    (id : Nat)
    (lifetime : Int)
    (x : ServiceSystem × RequestLog) :
    ServiceAction → Prop
| .manager action =>
    ∀ w ∈ x.1.manager.writer x.2.writers action,
      x.2.madeBy w = some id →
        x.1.manager.StoredInTime cfg w lifetime x.2.writers
          action
| _ => True

instance decidableStoresInTime
    (cfg : ManagerConfig)
    (id : Nat)
    (lifetime : Int)
    (x : ServiceSystem × RequestLog) :
    ∀ a, Decidable (StoresInTime cfg id lifetime x a)
| .manager action =>
    inferInstanceAs
      (Decidable
        (∀ w ∈ x.1.manager.writer x.2.writers action,
          x.2.madeBy w = some id →
            x.1.manager.StoredInTime cfg w lifetime
              x.2.writers action))
| .arrive _ => .isTrue trivial
| .serve _ _ => .isTrue trivial

end ServiceSystem

/- The server, with the requests that its values come from. -/
def requestMachine
    (cfg : ManagerConfig) :
    Machine (ServiceSystem × RequestLog) ServiceAction :=
  (serviceMachine cfg).withHistory
    ServiceSystem.recordRequests

/-
  A `Get` that has returned a value of the request began no
  later than the requested lifetime after it was written.
-/
def TtlRequest.Honoured
    (request : TtlRequest)
    (id : Nat)
    (x : ServiceSystem × RequestLog) :
    Prop :=
  ∀ r w time get key start value,
    0 < request.ttlSeconds →
      x.1.requests id = some r →
        r.request = request.request →
          x.2.madeBy w = some id →
            x.2.writers.writtenAt w = some time →
              x.1.manager.procs get =
                  some (.get key start (.done (.ok value))) →
                x.2.writers.carried get = some w →
                  start ≤ time + request.lifetime

end CacheServer

------------------------------------------------------------
-- Values That Outlive Their Request
------------------------------------------------------------

namespace CacheServer

namespace ServiceSystem

variable {cfg : ManagerConfig}
variable {x x' : ServiceSystem × RequestLog}
variable {a : ServiceAction}
variable {id : Nat}
variable {lifetime : Int}

/- All values of the request are over when they have to be. -/
structure Lasting
    (id : Nat)
    (lifetime : Int)
    (x : ServiceSystem × RequestLog) :
    Prop where
  traced : x.1.manager.Traced x.2.writers
  expires :
    ∀ w,
      x.2.madeBy w = some id →
        x.1.manager.Expires w lifetime x.2.writers

/- Only the next call of the manager is made by a step. -/
theorem recordMade_cases
    {s : ServiceSystem}
    {madeBy : Nat → Option Nat}
    {w : Nat}
    (h : s.recordMade madeBy a w = some id) :
    madeBy w = some id ∨ w = s.manager.next := by
  by_cases hNext : w = s.manager.next
  · exact Or.inr hNext
  · apply Or.inl
    cases a with
    | serve other pool =>
        simp only [recordMade] at h
        split_ifs at h
        · rwa [Function.update_of_ne hNext] at h
        · exact h
    | _ => exact h

theorem traced_setMetrics
    {m : ManagerSystem}
    {log : WriterLog}
    (hTraced : m.Traced log)
    (metrics : Metrics) :
    (m.setMetrics metrics).Traced log :=
  ⟨ManagerSystem.numbered_setMetrics hTraced.numbered metrics,
    hTraced.written, hTraced.dated, hTraced.l1, hTraced.l2,
    hTraced.carried, hTraced.started⟩

theorem expires_setMetrics
    {m : ManagerSystem}
    {log : WriterLog}
    {w : Nat}
    (hExpires : m.Expires w lifetime log)
    (metrics : Metrics) :
    (m.setMetrics metrics).Expires w lifetime log :=
  ⟨hExpires.l1, hExpires.l2, hExpires.gets⟩

/- A step of a request keeps the log of the manager true. -/
theorem next_traced
    {m m' : ManagerSystem}
    {r : Running}
    {alive : Bool}
    {pc : RequestPc}
    {log : WriterLog}
    {Own : Nat → Prop}
    (hNext : r.Next m alive m' pc)
    (hTraced : m.Traced log)
    (hExpires : ∀ w, Own w → m.Expires w lifetime log) :
    m'.Traced log ∧
      ∀ w, Own w → m'.Expires w lifetime log := by
  refine
    Running.next_manager
      (I := fun m =>
        m.Traced log ∧ ∀ w, Own w → m.Expires w lifetime log)
      ?_ ?_ ?_ hNext ⟨hTraced, hExpires⟩
  · intro call h
    have hStep := m.begin_eq_step ⟨true, 0⟩ call
    refine ⟨ManagerSystem.traced_step h.1 hStep, ?_⟩
    intro w hOwn
    exact
      ManagerSystem.expires_step h.1 (h.2 w hOwn)
        (fun hWriter => by cases hWriter) hStep
  · intro elapsed h
    exact
      ⟨traced_setMetrics h.1 _,
        fun w hOwn => expires_setMetrics (h.2 w hOwn) _⟩
  · intro h
    exact
      ⟨traced_setMetrics h.1 _,
        fun w hOwn => expires_setMetrics (h.2 w hOwn) _⟩

theorem lasting_new
    (maxSize : Int)
    (l1TTL : Int)
    (redis : Redis)
    (clock : Int) :
    Lasting id lifetime
      (new maxSize l1TTL redis clock, RequestLog.empty) := by
  refine
    ⟨ManagerSystem.traced_new maxSize l1TTL redis clock, ?_⟩
  intro w hMade
  cases hMade

theorem lasting_step
    (hLasting : Lasting id lifetime x)
    (hInTime : StoresInTime cfg id lifetime x a)
    (h : (requestMachine cfg).step x a = some x') :
    Lasting id lifetime x' := by
  rcases x with ⟨s, log⟩
  rcases x' with ⟨s', log'⟩
  rcases Machine.withHistory_step.mp h with ⟨hStep, hLog⟩
  simp only at hStep hLog
  subst hLog
  have hTraced : s.manager.Traced log.writers :=
    hLasting.traced
  rcases step_cases hStep with
    ⟨request, rfl, rfl⟩ |
      ⟨other, pool, r, alive, m, pc, rfl, _, hNext, rfl⟩ |
      ⟨action, m, rfl, _, hManager, rfl⟩
  · exact ⟨hTraced, hLasting.expires⟩
  · rcases next_traced hNext hTraced hLasting.expires with
      ⟨hTraced', hExpires'⟩
    refine ⟨hTraced', ?_⟩
    intro w hMade
    have hRecord :
        s.recordMade log.madeBy (.serve other pool) w =
          some id := hMade
    rcases recordMade_cases hRecord with hOld | rfl
    · exact hExpires' w hOld
    · exact
        ManagerSystem.expires_of_unwritten hTraced.unwritten
  · refine
      ⟨ManagerSystem.traced_step hTraced hManager, ?_⟩
    intro w hMade
    exact
      ManagerSystem.expires_step hTraced
        (hLasting.expires w hMade)
        (fun hWriter => hInTime w hWriter hMade) hManager

end ServiceSystem

/-
  In every run in which what is stored for the request gets
  no more than the requested lifetime, no `Get` that begins
  later returns a value of the request.
-/
theorem requested_ttl_honoured
    (cfg : ManagerConfig)
    (maxSize : Int)
    (l1TTL : Int)
    (redis : Redis)
    (clock : Int)
    (actions : List ServiceAction)
    (x : ServiceSystem × RequestLog)
    (request : TtlRequest)
    (id : Nat)
    (hRun :
      (requestMachine cfg).exec
          (ServiceSystem.new maxSize l1TTL redis clock,
            RequestLog.empty)
          actions =
        some x)
    (hInTime :
      (requestMachine cfg).Along
        (ServiceSystem.StoresInTime cfg id request.lifetime)
        (ServiceSystem.new maxSize l1TTL redis clock,
          RequestLog.empty)
        actions) :
    request.Honoured id x := by
  have hLasting :=
    Machine.exec_invariant_along
      (fun _ _ _ hI hP hStep =>
        ServiceSystem.lasting_step hI hP hStep)
      hInTime hRun
      (ServiceSystem.lasting_new maxSize l1TTL redis clock)
  intro r w time get key start value _ _ _ hMade hTime hProc
    hCarried
  exact
    (hLasting.expires w hMade).not_returned hTime hCarried
      hProc

/- One second for the value of one key. -/
def oneSecond : TtlRequest :=
  .set { key := [1], value := [7], ttlSeconds := 1 }

/- The request is served, and a `Get` of its key later. -/
def oneSecondThenGet
    (elapsed : Nat) :
    List ServiceAction :=
  [.arrive oneSecond.request, .proceed 0] ++
    ServiceAction.proceeds 0 2 ++
      [.manager (.tick elapsed), .arrive (.grpc (.get [1])),
        .proceed 1, .proceed 1] ++
        ServiceAction.proceeds 1 5

/-
  With short TTLs of the tiers: the value is returned within
  the second, and after two that of the origin is.
-/
def oneSecondThenTwoGets : List ServiceAction :=
  oneSecondThenGet 5 ++
    [.manager (.tick 2000000000), .arrive (.grpc (.get [1])),
      .proceed 2, .proceed 2] ++
      ServiceAction.proceeds 2 8 ++
        [.manager (.run 2 .none (.value [9]))] ++
          ServiceAction.proceeds 2 5

theorem requested_ttl_honoured_late :
    ∃ x,
      (requestMachine ⟨true, 60⟩).exec
          (freshService, RequestLog.empty)
          oneSecondThenTwoGets =
        some x ∧
        x.1.manager.procs 1 =
            some (.get [1] 5 (.done (.ok [7]))) ∧
          x.1.manager.procs 2 =
              some (.get [1] 2000000005 (.done (.ok [9]))) ∧
            oneSecond.Honoured 0 x := by
  have hRun :
      (requestMachine ⟨true, 60⟩).exec
          (freshService, RequestLog.empty)
          oneSecondThenTwoGets =
        some _ :=
    Machine.exec_get rfl
  exact
    ⟨_, hRun, rfl, rfl,
      requested_ttl_honoured ⟨true, 60⟩ 1000 5 ∅ 0
        oneSecondThenTwoGets _ oneSecond 0 hRun
        (by decide)⟩

/-
  With the default TTLs a value that was to live for one
  second is still returned after two.
-/
theorem requested_ttl_ignored :
    ¬ ∀ (cfg : ManagerConfig) (maxSize l1TTL : Int)
        (redis : Redis) (clock : Int)
        (actions : List ServiceAction)
        (x : ServiceSystem × RequestLog)
        (request : TtlRequest) (id : Nat),
      (requestMachine cfg).exec
          (ServiceSystem.new maxSize l1TTL redis clock,
            RequestLog.empty)
          actions =
        some x →
        request.Honoured id x := by
  intro h
  have hRun :
      (requestMachine ⟨true, 300000000000⟩).exec
          (ServiceSystem.new 50000 10000000000 ∅ 0,
            RequestLog.empty)
          (oneSecondThenGet 2000000000) =
        some _ :=
    Machine.exec_get rfl
  have hLate :=
    h ⟨true, 300000000000⟩ 50000 10000000000 ∅ 0 _ _ oneSecond
      0 hRun _ 0 0 1 [1] 2000000000 [7] (by decide) rfl rfl
      rfl rfl rfl rfl
  exact absurd hLate (by decide)

end CacheServer
