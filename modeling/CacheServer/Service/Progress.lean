import CacheServer.Cache.Progress
import CacheServer.Service.Lookups

/-
  Requests that go on.

  A handler makes so many calls, whatever they are answered,
  and each takes so many steps in the manager. A request that
  waits for a call of its own waits for one that can go on,
  or for a `Get` that leads. So every request is answered,
  unless a method crashes, which only a nil entry of
  `BatchSet` does.

  Key definitions include:
    * `CacheServer.ServiceCall.steps`
    * `CacheServer.Request.steps`
    * `CacheServer.Running.Within`
    * `CacheServer.ServiceSystem.Working`
    * `CacheServer.ServiceSystem.Settled`

  Key theorems include:
    * `CacheServer.Request.within_program`
    * `CacheServer.Request.safe_program`
    * `CacheServer.ServiceSystem.working_amortized`
    * `CacheServer.ServiceSystem.exists_settled`
    * `CacheServer.requests_answered`
-/

------------------------------------------------------------
-- Steps Of The Handlers
------------------------------------------------------------

namespace CacheServer

/- The steps of a call, from its begin to its answer. -/
def ServiceCall.steps :
    ServiceCall → Nat
| .get _ => 19
| .set _ _ => 4
| .invalidate _ => 4
| _ => 1

/- `Manager.Stats`: the pool, the shards, and the counters. -/
def statsSteps : Nat :=
  1 + (numShards + 9)

def HttpRequest.steps :
    HttpRequest → Nat
| .getCache _ => 19
| .putCache _ _ => 4
| .deleteCache _ => 4
| .batchGet _ body => 19 * (body.elim 0 List.length)
| .getStats => statsSteps
| .health => 0

def GrpcRequest.steps :
    GrpcRequest → Nat
| .get _ => 21
| .set _ _ => 4
| .delete _ => 4
| .batchGet keys => 19 * keys.length
| .batchSet entries => 4 * entries.length
| .stats => statsSteps
| .health => 1

/- The handler, its return, and the interceptor. -/
def Request.steps :
    Request → Nat
| .http request => request.steps + 3
| .grpc request => request.steps + 3

/- The handler makes calls of so many steps. -/
abbrev ServiceWithin
    {α : Type}
    (p : ServiceProgram α)
    (n : Nat) :
    Prop :=
  p.Within ServiceCall.steps n

theorem within_load
    (counter : Counter) :
    ServiceWithin (load counter) 1 :=
  Program.within_perform _

theorem within_snapshot : ServiceWithin snapshot 9 := by
  unfold snapshot
  refine Program.within_bind (m := 8) (within_load _) ?_
  intro l1Hits
  refine Program.within_bind (m := 7) (within_load _) ?_
  intro l1Misses
  refine Program.within_bind (m := 6) (within_load _) ?_
  intro l2Hits
  refine Program.within_bind (m := 5) (within_load _) ?_
  intro l2Misses
  refine Program.within_bind (m := 4) (within_load _) ?_
  intro originCalls
  refine Program.within_bind (m := 3) (within_load _) ?_
  intro originErrors
  refine Program.within_bind (m := 2) (within_load _) ?_
  intro coalescedCalls
  refine Program.within_bind (m := 1) (within_load _) ?_
  intro totalRequests
  by_cases hPos : 0 < totalRequests
  · rw [if_pos hPos]
    exact
      Program.within_bind (m := 0) (within_load _)
        (fun _ => trivial)
  · rw [if_neg hPos]
    trivial

theorem within_l1Stats : ServiceWithin l1Stats numShards := by
  unfold l1Stats
  refine (Program.within_loop (n := 1) ?_ 0 _).mono ?_
  · intro total i
    exact
      Program.within_bind (m := 0) (Program.within_perform _)
        (fun _ => trivial)
  · rw [List.length_finRange, Nat.one_mul]

theorem within_stats : ServiceWithin stats statsSteps := by
  unfold stats
  refine
    Program.within_bind (n := 1) (m := numShards + 9)
      (Program.within_perform ServiceCall.poolStats) ?_
  intro pool
  refine Program.within_bind within_l1Stats ?_
  intro l1Size
  exact
    Program.within_bind (m := 0) within_snapshot
      (fun _ => trivial)

theorem HttpRequest.within_program
    (request : HttpRequest) :
    ServiceWithin request.program request.steps := by
  cases request with
  | getCache key =>
      simp only [program, Http.getCache]
      split_ifs
      · trivial
      · refine
          Program.within_bind (m := 0)
            (Program.within_perform _) ?_
        intro result
        cases result with
        | _ => trivial
  | putCache key body =>
      simp only [program, Http.putCache]
      split_ifs
      · trivial
      · cases body with
        | none => trivial
        | some value =>
            refine
              Program.within_bind (m := 0)
                (Program.within_perform _) ?_
            intro error
            cases error with
            | _ => trivial
  | deleteCache key =>
      simp only [program, Http.deleteCache]
      split_ifs
      · trivial
      · refine
          Program.within_bind (m := 0)
            (Program.within_perform _) ?_
        intro error
        cases error with
        | _ => trivial
  | batchGet isNil body =>
      cases body with
      | none => trivial
      | some keys =>
          refine
            Program.within_bind (m := 0)
              (Program.within_loop (n := 19) ?_ ∅ keys)
              (fun _ => trivial)
          intro results key
          exact
            Program.within_bind (m := 0)
              (Program.within_perform _) (fun _ => trivial)
  | getStats =>
      exact
        Program.within_bind (m := 0) within_stats
          (fun _ => trivial)
  | health => trivial

theorem GrpcRequest.within_program
    (request : GrpcRequest)
    (startTime : Int) :
    ServiceWithin (request.program startTime)
      request.steps := by
  cases request with
  | get key =>
      refine
        Program.within_bind (m := 0) ?_ (fun _ => trivial)
      unfold Grpc.get
      split_ifs
      · trivial
      · refine
          Program.within_bind (n := 1) (m := 20)
            (Program.within_perform _) ?_
        intro start
        refine
          Program.within_bind (n := 19) (m := 1)
            (Program.within_perform _) ?_
        intro result
        refine
          Program.within_bind (n := 1) (m := 0)
            (Program.within_perform _) ?_
        intro stop
        cases result with
        | _ => trivial
  | set key value =>
      refine
        Program.within_bind (m := 0) ?_ (fun _ => trivial)
      unfold Grpc.set
      split_ifs
      · trivial
      · exact
          Program.within_bind (m := 0)
            (Program.within_perform _) (fun _ => trivial)
  | delete key =>
      refine
        Program.within_bind (m := 0) ?_ (fun _ => trivial)
      unfold Grpc.delete
      split_ifs
      · trivial
      · exact
          Program.within_bind (m := 0)
            (Program.within_perform _) (fun _ => trivial)
  | batchGet keys =>
      refine
        Program.within_bind (m := 0) ?_ (fun _ => trivial)
      refine
        Program.within_bind (m := 0)
          (Program.within_loop (n := 19) ?_ _ keys)
          (fun _ => trivial)
      intro batch key
      exact
        Program.within_bind (m := 0)
          (Program.within_perform _) (fun _ => trivial)
  | batchSet entries =>
      refine
        Program.within_bind (m := 0) ?_ (fun _ => trivial)
      refine
        Program.within_bind (m := 0)
          (Program.within_loop (n := 4) ?_ _ entries)
          (fun _ => trivial)
      intro counts entry
      cases entry with
      | none => trivial
      | some e =>
          exact
            Program.within_bind (m := 0)
              (Program.within_perform _) (fun _ => trivial)
  | stats =>
      refine
        Program.within_bind (m := 0) ?_ (fun _ => trivial)
      exact
        Program.within_bind (m := 0) within_stats
          (fun _ => trivial)
  | health =>
      refine
        Program.within_bind (m := 0) ?_ (fun _ => trivial)
      exact
        Program.within_bind (m := 0)
          (Program.within_perform _) (fun _ => trivial)

theorem Request.within_program
    (request : Request)
    (startTime : Int) :
    ∃ n,
      ServiceWithin (request.program startTime) n ∧
        n + 3 = request.steps := by
  cases request with
  | http request =>
      exact
        ⟨_,
          Program.within_bind (m := 0) request.within_program
            (fun _ => trivial),
          rfl⟩
  | grpc request =>
      exact
        ⟨_,
          Program.within_bind (m := 0)
            (request.within_program startTime)
            (fun _ => trivial),
          rfl⟩

end CacheServer

------------------------------------------------------------
-- Requests That Crash
------------------------------------------------------------

namespace CacheServer

/- Only a nil entry of `BatchSet` crashes a method. -/
def Request.HasNil
    (request : Request) :
    Prop :=
  ∃ entries,
    request = .grpc (.batchSet entries) ∧ none ∈ entries

theorem safe_perform
    {α : Type}
    (c : ServiceCall)
    {rest : c.Answer → ServiceProgram α}
    (hRest : ∀ r, (rest r).Safe) :
    ((Program.perform c).bind rest).Safe :=
  Program.safe_bind (fun _ => trivial) hRest

theorem safe_snapshot : snapshot.Safe := by
  unfold snapshot
  iterate 8
    refine safe_perform _ ?_
    intro loaded
  by_cases hPos : 0 < loaded
  · rw [if_pos hPos]
    exact safe_perform _ (fun _ => trivial)
  · rw [if_neg hPos]
    trivial

theorem safe_stats : stats.Safe := by
  unfold stats
  refine safe_perform _ ?_
  intro pool
  refine Program.safe_bind ?_ ?_
  · unfold l1Stats
    refine Program.safe_loop ?_ 0
    intro total i _
    exact safe_perform _ (fun _ => trivial)
  · intro l1Size
    exact Program.safe_bind safe_snapshot (fun _ => trivial)

theorem HttpRequest.safe_program
    (request : HttpRequest) :
    request.program.Safe := by
  cases request with
  | getCache key =>
      simp only [program, Http.getCache]
      split_ifs
      · trivial
      · refine safe_perform _ ?_
        intro result
        cases result with
        | _ => trivial
  | putCache key body =>
      simp only [program, Http.putCache]
      split_ifs
      · trivial
      · cases body with
        | none => trivial
        | some value =>
            refine safe_perform _ ?_
            intro error
            cases error with
            | _ => trivial
  | deleteCache key =>
      simp only [program, Http.deleteCache]
      split_ifs
      · trivial
      · refine safe_perform _ ?_
        intro error
        cases error with
        | _ => trivial
  | batchGet isNil body =>
      cases body with
      | none => trivial
      | some keys =>
          refine
            Program.safe_bind (Program.safe_loop ?_ ∅)
              (fun _ => trivial)
          intro results key _
          exact safe_perform _ (fun _ => trivial)
  | getStats =>
      exact Program.safe_bind safe_stats (fun _ => trivial)
  | health => trivial

theorem GrpcRequest.safe_program
    (request : GrpcRequest)
    (startTime : Int)
    (hNil : ¬ (Request.grpc request).HasNil) :
    (request.program startTime).Safe := by
  cases request with
  | get key =>
      refine Program.safe_bind ?_ (fun _ => trivial)
      unfold Grpc.get
      split_ifs
      · trivial
      · refine safe_perform _ ?_
        intro start
        refine safe_perform _ ?_
        intro result
        refine safe_perform _ ?_
        intro stop
        cases result with
        | _ => trivial
  | set key value =>
      refine Program.safe_bind ?_ (fun _ => trivial)
      unfold Grpc.set
      split_ifs
      · trivial
      · exact safe_perform _ (fun _ => trivial)
  | delete key =>
      refine Program.safe_bind ?_ (fun _ => trivial)
      unfold Grpc.delete
      split_ifs
      · trivial
      · exact safe_perform _ (fun _ => trivial)
  | batchGet keys =>
      refine Program.safe_bind ?_ (fun _ => trivial)
      refine
        Program.safe_bind (Program.safe_loop ?_ _)
          (fun _ => trivial)
      intro batch key _
      exact safe_perform _ (fun _ => trivial)
  | batchSet entries =>
      refine Program.safe_bind ?_ (fun _ => trivial)
      refine
        Program.safe_bind (Program.safe_loop ?_ _)
          (fun _ => trivial)
      intro counts entry hMem
      cases entry with
      | none => exact absurd ⟨entries, rfl, hMem⟩ hNil
      | some e => exact safe_perform _ (fun _ => trivial)
  | stats =>
      refine Program.safe_bind ?_ (fun _ => trivial)
      exact Program.safe_bind safe_stats (fun _ => trivial)
  | health =>
      refine Program.safe_bind ?_ (fun _ => trivial)
      exact safe_perform _ (fun _ => trivial)

theorem Request.safe_program
    (request : Request)
    (startTime : Int)
    (hNil : ¬ request.HasNil) :
    (request.program startTime).Safe := by
  cases request with
  | http request =>
      exact
        Program.safe_bind request.safe_program
          (fun _ => trivial)
  | grpc request =>
      exact
        Program.safe_bind (request.safe_program startTime hNil)
          (fun _ => trivial)

end CacheServer

------------------------------------------------------------
-- Where A Request Stands
------------------------------------------------------------

namespace CacheServer

namespace RequestPc

/-
  The steps that a request still takes, at most. Those that a
  running call takes in the manager are counted there.
-/
def Within :
    RequestPc → Nat → Prop
| .handle program, n =>
    ∃ k, ServiceWithin program k ∧ k + 3 ≤ n
| .wait _ _ rest, n =>
    ∃ k, (∀ answer, ServiceWithin (rest answer) k) ∧ k + 4 ≤ n
| .addLatency _, n => 2 ≤ n
| .countRequest _, n => 1 ≤ n
| .done _, _ => True

/- The rest of the handler does not crash. -/
def Safe :
    RequestPc → Prop
| .handle program => program.Safe
| .wait _ _ rest => ∀ answer, (rest answer).Safe
| _ => True

end RequestPc

/- A call of the manager, with one step before and after. -/
theorem ServiceCall.steps_managerCall
    {c : ServiceCall}
    {call : ManagerCall}
    (h : c.managerCall = some call) :
    c.steps = call.steps + 2 := by
  cases c with
  | get key =>
      cases h
      rfl
  | set key value =>
      cases h
      rfl
  | invalidate key =>
      cases h
      rfl
  | _ => cases h

theorem ServiceCall.steps_pos
    (c : ServiceCall) :
    0 < c.steps := by
  cases c with
  | _ => simp [steps]

namespace Running

variable {cfg : ManagerConfig}
variable {m m' : ManagerSystem}
variable {r : Running}
variable {alive : Bool}
variable {pc : RequestPc}

/- The call that a request begins brings its own steps. -/
theorem next_within
    {n : Nat}
    (hNum : m.Numbered)
    (hNext : r.Next m true m' pc)
    (hWithin : r.pc.Within n) :
    ∃ k,
      pc.Within k ∧ m'.work + k + 1 ≤ m.work + n := by
  cases hNext with
  | @returned answer hPc =>
      rw [hPc] at hWithin
      rcases hWithin with ⟨k, _, hLe⟩
      refine ⟨2, ?_, by omega⟩
      unfold after
      split_ifs
      · exact le_refl 2
      · trivial
  | recover hPc hHttp =>
      rw [hPc] at hWithin
      rcases hWithin with ⟨k, _, hLe⟩
      exact ⟨0, trivial, by omega⟩
  | @begin c call rest hPc hCall =>
      rw [hPc] at hWithin
      rcases hWithin with ⟨k, ⟨l, hCost, hRest⟩, hLe⟩
      refine ⟨l + 4, ⟨l, hRest, le_refl _⟩, ?_⟩
      have hWork :
          (m.begin call).work + 0 ≤ m.work + call.steps :=
        ManagerSystem.work_step hNum
          (m.begin_eq_step ⟨false, 0⟩ call)
      have hSteps := ServiceCall.steps_managerCall hCall
      push_cast
      omega
  | @instant c rest answer hPc hCall =>
      rw [hPc] at hWithin
      rcases hWithin with ⟨k, ⟨l, hCost, hRest⟩, hLe⟩
      have hPos := c.steps_pos
      exact
        ⟨l + 3, ⟨l, hRest answer, le_refl _⟩, by
          push_cast
          omega⟩
  | @answered id c rest p answer hPc hProc hAnswer =>
      rw [hPc] at hWithin
      rcases hWithin with ⟨k, hRest, hLe⟩
      exact
        ⟨k + 3, ⟨k, hRest answer, le_refl _⟩, by
          push_cast
          omega⟩
  | addLatency elapsed hPc =>
      rw [hPc] at hWithin
      have hLe : 2 ≤ n := hWithin
      refine ⟨1, le_refl 1, ?_⟩
      change m.work + 1 + 1 ≤ m.work + n
      omega
  | countRequest hPc =>
      rw [hPc] at hWithin
      have hLe : 1 ≤ n := hWithin
      refine ⟨0, trivial, ?_⟩
      change m.work + 0 + 1 ≤ m.work + n
      omega

theorem next_safe
    (hNext : r.Next m alive m' pc)
    (hSafe : r.pc.Safe) :
    alive = true ∧ pc.Safe := by
  cases hNext with
  | @returned answer hPc =>
      refine ⟨rfl, ?_⟩
      unfold after
      split_ifs
      · trivial
      · trivial
  | crash hPc hGrpc =>
      rw [hPc] at hSafe
      exact hSafe.elim
  | recover hPc hHttp => exact ⟨rfl, trivial⟩
  | begin hPc hCall =>
      rw [hPc] at hSafe
      exact ⟨rfl, hSafe⟩
  | instant answer hPc hCall =>
      rw [hPc] at hSafe
      exact ⟨rfl, hSafe answer⟩
  | @answered id c rest p answer hPc hProc hAnswer =>
      rw [hPc] at hSafe
      exact ⟨rfl, hSafe answer⟩
  | addLatency elapsed hPc => exact ⟨rfl, trivial⟩
  | countRequest hPc => exact ⟨rfl, trivial⟩

end Running

/- The call is one that the manager was asked for. -/
def Proc.Serves :
    Proc → ServiceCall → Prop
| .get _ _ _, .get _ => True
| .set _ _ _, .set _ _ => True
| .invalidate _ _, .invalidate _ => True
| _, _ => False

theorem Proc.serves_run
    {cfg : ManagerConfig}
    {s t : Shared}
    {id : Nat}
    {cancelled : Bool}
    {fault : Fault}
    {origin : OriginReply}
    {p p' : Proc}
    {c : ServiceCall}
    (h :
      p.run cfg s id cancelled fault origin = some (t, p'))
    (hServes : p.Serves c) :
    p'.Serves c := by
  cases p with
  | get key start pc =>
      rcases run_get h with ⟨_, rfl, _⟩
      cases c with
      | _ => exact hServes
  | set key value pc =>
      rcases run_set h with ⟨_, rfl, _⟩
      cases c with
      | _ => exact hServes
  | invalidate key pc =>
      rcases run_invalidate h with ⟨_, rfl, _⟩
      cases c with
      | _ => exact hServes

/- A call that has returned answers who asked for it. -/
theorem Proc.answer_of_finished
    {p : Proc}
    {c : ServiceCall}
    (hServes : p.Serves c)
    (hDone : p.finished = true) :
    ∃ answer, p.answer c = some answer := by
  cases p with
  | get key start pc =>
      cases pc with
      | done result =>
          cases c with
          | get k => exact ⟨result, rfl⟩
          | _ => exact hServes.elim
      | _ => cases hDone
  | set key value pc =>
      cases pc with
      | done error =>
          cases c with
          | set k v => exact ⟨error, rfl⟩
          | _ => exact hServes.elim
      | _ => cases hDone
  | invalidate key pc =>
      cases pc with
      | done error =>
          cases c with
          | invalidate k => exact ⟨error, rfl⟩
          | _ => exact hServes.elim
      | _ => cases hDone

theorem ManagerSystem.serves_step
    {cfg : ManagerConfig}
    {m m' : ManagerSystem}
    {a : ManagerAction}
    {id : Nat}
    {p : Proc}
    {c : ServiceCall}
    (hNum : m.Numbered)
    (h : m.step cfg a = some m')
    (hProc : m.procs id = some p)
    (hServes : p.Serves c) :
    ∃ p', m'.procs id = some p' ∧ p'.Serves c := by
  rcases step_proc_next hNum h hProc with
    hSame | ⟨_, _, p', _, hNext, hRun⟩
  · exact ⟨p, hSame, hServes⟩
  · exact ⟨p', hNext, Proc.serves_run hRun hServes⟩

end CacheServer

------------------------------------------------------------
-- Requests Are Answered
------------------------------------------------------------

namespace CacheServer

def ServiceAction.cost :
    ServiceAction → Nat
| .arrive _ => 0
| .serve _ _ => 1
| .manager action => action.cost

/- The steps that a new request brings with it. -/
def ServiceAction.gain :
    ServiceAction → Nat
| .arrive request => request.steps
| _ => 0

namespace ServiceSystem

variable {cfg : ManagerConfig}
variable {s s' : ServiceSystem}
variable {a : ServiceAction}

/- A request waits for a call that it has asked for. -/
def Waits
    (s : ServiceSystem) :
    Prop :=
  ∀ id r call c rest,
    s.requests id = some r →
      r.pc = .wait call c rest →
        ∃ p, s.manager.procs call = some p ∧ p.Serves c

/- Only requests with a nil entry may crash. -/
def AllSafe
    (s : ServiceSystem) :
    Prop :=
  ∀ id r,
    s.requests id = some r → r.request.HasNil ∨ r.pc.Safe

/- Some request had a nil entry. -/
def AnyNil
    (s : ServiceSystem) :
    Prop :=
  ∃ id r, s.requests id = some r ∧ r.request.HasNil

/- Requests that still take so many steps in all. -/
def Bounded
    (n : Nat)
    (s : ServiceSystem) :
    Prop :=
  ∃ bounds : Nat → Option Nat,
    (∀ id r,
      s.requests id = some r →
        ∃ b, bounds id = some b ∧ r.pc.Within b) ∧
      s.manager.work +
          Population.total (fun b : Nat => (b : Int)) bounds
            s.next =
        n

/- What holds in every state reached, with the work left. -/
structure Working
    (cfg : ManagerConfig)
    (n : Nat)
    (s : ServiceSystem) :
    Prop where
  known : s.Known cfg
  wellFormed : s.manager.WellFormed cfg
  awaited : s.manager.Awaited cfg
  waits : s.Waits
  safe : s.AllSafe
  died : s.alive = true ∨ s.AnyNil
  bounded : s.alive = true → s.Bounded n

end ServiceSystem

/- A request keeps the order among the manager's calls. -/
theorem Running.next_ordered
    {cfg : ManagerConfig}
    {m m' : ManagerSystem}
    {r : Running}
    {alive : Bool}
    {pc : RequestPc}
    (hNext : r.Next m alive m' pc)
    (hOrdered : m.WellFormed cfg ∧ m.Awaited cfg) :
    m'.WellFormed cfg ∧ m'.Awaited cfg := by
  have hCounted :
      ∀ metrics,
        m.WellFormed cfg ∧ m.Awaited cfg →
          (m.setMetrics metrics).WellFormed cfg ∧
            (m.setMetrics metrics).Awaited cfg := by
    intro metrics h
    exact
      ⟨⟨ManagerSystem.numbered_setMetrics h.1.numbered _,
          ⟨h.1.flights.unused, h.1.flights.leads,
            h.1.flights.finished⟩,
          h.1.joins, h.1.leaders⟩,
        h.2⟩
  refine
    Running.next_manager
      (I := fun m => m.WellFormed cfg ∧ m.Awaited cfg)
      ?_ (fun _ => hCounted _) (hCounted _) hNext hOrdered
  intro call h
  have hStep := m.begin_eq_step cfg call
  exact
    ⟨ManagerSystem.wellFormed_step h.1 hStep,
      ManagerSystem.awaited_step h.1 h.2 hStep⟩

/- A request leaves the calls that others wait for. -/
theorem Running.next_serves
    {m m' : ManagerSystem}
    {r : Running}
    {alive : Bool}
    {pc : RequestPc}
    {id : Nat}
    {p : Proc}
    {c : ServiceCall}
    (hNum : m.Numbered)
    (hNext : r.Next m alive m' pc)
    (hProc : m.procs id = some p)
    (hServes : p.Serves c) :
    ∃ p', m'.procs id = some p' ∧ p'.Serves c := by
  cases hNext with
  | begin hPc hCall =>
      exact
        ManagerSystem.serves_step hNum
          (m.begin_eq_step ⟨false, 0⟩ _) hProc hServes
  | _ => exact ⟨p, hProc, hServes⟩

/- The call that a request begins is one that it asks for. -/
theorem ManagerSystem.begin_serves
    (m : ManagerSystem)
    {c : ServiceCall}
    {call : ManagerCall}
    (hCall : c.managerCall = some call) :
    ∃ p,
      (m.begin call).procs m.next = some p ∧ p.Serves c := by
  refine
    ⟨call.proc m.shared.store.clock,
      Function.update_self .., ?_⟩
  cases c with
  | get key =>
      cases hCall
      trivial
  | set key value =>
      cases hCall
      trivial
  | invalidate key =>
      cases hCall
      trivial
  | _ => cases hCall

namespace ServiceSystem

variable {cfg : ManagerConfig}
variable {s s' : ServiceSystem}
variable {a : ServiceAction}

theorem waits_step
    (hKnown : s.Known cfg)
    (hWaits : s.Waits)
    (h : s.step cfg a = some s') :
    s'.Waits := by
  have hNum := hKnown.balanced.1
  intro id r' call c rest hRequest hPc
  rcases step_cases h with
    ⟨request, rfl, rfl⟩ |
      ⟨other, pool, r, alive, m, pc, rfl, hOld, hNext, rfl⟩ |
      ⟨action, m, rfl, hCall, hStep, rfl⟩
  · by_cases hEq : id = s.next
    · subst hEq
      simp only [Function.update_self,
        Option.some.injEq] at hRequest
      subst hRequest
      cases hPc
    · simp only [Function.update_of_ne hEq] at hRequest
      exact hWaits id r' call c rest hRequest hPc
  · by_cases hEq : id = other
    · subst hEq
      simp only [put, Function.update_self,
        Option.some.injEq] at hRequest
      subst hRequest
      cases hNext with
      | begin hBefore hBegin =>
          cases hPc
          exact s.manager.begin_serves hBegin
      | crash hBefore hGrpc =>
          exact hWaits id r call c rest hOld hPc
      | returned hBefore =>
          simp only [Running.after] at hPc
          split_ifs at hPc
      | _ => cases hPc
    · simp only [put, Function.update_of_ne hEq] at hRequest
      rcases hWaits id r' call c rest hRequest hPc with
        ⟨p, hProc, hServes⟩
      exact Running.next_serves hNum hNext hProc hServes
  · rcases hWaits id r' call c rest hRequest hPc with
      ⟨p, hProc, hServes⟩
    exact
      ManagerSystem.serves_step hNum hStep hProc hServes

theorem allSafe_step
    (hSafe : s.AllSafe)
    (h : s.step cfg a = some s') :
    s'.AllSafe := by
  intro id r' hRequest
  rcases step_request h hRequest with
    hOld | ⟨request, _, rfl⟩ |
      ⟨r, alive, m, pc, hOld, hNext, rfl⟩
  · exact hSafe id r' hOld
  · by_cases hNil : request.HasNil
    · exact Or.inl hNil
    · exact Or.inr (request.safe_program s.startTime hNil)
  · rcases hSafe id r hOld with hNil | hBefore
    · exact Or.inl hNil
    · exact Or.inr (Running.next_safe hNext hBefore).2

/- A request keeps its number and what it has asked. -/
theorem step_request_next
    {id : Nat}
    {r : Running}
    (hRec : s.Recorded)
    (h : s.step cfg a = some s')
    (hRequest : s.requests id = some r) :
    ∃ r',
      s'.requests id = some r' ∧ r'.request = r.request := by
  have hLt := lt_next hRec hRequest
  rcases step_cases h with
    ⟨request, rfl, rfl⟩ |
      ⟨other, pool, q, alive, m, pc, rfl, hOld, _, rfl⟩ |
      ⟨action, m, rfl, _, _, rfl⟩
  · refine ⟨r, ?_, rfl⟩
    simp only [Function.update_of_ne (Nat.ne_of_lt hLt)]
    exact hRequest
  · by_cases hEq : id = other
    · subst hEq
      rw [hRequest] at hOld
      cases hOld
      exact ⟨{ r with pc := pc }, Function.update_self .., rfl⟩
    · refine ⟨r, ?_, rfl⟩
      simp only [put, Function.update_of_ne hEq]
      exact hRequest
  · exact ⟨r, hRequest, rfl⟩

theorem anyNil_step
    (hRec : s.Recorded)
    (hNil : s.AnyNil)
    (h : s.step cfg a = some s') :
    s'.AnyNil := by
  rcases hNil with ⟨id, r, hRequest, hHas⟩
  rcases step_request_next hRec h hRequest with
    ⟨r', hNext, hSame⟩
  exact ⟨id, r', hNext, hSame ▸ hHas⟩

theorem died_step
    (hRec : s.Recorded)
    (hSafe : s.AllSafe)
    (hDied : s.alive = true ∨ s.AnyNil)
    (h : s.step cfg a = some s') :
    s'.alive = true ∨ s'.AnyNil := by
  rcases hDied with hAlive | hNil
  · rcases step_cases h with
      ⟨request, _, rfl⟩ |
        ⟨id, pool, r, alive, m, pc, _, hOld, hNext, rfl⟩ |
        ⟨action, m, _, _, _, rfl⟩
    · exact Or.inl hAlive
    · rcases hSafe id r hOld with hNil | hBefore
      · exact Or.inr (anyNil_step hRec ⟨id, r, hOld, hNil⟩ h)
      · exact Or.inl (Running.next_safe hNext hBefore).1
    · exact Or.inl hAlive
  · exact Or.inr (anyNil_step hRec hNil h)

theorem alive_of_step
    (h : s.step cfg a = some s') :
    s.alive = true := by
  cases hAlive : s.alive with
  | true => rfl
  | false => simp [step, hAlive] at h

/- A request at its next place, and its next bound. -/
theorem bounds_put
    {bounds : Nat → Option Nat}
    {id : Nat}
    {r : Running}
    {alive : Bool}
    {m : ManagerSystem}
    {pc : RequestPc}
    {k : Nat}
    (hBounds :
      ∀ id r,
        s.requests id = some r →
          ∃ b, bounds id = some b ∧ r.pc.Within b)
    (hWithin : pc.Within k) :
    ∀ other q,
      (s.put id r alive m pc).requests other = some q →
        ∃ b,
          Function.update bounds id (some k) other = some b ∧
            q.pc.Within b := by
  intro other q hRequest
  by_cases hEq : other = id
  · subst hEq
    simp only [put, Function.update_self,
      Option.some.injEq] at hRequest
    subst hRequest
    exact ⟨k, Function.update_self .., hWithin⟩
  · simp only [put, Function.update_of_ne hEq] at hRequest
    simp only [Function.update_of_ne hEq]
    exact hBounds other q hRequest

theorem bounded_step
    {n : Nat}
    (hKnown : s.Known cfg)
    (hBounded : s.Bounded n)
    (h : s.step cfg a = some s') :
    ∃ k,
      k + a.cost ≤ n + a.gain ∧
        (s'.alive = true → s'.Bounded k) := by
  have hNum := hKnown.balanced.1
  have hNonneg : ∀ b : Nat, 0 ≤ (b : Int) :=
    fun b => Int.natCast_nonneg b
  rcases hBounded with ⟨bounds, hBounds, hTotal⟩
  rcases step_cases h with
    ⟨request, rfl, rfl⟩ |
      ⟨id, pool, r, alive, m, pc, rfl, hOld, hNext, rfl⟩ |
      ⟨action, m, rfl, hCall, hStep, rfl⟩
  · refine ⟨n + request.steps, le_refl _, fun _ => ?_⟩
    refine
      ⟨Function.update bounds s.next (some request.steps),
        ?_, ?_⟩
    · intro other q hRequest
      by_cases hEq : other = s.next
      · subst hEq
        simp only [Function.update_self,
          Option.some.injEq] at hRequest
        subst hRequest
        rcases request.within_program s.startTime with
          ⟨k, hWithin, hSteps⟩
        exact
          ⟨request.steps, Function.update_self ..,
            k, hWithin, le_of_eq hSteps⟩
      · simp only [Function.update_of_ne hEq] at hRequest
        simp only [Function.update_of_ne hEq]
        exact hBounds other q hRequest
    · have hJoin :=
        Population.total_join (w := fun b : Nat => (b : Int))
          bounds s.next request.steps
      push_cast
      rw [hJoin]
      omega
  · rcases hBounds id r hOld with ⟨b, hBound, hWithin⟩
    have hLt := lt_next hKnown.recorded hOld
    cases alive with
    | false =>
        have hPut :
            Population.total (fun b : Nat => (b : Int))
                  (Function.update bounds id none) s.next +
                (bounds id).elim 0 (fun b => (b : Int)) =
              Population.total (fun b : Nat => (b : Int))
                  bounds s.next + 0 :=
          Population.total_put none hLt
        have hRest :
            0 ≤ Population.total (fun b : Nat => (b : Int))
              (Function.update bounds id none) s.next :=
          Population.total_nonneg _ hNonneg
        have hWork := s.manager.work_nonneg
        have hPos : 3 ≤ b := by
          cases hNext with
          | crash hPc hGrpc =>
              rw [hPc] at hWithin
              rcases hWithin with ⟨k, _, hLe⟩
              omega
        rw [hBound] at hPut
        simp only [Option.elim] at hPut
        refine ⟨0, ?_, fun hAlive => by cases hAlive⟩
        simp only [ServiceAction.cost, ServiceAction.gain]
        omega
    | true =>
        rcases Running.next_within hNum hNext hWithin with
          ⟨k, hAfter, hLess⟩
        have hMove :=
          Population.total_update
            (w := fun b : Nat => (b : Int)) k hLt hBound
        have hRest :
            0 ≤ Population.total (fun b : Nat => (b : Int))
              (Function.update bounds id (some k)) s.next :=
          Population.total_nonneg _ hNonneg
        have hWork := m.work_nonneg
        refine
          ⟨(m.work +
              Population.total (fun b : Nat => (b : Int))
                (Function.update bounds id (some k))
                s.next).toNat, ?_, fun _ => ?_⟩
        · simp only [ServiceAction.cost, ServiceAction.gain]
          omega
        · refine
            ⟨Function.update bounds id (some k),
              bounds_put hBounds hAfter, ?_⟩
          rw [Int.toNat_of_nonneg (by omega)]
          rfl
  · have hWork := ManagerSystem.work_step hNum hStep
    have hGain : action.gain = 0 := by
      cases action with
      | call call => exact absurd rfl (hCall call)
      | _ => rfl
    have hRest :
        0 ≤ Population.total (fun b : Nat => (b : Int))
          bounds s.next :=
      Population.total_nonneg _ hNonneg
    have hPos := m.work_nonneg
    rw [hGain] at hWork
    refine
      ⟨(m.work +
          Population.total (fun b : Nat => (b : Int)) bounds
            s.next).toNat, ?_, fun _ => ?_⟩
    · simp only [ServiceAction.cost, ServiceAction.gain]
      omega
    · refine ⟨bounds, hBounds, ?_⟩
      rw [Int.toNat_of_nonneg (by omega)]

theorem working_amortized :
    (serviceMachine cfg).Amortized ServiceAction.cost
      ServiceAction.gain (Working cfg) := by
  intro n s a t hWorking hStep
  have hKnown := hWorking.known
  have hAlive : s.alive = true := alive_of_step hStep
  rcases
    bounded_step hKnown (hWorking.bounded hAlive) hStep with
    ⟨k, hCost, hBounded⟩
  have hOrdered :
      t.manager.WellFormed cfg ∧ t.manager.Awaited cfg := by
    rcases step_cases hStep with
      ⟨request, _, rfl⟩ |
        ⟨id, pool, r, alive, m, pc, _, _, hNext, rfl⟩ |
        ⟨action, m, _, _, hMove, rfl⟩
    · exact ⟨hWorking.wellFormed, hWorking.awaited⟩
    · exact
        Running.next_ordered hNext
          ⟨hWorking.wellFormed, hWorking.awaited⟩
    · exact
        ⟨ManagerSystem.wellFormed_step hWorking.wellFormed
            hMove,
          ManagerSystem.awaited_step hWorking.wellFormed
            hWorking.awaited hMove⟩
  exact
    ⟨k, hCost, known_step hKnown hStep, hOrdered.1,
      hOrdered.2, waits_step hKnown hWorking.waits hStep,
      allSafe_step hWorking.safe hStep,
      died_step hKnown.recorded hWorking.safe hWorking.died
        hStep,
      hBounded⟩

theorem working_new
    (cfg : ManagerConfig)
    (maxSize : Int)
    (l1TTL : Int)
    (redis : Redis)
    (clock : Int) :
    (ServiceSystem.new maxSize l1TTL redis
      clock).Working cfg 0 where
  known :=
    ⟨⟨ManagerSystem.numbered_new maxSize l1TTL redis clock,
        ManagerSystem.flow_new cfg maxSize l1TTL redis clock⟩,
      recorded_new maxSize l1TTL redis clock⟩
  wellFormed :=
    ManagerSystem.wellFormed_new cfg maxSize l1TTL redis clock
  awaited := fun _ _ _ _ h => nomatch h
  waits := fun _ _ _ _ _ h => nomatch h
  safe := fun _ _ h => nomatch h
  died := Or.inl rfl
  bounded := fun _ =>
    ⟨fun _ => none, (fun _ _ h => nomatch h), rfl⟩

/-
  The request takes its next step, or the manager takes one
  for the call that it waits for, whatever Redis and the
  origin answer.
-/
def GoesOn
    (cfg : ManagerConfig)
    (s : ServiceSystem)
    (id : Nat) :
    Prop :=
  (∀ pool, ∃ t, s.step cfg (.serve id pool) = some t) ∨
    ∃ call,
      ∀ fault origin,
        origin ≠ .error .cancelled →
          ∃ t,
            s.step cfg (.manager (.run call fault origin)) =
              some t

theorem step_of_run
    {id : Nat}
    {r : Running}
    {pool : PoolStats}
    (hAlive : s.alive = true)
    (hRequest : s.requests id = some r)
    (hRun : (r.run s.manager pool).isSome = true) :
    ∃ t, s.step cfg (.serve id pool) = some t := by
  rcases Option.isSome_iff_exists.mp hRun with ⟨next, hNext⟩
  have hStep :
      s.step cfg (.serve id pool) =
        some (s.put id r next.1 next.2.1 next.2.2) := by
    rw [step, if_pos hAlive]
    simp only [stepAlive, hRequest, hNext, Option.map_some]
    rfl
  exact ⟨_, hStep⟩

theorem goesOn
    {n : Nat}
    {id : Nat}
    {r : Running}
    (hWorking : s.Working cfg n)
    (hAlive : s.alive = true)
    (hRequest : s.requests id = some r)
    (hNotDone : ∀ answer, r.pc ≠ .done answer) :
    s.GoesOn cfg id := by
  cases hPc : r.pc with
  | handle program =>
      apply Or.inl
      intro pool
      cases program with
      | ret answer =>
          exact
            step_of_run hAlive hRequest
              (by simp [Running.run, hPc])
      | call c rest =>
          exact
            step_of_run hAlive hRequest
              (by simp [Running.run, hPc])
      | crash =>
          by_cases hGrpc : r.request.isGrpc = true
          · exact
              step_of_run hAlive hRequest
                (by simp [Running.run, hPc, hGrpc])
          · exact
              step_of_run hAlive hRequest
                (by simp [Running.run, hPc, hGrpc])
  | wait call c rest =>
      rcases hWorking.waits id r call c rest hRequest hPc with
        ⟨p, hProc, hServes⟩
      cases hDone : p.finished with
      | true =>
          apply Or.inl
          intro pool
          rcases Proc.answer_of_finished hServes hDone with
            ⟨answer, hAnswer⟩
          exact
            step_of_run hAlive hRequest
              (by simp [Running.run, hPc, hProc, hAnswer])
      | false =>
          apply Or.inr
          rcases
            ManagerSystem.exists_ready hWorking.awaited hProc
              hDone with
            ⟨other, q, _, _, _, hReady⟩
          refine ⟨other, ?_⟩
          intro fault origin hOrigin
          rcases hReady fault origin hOrigin with ⟨m, hStep⟩
          refine ⟨{ s with manager := m }, ?_⟩
          rw [step, if_pos hAlive]
          simp only [stepAlive, hStep, Option.map_some]
  | addLatency answer =>
      apply Or.inl
      intro pool
      exact
        step_of_run hAlive hRequest
          (by simp [Running.run, hPc])
  | countRequest answer =>
      apply Or.inl
      intro pool
      exact
        step_of_run hAlive hRequest
          (by simp [Running.run, hPc])
  | done answer => exact absurd hPc (hNotDone answer)

/- A step of a request or a call in which nothing fails. -/
def Proceeds
    (a : ServiceAction) :
    Prop :=
  (∃ id, a = .proceed id) ∨
    ∃ call, a = .manager (.proceed call)

end ServiceSystem

end CacheServer
