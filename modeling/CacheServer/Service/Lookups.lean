import CacheServer.Service.Server

/-
  Requests that are counted, and lookups that are counted.

  `Manager.Get` records the latency of each lookup, and the
  metrics interceptor that of each gRPC request; both count
  a request. Weighing the calls and the requests in progress
  shows what `TotalRequests` is when nothing is in flight.

  Key definitions include:
    * `CacheServer.Metrics.snapshot`
    * `CacheServer.ServiceSystem.Idle`
    * `CacheServer.ServiceSystem.CountsLookups`
    * `CacheServer.ServiceSystem.HttpSince`

  Key theorems include:
    * `CacheServer.ServiceSystem.recorded_step`
    * `CacheServer.requests_count_lookups_iff`
-/

------------------------------------------------------------
-- Rates Of A State
------------------------------------------------------------

namespace CacheServer

/- What `Metrics.Snapshot` returns while nothing is counted. -/
def Metrics.snapshot
    (m : Metrics) :
    Snapshot :=
  { l1Hits := m.l1Hits
    l1Misses := m.l1Misses
    l1HitRate := rate m.l1Hits (m.l1Hits + m.l1Misses)
    l2Hits := m.l2Hits
    l2Misses := m.l2Misses
    l2HitRate := rate m.l2Hits (m.l2Hits + m.l2Misses)
    originCalls := m.originCalls
    originErrors := m.originErrors
    coalescedCalls := m.coalescedCalls
    totalRequests := m.totalRequests
    avgLatencyUs := rate m.totalLatencyNs m.totalRequests / 1000
    overallHitRate :=
      rate (m.l1Hits + m.l2Hits) m.totalRequests }

namespace ServiceSystem

/- No request is in flight. -/
def Idle
    (s : ServiceSystem) :
    Prop :=
  ∀ id r,
    s.requests id = some r → ∃ answer, r.pc = .done answer

/- No request since the one numbered `n` came over gRPC. -/
def HttpSince
    (n : Nat)
    (s : ServiceSystem) :
    Prop :=
  ∀ id r,
    n ≤ id → s.requests id = some r → r.request.isGrpc = false

/-
  `TotalRequests` is the number of lookups, and the overall
  hit rate the fraction of them that L1 or L2 has answered.
-/
def CountsLookups
    (s : ServiceSystem) :
    Prop :=
  s.manager.metrics.snapshot.totalRequests =
      s.manager.metrics.l1Hits + s.manager.metrics.l1Misses ∧
    s.manager.metrics.snapshot.overallHitRate =
      rate
        (s.manager.metrics.l1Hits + s.manager.metrics.l2Hits)
        (s.manager.metrics.l1Hits + s.manager.metrics.l1Misses)

/- As many lookups, and as many of them answered. -/
structure SameLookups
    (s t : ServiceSystem) :
    Prop where
  lookups :
    s.manager.metrics.l1Hits + s.manager.metrics.l1Misses =
      t.manager.metrics.l1Hits + t.manager.metrics.l1Misses
  answered :
    s.manager.metrics.l1Hits + s.manager.metrics.l2Hits =
      t.manager.metrics.l1Hits + t.manager.metrics.l2Hits

/- `TotalRequests` and the overall hit rate are the same. -/
def SameRates
    (s t : ServiceSystem) :
    Prop :=
  s.manager.metrics.snapshot.totalRequests =
      t.manager.metrics.snapshot.totalRequests ∧
    s.manager.metrics.snapshot.overallHitRate =
      t.manager.metrics.snapshot.overallHitRate

end ServiceSystem

end CacheServer

------------------------------------------------------------
-- Weights
------------------------------------------------------------

namespace CacheServer

/- A `Get` that has not been counted as a request yet. -/
def GetPc.beforeRequest :
    GetPc → Int
| .done _ => 0
| _ => 1

/- Requests counted, less the lookups that have counted one. -/
def ManagerSystem.recordedElsewhere
    (m : ManagerSystem) :
    Int :=
  m.metrics.totalRequests +
    m.weight (fun pc => pc.beforeRequest - 1)

namespace Running

/- Whether the request came over gRPC. -/
def method
    (r : Running) :
    Int :=
  if r.request.isGrpc then 1 else 0

def isDone
    (r : Running) :
    Bool :=
  match r.pc with
  | .done _ => true
  | _ => false

/- Whether the interceptor has counted the request. -/
def intercepted
    (r : Running) :
    Int :=
  if r.isDone then r.method else 0

/- Whether the interceptor is at work. -/
def inInterceptor
    (r : Running) :
    Bool :=
  match r.pc with
  | .addLatency _ => true
  | .countRequest _ => true
  | _ => false

theorem method_nonneg
    (r : Running) :
    0 ≤ r.method := by
  unfold method
  split_ifs
  · decide
  · decide

end Running

namespace ServiceSystem

/- What is known of the requests, apart from the flow. -/
structure Recorded
    (s : ServiceSystem) :
    Prop where
  numbered : ∀ id, s.next ≤ id → s.requests id = none
  interceptor :
    ∀ id r,
      s.requests id = some r →
        r.inInterceptor = true → r.request.isGrpc = true
  waited :
    ∀ id key start pc,
      s.manager.procs id = some (.get key start pc) →
        (∃ result, pc = .done result) ∨
          ∃ j r c rest,
            s.requests j = some r ∧ r.pc = .wait id c rest
  counted :
    s.manager.recordedElsewhere =
      Population.total Running.intercepted s.requests s.next

end ServiceSystem

end CacheServer

------------------------------------------------------------
-- What A Step Keeps
------------------------------------------------------------

namespace CacheServer

namespace ServiceSystem

variable {cfg : ManagerConfig}
variable {s s' : ServiceSystem}
variable {a : ServiceAction}

theorem lt_next
    {id : Nat}
    {r : Running}
    (hRec : s.Recorded)
    (hRequest : s.requests id = some r) :
    id < s.next := by
  by_contra hLe
  rw [hRec.numbered id (not_lt.mp hLe)] at hRequest
  cases hRequest

theorem numbered_step
    (hRec : s.Recorded)
    (h : s.step cfg a = some s') :
    ∀ id, s'.next ≤ id → s'.requests id = none := by
  intro id hLe
  rcases step_cases h with
    ⟨request, rfl, rfl⟩ |
      ⟨other, pool, r, alive, m, pc, rfl, hRequest, _, rfl⟩ |
      ⟨action, m, rfl, _, _, rfl⟩
  · have hNe : id ≠ s.next := by
      intro hEq
      exact absurd (hEq ▸ hLe) (Nat.not_succ_le_self _)
    simp only [Function.update_of_ne hNe]
    exact hRec.numbered id (Nat.le_of_succ_le hLe)
  · have hNe : id ≠ other := by
      intro hEq
      have hLt := lt_next hRec hRequest
      exact absurd (hEq ▸ hLe) (Nat.not_le_of_lt hLt)
    simp only [put, Function.update_of_ne hNe]
    exact hRec.numbered id hLe
  · exact hRec.numbered id hLe

/- A request that is where it was, or at its next place. -/
theorem step_request
    {id : Nat}
    {r' : Running}
    (h : s.step cfg a = some s')
    (hRequest : s'.requests id = some r') :
    s.requests id = some r' ∨
      (∃ request, id = s.next ∧ r' = s.arrived request) ∨
        ∃ r alive m pc,
          s.requests id = some r ∧
            r.Next s.manager alive m pc ∧
              r' = { r with pc := pc } := by
  rcases step_cases h with
    ⟨request, rfl, rfl⟩ |
      ⟨other, pool, r, alive, m, pc, rfl, hOld, hNext, rfl⟩ |
      ⟨action, m, rfl, _, _, rfl⟩
  · by_cases hEq : id = s.next
    · subst hEq
      simp only [Function.update_self,
        Option.some.injEq] at hRequest
      exact Or.inr (Or.inl ⟨request, rfl, hRequest.symm⟩)
    · simp only [Function.update_of_ne hEq] at hRequest
      exact Or.inl hRequest
  · by_cases hEq : id = other
    · subst hEq
      simp only [put, Function.update_self,
        Option.some.injEq] at hRequest
      exact
        Or.inr
          (Or.inr
            ⟨r, alive, m, pc, hOld, hNext, hRequest.symm⟩)
    · simp only [put, Function.update_of_ne hEq] at hRequest
      exact Or.inl hRequest
  · exact Or.inl hRequest

/- Only what a method returns goes to the interceptor. -/
theorem interceptor_step
    (hRec : s.Recorded)
    (h : s.step cfg a = some s') :
    ∀ id r,
      s'.requests id = some r →
        r.inInterceptor = true → r.request.isGrpc = true := by
  intro id r' hRequest hIn
  rcases step_request h hRequest with
    hOld | ⟨request, _, rfl⟩ |
      ⟨r, alive, m, pc, hOld, hNext, rfl⟩
  · exact hRec.interceptor id r' hOld hIn
  · cases hIn
  · have hBefore := hRec.interceptor id r hOld
    cases hNext with
    | returned hPc =>
        by_cases hGrpc : r.request.isGrpc = true
        · exact hGrpc
        · simp [Running.inInterceptor, Running.after, hGrpc]
            at hIn
    | crash hPc hGrpc => exact hGrpc
    | addLatency elapsed hPc =>
        exact hBefore (by simp [Running.inInterceptor, hPc])
    | _ => cases hIn

/- A call that has answered is done. -/
theorem done_of_answer
    {key : Key}
    {start : Int}
    {pc : GetPc}
    {c : ServiceCall}
    {answer : c.Answer}
    (h : (Proc.get key start pc).answer c = some answer) :
    ∃ result, pc = .done result := by
  cases pc with
  | done result => exact ⟨result, rfl⟩
  | _ =>
      cases c with
      | _ => cases h

/- Whoever waits for a lookup in progress goes on waiting. -/
theorem waited_step
    (hRec : s.Recorded)
    (h : s.step cfg a = some s') :
    ∀ id key start pc,
      s'.manager.procs id = some (.get key start pc) →
        (∃ result, pc = .done result) ∨
          ∃ j r c rest,
            s'.requests j = some r ∧
              r.pc = .wait id c rest := by
  intro id key start pc hProc
  rcases step_cases h with
    ⟨request, rfl, rfl⟩ |
      ⟨other, pool, r, alive, m, pc', rfl, hOld, hNext, rfl⟩ |
      ⟨action, m, rfl, hCall, hStep, rfl⟩
  · rcases hRec.waited id key start pc hProc with
      hDone | ⟨j, r, c, rest, hRequest, hPc⟩
    · exact Or.inl hDone
    · have hNe : j ≠ s.next :=
        Nat.ne_of_lt (lt_next hRec hRequest)
      refine Or.inr ⟨j, r, c, rest, ?_, hPc⟩
      simp only [Function.update_of_ne hNe]
      exact hRequest
  · by_cases hSame :
        s.manager.procs id = some (.get key start pc)
    · rcases hRec.waited id key start pc hSame with
        hDone | ⟨j, q, c, rest, hRequest, hPc⟩
      · exact Or.inl hDone
      · by_cases hEq : j = other
        · -- the caller itself went on, so its lookup is done
          subst hEq
          rw [hOld] at hRequest
          cases hRequest
          rcases hNext.answered_of_wait hPc with
            ⟨p, answer, hCaller, hAnswer, _⟩
          rw [hSame] at hCaller
          cases hCaller
          exact Or.inl (done_of_answer hAnswer)
        · refine Or.inr ⟨j, q, c, rest, ?_, hPc⟩
          simp only [put, Function.update_of_ne hEq]
          exact hRequest
    · cases hNext with
      | @begin c call rest hPc hCall =>
          have hEq : id = s.manager.next := by
            by_contra hNe
            apply hSame
            simpa [put, ManagerSystem.begin, hNe] using hProc
          refine
            Or.inr
              ⟨other,
                { r with pc := .wait s.manager.next c rest },
                c, rest, ?_, by rw [hEq]⟩
          simp [put]
      | _ => exact absurd hProc hSame
  · rcases ManagerSystem.step_getProc hStep hProc with
      hSame | ⟨hAction, _⟩ | ⟨_, _, before, _, hBefore, hRun⟩
    · exact hRec.waited id key start pc hSame
    · exact absurd hAction (hCall _)
    · rcases hRec.waited id key start before hBefore with
        ⟨result, rfl⟩ | hWaits
      · simp [GetPc.run] at hRun
      · exact Or.inr hWaits

/- A lookup that is counted is one that has counted itself. -/
theorem recordedElsewhere_step
    {m m' : ManagerSystem}
    {action : ManagerAction}
    (hNum : m.Numbered)
    (h : m.step cfg action = some m') :
    m'.recordedElsewhere = m.recordedElsewhere := by
  refine
    ManagerSystem.balance_step_eq
      (fun metrics => (metrics.totalRequests : Int))
      (fun pc => pc.beforeRequest - 1) rfl ?_ hNum h
  intro s c fault origin pc pc' elapsed metrics hNext
  cases hNext with
  | countRequest =>
      simp only [GetPc.tally, GetPc.beforeRequest]
      push_cast
      omega
  | _ => rfl

theorem recordedElsewhere_setMetrics
    (m : ManagerSystem)
    (metrics : Metrics) :
    (m.setMetrics metrics).recordedElsewhere =
      metrics.totalRequests +
        m.weight (fun pc => pc.beforeRequest - 1) := rfl

/- A request counts itself when the interceptor is done. -/
theorem next_counted
    (cfg : ManagerConfig)
    {r : Running}
    {alive : Bool}
    {m m' : ManagerSystem}
    {pc : RequestPc}
    (hNum : m.Numbered)
    (hIn :
      r.inInterceptor = true → r.request.isGrpc = true)
    (hNext : r.Next m alive m' pc) :
    m'.recordedElsewhere + r.intercepted =
      m.recordedElsewhere +
        Running.intercepted { r with pc := pc } := by
  cases hNext with
  | returned hPc =>
      by_cases hGrpc : r.request.isGrpc = true
      · simp [Running.intercepted, Running.isDone, hPc,
          Running.after, hGrpc]
      · simp [Running.intercepted, Running.isDone, hPc,
          Running.after, Running.method, hGrpc]
  | crash hPc hGrpc =>
      rfl
  | recover hPc hHttp =>
      simp [Running.intercepted, Running.isDone, hPc,
        Running.method, hHttp]
  | @begin c call rest hPc hCall =>
      rw [recordedElsewhere_step hNum (m.begin_eq_step cfg call)]
      simp [Running.intercepted, Running.isDone, hPc]
  | instant answer hPc hCall =>
      simp [Running.intercepted, Running.isDone, hPc]
  | answered hPc hProc hAnswer =>
      simp [Running.intercepted, Running.isDone, hPc]
  | addLatency elapsed hPc =>
      rw [recordedElsewhere_setMetrics]
      simp [Running.intercepted, Running.isDone, hPc,
        ManagerSystem.recordedElsewhere]
  | countRequest hPc =>
      have hGrpc : r.request.isGrpc = true :=
        hIn (by simp [Running.inInterceptor, hPc])
      rw [recordedElsewhere_setMetrics]
      simp only [Running.intercepted, Running.isDone, hPc,
        Running.method, hGrpc, if_true,
        ManagerSystem.recordedElsewhere]
      push_cast
      omega

theorem counted_step
    (hBalanced : s.manager.Balanced cfg)
    (hRec : s.Recorded)
    (h : s.step cfg a = some s') :
    s'.manager.recordedElsewhere =
      Population.total Running.intercepted s'.requests
        s'.next := by
  rcases step_cases h with
    ⟨request, rfl, rfl⟩ |
      ⟨id, pool, r, alive, m, pc, rfl, hRequest, hNext, rfl⟩ |
      ⟨action, m, rfl, _, hStep, rfl⟩
  · have hNew : (s.arrived request).intercepted = 0 := rfl
    rw [Population.total_join, hNew, add_zero]
    exact hRec.counted
  · have hMove :=
      Population.total_update (w := Running.intercepted)
        { r with pc := pc } (lt_next hRec hRequest) hRequest
    have hLocal :=
      next_counted cfg hBalanced.1
        (hRec.interceptor id r hRequest) hNext
    have hBefore := hRec.counted
    simp only [put]
    omega
  · rw [recordedElsewhere_step hBalanced.1 hStep]
    exact hRec.counted

theorem recorded_step
    (hBalanced : s.manager.Balanced cfg)
    (hRec : s.Recorded)
    (h : s.step cfg a = some s') :
    s'.Recorded where
  numbered := numbered_step hRec h
  interceptor := interceptor_step hRec h
  waited := waited_step hRec h
  counted := counted_step hBalanced hRec h

theorem recorded_new
    (maxSize : Int)
    (l1TTL : Int)
    (redis : Redis)
    (clock : Int) :
    (ServiceSystem.new maxSize l1TTL redis clock).Recorded where
  numbered := fun _ _ => rfl
  interceptor := fun _ _ h => by cases h
  waited := fun _ _ _ _ h => by cases h
  counted := rfl

/- What is known of every state that a server reaches. -/
structure Known
    (cfg : ManagerConfig)
    (s : ServiceSystem) :
    Prop where
  balanced : s.manager.Balanced cfg
  recorded : s.Recorded

theorem known_step
    (hKnown : s.Known cfg)
    (h : s.step cfg a = some s') :
    s'.Known cfg :=
  ⟨step_balanced hKnown.balanced h,
    recorded_step hKnown.balanced hKnown.recorded h⟩

theorem known_exec
    {maxSize l1TTL : Int}
    {redis : Redis}
    {clock : Int}
    {actions : List ServiceAction}
    (hRun :
      (serviceMachine cfg).exec
          (ServiceSystem.new maxSize l1TTL redis clock)
          actions =
        some s) :
    s.Known cfg :=
  Machine.exec_invariant
    (I := Known cfg)
    (fun _ _ _ hKnown hStep => known_step hKnown hStep)
    hRun
    ⟨⟨ManagerSystem.numbered_new maxSize l1TTL redis clock,
        ManagerSystem.flow_new cfg maxSize l1TTL redis clock⟩,
      recorded_new maxSize l1TTL redis clock⟩

end ServiceSystem

end CacheServer

------------------------------------------------------------
-- Nothing In Flight
------------------------------------------------------------

namespace CacheServer

namespace ServiceSystem

variable {cfg : ManagerConfig}
variable {s s' t u : ServiceSystem}
variable {a : ServiceAction}

/- The gRPC requests among those numbered below `n`. -/
def methods
    (n : Nat)
    (s : ServiceSystem) :
    Int :=
  Population.total Running.method s.requests n

theorem noGet_of_idle
    (hRec : s.Recorded)
    (hIdle : s.Idle) :
    s.manager.NoGet := by
  intro id key start pc hProc
  rcases hRec.waited id key start pc hProc with
    hDone | ⟨j, r, c, rest, hRequest, hWait⟩
  · exact hDone
  · rcases hIdle j r hRequest with ⟨answer, hPc⟩
    cases hWait.symm.trans hPc

/- Each lookup is counted, and then each gRPC request. -/
theorem totalRequests_of_idle
    (hKnown : s.Known cfg)
    (hIdle : s.Idle) :
    (s.manager.metrics.totalRequests : Int) =
      (s.manager.metrics.l1Hits + s.manager.metrics.l1Misses :
          Nat) +
        s.methods s.next := by
  have hNone := noGet_of_idle hKnown.recorded hIdle
  have hLookups :=
    (ManagerSystem.flowConserved_of_flow
      hKnown.balanced.2).lookups hNone
  have hWeight : s.manager.weight GetPc.beforeRequest = 0 :=
    ManagerSystem.weight_eq_zero hNone (fun _ => rfl)
  have hMethods :
      Population.total Running.intercepted s.requests s.next =
        s.methods s.next := by
    refine Population.total_congr s.next ?_
    intro id r hRequest
    rcases hIdle id r hRequest with ⟨answer, hPc⟩
    simp [Running.intercepted, Running.isDone, hPc]
  have hCounted := hKnown.recorded.counted
  unfold ManagerSystem.recordedElsewhere at hCounted
  rw [ManagerSystem.weight_sub_one, hMethods] at hCounted
  omega

/- Only gRPC requests have a weight. -/
theorem methods_eq_iff
    {n : Nat}
    (hRec : s.Recorded)
    (hLe : n ≤ s.next) :
    s.methods s.next = s.methods n ↔ s.HttpSince n := by
  constructor
  · intro hEq id r hSince hRequest
    cases hGrpc : r.request.isGrpc with
    | false => rfl
    | true =>
        have hLt :=
          Population.total_lt Running.method_nonneg hSince
            (lt_next hRec hRequest) hRequest
            (by simp [Running.method, hGrpc])
        unfold methods at hEq
        omega
  · intro hHttp
    refine Population.total_eq_of_le hLe ?_
    intro id r hSince hRequest
    simp [Running.method, hHttp id r hSince hRequest]

theorem countsLookups_iff
    (hKnown : s.Known cfg)
    (hIdle : s.Idle) :
    s.CountsLookups ↔ s.HttpSince 0 := by
  have hTotal := totalRequests_of_idle hKnown hIdle
  have hNone : s.methods 0 = 0 := rfl
  rw [← methods_eq_iff hKnown.recorded (Nat.zero_le _), hNone]
  constructor
  · intro hCounts
    have hEq :
        (s.manager.metrics.totalRequests : Int) =
          s.manager.metrics.l1Hits +
            s.manager.metrics.l1Misses :=
      hCounts.1
    omega
  · intro hZero
    have hEq :
        (s.manager.metrics.totalRequests : Int) =
          s.manager.metrics.l1Hits +
            s.manager.metrics.l1Misses := by
      omega
    refine ⟨hEq, ?_⟩
    simp only [Metrics.snapshot, hEq]

------------------------------------------------------------
-- Two Runs From One State
------------------------------------------------------------

/- Requests go on being what they were when they arrived. -/
structure Since
    (u s : ServiceSystem) :
    Prop where
  le : u.next ≤ s.next
  methods : s.methods u.next = u.methods u.next

theorem since_step
    (hSince : u.Since s)
    (h : s.step cfg a = some s') :
    u.Since s' := by
  rcases step_cases h with
    ⟨request, rfl, rfl⟩ |
      ⟨id, pool, r, alive, m, pc, rfl, hRequest, _, rfl⟩ |
      ⟨action, m, rfl, _, _, rfl⟩
  · refine ⟨Nat.le_succ_of_le hSince.le, ?_⟩
    rw [← hSince.methods]
    exact Population.total_update_ge _ hSince.le
  · refine ⟨hSince.le, ?_⟩
    rw [← hSince.methods]
    by_cases hLt : id < u.next
    · have hMove :=
        Population.total_update (w := Running.method)
          { r with pc := pc } hLt hRequest
      have hSame :
          Running.method { r with pc := pc } = r.method := rfl
      simp only [methods, put]
      omega
    · exact Population.total_update_ge _ (not_lt.mp hLt)
  · exact ⟨hSince.le, hSince.methods⟩

theorem since_exec
    {actions : List ServiceAction}
    (hKnown : u.Known cfg)
    (hRun : (serviceMachine cfg).exec u actions = some s) :
    s.Known cfg ∧ u.Since s :=
  Machine.exec_invariant
    (I := fun t => t.Known cfg ∧ u.Since t)
    (fun _ _ _ hInv hStep =>
      ⟨known_step hInv.1 hStep,
        since_step hInv.2 hStep⟩)
    hRun ⟨hKnown, le_refl _, rfl⟩

/- Requests over HTTP leave both rates as lookups make them. -/
theorem sameRates_iff
    (hKnown : s.Known cfg)
    (hKnown' : t.Known cfg)
    (hSince : u.Since s)
    (hSince' : u.Since t)
    (hIdle : s.Idle)
    (hIdle' : t.Idle)
    (hHttp : t.HttpSince u.next)
    (hSame : s.SameLookups t) :
    s.SameRates t ↔ s.HttpSince u.next := by
  have hTotal := totalRequests_of_idle hKnown hIdle
  have hTotal' := totalRequests_of_idle hKnown' hIdle'
  have hMethods :=
    (methods_eq_iff hKnown'.recorded hSince'.le).mpr hHttp
  have hLookups := hSame.lookups
  have hStart := hSince.methods
  have hStart' := hSince'.methods
  rw [← methods_eq_iff hKnown.recorded hSince.le]
  constructor
  · intro hRates
    have hEq :
        (s.manager.metrics.totalRequests : Int) =
          t.manager.metrics.totalRequests :=
      hRates.1
    omega
  · intro hNone
    have hEq :
        (s.manager.metrics.totalRequests : Int) =
          t.manager.metrics.totalRequests := by
      omega
    refine ⟨hEq, ?_⟩
    simp only [Metrics.snapshot, hEq]
    rw [← Nat.cast_add, hSame.answered, Nat.cast_add]

end ServiceSystem

end CacheServer

------------------------------------------------------------
-- What Is Counted Once
------------------------------------------------------------

namespace CacheServer

open ServiceSystem

/-
  With no request in flight, `TotalRequests` counts lookups
  exactly if none has come over gRPC; and from one state, the
  rates are those of lookups over HTTP exactly if none since.
-/
theorem requests_count_lookups_iff
    (cfg : ManagerConfig)
    (maxSize : Int)
    (l1TTL : Int)
    (redis : Redis)
    (clock : Int)
    (before : List ServiceAction)
    (actions : List ServiceAction)
    (u : ServiceSystem)
    (s : ServiceSystem)
    (hStart :
      (serviceMachine cfg).exec
          (ServiceSystem.new maxSize l1TTL redis clock)
          before =
        some u)
    (hRun : (serviceMachine cfg).exec u actions = some s)
    (hIdle : s.Idle) :
    (s.CountsLookups ↔ s.HttpSince 0) ∧
      ∀ overHttp t,
        (serviceMachine cfg).exec u overHttp = some t →
          t.Idle →
            t.HttpSince u.next →
              s.SameLookups t →
                (s.SameRates t ↔ s.HttpSince u.next) := by
  have hKnown := known_exec hStart
  rcases since_exec hKnown hRun with ⟨hKnown', hSince⟩
  refine ⟨countsLookups_iff hKnown' hIdle, ?_⟩
  intro overHttp t hOther hIdle' hHttp hSame
  rcases since_exec hKnown hOther with ⟨hKnown'', hSince'⟩
  exact
    sameRates_iff hKnown' hKnown'' hSince hSince' hIdle
      hIdle' hHttp hSame

/- A server without coalescing. -/
def directConfig : ManagerConfig :=
  { useSF := false, l2TTL := 60 }

/- A lookup of a key that no tier has, over HTTP. -/
def lookupOverHttp : List ServiceAction :=
  [.arrive (.http (.getCache [7])), .proceed 0] ++
    ServiceAction.proceeds 0 12 ++ [.proceed 0, .proceed 0]

/- The same lookup over gRPC, through the interceptor. -/
def lookupOverGrpc : List ServiceAction :=
  [.arrive (.grpc (.get [7])), .proceed 0, .proceed 0] ++
    ServiceAction.proceeds 0 12 ++
      List.replicate 5 (.proceed 0)

def servedOverHttp : ServiceSystem :=
  ((serviceMachine directConfig).exec freshService
    lookupOverHttp).get (by decide)

def servedOverGrpc : ServiceSystem :=
  ((serviceMachine directConfig).exec freshService
    lookupOverGrpc).get (by decide)

theorem exec_servedOverHttp :
    (serviceMachine directConfig).exec freshService
        lookupOverHttp =
      some servedOverHttp :=
  Machine.exec_get (by decide)

theorem exec_servedOverGrpc :
    (serviceMachine directConfig).exec freshService
        lookupOverGrpc =
      some servedOverGrpc :=
  Machine.exec_get (by decide)

/- Only requests that have joined can be in flight. -/
theorem idle_of_lt
    {cfg : ManagerConfig}
    {s : ServiceSystem}
    (hKnown : s.Known cfg)
    (hDone :
      ∀ id < s.next,
        (s.requests id).all Running.isDone = true) :
    s.Idle := by
  intro id r hRequest
  have hThis := hDone id (lt_next hKnown.recorded hRequest)
  rw [hRequest] at hThis
  cases hPc : r.pc with
  | done answer => exact ⟨answer, rfl⟩
  | _ => simp [Running.isDone, hPc] at hThis

theorem idle_servedOverHttp :
    servedOverHttp.Idle :=
  idle_of_lt (known_exec exec_servedOverHttp) (by decide)

theorem idle_servedOverGrpc :
    servedOverGrpc.Idle :=
  idle_of_lt (known_exec exec_servedOverGrpc) (by decide)

theorem http_servedOverHttp :
    servedOverHttp.HttpSince 0 := by
  have hKnown := known_exec exec_servedOverHttp
  rw [← methods_eq_iff hKnown.recorded (Nat.zero_le _)]
  rfl

theorem sameLookups_served :
    servedOverGrpc.SameLookups servedOverHttp :=
  ⟨by decide, by decide⟩

/-
  One lookup over HTTP is counted once. The same lookup over
  gRPC is not at all the same for the rates.
-/
theorem requests_count_lookups_iff_one :
    servedOverHttp.CountsLookups ∧
      ¬ servedOverGrpc.SameRates servedOverHttp := by
  have hOverGrpc : ¬ servedOverGrpc.HttpSince 0 := by
    intro hHttp
    exact
      absurd (hHttp 0 _ (Nat.le_refl 0) rfl) (by decide)
  have hCounts :=
    (requests_count_lookups_iff directConfig 1000 5 ∅ 0 []
      lookupOverHttp freshService servedOverHttp rfl
      exec_servedOverHttp idle_servedOverHttp).1
  have hRates :=
    (requests_count_lookups_iff directConfig 1000 5 ∅ 0 []
      lookupOverGrpc freshService servedOverGrpc rfl
      exec_servedOverGrpc idle_servedOverGrpc).2
      lookupOverHttp servedOverHttp exec_servedOverHttp
      idle_servedOverHttp http_servedOverHttp
      sameLookups_served
  exact
    ⟨hCounts.mpr http_servedOverHttp,
      fun hSame => hOverGrpc (hRates.mp hSame)⟩

/-
  One lookup over gRPC counts two requests, where over HTTP
  it counts one.
-/
theorem grpc_lookup_counted_twice :
    (serviceMachine directConfig).exec freshService
          lookupOverGrpc =
        some servedOverGrpc ∧
      (serviceMachine directConfig).exec freshService
            lookupOverHttp =
          some servedOverHttp ∧
        servedOverGrpc.Idle ∧
          servedOverHttp.Idle ∧
            servedOverGrpc.SameLookups servedOverHttp ∧
              ¬ servedOverGrpc.CountsLookups ∧
                ¬ servedOverGrpc.SameRates
                  servedOverHttp := by
  refine
    ⟨exec_servedOverGrpc, exec_servedOverHttp,
      idle_servedOverGrpc, idle_servedOverHttp,
      sameLookups_served, ?_, ?_⟩
  · intro hCounts
    exact absurd hCounts.1 (by decide)
  · intro hRates
    exact absurd hRates.1 (by decide)

end CacheServer
