import CacheServer.Cache.TierSteps
import CacheServer.Lib.Population

/-
  The flow of lookups through the counters.

  Each step of a `Get` adds to at most one counter. Weighing
  the calls in progress by the counters they have still to
  reach turns each relation between counters into a balance
  that no step upsets, whatever the calls do in between.

  Key definitions include:
    * `CacheServer.GetPc.tally`
    * `CacheServer.ManagerSystem.weight`
    * `CacheServer.ManagerSystem.FlowConserved`

  Key theorems include:
    * `CacheServer.GetPc.run_tally`
    * `CacheServer.ManagerSystem.step_adds`
    * `CacheServer.ManagerSystem.balance_step`
    * `CacheServer.ManagerSystem.flow_step`
    * `CacheServer.ManagerSystem.flowConserved_of_flow`
-/

------------------------------------------------------------
-- What A Step Counts
------------------------------------------------------------

namespace CacheServer

namespace GetPc

/- The counters after a step from here. -/
def tally
    (elapsed : Int)
    (m : Metrics) :
    GetPc → Metrics
| .countL1Miss => { m with l1Misses := m.l1Misses + 1 }
| .countL1Hit _ => { m with l1Hits := m.l1Hits + 1 }
| .countL2Err => { m with originErrors := m.originErrors + 1 }
| .countL2Miss => { m with l2Misses := m.l2Misses + 1 }
| .countL2Hit _ => { m with l2Hits := m.l2Hits + 1 }
| .countOriginCall =>
    { m with originCalls := m.originCalls + 1 }
| .countOriginErr _ =>
    { m with originErrors := m.originErrors + 1 }
| .countCoalesced _ =>
    { m with coalescedCalls := m.coalescedCalls + 1 }
| .addLatency _ =>
    { m with totalLatencyNs := m.totalLatencyNs + elapsed }
| .countRequest _ =>
    { m with totalRequests := m.totalRequests + 1 }
| _ => m

variable {cfg : ManagerConfig}
variable {s t : Shared}
variable {c : Caller}
variable {fault : Fault}
variable {origin : OriginReply}
variable {pc pc' : GetPc}

/- A step that leaves these counters. -/
theorem metrics_of_eq
    {u : Shared}
    {next : GetPc}
    {m : Metrics}
    (h : some (u, next) = some (t, pc'))
    (hMetrics : u.store.metrics = m) :
    t.store.metrics = m := by
  have hEq : u = t := (Prod.mk.inj (Option.some.inj h)).1
  subst hEq
  exact hMetrics

theorem runFetch_metrics :
    (runFetch cfg s c).1.store.metrics = s.store.metrics := by
  unfold runFetch
  cases cfg.useSF with
  | false => rfl
  | true =>
      cases s.group c.key with
      | none => rfl
      | some flight => rfl

theorem runFnReturn_metrics
    (result : GetResult) :
    (runFnReturn cfg s c result).1.store.metrics =
      s.store.metrics := by
  unfold runFnReturn
  cases cfg.useSF with
  | false => rfl
  | true => rfl

/- A step counts what its place says, and nothing else. -/
theorem run_tally
    (h : pc.run cfg s c fault origin = some (t, pc')) :
    t.store.metrics =
      pc.tally (s.store.clock - c.start) s.store.metrics := by
  cases pc with
  | l1Read =>
      cases hRead : s.store.l1.read c.key with
      | none =>
          simp only [run, hRead] at h
          exact metrics_of_eq h rfl
      | some entry =>
          simp only [run, hRead] at h
          exact metrics_of_eq h rfl
  | l1Check entry =>
      cases hExp : entry.expired s.store.clock with
      | true =>
          simp only [run, hExp, if_true] at h
          exact metrics_of_eq h rfl
      | false =>
          simp only [run, hExp, Bool.false_eq_true,
            if_false] at h
          exact metrics_of_eq h rfl
  | l2Get =>
      cases hGet :
          L2Cache.get s.store.redis s.store.clock c.key
            fault with
      | hit value =>
          simp only [run, hGet] at h
          exact metrics_of_eq h rfl
      | nil =>
          simp only [run, hGet] at h
          exact metrics_of_eq h rfl
      | error =>
          simp only [run, hGet] at h
          exact metrics_of_eq h rfl
  | fetch =>
      have hEq : runFetch cfg s c = (t, pc') :=
        Option.some.inj h
      have hSame := @runFetch_metrics cfg s c
      rw [hEq] at hSame
      exact hSame
  | joined leader =>
      cases hDone : s.finished leader with
      | none =>
          simp [run, hDone] at h
      | some result =>
          simp only [run, hDone] at h
          exact metrics_of_eq h rfl
  | originCall =>
      rcases origin with value | (text | _)
      · exact metrics_of_eq h rfl
      · exact metrics_of_eq h rfl
      · cases hCancel : c.cancelled with
        | false =>
            simp [run, hCancel] at h
        | true =>
            simp only [run, hCancel, if_true] at h
            exact metrics_of_eq h rfl
  | fnReturn result =>
      have hEq : runFnReturn cfg s c result = (t, pc') :=
        Option.some.inj h
      have hSame := @runFnReturn_metrics cfg s c result
      rw [hEq] at hSame
      exact hSame
  | done result =>
      simp [run] at h
  | _ => exact metrics_of_eq h rfl

end GetPc

/- A write counts nothing. -/
theorem WritePc.runSet_metrics
    {cfg : ManagerConfig}
    {s t : Shared}
    {key : Key}
    {value : Value}
    {fault : Fault}
    {pc pc' : WritePc}
    (h : pc.runSet cfg s key value fault = some (t, pc')) :
    t.store.metrics = s.store.metrics := by
  cases pc with
  | l1 =>
      cases h
      rfl
  | l2 =>
      cases h
      rfl
  | done error => cases h

theorem WritePc.runInvalidate_metrics
    {s t : Shared}
    {key : Key}
    {fault : Fault}
    {pc pc' : WritePc}
    (h : pc.runInvalidate s key fault = some (t, pc')) :
    t.store.metrics = s.store.metrics := by
  cases pc with
  | l1 =>
      cases h
      rfl
  | l2 =>
      cases h
      rfl
  | done error => cases h

end CacheServer

------------------------------------------------------------
-- Balances
------------------------------------------------------------

namespace CacheServer

/- A weight of `Get`s; other calls weigh nothing. -/
def Proc.weigh
    (w : GetPc → Int) :
    Proc → Int
| .get _ _ pc => w pc
| .set _ _ _ => 0
| .invalidate _ _ => 0

namespace ManagerSystem

abbrev metrics
    (s : ManagerSystem) :
    Metrics :=
  s.shared.store.metrics

/- The weight of all calls made so far. -/
def weight
    (w : GetPc → Int)
    (s : ManagerSystem) :
    Int :=
  Population.total (Proc.weigh w) s.procs s.next

variable {cfg : ManagerConfig}
variable {s s' : ManagerSystem}
variable {a : ManagerAction}

theorem lt_next
    {id : Nat}
    {p : Proc}
    (hNum : s.Numbered)
    (hProc : s.procs id = some p) :
    id < s.next := by
  by_contra hLe
  rw [hNum.procs id (not_lt.mp hLe)] at hProc
  cases hProc

/-
  What a step adds to a value of the counters and a weight of
  the `Get`s together: what the step of a `Get` adds, what a
  `Get` that begins weighs, or nothing.
-/
theorem step_adds
    (value : Metrics → Int)
    (w : GetPc → Int)
    (hNum : s.Numbered)
    (h : s.step cfg a = some s') :
    (∃ id fault origin key start pc pc',
      a = .run id fault origin ∧
        s.procs id = some (.get key start pc) ∧
        GetPc.run cfg s.shared
            { id := id, key := key, start := start
              cancelled := s.cancelled id }
            fault origin pc =
          some (s'.shared, pc') ∧
        value s'.metrics + s'.weight w + value s.metrics +
            w pc =
          value s.metrics + s.weight w +
              value
                (pc.tally (s.shared.store.clock - start)
                  s.metrics) +
            w pc') ∨
      ((∃ key, a = .call (.get key)) ∧
        s'.shared = s.shared ∧
        value s'.metrics + s'.weight w =
          value s.metrics + s.weight w + w .l1Read) ∨
      ((∀ id fault origin key start pc,
        a = .run id fault origin →
          s.procs id ≠ some (.get key start pc)) ∧
        s'.shared.group = s.shared.group ∧
        value s'.metrics + s'.weight w =
          value s.metrics + s.weight w) := by
  cases a with
  | call call =>
      cases h
      have hJoin :=
        Population.total_join (w := Proc.weigh w) s.procs
          s.next (call.proc s.shared.store.clock)
      cases call with
      | get key =>
          refine Or.inr (Or.inl ⟨⟨key, rfl⟩, rfl, ?_⟩)
          have hNew :
              Proc.weigh w
                  ((ManagerCall.get key).proc
                    s.shared.store.clock) =
                w .l1Read := rfl
          rw [hNew] at hJoin
          simp only [weight, metrics]
          omega
      | set key value =>
          refine Or.inr (Or.inr ⟨by simp, rfl, ?_⟩)
          have hNew :
              Proc.weigh w
                  ((ManagerCall.set key value).proc
                    s.shared.store.clock) =
                0 := rfl
          rw [hNew] at hJoin
          simp only [weight, metrics]
          omega
      | invalidate key =>
          refine Or.inr (Or.inr ⟨by simp, rfl, ?_⟩)
          have hNew :
              Proc.weigh w
                  ((ManagerCall.invalidate key).proc
                    s.shared.store.clock) =
                0 := rfl
          rw [hNew] at hJoin
          simp only [weight, metrics]
          omega
  | run id fault origin =>
      rcases step_run h with ⟨p, t, p', hProc, hRun, rfl⟩
      have hMove :=
        Population.total_update (w := Proc.weigh w) p'
          (lt_next hNum hProc) hProc
      have hNotGet :
          (∀ key start pc, p ≠ .get key start pc) →
            ∀ i f o key start pc,
              ManagerAction.run id fault origin = .run i f o →
                s.procs i ≠ some (.get key start pc) := by
        intro hNot i f o key start pc hSame hGet
        cases hSame
        rw [hProc] at hGet
        exact hNot key start pc (Option.some.inj hGet)
      cases p with
      | get key start pc =>
          rcases Proc.run_get hRun with ⟨pc', rfl, hPc⟩
          refine
            Or.inl
              ⟨id, fault, origin, key, start, pc, pc', rfl,
                hProc, hPc, ?_⟩
          simp only [Proc.weigh] at hMove
          rw [← GetPc.run_tally hPc]
          simp only [weight, metrics]
          omega
      | set key stored pc =>
          rcases Proc.run_set hRun with ⟨pc', rfl, hPc⟩
          refine
            Or.inr (Or.inr
              ⟨hNotGet (by simp),
                (Proc.run_effect hRun).group (by simp), ?_⟩)
          simp only [Proc.weigh] at hMove
          simp only [weight, metrics,
            WritePc.runSet_metrics hPc]
          omega
      | invalidate key pc =>
          rcases Proc.run_invalidate hRun with
            ⟨pc', rfl, hPc⟩
          refine
            Or.inr (Or.inr
              ⟨hNotGet (by simp),
                (Proc.run_effect hRun).group (by simp), ?_⟩)
          simp only [Proc.weigh] at hMove
          simp only [weight, metrics,
            WritePc.runInvalidate_metrics hPc]
          omega
  | background id fault =>
      rcases step_background h with ⟨_, _, _, rfl⟩
      exact Or.inr (Or.inr ⟨by simp, rfl, rfl⟩)
  | cancel id =>
      cases h
      exact Or.inr (Or.inr ⟨by simp, rfl, rfl⟩)
  | redisDrop key =>
      cases h
      exact Or.inr (Or.inr ⟨by simp, rfl, rfl⟩)
  | tick elapsed =>
      cases h
      exact Or.inr (Or.inr ⟨by simp, rfl, rfl⟩)

/-
  A value of the counters and a weight of the `Get`s, neither
  of which outgrows the other in a step of a `Get`, do not
  grow together in any step of the manager.
-/
theorem balance_step
    (value : Metrics → Int)
    (w : GetPc → Int)
    (hStart : w .l1Read ≤ 0)
    (hNext :
      ∀ s c fault origin pc pc' elapsed m,
        GetPc.Next cfg s c fault origin pc pc' →
          value (pc.tally elapsed m) + w pc' ≤
            value m + w pc)
    (hNum : s.Numbered)
    (h : s.step cfg a = some s') :
    value s'.metrics + s'.weight w ≤
      value s.metrics + s.weight w := by
  rcases step_adds value w hNum h with
    ⟨id, fault, origin, key, start, pc, pc', _, _, hPc,
      hAdds⟩ | ⟨_, _, hAdds⟩ | ⟨_, _, hAdds⟩
  · have hLocal :=
      hNext s.shared _ fault origin pc pc'
        (s.shared.store.clock - start) s.metrics
        (GetPc.run_next hPc)
    omega
  · omega
  · omega

/- A value and a weight that always offset each other. -/
theorem balance_step_eq
    (value : Metrics → Int)
    (w : GetPc → Int)
    (hStart : w .l1Read = 0)
    (hNext :
      ∀ s c fault origin pc pc' elapsed m,
        GetPc.Next cfg s c fault origin pc pc' →
          value (pc.tally elapsed m) + w pc' =
            value m + w pc)
    (hNum : s.Numbered)
    (h : s.step cfg a = some s') :
    value s'.metrics + s'.weight w =
      value s.metrics + s.weight w := by
  apply le_antisymm
  · exact
      balance_step value w (le_of_eq hStart)
        (fun s c fault origin pc pc' elapsed m hMove =>
          le_of_eq
            (hNext s c fault origin pc pc' elapsed m hMove))
        hNum h
  · have hBack :=
      balance_step (fun m => - value m) (fun pc => - w pc)
        (by omega)
        (fun s c fault origin pc pc' elapsed m hMove => by
          have hEq :=
            hNext s c fault origin pc pc' elapsed m hMove
          omega)
        hNum h
    have hNeg :
        ∀ u : ManagerSystem,
          u.weight (fun pc => - w pc) = - u.weight w := by
      intro u
      have hWeigh :
          Proc.weigh (fun pc => - w pc) =
            fun p => - Proc.weigh w p := by
        funext p
        cases p with
        | get key start pc => rfl
        | set key stored pc => rfl
        | invalidate key pc => rfl
      unfold weight
      rw [hWeigh, Population.total_neg]
    rw [hNeg, hNeg] at hBack
    omega

end ManagerSystem

end CacheServer

------------------------------------------------------------
-- The Flow Of Lookups
------------------------------------------------------------

namespace CacheServer

namespace GetPc

/- The lookup has not been counted for L1 yet. -/
def beforeL1 :
    GetPc → Int
| .l1Read => 1
| .l1Check _ => 1
| .lazyDelete => 1
| .countL1Miss => 1
| .countL1Hit _ => 1
| _ => 0

/- It is an L1 miss, and not counted for L2 yet. -/
def beforeL2 :
    GetPc → Int
| .l2Get => 1
| .countL2Err => 1
| .countL2Miss => 1
| .countL2Hit _ => 1
| _ => 0

/- It is an L2 miss, and may call the origin. -/
def beforeOrigin :
    GetPc → Int
| .fetch => 1
| .countOriginCall => 1
| _ => 0

theorem beforeL2_nonneg
    (pc : GetPc) :
    0 ≤ pc.beforeL2 := by
  unfold beforeL2
  split
  all_goals decide

theorem beforeOrigin_nonneg
    (pc : GetPc) :
    0 ≤ pc.beforeOrigin := by
  unfold beforeOrigin
  split
  all_goals decide

end GetPc

namespace ManagerSystem

open GetPc

/- The number of `Manager.Get` calls made so far. -/
def getCalls
    (s : ManagerSystem) :
    Int :=
  s.weight (fun _ => 1)

/- No `Manager.Get` is in flight. -/
def NoGet
    (s : ManagerSystem) :
    Prop :=
  ∀ id key start pc,
    s.procs id = some (.get key start pc) →
      ∃ result, pc = .done result

/- The counters agree with each other. -/
structure FlowConserved
    (cfg : ManagerConfig)
    (s : ManagerSystem) :
    Prop where
  l2_le :
    s.metrics.l2Hits + s.metrics.l2Misses ≤ s.metrics.l1Misses
  origin_le : s.metrics.originCalls ≤ s.metrics.l2Misses
  lookups :
    s.NoGet →
      (s.metrics.l1Hits + s.metrics.l1Misses : Nat) =
        s.getCalls
  l2 :
    s.NoGet →
      s.metrics.l2Hits + s.metrics.l2Misses =
        s.metrics.l1Misses
  origin :
    s.NoGet →
      cfg.useSF = false →
        s.metrics.originCalls = s.metrics.l2Misses

/- The balances of the counters with the calls in flight. -/
structure Flow
    (cfg : ManagerConfig)
    (s : ManagerSystem) :
    Prop where
  lookups :
    (s.metrics.l1Hits : Int) + s.metrics.l1Misses +
        s.weight (fun pc => pc.beforeL1 - 1) =
      0
  l2 :
    (s.metrics.l2Hits : Int) + s.metrics.l2Misses -
        s.metrics.l1Misses + s.weight beforeL2 =
      0
  origin :
    (s.metrics.originCalls : Int) - s.metrics.l2Misses +
        s.weight beforeOrigin ≤
      0
  direct :
    cfg.useSF = false →
      (s.metrics.originCalls : Int) - s.metrics.l2Misses +
          s.weight beforeOrigin =
        0

variable {cfg : ManagerConfig}
variable {s s' : ManagerSystem}
variable {a : ManagerAction}

/- No step of any call upsets a balance. -/
theorem flow_step
    (hFlow : s.Flow cfg)
    (hNum : s.Numbered)
    (h : s.step cfg a = some s') :
    s'.Flow cfg where
  lookups := by
    rw [← hFlow.lookups]
    refine
      balance_step_eq
        (fun m => (m.l1Hits : Int) + m.l1Misses)
        (fun pc => pc.beforeL1 - 1) rfl ?_ hNum h
    intro s c fault origin pc pc' elapsed m hNext
    cases hNext with
    | countL1Miss =>
        simp only [tally, beforeL1]
        push_cast
        omega
    | countL1Hit =>
        simp only [tally, beforeL1]
        push_cast
        omega
    | _ => rfl
  l2 := by
    rw [← hFlow.l2]
    refine
      balance_step_eq
        (fun m => (m.l2Hits : Int) + m.l2Misses - m.l1Misses)
        beforeL2 rfl ?_ hNum h
    intro s c fault origin pc pc' elapsed m hNext
    cases hNext with
    | countL1Miss =>
        simp only [tally, beforeL2]
        push_cast
        omega
    | countL2Miss =>
        simp only [tally, beforeL2]
        push_cast
        omega
    | countL2Hit =>
        simp only [tally, beforeL2]
        push_cast
        omega
    | _ => rfl
  origin := by
    refine le_trans ?_ hFlow.origin
    refine
      balance_step
        (fun m => (m.originCalls : Int) - m.l2Misses)
        beforeOrigin (le_refl _) ?_ hNum h
    intro s c fault origin pc pc' elapsed m hNext
    cases hNext with
    | countL2Miss =>
        simp only [tally, beforeOrigin]
        push_cast
        omega
    | countOriginCall =>
        simp only [tally, beforeOrigin]
        push_cast
        omega
    | join _ _ => simp [tally, beforeOrigin]
    | _ => exact le_refl _
  direct := by
    intro hDirect
    rw [← hFlow.direct hDirect]
    refine
      balance_step_eq
        (fun m => (m.originCalls : Int) - m.l2Misses)
        beforeOrigin rfl ?_ hNum h
    intro s c fault origin pc pc' elapsed m hNext
    cases hNext with
    | countL2Miss =>
        simp only [tally, beforeOrigin]
        push_cast
        omega
    | countOriginCall =>
        simp only [tally, beforeOrigin]
        push_cast
        omega
    | join hUse _ =>
        rw [hDirect] at hUse
        cases hUse
    | _ => rfl

theorem flow_new
    (cfg : ManagerConfig)
    (maxSize : Int)
    (l1TTL : Int)
    (redis : Redis)
    (clock : Int) :
    (ManagerSystem.new maxSize l1TTL redis clock).Flow cfg :=
  ⟨rfl, rfl, le_refl _, fun _ => rfl⟩

theorem weight_nonneg
    {w : GetPc → Int}
    (hWeight : ∀ pc, 0 ≤ w pc) :
    0 ≤ s.weight w := by
  apply Population.total_nonneg
  intro p
  cases p with
  | get key start pc => exact hWeight pc
  | set key value pc => exact le_refl _
  | invalidate key pc => exact le_refl _

/- Calls that have returned have nothing left to count. -/
theorem weight_eq_zero
    {w : GetPc → Int}
    (hNone : s.NoGet)
    (hDone : ∀ result, w (.done result) = 0) :
    s.weight w = 0 := by
  apply Population.total_eq_zero
  intro id p hProc
  cases p with
  | get key start pc =>
      rcases hNone id key start pc hProc with ⟨result, rfl⟩
      exact hDone result
  | set key value pc => rfl
  | invalidate key pc => rfl

/- A weight less one for each lookup. -/
theorem weight_sub_one
    (w : GetPc → Int) :
    s.weight (fun pc => w pc - 1) =
      s.weight w - s.getCalls := by
  have hSplit :
      Proc.weigh w =
        fun p =>
          Proc.weigh (fun pc => w pc - 1) p +
            Proc.weigh (fun _ => 1) p := by
    funext p
    cases p with
    | get key start pc => simp [Proc.weigh]
    | set key value pc => rfl
    | invalidate key pc => rfl
  unfold getCalls weight
  rw [hSplit, Population.total_add]
  omega

/- Balances are the claims about the counters. -/
theorem flowConserved_of_flow
    (hFlow : s.Flow cfg) :
    s.FlowConserved cfg := by
  have hL1 := hFlow.lookups
  rw [weight_sub_one] at hL1
  have hL2Weight : 0 ≤ s.weight beforeL2 :=
    weight_nonneg beforeL2_nonneg
  have hOriginWeight : 0 ≤ s.weight beforeOrigin :=
    weight_nonneg beforeOrigin_nonneg
  have hL2 := hFlow.l2
  have hOrigin := hFlow.origin
  constructor
  · omega
  · omega
  · intro hNone
    have hZero : s.weight beforeL1 = 0 :=
      weight_eq_zero hNone (fun _ => rfl)
    push_cast
    omega
  · intro hNone
    have hZero : s.weight beforeL2 = 0 :=
      weight_eq_zero hNone (fun _ => rfl)
    omega
  · intro hNone hDirect
    have hEq := hFlow.direct hDirect
    have hZero : s.weight beforeOrigin = 0 :=
      weight_eq_zero hNone (fun _ => rfl)
    omega

/- Returned calls, checked one by one. -/
theorem noGet_of_finished
    (hNum : s.Numbered)
    (hDone :
      ∀ id < s.next,
        (s.procs id).all Proc.finished = true) :
    s.NoGet := by
  intro id key start pc hProc
  have hCall := hDone id (lt_next hNum hProc)
  rw [hProc] at hCall
  cases pc with
  | done result => exact ⟨result, rfl⟩
  | _ => cases hCall

end ManagerSystem

end CacheServer
