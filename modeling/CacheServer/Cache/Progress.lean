import CacheServer.Cache.Singleflight
import CacheServer.Lib.Population

/-
  Calls of the manager that go on.

  A call has so many steps left, whatever its backends do.
  The only step that waits is that of a `Get` which has
  joined another; its leader can go on, or has handed on its
  result. So calls neither block each other nor run forever.

  Key definitions include:
    * `CacheServer.Proc.stepsLeft`
    * `CacheServer.ManagerSystem.work`
    * `CacheServer.ManagerSystem.Awaited`
    * `CacheServer.ManagerSystem.Ready`

  Key theorems include:
    * `CacheServer.GetPc.next_stepsLeft`
    * `CacheServer.ManagerSystem.work_step`
    * `CacheServer.ManagerSystem.exists_ready`
    * `CacheServer.manager_calls_return`
-/

------------------------------------------------------------
-- Steps That Are Left
------------------------------------------------------------

namespace CacheServer

/-
  The steps of a `Get` that are left, at most. The goroutine
  that the `Get` is yet to start takes one of them.
-/
def GetPc.stepsLeft :
    GetPc → Nat
| .l1Read => 17
| .l1Check _ => 16
| .lazyDelete => 15
| .countL1Miss => 14
| .countL1Hit _ => 3
| .l2Get => 13
| .countL2Err => 12
| .countL2Miss => 11
| .countL2Hit _ => 4
| .backPopulate _ => 3
| .fetch => 10
| .joined _ => 4
| .countOriginCall => 9
| .originCall => 8
| .countOriginErr _ => 5
| .spawn _ => 7
| .l1Store _ => 5
| .fnReturn _ => 4
| .countCoalesced _ => 3
| .addLatency _ => 2
| .countRequest _ => 1
| .done _ => 0

def WritePc.stepsLeft :
    WritePc → Nat
| .l1 => 2
| .l2 => 1
| .done _ => 0

def Proc.stepsLeft :
    Proc → Nat
| .get _ _ pc => pc.stepsLeft
| .set _ _ pc => pc.stepsLeft
| .invalidate _ pc => pc.stepsLeft

/- The steps that a call takes, at most. -/
def ManagerCall.steps :
    ManagerCall → Nat
| .get _ => 17
| .set _ _ => 2
| .invalidate _ => 2

/- A step of a call, or of a goroutine it has started. -/
def ManagerAction.cost :
    ManagerAction → Nat
| .run _ _ _ => 1
| .background _ _ => 1
| _ => 0

/- The steps that a new call brings with it. -/
def ManagerAction.gain :
    ManagerAction → Nat
| .call begun => begun.steps
| _ => 0

namespace GetPc

variable {cfg : ManagerConfig}
variable {s : Shared}
variable {c : Caller}
variable {fault : Fault}
variable {origin : OriginReply}
variable {pc pc' : GetPc}

/- A step leaves fewer, also with the goroutine it starts. -/
theorem next_stepsLeft
    (h : Next cfg s c fault origin pc pc') :
    pc'.stepsLeft + 1 +
        (pc.spawned c.key).elim 0 (fun _ => 1) ≤
      pc.stepsLeft := by
  cases h with
  | _ => simp [stepsLeft, spawned]

end GetPc

namespace WritePc

variable {cfg : ManagerConfig}
variable {s t : Shared}
variable {key : Key}
variable {value : Value}
variable {fault : Fault}
variable {pc pc' : WritePc}

theorem runSet_stepsLeft
    (h : pc.runSet cfg s key value fault = some (t, pc')) :
    pc'.stepsLeft + 1 = pc.stepsLeft := by
  cases pc with
  | done error => cases h
  | _ =>
      cases h
      rfl

theorem runInvalidate_stepsLeft
    (h : pc.runInvalidate s key fault = some (t, pc')) :
    pc'.stepsLeft + 1 = pc.stepsLeft := by
  cases pc with
  | done error => cases h
  | _ =>
      cases h
      rfl

end WritePc

namespace Proc

variable {cfg : ManagerConfig}
variable {s t : Shared}
variable {id : Nat}
variable {cancelled : Bool}
variable {fault : Fault}
variable {origin : OriginReply}
variable {p p' : Proc}

theorem run_stepsLeft
    (h :
      p.run cfg s id cancelled fault origin =
        some (t, p')) :
    p'.stepsLeft + 1 + p.spawned.elim 0 (fun _ => 1) ≤
      p.stepsLeft := by
  cases p with
  | get key start pc =>
      rcases run_get h with ⟨pc', rfl, hPc⟩
      exact GetPc.next_stepsLeft (GetPc.run_next hPc)
  | set key value pc =>
      rcases run_set h with ⟨pc', rfl, hPc⟩
      exact le_of_eq (WritePc.runSet_stepsLeft hPc)
  | invalidate key pc =>
      rcases run_invalidate h with ⟨pc', rfl, hPc⟩
      exact le_of_eq (WritePc.runInvalidate_stepsLeft hPc)

end Proc

end CacheServer

------------------------------------------------------------
-- The Work That Is Left
------------------------------------------------------------

namespace CacheServer

namespace ManagerSystem

variable {cfg : ManagerConfig}
variable {s s' : ManagerSystem}
variable {a : ManagerAction}

/- Background writes that have not been made. -/
def pending
    (background : Nat → Option (Key × Value))
    (n : Nat) :
    Int :=
  Population.total (fun _ => 1) background n

/- The steps that are left of all calls made so far. -/
def work
    (s : ManagerSystem) :
    Int :=
  Population.total (fun p : Proc => (p.stepsLeft : Int))
      s.procs s.next +
    pending s.shared.background s.next

theorem work_nonneg
    (s : ManagerSystem) :
    0 ≤ s.work := by
  have hProcs :
      0 ≤ Population.total
        (fun p : Proc => (p.stepsLeft : Int)) s.procs
        s.next :=
    Population.total_nonneg _ (fun _ => Int.natCast_nonneg _)
  have hPending : 0 ≤ pending s.shared.background s.next :=
    Population.total_nonneg _ (fun _ => Int.one_nonneg)
  simp only [work]
  omega

/- A step of a call starts one background write at most. -/
theorem pending_run
    {id : Nat}
    {p : Proc}
    {t : Shared}
    {fault : Fault}
    {n : Nat}
    (hEffect : Proc.Effect cfg s.shared t id fault p)
    (hLt : id < n) :
    pending t.background n ≤
      pending s.shared.background n +
        p.spawned.elim 0 (fun _ => 1) := by
  cases hSpawn : p.spawned with
  | none =>
      have hLe :
          pending t.background n ≤
            pending s.shared.background n := by
        apply Population.total_le_total n
        · intro _
          exact Int.one_nonneg
        · intro i entry hNew
          rcases hEffect.background i entry hNew with
            hOld | ⟨_, hStart⟩
          · exact ⟨entry, hOld, le_refl _⟩
          · rw [hSpawn] at hStart
            cases hStart
      simpa using hLe
  | some entry =>
      have hLe :
          pending t.background n ≤
            pending
              (Function.update s.shared.background id
                (some entry)) n := by
        apply Population.total_le_total n
        · intro _
          exact Int.one_nonneg
        · intro i other hNew
          by_cases hEq : i = id
          · subst hEq
            exact
              ⟨entry, Function.update_self .., le_refl _⟩
          · rcases hEffect.background i other hNew with
              hOld | ⟨hSame, _⟩
            · refine ⟨other, ?_, le_refl _⟩
              rw [Function.update_of_ne hEq]
              exact hOld
            · exact absurd hSame hEq
      have hPut :
          pending
                (Function.update s.shared.background id
                  (some entry)) n +
              (s.shared.background id).elim 0 (fun _ => 1) =
            pending s.shared.background n + 1 :=
        Population.total_put (some entry) hLt
      have hOld :
          0 ≤ (s.shared.background id).elim (0 : Int)
            (fun _ => 1) := by
        cases s.shared.background id with
        | none => exact le_refl _
        | some other => exact Int.one_nonneg
      simp only [pending, Option.elim] at hLe hPut hOld ⊢
      omega

/- The work left pays for a step, with what a call brings. -/
theorem work_step
    (hNum : s.Numbered)
    (h : s.step cfg a = some s') :
    s'.work + a.cost ≤ s.work + a.gain := by
  cases a with
  | call call =>
      cases h
      have hJoin :=
        Population.total_join
          (w := fun p : Proc => (p.stepsLeft : Int)) s.procs
          s.next (call.proc s.shared.store.clock)
      have hSteps :
          (call.proc s.shared.store.clock).stepsLeft =
            call.steps := by
        cases call with
        | get key => rfl
        | set key value => rfl
        | invalidate key => rfl
      have hNone := hNum.background s.next (le_refl _)
      simp only [work, pending, Population.total, hNone,
        Option.elim, hSteps, ManagerAction.cost,
        ManagerAction.gain] at hJoin ⊢
      omega
  | run id fault origin =>
      rcases step_run h with ⟨p, t, p', hProc, hRun, rfl⟩
      have hLt : id < s.next := by
        by_contra hLe
        rw [hNum.procs id (not_lt.mp hLe)] at hProc
        cases hProc
      have hMove :=
        Population.total_update
          (w := fun p : Proc => (p.stepsLeft : Int)) p' hLt
          hProc
      have hPending :=
        pending_run (Proc.run_effect hRun) hLt
      have hLess := Proc.run_stepsLeft hRun
      simp only [work, ManagerAction.cost, ManagerAction.gain]
      cases hSpawn : p.spawned with
      | none =>
          rw [hSpawn] at hPending hLess
          simp only [Option.elim] at hPending hLess
          omega
      | some entry =>
          rw [hSpawn] at hPending hLess
          simp only [Option.elim] at hPending hLess
          omega
  | background id fault =>
      rcases step_background h with ⟨key, value, hEntry, rfl⟩
      have hLt : id < s.next := by
        by_contra hLe
        rw [hNum.background id (not_lt.mp hLe)] at hEntry
        cases hEntry
      have hPut :
          pending
                (Function.update s.shared.background id none)
                s.next +
              (s.shared.background id).elim 0 (fun _ => 1) =
            pending s.shared.background s.next + 0 :=
        Population.total_put none hLt
      rw [hEntry] at hPut
      simp only [work, pending, Option.elim,
        ManagerAction.cost, ManagerAction.gain] at hPut ⊢
      omega
  | cancel id =>
      cases h
      exact le_refl (s.work + 0)
  | redisDrop key =>
      cases h
      exact le_refl (s.work + 0)
  | tick elapsed =>
      cases h
      exact le_refl (s.work + 0)

end ManagerSystem

end CacheServer

------------------------------------------------------------
-- Results Handed On
------------------------------------------------------------

namespace CacheServer

namespace GetPc

variable {cfg : ManagerConfig}
variable {s t : Shared}
variable {c : Caller}
variable {fault : Fault}
variable {origin : OriginReply}
variable {pc pc' : GetPc}

/- Only the return of a function hands on a result. -/
theorem run_finished
    (h : pc.run cfg s c fault origin = some (t, pc')) :
    (∃ result,
        pc = .fnReturn result ∧ cfg.useSF = true ∧
          t.finished =
            Function.update s.finished c.id (some result)) ∨
      (t.finished = s.finished ∧
        (cfg.useSF = true → ∀ r, pc ≠ .fnReturn r)) := by
  cases pc with
  | fnReturn result =>
      have hRun : runFnReturn cfg s c result = (t, pc') :=
        Option.some.inj h
      cases hUse : cfg.useSF with
      | false =>
          simp only [runFnReturn, hUse, Bool.false_eq_true,
            if_false, Prod.mk.injEq] at hRun
          rw [← hRun.1]
          exact Or.inr ⟨rfl, fun hTrue => by cases hTrue⟩
      | true =>
          simp only [runFnReturn, hUse, if_true,
            Prod.mk.injEq] at hRun
          rw [← hRun.1]
          exact Or.inl ⟨result, rfl, rfl, rfl⟩
  | originCall =>
      refine Or.inr ⟨?_, by simp⟩
      rcases origin with value | (text | _)
      · grind [run]
      · grind [run]
      · grind [run]
  | _ =>
      refine Or.inr ⟨?_, by simp⟩
      grind [run, runFetch, Shared.setL1, Shared.setMetrics]

end GetPc

namespace ManagerSystem

variable {cfg : ManagerConfig}
variable {s s' : ManagerSystem}
variable {a : ManagerAction}

/- What a step does to the results that are handed on. -/
theorem step_finished_eq
    (h : s.step cfg a = some s') :
    (∃ id fault origin key start result,
        a = .run id fault origin ∧
          s.procs id =
              some (.get key start (.fnReturn result)) ∧
            s'.shared.finished =
              Function.update s.shared.finished id
                (some result)) ∨
      (s'.shared.finished = s.shared.finished ∧
        (cfg.useSF = true →
          ∀ id fault origin key start result,
            a = .run id fault origin →
              s.procs id ≠
                some (.get key start (.fnReturn result)))) := by
  cases a with
  | call call =>
      cases h
      exact Or.inr ⟨rfl, by simp⟩
  | run id fault origin =>
      rcases step_run h with ⟨p, t, p', hProc, hRun, rfl⟩
      cases p with
      | get key start pc =>
          rcases Proc.run_get hRun with ⟨pc', rfl, hPc⟩
          rcases GetPc.run_finished hPc with
            ⟨result, rfl, hUse, hEq⟩ | ⟨hEq, hNot⟩
          · exact
              Or.inl
                ⟨id, fault, origin, key, start, result, rfl,
                  hProc, hEq⟩
          · refine Or.inr ⟨hEq, ?_⟩
            intro hUse other _ _ k begun result hSame hOther
            cases hSame
            rw [hProc] at hOther
            cases hOther
            exact hNot hUse result rfl
      | set key value pc =>
          rcases Proc.run_set hRun with ⟨pc', rfl, hPc⟩
          refine Or.inr ⟨?_, ?_⟩
          · cases pc with
            | done error => cases hPc
            | _ =>
                cases hPc
                rfl
          · intro _ other _ _ k begun result hSame hOther
            cases hSame
            rw [hProc] at hOther
            cases hOther
      | invalidate key pc =>
          rcases Proc.run_invalidate hRun with
            ⟨pc', rfl, hPc⟩
          refine Or.inr ⟨?_, ?_⟩
          · cases pc with
            | done error => cases hPc
            | _ =>
                cases hPc
                rfl
          · intro _ other _ _ k begun result hSame hOther
            cases hSame
            rw [hProc] at hOther
            cases hOther
  | background id fault =>
      rcases step_background h with ⟨_, _, _, rfl⟩
      exact Or.inr ⟨rfl, by simp⟩
  | cancel id =>
      cases h
      exact Or.inr ⟨rfl, by simp⟩
  | redisDrop key =>
      cases h
      exact Or.inr ⟨rfl, by simp⟩
  | tick elapsed =>
      cases h
      exact Or.inr ⟨rfl, by simp⟩

/- A result that is handed on stays. -/
theorem step_finished_keeps
    {id : Nat}
    {result : GetResult}
    (hOk : s.FlightsOk cfg)
    (h : s.step cfg a = some s')
    (hDone : s.shared.finished id = some result) :
    s'.shared.finished id = some result := by
  rcases step_finished_eq h with
    ⟨other, _, _, key, start, r, _, hProc, hEq⟩ | ⟨hEq, _⟩
  · have hNe : id ≠ other := by
      intro hSame
      subst hSame
      rw [hOk.not_finished hProc trivial] at hDone
      cases hDone
    rw [hEq, Function.update_of_ne hNe]
    exact hDone
  · rw [hEq]
    exact hDone

/-
  What a `Get` that has joined waits for comes: its leader
  leads on, or has handed on its result.
-/
def Awaited
    (cfg : ManagerConfig)
    (s : ManagerSystem) :
    Prop :=
  ∀ id key start leader,
    s.procs id = some (.get key start (.joined leader)) →
      cfg.useSF = true ∧
        ((∃ begun pc,
            s.procs leader = some (.get key begun pc) ∧
              pc.Leads) ∨
          ∃ result, s.shared.finished leader = some result)

/- A leader leads on until it hands on its result. -/
theorem leads_or_finished_step
    {id : Nat}
    {key : Key}
    {start : Int}
    {pc : GetPc}
    (hWell : s.WellFormed cfg)
    (hUse : cfg.useSF = true)
    (h : s.step cfg a = some s')
    (hProc : s.procs id = some (.get key start pc))
    (hLeads : pc.Leads) :
    (∃ begun pc',
        s'.procs id = some (.get key begun pc') ∧
          pc'.Leads) ∨
      ∃ result, s'.shared.finished id = some result := by
  rcases get_next hWell.numbered h hProc with
    ⟨pc', hProc', hSame | ⟨fault, origin, rfl, hNext⟩⟩
  · exact Or.inl ⟨start, pc', hProc', hSame ▸ hLeads⟩
  · rcases GetPc.leads_next hLeads hNext with
      ⟨result, rfl, _⟩ | hStill
    · rcases step_finished_eq h with
        ⟨other, _, _, _, _, r, hAct, _, hEq⟩ | ⟨_, hNot⟩
      · cases hAct
        apply Or.inr
        rw [hEq, Function.update_self]
        exact ⟨r, rfl⟩
      · exact
          absurd hProc
            (hNot hUse id fault origin key start result rfl)
    · exact Or.inl ⟨start, pc', hProc', hStill⟩

theorem awaited_step
    (hWell : s.WellFormed cfg)
    (hAwaited : s.Awaited cfg)
    (h : s.step cfg a = some s') :
    s'.Awaited cfg := by
  intro id key start leader hProc
  have hBefore :
      cfg.useSF = true ∧
        ((∃ begun pc,
            s.procs leader = some (.get key begun pc) ∧
              pc.Leads) ∨
          ∃ result,
            s.shared.finished leader = some result) := by
    rcases step_getProc h hProc with
      hOld | ⟨_, _, _, hPc⟩ | ⟨_, _, pc, _, _, hPc⟩
    · exact hAwaited id key start leader hOld
    · cases hPc
    · cases GetPc.run_next hPc with
      | join hUse hGroup =>
          exact
            ⟨hUse, Or.inl (hWell.flights.leads key _ hGroup)⟩
  rcases hBefore with
    ⟨hUse, ⟨begun, pc, hLeader, hLeads⟩ | ⟨result, hDone⟩⟩
  · exact
      ⟨hUse,
        leads_or_finished_step hWell hUse h hLeader hLeads⟩
  · exact
      ⟨hUse,
        Or.inr
          ⟨result,
            step_finished_keeps hWell.flights h hDone⟩⟩

end ManagerSystem

end CacheServer

------------------------------------------------------------
-- Calls Return
------------------------------------------------------------

namespace CacheServer

/- Only a wait for a result, or a cancelled call, can stop. -/
theorem GetPc.run_enabled
    {cfg : ManagerConfig}
    {s : Shared}
    {c : Caller}
    {fault : Fault}
    {origin : OriginReply}
    {pc : GetPc}
    (hLeft : pc.stepsLeft ≠ 0)
    (hJoined :
      ∀ leader,
        pc = .joined leader →
          ∃ result, s.finished leader = some result)
    (hOrigin : origin ≠ .error .cancelled) :
    ∃ r, pc.run cfg s c fault origin = some r := by
  cases pc with
  | done result => exact absurd rfl hLeft
  | joined leader =>
      rcases hJoined leader rfl with ⟨result, hDone⟩
      exact ⟨(s, .countCoalesced result), by simp [run, hDone]⟩
  | originCall =>
      rcases origin with value | (text | _)
      · exact ⟨_, rfl⟩
      · exact ⟨_, rfl⟩
      · exact absurd rfl hOrigin
  | l1Read =>
      cases hRead : s.store.l1.read c.key with
      | none => exact ⟨(s, .countL1Miss), by simp [run, hRead]⟩
      | some entry =>
          exact ⟨(s, .l1Check entry), by simp [run, hRead]⟩
  | l1Check entry =>
      cases hExp : entry.expired s.store.clock with
      | true => exact ⟨(s, .lazyDelete), by simp [run, hExp]⟩
      | false =>
          exact
            ⟨(s, .countL1Hit entry.value), by
              simp [run, hExp]⟩
  | l2Get =>
      cases hGet :
          L2Cache.get s.store.redis s.store.clock c.key
            fault with
      | hit value =>
          exact ⟨(s, .countL2Hit value), by simp [run, hGet]⟩
      | nil => exact ⟨(s, .countL2Miss), by simp [run, hGet]⟩
      | error => exact ⟨(s, .countL2Err), by simp [run, hGet]⟩
  | _ => exact ⟨_, rfl⟩

/- A call that has not returned has steps left. -/
theorem Proc.stepsLeft_eq_zero
    {p : Proc} :
    p.stepsLeft = 0 ↔ p.finished = true := by
  cases p with
  | get key start pc =>
      cases pc with
      | _ =>
          simp [stepsLeft, GetPc.stepsLeft, finished]
  | set key value pc =>
      cases pc with
      | _ =>
          simp [stepsLeft, WritePc.stepsLeft, finished]
  | invalidate key pc =>
      cases pc with
      | _ =>
          simp [stepsLeft, WritePc.stepsLeft, finished]

namespace ManagerSystem

variable {cfg : ManagerConfig}
variable {s s' : ManagerSystem}
variable {a : ManagerAction}

/- The call takes a step, whatever the backends answer. -/
def Ready
    (cfg : ManagerConfig)
    (s : ManagerSystem)
    (id : Nat) :
    Prop :=
  ∀ fault origin,
    origin ≠ .error .cancelled →
      ∃ t, s.step cfg (.run id fault origin) = some t

/- A `Get` with steps left that does not wait is ready. -/
theorem ready_get
    {id : Nat}
    {key : Key}
    {start : Int}
    {pc : GetPc}
    (hProc : s.procs id = some (.get key start pc))
    (hLeft : pc.stepsLeft ≠ 0)
    (hJoined :
      ∀ leader,
        pc = .joined leader →
          ∃ result,
            s.shared.finished leader = some result) :
    s.Ready cfg id := by
  intro fault origin hOrigin
  rcases GetPc.run_enabled hLeft hJoined hOrigin with
    ⟨r, hRun⟩
  have hProcRun :
      (Proc.get key start pc).run cfg s.shared id
          (s.cancelled id) fault origin =
        some (r.1, .get key start r.2) := by
    rw [Proc.run, hRun]
    rfl
  exact ⟨_, step_of_run hProc hProcRun⟩

/- A call that runs is ready, or a `Get` that it waits for. -/
theorem exists_ready
    {id : Nat}
    {p : Proc}
    (hAwaited : s.Awaited cfg)
    (hProc : s.procs id = some p)
    (hRuns : p.finished = false) :
    ∃ other q,
      s.procs other = some q ∧
        q.finished = false ∧
          q.key = p.key ∧ s.Ready cfg other := by
  have hLeft : p.stepsLeft ≠ 0 := by
    intro hZero
    rw [Proc.stepsLeft_eq_zero.mp hZero] at hRuns
    cases hRuns
  cases p with
  | get key start pc =>
      by_cases hWaits :
          ∃ leader,
            pc = .joined leader ∧
              s.shared.finished leader = none
      · rcases hWaits with ⟨leader, rfl, hNone⟩
        rcases (hAwaited id key start leader hProc).2 with
          ⟨begun, pc, hLeader, hLeads⟩ | ⟨result, hDone⟩
        · refine
            ⟨leader, .get key begun pc, hLeader,
              GetPc.not_finished_of_leads hLeads, rfl,
              ready_get hLeader ?_ ?_⟩
          · intro hZero
            cases pc with
            | done result => exact hLeads
            | _ => cases hZero
          · intro other hJoined
            subst hJoined
            exact hLeads.elim
        · rw [hNone] at hDone
          cases hDone
      · refine
          ⟨id, _, hProc, hRuns, rfl,
            ready_get hProc hLeft ?_⟩
        intro leader hJoined
        cases hDone : s.shared.finished leader with
        | none => exact absurd ⟨leader, hJoined, hDone⟩ hWaits
        | some result => exact ⟨result, rfl⟩
  | set key value pc =>
      refine ⟨id, _, hProc, hRuns, rfl, ?_⟩
      intro fault origin hOrigin
      cases pc with
      | done error => cases hRuns
      | l1 => exact ⟨_, step_of_run hProc rfl⟩
      | l2 => exact ⟨_, step_of_run hProc rfl⟩
  | invalidate key pc =>
      refine ⟨id, _, hProc, hRuns, rfl, ?_⟩
      intro fault origin hOrigin
      cases pc with
      | done error => cases hRuns
      | l1 => exact ⟨_, step_of_run hProc rfl⟩
      | l2 => exact ⟨_, step_of_run hProc rfl⟩

/- What holds in every state reached, with the work left. -/
structure Working
    (cfg : ManagerConfig)
    (n : Nat)
    (s : ManagerSystem) :
    Prop where
  wellFormed : s.WellFormed cfg
  awaited : s.Awaited cfg
  work : s.work = n

theorem working_amortized :
    (managerMachine cfg).Amortized ManagerAction.cost
      ManagerAction.gain (Working cfg) := by
  intro n s a t hWorking hStep
  have hNext := work_step hWorking.wellFormed.numbered hStep
  rw [hWorking.work] at hNext
  refine
    ⟨t.work.toNat, ?_,
      wellFormed_step hWorking.wellFormed hStep,
      awaited_step hWorking.wellFormed hWorking.awaited hStep,
      (Int.toNat_of_nonneg t.work_nonneg).symm⟩
  have hNat := Int.toNat_of_nonneg t.work_nonneg
  omega

theorem working_new
    (cfg : ManagerConfig)
    (maxSize : Int)
    (l1TTL : Int)
    (redis : Redis)
    (clock : Int) :
    Working cfg 0
      (ManagerSystem.new maxSize l1TTL redis clock) :=
  ⟨wellFormed_new cfg maxSize l1TTL redis clock,
    (fun _ _ _ _ h => nomatch h), rfl⟩

/- A step of a call in which nothing fails. -/
def Proceeds
    (a : ManagerAction) :
    Prop :=
  ∃ id, a = .proceed id

/- All calls have returned. -/
def AllReturned
    (s : ManagerSystem) :
    Prop :=
  ∀ id p, s.procs id = some p → p.finished = true

end ManagerSystem

open ManagerSystem

/-
  However the calls interleave, whatever their backends do
  and whichever of them are cancelled: they take seventeen
  steps each at most, with those of the goroutines that they
  start. As long as a call runs, it or a `Get` of its key can
  take its next step, whatever Redis and the origin answer;
  and all calls can be brought to return.
-/
theorem manager_calls_return
    (cfg : ManagerConfig)
    (maxSize : Int)
    (l1TTL : Int)
    (redis : Redis)
    (clock : Int)
    (actions : List ManagerAction)
    (s : ManagerSystem)
    (hRun :
      (managerMachine cfg).exec
          (ManagerSystem.new maxSize l1TTL redis clock)
          actions =
        some s) :
    (actions.map ManagerAction.cost).sum ≤
        (actions.map ManagerAction.gain).sum ∧
      (∀ id p,
        s.procs id = some p →
          p.finished = false →
            ∃ other q,
              s.procs other = some q ∧
                q.finished = false ∧
                  q.key = p.key ∧ s.Ready cfg other) ∧
      ∃ later t,
        (∀ a ∈ later, Proceeds a) ∧
          (managerMachine cfg).exec s later = some t ∧
            AllReturned t := by
  rcases
    Machine.exec_amortized working_amortized hRun
      (working_new cfg maxSize l1TTL redis clock) with
    ⟨n, hCost, hWorking⟩
  refine ⟨by omega, ?_, ?_⟩
  · intro id p hProc hRuns
    exact exists_ready hWorking.awaited hProc hRuns
  · have hEnabled :
        ∀ n s,
          Working cfg n s →
            AllReturned s ∨
              ∃ a t,
                Proceeds a ∧
                  (managerMachine cfg).step s a = some t := by
      intro n s hWorking
      by_cases hDone : AllReturned s
      · exact Or.inl hDone
      · apply Or.inr
        rcases not_forall.mp hDone with ⟨id, hId⟩
        rcases not_forall.mp hId with ⟨p, hP⟩
        rcases Classical.not_imp.mp hP with ⟨hProc, hRuns⟩
        rcases
          exists_ready hWorking.awaited hProc
            (Bool.not_eq_true _ ▸ hRuns) with
          ⟨other, q, _, _, _, hReady⟩
        rcases hReady .none (.value []) (by simp) with
          ⟨t, hStep⟩
        exact ⟨.proceed other, t, ⟨other, rfl⟩, hStep⟩
    rcases
      Machine.exists_run_of_amortized working_amortized
        (fun a hOwn => by
          rcases hOwn with ⟨id, rfl⟩
          exact ⟨Nat.one_pos, rfl⟩)
        hEnabled hWorking with
      ⟨later, t, hOnly, _, hLater, hDone⟩
    exact ⟨later, t, hOnly, hLater, hDone⟩

/- A `Get` that waits for another one of its key. -/
theorem manager_calls_return_joined :
    ∃ later t,
      (∀ a ∈ later, Proceeds a) ∧
        (managerMachine { useSF := true, l2TTL := 60 }).exec
            (((managerMachine
                  { useSF := true, l2TTL := 60 }).exec
                freshManager
                ([.call (.get [7]), .call (.get [7])] ++
                  List.replicate 5 (.proceed 0) ++
                  List.replicate 5 (.proceed 1))).get
              (by decide)) later =
          some t ∧
          AllReturned t :=
  (manager_calls_return { useSF := true, l2TTL := 60 } 1000 5
    ∅ 0 _ _ (Machine.exec_get (by decide))).2.2

end CacheServer
