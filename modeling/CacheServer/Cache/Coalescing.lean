import CacheServer.Cache.ColdKey
import CacheServer.Cache.Counters

/-
  What the coalesced calls are counted as.

  A lookup that misses both tiers calls the origin or joins
  the call of another. `Group.Do` tells everyone who took
  part in a shared call so, and the one that made the origin
  call is then counted as coalesced as well.

  Key definitions include:
    * `CacheServer.Metrics.accounted`
    * `CacheServer.ManagerSystem.overcount`
    * `CacheServer.ManagerSystem.FetchesAlone`

  Key theorems include:
    * `CacheServer.GetPc.next_unaccounted`
    * `CacheServer.ManagerSystem.allAlone_step`
    * `CacheServer.ManagerSystem.someShared_step`
    * `CacheServer.coalescing_accounted_iff`
-/

------------------------------------------------------------
-- Steps Of A Get
------------------------------------------------------------

namespace CacheServer

/- The L2 misses that have been accounted for twice. -/
def Metrics.accounted
    (m : Metrics) :
    Int :=
  (m.originCalls : Int) + m.coalescedCalls - m.l2Misses

namespace GetPc

/- A counted L2 miss with no call counted for it yet. -/
def unaccounted :
    GetPc → Int
| .fetch => 1
| .joined _ => 1
| .countOriginCall => 1
| .countCoalesced _ => 1
| _ => 0

variable {cfg : ManagerConfig}
variable {s t : Shared}
variable {c : Caller}
variable {fault : Fault}
variable {origin : OriginReply}
variable {pc pc' : GetPc}

/- Only the shared return of a leader upsets the account. -/
theorem next_unaccounted
    (elapsed : Int)
    (m : Metrics)
    (h : Next cfg s c fault origin pc pc') :
    ((∀ result, pc = .fnReturn result →
      pc' ≠ .countCoalesced result) ∧
        (pc.tally elapsed m).accounted + pc'.unaccounted =
          m.accounted + pc.unaccounted) ∨
      (∃ result,
        pc = .fnReturn result ∧ pc' = .countCoalesced result ∧
          (pc.tally elapsed m).accounted + pc'.unaccounted =
            m.accounted + pc.unaccounted + 1) := by
  cases h with
  | returnShared =>
      refine Or.inr ⟨_, rfl, rfl, ?_⟩
      simp only [tally, unaccounted]
      omega
  | returnAlone =>
      apply Or.inl
      refine ⟨?_, rfl⟩
      intro result _ hPc
      cases hPc
  | countL2Miss =>
      refine Or.inl ⟨by simp, ?_⟩
      simp only [tally, Metrics.accounted, unaccounted]
      push_cast
      omega
  | countOriginCall =>
      refine Or.inl ⟨by simp, ?_⟩
      simp only [tally, Metrics.accounted, unaccounted]
      push_cast
      omega
  | countCoalesced =>
      refine Or.inl ⟨by simp, ?_⟩
      simp only [tally, Metrics.accounted, unaccounted]
      push_cast
      omega
  | _ => exact Or.inl ⟨by simp, rfl⟩

/- A `Get` that is alone in its call returns alone. -/
theorem run_alone
    (hAlone :
      ∀ key flight,
        s.group key = some flight → flight.dups = 0)
    (hFetch : pc = .fetch → s.group c.key = none)
    (h : pc.run cfg s c fault origin = some (t, pc')) :
    (∀ key flight,
      t.group key = some flight → flight.dups = 0) ∧
      ∀ result,
        pc = .fnReturn result → pc' ≠ .countCoalesced result := by
  by_cases hPc : pc = .fetch
  · subst hPc
    refine ⟨?_, fun result hReturn => by cases hReturn⟩
    have hRun : runFetch cfg s c = (t, pc') :=
      Option.some.inj h
    have hShared : (runFetch cfg s c).1 = t := by rw [hRun]
    intro key flight hFlight
    rw [← hShared] at hFlight
    unfold runFetch at hFlight
    cases hUse : cfg.useSF with
    | false =>
        simp only [hUse, Bool.false_eq_true, if_false]
          at hFlight
        exact hAlone key flight hFlight
    | true =>
        simp only [hUse, if_true, hFetch rfl] at hFlight
        by_cases hKey : key = c.key
        · subst hKey
          rw [Function.update_self] at hFlight
          cases hFlight
          rfl
        · rw [Function.update_of_ne hKey] at hFlight
          exact hAlone key flight hFlight
  · by_cases hReturn : ∃ result, pc = .fnReturn result
    · rcases hReturn with ⟨result, rfl⟩
      have hRun : runFnReturn cfg s c result = (t, pc') :=
        Option.some.inj h
      constructor
      · intro key flight hFlight
        exact
          hAlone key flight (runFnReturn_group hRun hFlight).1
      · intro again _ hShared
        have hPc' : (runFnReturn cfg s c result).2 = pc' := by
          rw [hRun]
        rw [hShared] at hPc'
        unfold runFnReturn at hPc'
        cases hUse : cfg.useSF with
        | false =>
            simp only [hUse, Bool.false_eq_true, if_false]
              at hPc'
            cases hPc'
        | true =>
            simp only [hUse, if_true] at hPc'
            cases hGroup : s.group c.key with
            | none =>
                simp only [hGroup] at hPc'
                cases hPc'
            | some flight =>
                have hZero := hAlone c.key flight hGroup
                rcases flight with ⟨leader, dups⟩
                simp only at hZero
                subst hZero
                simp only [hGroup] at hPc'
                cases hPc'
    · have hNot : ∀ result, pc ≠ .fnReturn result :=
        fun result hEq => hReturn ⟨result, hEq⟩
      rw [(run_effect h).group hPc hNot]
      refine ⟨hAlone, fun result hEq => ?_⟩
      exact absurd hEq (hNot result)

/- A call that has been joined goes on, or returns shared. -/
theorem run_shared
    {key : Key}
    {flight : Flight}
    (hUse : cfg.useSF = true)
    (hFlight : s.group key = some flight)
    (hPos : 1 ≤ flight.dups)
    (h : pc.run cfg s c fault origin = some (t, pc')) :
    (∃ next, t.group key = some next ∧ 1 ≤ next.dups) ∨
      ∃ result,
        pc = .fnReturn result ∧ pc' = .countCoalesced result := by
  by_cases hPc : pc = .fetch
  · subst hPc
    apply Or.inl
    have hRun : runFetch cfg s c = (t, pc') :=
      Option.some.inj h
    have hShared : (runFetch cfg s c).1 = t := by rw [hRun]
    rw [← hShared]
    unfold runFetch
    by_cases hKey : key = c.key
    · subst hKey
      simp only [hUse, if_true, hFlight]
      exact ⟨_, Function.update_self _ _ _, by simp⟩
    · cases hGroup : s.group c.key with
      | none =>
          simp only [hUse, if_true]
          refine ⟨flight, ?_, hPos⟩
          rw [Function.update_of_ne hKey]
          exact hFlight
      | some other =>
          simp only [hUse, if_true]
          refine ⟨flight, ?_, hPos⟩
          rw [Function.update_of_ne hKey]
          exact hFlight
  · by_cases hReturn : ∃ result, pc = .fnReturn result
    · rcases hReturn with ⟨result, rfl⟩
      have hRun : runFnReturn cfg s c result = (t, pc') :=
        Option.some.inj h
      by_cases hKey : key = c.key
      · apply Or.inr
        refine ⟨result, rfl, ?_⟩
        have hPc' : (runFnReturn cfg s c result).2 = pc' := by
          rw [hRun]
        rw [← hPc', runFnReturn, hUse, if_pos rfl, ← hKey,
          hFlight]
        rcases flight with ⟨leader, dups⟩
        cases dups with
        | zero => cases hPos
        | succ dups => rfl
      · apply Or.inl
        have hShared : (runFnReturn cfg s c result).1 = t := by
          rw [hRun]
        refine ⟨flight, ?_, hPos⟩
        rw [← hShared]
        simp only [runFnReturn, hUse, if_true]
        rw [Function.update_of_ne hKey]
        exact hFlight
    · have hNot : ∀ result, pc ≠ .fnReturn result :=
        fun result hEq => hReturn ⟨result, hEq⟩
      rw [(run_effect h).group hPc hNot]
      exact Or.inl ⟨flight, hFlight, hPos⟩

/- Joining a call makes it a shared one. -/
theorem run_join
    {flight : Flight}
    (hUse : cfg.useSF = true)
    (hGroup : s.group c.key = some flight)
    (h : GetPc.fetch.run cfg s c fault origin =
      some (t, pc')) :
    ∃ next, t.group c.key = some next ∧ 1 ≤ next.dups := by
  have hRun : runFetch cfg s c = (t, pc') :=
    Option.some.inj h
  have hShared : (runFetch cfg s c).1 = t := by rw [hRun]
  rw [← hShared]
  simp only [runFetch, hUse, if_true, hGroup]
  exact ⟨_, Function.update_self _ _ _, by simp⟩

end GetPc

end CacheServer

------------------------------------------------------------
-- Runs
------------------------------------------------------------

namespace CacheServer

namespace ManagerSystem

open GetPc

/- What has been accounted for twice, when all calls end. -/
def overcount
    (s : ManagerSystem) :
    Int :=
  s.metrics.accounted + s.weight unaccounted

/- No `Get` that fetches finds a running call of its key. -/
def FetchesAlone
    (s : ManagerSystem) :
    ManagerAction → Prop
| .run id _ _ =>
    ∀ key start,
      s.procs id = some (.get key start .fetch) →
        s.shared.group key = none
| _ => True

/- Nobody has joined a call. -/
structure AllAlone
    (s : ManagerSystem) :
    Prop where
  numbered : s.Numbered
  balanced : s.overcount = 0
  alone :
    ∀ key flight,
      s.shared.group key = some flight → flight.dups = 0

/- Somebody has, and the leader is counted twice or will be. -/
structure SomeShared
    (s : ManagerSystem) :
    Prop where
  numbered : s.Numbered
  nonneg : 0 ≤ s.overcount
  counted :
    1 ≤ s.overcount ∨
      ∃ key flight,
        s.shared.group key = some flight ∧ 1 ≤ flight.dups

variable {cfg : ManagerConfig}
variable {s s' : ManagerSystem}
variable {a : ManagerAction}

/- A step upsets the account when a leader returns shared. -/
theorem overcount_step
    (hNum : s.Numbered)
    (h : s.step cfg a = some s') :
    (∃ id fault origin key start pc pc',
      a = .run id fault origin ∧
        s.procs id = some (.get key start pc) ∧
        GetPc.run cfg s.shared
            { id := id, key := key, start := start
              cancelled := s.cancelled id }
            fault origin pc =
          some (s'.shared, pc') ∧
        (((∀ result, pc = .fnReturn result →
          pc' ≠ .countCoalesced result) ∧
            s'.overcount = s.overcount) ∨
          ((∃ result,
            pc = .fnReturn result ∧
              pc' = .countCoalesced result) ∧
            s'.overcount = s.overcount + 1))) ∨
      ((∀ id fault origin key start pc,
        a = .run id fault origin →
          s.procs id ≠ some (.get key start pc)) ∧
        s'.shared.group = s.shared.group ∧
        s'.overcount = s.overcount) := by
  rcases step_adds Metrics.accounted unaccounted hNum h with
    ⟨id, fault, origin, key, start, pc, pc', rfl, hProc, hPc,
      hAdds⟩ | ⟨⟨key, rfl⟩, hShared, hAdds⟩ |
      ⟨hNot, hGroup, hAdds⟩
  · refine
      Or.inl
        ⟨id, fault, origin, key, start, pc, pc', rfl, hProc,
          hPc, ?_⟩
    rcases next_unaccounted
        (s.shared.store.clock - start) s.metrics
        (GetPc.run_next hPc) with
      ⟨hNot, hLocal⟩ | ⟨result, hReturn, hPc', hLocal⟩
    · refine Or.inl ⟨hNot, ?_⟩
      unfold overcount
      omega
    · refine Or.inr ⟨⟨result, hReturn, hPc'⟩, ?_⟩
      unfold overcount
      omega
  · refine Or.inr ⟨by simp, by rw [hShared], ?_⟩
    have hZero : GetPc.l1Read.unaccounted = 0 := rfl
    unfold overcount
    omega
  · exact Or.inr ⟨hNot, hGroup, hAdds⟩

/- As long as nobody joins, nothing is counted twice. -/
theorem allAlone_step
    (hAll : s.AllAlone)
    (hFetch : s.FetchesAlone a)
    (h : s.step cfg a = some s') :
    s'.AllAlone := by
  have hNum := numbered_step hAll.numbered h
  rcases overcount_step hAll.numbered h with
    ⟨id, fault, origin, key, start, pc, pc', rfl, hProc, hPc,
      hCount⟩ | ⟨_, hGroup, hCount⟩
  · have hAlone : pc = .fetch → s.shared.group key = none := by
      intro hEq
      subst hEq
      exact hFetch key start hProc
    rcases run_alone hAll.alone hAlone hPc with ⟨hNext, hNot⟩
    rcases hCount with
      ⟨_, hSame⟩ | ⟨⟨result, hReturn, hShared⟩, _⟩
    · exact ⟨hNum, hSame.trans hAll.balanced, hNext⟩
    · exact absurd hShared (hNot result hReturn)
  · refine ⟨hNum, hCount.trans hAll.balanced, ?_⟩
    rw [hGroup]
    exact hAll.alone

/- A `Get` that joins a call makes it a shared one. -/
theorem someShared_of_join
    (hUse : cfg.useSF = true)
    (hAll : s.AllAlone)
    (hFetch : ¬ s.FetchesAlone a)
    (h : s.step cfg a = some s') :
    s'.SomeShared := by
  have hNum := numbered_step hAll.numbered h
  cases a with
  | run id fault origin =>
      simp only [FetchesAlone, not_forall] at hFetch
      rcases hFetch with ⟨key, start, hProc, hGroup⟩
      rcases Option.ne_none_iff_exists'.mp hGroup with
        ⟨flight, hFlight⟩
      rcases overcount_step hAll.numbered h with
        ⟨i, f, o, key', start', pc, pc', hA, hProc', hPc,
          hCount⟩ | ⟨hNot, _⟩
      · cases hA
        rw [hProc] at hProc'
        cases hProc'
        rcases hCount with ⟨_, hSame⟩ | ⟨⟨_, hReturn, _⟩, _⟩
        · refine
            ⟨hNum, ?_, Or.inr ⟨key, run_join hUse hFlight hPc⟩⟩
          rw [hSame, hAll.balanced]
        · cases hReturn
      · exact absurd hProc (hNot id fault origin _ _ _ rfl)
  | _ => exact absurd trivial hFetch

/- What is counted twice stays so. -/
theorem someShared_step
    (hUse : cfg.useSF = true)
    (hSome : s.SomeShared)
    (h : s.step cfg a = some s') :
    s'.SomeShared := by
  have hNum := numbered_step hSome.numbered h
  have hNonneg := hSome.nonneg
  rcases overcount_step hSome.numbered h with
    ⟨id, fault, origin, key, start, pc, pc', rfl, hProc, hPc,
      hCount⟩ | ⟨_, hGroup, hCount⟩
  · rcases hCount with ⟨hNot, hSame⟩ | ⟨_, hMore⟩
    · refine ⟨hNum, by omega, ?_⟩
      rcases hSome.counted with
        hCounted | ⟨k, flight, hFlight, hPos⟩
      · exact Or.inl (by omega)
      · rcases run_shared hUse hFlight hPos hPc with
          hKept | ⟨result, hReturn, hShared⟩
        · exact Or.inr ⟨k, hKept⟩
        · exact absurd hShared (hNot result hReturn)
    · exact ⟨hNum, by omega, Or.inl (by omega)⟩
  · refine ⟨hNum, by omega, ?_⟩
    rw [hGroup, hCount]
    exact hSome.counted

theorem allAlone_new
    (maxSize : Int)
    (l1TTL : Int)
    (redis : Redis)
    (clock : Int) :
    (ManagerSystem.new maxSize l1TTL redis clock).AllAlone := by
  refine ⟨numbered_new maxSize l1TTL redis clock, rfl, ?_⟩
  intro key flight hFlight
  cases hFlight

/- Without a `Get` in flight no call is running. -/
theorem NoGet.no_flight
    (hNone : s.NoGet)
    (hOk : s.FlightsOk cfg)
    (key : Key) :
    s.shared.group key = none := by
  cases hFlight : s.shared.group key with
  | none => rfl
  | some flight =>
      rcases hOk.leads key flight hFlight with
        ⟨start, pc, hProc, hLeads⟩
      rcases hNone _ key start pc hProc with ⟨result, rfl⟩
      exact hLeads.elim

end ManagerSystem

/-
  With no `Get` in flight every L2 miss is one origin call or
  one coalesced call, exactly if no `Get` ever joined the
  call of another.
-/
theorem coalescing_accounted_iff
    (cfg : ManagerConfig)
    (maxSize : Int)
    (l1TTL : Int)
    (redis : Redis)
    (clock : Int)
    (actions : List ManagerAction)
    (s : ManagerSystem)
    (hUse : cfg.useSF = true)
    (hRun :
      (managerMachine cfg).exec
          (ManagerSystem.new maxSize l1TTL redis clock)
          actions =
        some s)
    (hNone : s.NoGet) :
    s.metrics.l2Misses =
        s.metrics.originCalls + s.metrics.coalescedCalls ↔
      (managerMachine cfg).Along ManagerSystem.FetchesAlone
        (ManagerSystem.new maxSize l1TTL redis clock)
        actions := by
  have hWell :=
    ManagerSystem.wellFormed_exec
      (ManagerSystem.wellFormed_new cfg maxSize l1TTL redis
        clock) hRun
  have hWeight : s.weight GetPc.unaccounted = 0 :=
    ManagerSystem.weight_eq_zero hNone (fun _ => rfl)
  have hOver :
      s.overcount =
        (s.metrics.originCalls : Int) +
          s.metrics.coalescedCalls - s.metrics.l2Misses := by
    unfold ManagerSystem.overcount Metrics.accounted
    omega
  rcases Machine.along_or_marked
      (P := ManagerSystem.FetchesAlone)
      (fun _ _ _ hAll hFetch hStep =>
        ManagerSystem.allAlone_step hAll hFetch hStep)
      (fun _ _ _ hAll hFetch hStep =>
        ManagerSystem.someShared_of_join hUse hAll hFetch
          hStep)
      (fun _ _ _ hSome hStep =>
        ManagerSystem.someShared_step hUse hSome hStep)
      hRun (ManagerSystem.allAlone_new _ _ _ _) with
    ⟨hAlong, hAll⟩ | ⟨hNot, hSome⟩
  · refine iff_of_true ?_ hAlong
    have hZero := hAll.balanced
    omega
  · refine iff_of_false ?_ hNot
    rcases hSome.counted with
      hCounted | ⟨key, flight, hFlight, _⟩
    · omega
    · rw [hNone.no_flight hWell.flights key] at hFlight
      cases hFlight

/- Two overlapping lookups, neither of which joins. -/
theorem coalescing_accounted_late :
    ∃ s,
      (managerMachine ⟨true, 100⟩).exec freshManager
          lateGet =
        some s ∧
        s.metrics.l2Misses =
            s.metrics.originCalls +
              s.metrics.coalescedCalls ∧
          (managerMachine ⟨true, 100⟩).Along
            ManagerSystem.FetchesAlone freshManager
            lateGet := by
  have hRun :
      (managerMachine ⟨true, 100⟩).exec freshManager lateGet =
        some _ :=
    Machine.exec_get rfl
  have hNone :=
    ManagerSystem.noGet_of_finished
      (ManagerSystem.numbered_exec
        (ManagerSystem.numbered_new 1000 5 ∅ 0) hRun)
      (by decide)
  have hIff :=
    coalescing_accounted_iff ⟨true, 100⟩ 1000 5 ∅ 0 lateGet _
      rfl hRun hNone
  exact ⟨_, hRun, rfl, hIff.mp rfl⟩

/-
  Of two lookups that share a call both are counted as
  coalesced, and one of them as an origin call too.
-/
theorem coalescing_counts_leader :
    ¬ ∀ (cfg : ManagerConfig) (maxSize l1TTL : Int)
        (redis : Redis) (clock : Int)
        (actions : List ManagerAction) (s : ManagerSystem),
      cfg.useSF = true →
        (managerMachine cfg).exec
            (ManagerSystem.new maxSize l1TTL redis clock)
            actions =
          some s →
          s.NoGet →
            s.metrics.l2Misses =
              s.metrics.originCalls +
                s.metrics.coalescedCalls := by
  intro h
  have hRun :
      (managerMachine ⟨true, 100⟩).exec freshManager
          (joinedGets ++
            [.proceed 0, .proceed 0, .proceed 0, .proceed 0,
              .proceed 0, .proceed 0, .proceed 0,
              .proceed 1, .proceed 1, .proceed 1,
              .proceed 1]) =
        some _ :=
    Machine.exec_get rfl
  have hNone := ManagerSystem.noGet_of_finished
    (ManagerSystem.numbered_exec
      (ManagerSystem.numbered_new 1000 5 ∅ 0) hRun)
    (by decide)
  exact
    absurd (h ⟨true, 100⟩ 1000 5 ∅ 0 _ _ rfl hRun hNone)
      (by decide)

end CacheServer
