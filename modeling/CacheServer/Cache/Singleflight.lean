import CacheServer.Cache.TierSteps

/-
  The singleflight group.

  A running call of the group has a leader, a `Get` of its
  key between `Group.Do` and the return of its function. A
  result is handed on once, when the leader returns.

  Key definitions include:
    * `CacheServer.GetPc.Leads`
    * `CacheServer.ManagerSystem.FlightsOk`
    * `CacheServer.ManagerSystem.JoinsOwn`
    * `CacheServer.ManagerSystem.WellFormed`

  Key theorems include:
    * `CacheServer.GetPc.run_group`
    * `CacheServer.ManagerSystem.flightsOk_step`
    * `CacheServer.ManagerSystem.wellFormed_exec`
-/

------------------------------------------------------------
-- Leaders
------------------------------------------------------------

namespace CacheServer

/- The call is about to join or lead in the group. -/
def Proc.fetches
    (key : Key) :
    Proc → Bool
| .get k _ .fetch => decide (k = key)
| _ => false

namespace GetPc

/- The `Get` is inside the function it passed to `Do`. -/
def Leads :
    GetPc → Prop
| .countOriginCall => True
| .originCall => True
| .countOriginErr _ => True
| .spawn _ => True
| .l1Store _ => True
| .fnReturn _ => True
| _ => False

/- The `Get` has its result. -/
def HasResult :
    GetPc → Prop
| .countCoalesced _ => True
| .addLatency _ => True
| .countRequest _ => True
| .done _ => True
| _ => False

variable {cfg : ManagerConfig}
variable {s t : Shared}
variable {c : Caller}
variable {fault : Fault}
variable {origin : OriginReply}
variable {pc pc' : GetPc}

theorem not_hasResult_of_leads
    (h : pc.Leads) :
    ¬ pc.HasResult := by
  cases pc with
  | countOriginCall => exact fun hResult => hResult
  | originCall => exact fun hResult => hResult
  | countOriginErr cause => exact fun hResult => hResult
  | spawn value => exact fun hResult => hResult
  | l1Store value => exact fun hResult => hResult
  | fnReturn result => exact fun hResult => hResult
  | _ => exact h.elim

theorem not_finished_of_leads
    {key : Key}
    {start : Int}
    (h : pc.Leads) :
    (Proc.get key start pc).finished = false := by
  cases pc with
  | done result => exact h.elim
  | _ => rfl

/- A leader leads on until its function returns. -/
theorem leads_next
    (hLeads : pc.Leads)
    (h : Next cfg s c fault origin pc pc') :
    (∃ result, pc = .fnReturn result ∧ pc'.HasResult) ∨
      pc'.Leads := by
  cases h with
  | countOriginCall => exact Or.inr trivial
  | originValue hOrigin => exact Or.inr trivial
  | originError hOrigin hCause => exact Or.inr trivial
  | countOriginErr => exact Or.inr trivial
  | spawn => exact Or.inr trivial
  | l1Store => exact Or.inr trivial
  | returnShared => exact Or.inl ⟨_, rfl, trivial⟩
  | returnAlone => exact Or.inl ⟨_, rfl, trivial⟩
  | _ => exact hLeads.elim

theorem hasResult_of_return
    {result : GetResult}
    (h : Next cfg s c fault origin (.fnReturn result) pc') :
    pc'.HasResult := by
  cases h with
  | returnShared => trivial
  | returnAlone => trivial

/- A result is kept to the end. -/
theorem hasResult_next
    (hResult : pc.HasResult)
    (h : Next cfg s c fault origin pc pc') :
    pc'.HasResult := by
  cases h with
  | countCoalesced => trivial
  | addLatency => trivial
  | countRequest => trivial
  | _ => exact hResult.elim

end GetPc

end CacheServer

------------------------------------------------------------
-- The Group
------------------------------------------------------------

namespace CacheServer

namespace GetPc

variable {cfg : ManagerConfig}
variable {s t : Shared}
variable {c : Caller}
variable {fault : Fault}
variable {origin : OriginReply}
variable {pc pc' : GetPc}

/- A fetch joins the running call of its key or leads one. -/
theorem runFetch_group
    {key : Key}
    {flight : Flight}
    (h : runFetch cfg s c = (t, pc'))
    (hFlight : t.group key = some flight) :
    (∃ old,
      s.group key = some old ∧ old.leader = flight.leader) ∨
      (cfg.useSF = true ∧ c.key = key ∧
        flight.leader = c.id ∧ pc' = .countOriginCall) := by
  cases hUse : cfg.useSF with
  | false =>
      simp only [runFetch, hUse, Bool.false_eq_true, if_false,
        Prod.mk.injEq] at h
      rw [← h.1] at hFlight
      exact Or.inl ⟨flight, hFlight, rfl⟩
  | true =>
      cases hGroup : s.group c.key with
      | some old =>
          simp only [runFetch, hUse, if_true, hGroup,
            Prod.mk.injEq] at h
          rw [← h.1] at hFlight
          by_cases hKey : key = c.key
          · subst hKey
            have hNew :
                { old with dups := old.dups + 1 } = flight := by
              simpa using hFlight
            exact Or.inl ⟨old, hGroup, by rw [← hNew]⟩
          · have hOld : s.group key = some flight := by
              simpa [hKey] using hFlight
            exact Or.inl ⟨flight, hOld, rfl⟩
      | none =>
          simp only [runFetch, hUse, if_true, hGroup,
            Prod.mk.injEq] at h
          rw [← h.1] at hFlight
          by_cases hKey : key = c.key
          · subst hKey
            have hNew :
                { leader := c.id, dups := 0 } = flight := by
              simpa using hFlight
            exact
              Or.inr ⟨rfl, rfl, by rw [← hNew], h.2.symm⟩
          · have hOld : s.group key = some flight := by
              simpa [hKey] using hFlight
            exact Or.inl ⟨flight, hOld, rfl⟩

/- The return of a call leaves the calls of other keys. -/
theorem runFnReturn_group
    {key : Key}
    {flight : Flight}
    {result : GetResult}
    (h : runFnReturn cfg s c result = (t, pc'))
    (hFlight : t.group key = some flight) :
    s.group key = some flight ∧
      (cfg.useSF = true → c.key ≠ key) := by
  cases hUse : cfg.useSF with
  | false =>
      simp only [runFnReturn, hUse, Bool.false_eq_true,
        if_false, Prod.mk.injEq] at h
      rw [← h.1] at hFlight
      exact ⟨hFlight, fun hTrue => by cases hTrue⟩
  | true =>
      simp only [runFnReturn, hUse, if_true,
        Prod.mk.injEq] at h
      rw [← h.1] at hFlight
      by_cases hKey : key = c.key
      · subst hKey
        simp at hFlight
      · have hOld : s.group key = some flight := by
          simpa [hKey] using hFlight
        exact ⟨hOld, fun _ hEq => hKey hEq.symm⟩

/-
  A running call of the group was running before, with the
  same leader, and has not just returned, or begins now.
-/
theorem run_group
    {key : Key}
    {flight : Flight}
    (h : pc.run cfg s c fault origin = some (t, pc'))
    (hFlight : t.group key = some flight) :
    (∃ old,
      s.group key = some old ∧ old.leader = flight.leader ∧
        (cfg.useSF = true →
          c.key = key → ∀ r, pc ≠ .fnReturn r)) ∨
      (cfg.useSF = true ∧ c.key = key ∧
        flight.leader = c.id ∧ pc = .fetch ∧
          pc' = .countOriginCall) := by
  by_cases hFetch : pc = .fetch
  · subst hFetch
    rcases runFetch_group (Option.some.inj h) hFlight with
      ⟨old, hOld, hLeader⟩ | ⟨hUse, hKey, hLeader, hPc⟩
    · exact
        Or.inl
          ⟨old, hOld, hLeader, fun _ _ _ hPc => by
            cases hPc⟩
    · exact Or.inr ⟨hUse, hKey, hLeader, rfl, hPc⟩
  · by_cases hReturn : ∃ result, pc = .fnReturn result
    · rcases hReturn with ⟨result, rfl⟩
      rcases runFnReturn_group (Option.some.inj h) hFlight
        with ⟨hOld, hOther⟩
      exact
        Or.inl
          ⟨flight, hOld, rfl, fun hUse hKey =>
            absurd hKey (hOther hUse)⟩
    · have hNot : ∀ result, pc ≠ .fnReturn result :=
        fun result hPc => hReturn ⟨result, hPc⟩
      rw [(run_effect h).group hFetch hNot] at hFlight
      exact
        Or.inl ⟨flight, hFlight, rfl, fun _ _ => hNot⟩

/- A running call runs on, unless a `Get` of its key returns. -/
theorem run_group_keeps
    {key : Key}
    {flight : Flight}
    (h : pc.run cfg s c fault origin = some (t, pc'))
    (hFlight : s.group key = some flight) :
    (∃ next,
      t.group key = some next ∧
        next.leader = flight.leader) ∨
      (c.key = key ∧ ∃ result, pc = .fnReturn result) := by
  by_cases hReturn : ∃ result, pc = .fnReturn result
  · by_cases hKey : key = c.key
    · exact Or.inr ⟨hKey.symm, hReturn⟩
    · rcases hReturn with ⟨result, rfl⟩
      have hRun : runFnReturn cfg s c result = (t, pc') :=
        Option.some.inj h
      have hShared : (runFnReturn cfg s c result).1 = t := by
        rw [hRun]
      refine Or.inl ⟨flight, ?_, rfl⟩
      rw [← hShared]
      unfold runFnReturn
      cases cfg.useSF with
      | false => exact hFlight
      | true => simpa [hKey] using hFlight
  · apply Or.inl
    by_cases hFetch : pc = .fetch
    · subst hFetch
      have hRun : runFetch cfg s c = (t, pc') :=
        Option.some.inj h
      have hShared : (runFetch cfg s c).1 = t := by
        rw [hRun]
      rw [← hShared]
      unfold runFetch
      cases cfg.useSF with
      | false => exact ⟨flight, hFlight, rfl⟩
      | true =>
          by_cases hKey : key = c.key
          · subst hKey
            simp [hFlight]
          · cases hGroup : s.group c.key with
            | none =>
                exact ⟨flight, by simpa [hKey], rfl⟩
            | some other =>
                exact ⟨flight, by simpa [hKey], rfl⟩
    · have hSame := (run_effect h).group hFetch
        (fun result hPc => hReturn ⟨result, hPc⟩)
      rw [hSame]
      exact ⟨flight, hFlight, rfl⟩

/- A `Get` that begins to lead is the leader of its key. -/
theorem run_group_lead
    (hUse : cfg.useSF = true)
    (h :
      GetPc.fetch.run cfg s c fault origin =
        some (t, .countOriginCall)) :
    t.group c.key = some { leader := c.id, dups := 0 } := by
  have hRun : runFetch cfg s c = (t, .countOriginCall) :=
    Option.some.inj h
  cases hGroup : s.group c.key with
  | none =>
      simp only [runFetch, hUse, if_true, hGroup,
        Prod.mk.injEq] at hRun
      rw [← hRun.1]
      simp
  | some other =>
      simp [runFetch, hUse, hGroup] at hRun

end GetPc

end CacheServer

------------------------------------------------------------
-- Well-Formed Groups
------------------------------------------------------------

namespace CacheServer

namespace ManagerSystem

variable {cfg : ManagerConfig}
variable {s s' : ManagerSystem}
variable {a : ManagerAction}

/-
  The group is empty without coalescing. A running call has
  a leader, a `Get` of its key that leads. A result handed
  on belongs to a `Get` that has it.
-/
structure FlightsOk
    (cfg : ManagerConfig)
    (s : ManagerSystem) :
    Prop where
  unused :
    cfg.useSF = false → ∀ key, s.shared.group key = none
  leads :
    ∀ key flight,
      s.shared.group key = some flight →
        ∃ start pc,
          s.procs flight.leader =
              some (.get key start pc) ∧
            pc.Leads
  finished :
    ∀ id result,
      s.shared.finished id = some result →
        ∃ key start pc,
          s.procs id = some (.get key start pc) ∧
            pc.HasResult

/- A leader's result has not been handed on yet. -/
theorem FlightsOk.not_finished
    {key : Key}
    {start : Int}
    {pc : GetPc}
    {id : Nat}
    (hOk : s.FlightsOk cfg)
    (hProc : s.procs id = some (.get key start pc))
    (hLeads : pc.Leads) :
    s.shared.finished id = none := by
  cases hDone : s.shared.finished id with
  | none => rfl
  | some result =>
      rcases hOk.finished id result hDone with
        ⟨_, _, _, hSame, hResult⟩
      rw [hProc] at hSame
      cases hSame
      exact
        absurd hResult (GetPc.not_hasResult_of_leads hLeads)

/-
  A running call of the group was running before and has not
  just returned, or a `Get` of its key begins to lead it.
-/
theorem step_group
    {key : Key}
    {flight : Flight}
    (h : s.step cfg a = some s')
    (hFlight : s'.shared.group key = some flight) :
    (∃ old,
      s.shared.group key = some old ∧
        old.leader = flight.leader ∧
          ∀ id fault origin start r,
            a = .run id fault origin →
              cfg.useSF = true →
                s.procs id ≠
                  some (.get key start (.fnReturn r))) ∨
      (cfg.useSF = true ∧
        ∃ start,
          s'.procs flight.leader =
            some (.get key start .countOriginCall)) := by
  have hStay :
      s.shared.group key = some flight →
        (∀ id fault origin, a ≠ .run id fault origin) →
          ∃ old,
            s.shared.group key = some old ∧
              old.leader = flight.leader ∧
                ∀ id fault origin start r,
                  a = .run id fault origin →
                    cfg.useSF = true →
                      s.procs id ≠
                        some
                          (.get key start (.fnReturn r)) := by
    intro hOld hNot
    refine ⟨flight, hOld, rfl, ?_⟩
    intro id fault origin _ _ hRun
    exact absurd hRun (hNot id fault origin)
  cases a with
  | call call =>
      cases h
      exact Or.inl (hStay hFlight (by simp))
  | run id fault origin =>
      rcases step_run h with ⟨p, t, p', hProc, hRun, rfl⟩
      cases p with
      | get k start pc =>
          rcases Proc.run_get hRun with ⟨pc', rfl, hPc⟩
          rcases GetPc.run_group hPc hFlight with
            ⟨old, hOld, hLeader, hNot⟩ |
              ⟨hUse, hKey, hLeader, _, rfl⟩
          · refine Or.inl ⟨old, hOld, hLeader, ?_⟩
            intro other _ _ start' r hSame hUse hReturn
            cases hSame
            rw [hProc] at hReturn
            cases hReturn
            exact hNot hUse rfl r rfl
          · simp only at hKey hLeader
            subst hKey
            refine Or.inr ⟨hUse, start, ?_⟩
            simp [hLeader]
      | _ =>
          have hOld : s.shared.group key = some flight := by
            rw [← (Proc.run_effect hRun).group (by simp)]
            exact hFlight
          refine Or.inl ⟨flight, hOld, rfl, ?_⟩
          intro other _ _ start' r hSame _ hReturn
          cases hSame
          rw [hProc] at hReturn
          cases hReturn
  | background id fault =>
      rcases step_background h with ⟨_, _, _, rfl⟩
      exact Or.inl (hStay hFlight (by simp))
  | cancel id =>
      cases h
      exact Or.inl (hStay hFlight (by simp))
  | redisDrop k =>
      cases h
      exact Or.inl (hStay hFlight (by simp))
  | tick elapsed =>
      cases h
      exact Or.inl (hStay hFlight (by simp))

/- A `Get` after a step is one that it was or has become. -/
theorem get_next
    {id : Nat}
    {key : Key}
    {start : Int}
    {pc : GetPc}
    (hNum : s.Numbered)
    (h : s.step cfg a = some s')
    (hProc : s.procs id = some (.get key start pc)) :
    ∃ pc',
      s'.procs id = some (.get key start pc') ∧
        (pc' = pc ∨
          ∃ fault origin,
            a = .run id fault origin ∧
              GetPc.Next cfg s.shared
                { id := id, key := key, start := start
                  cancelled := s.cancelled id }
                fault origin pc pc') := by
  rcases step_proc_next hNum h hProc with
    hSame | ⟨fault, origin, p', rfl, hNext, hRun⟩
  · exact ⟨pc, hSame, Or.inl rfl⟩
  · rcases Proc.run_get hRun with ⟨pc', rfl, hPc⟩
    exact
      ⟨pc', hNext,
        Or.inr ⟨fault, origin, rfl, GetPc.run_next hPc⟩⟩

theorem flightsOk_step
    (hNum : s.Numbered)
    (hOk : s.FlightsOk cfg)
    (h : s.step cfg a = some s') :
    s'.FlightsOk cfg := by
  constructor
  · intro hUse key
    cases hFlight : s'.shared.group key with
    | none => rfl
    | some flight =>
        rcases step_group h hFlight with
          ⟨old, hOld, _⟩ | ⟨hTrue, _⟩
        · rw [hOk.unused hUse key] at hOld
          cases hOld
        · rw [hUse] at hTrue
          cases hTrue
  · intro key flight hFlight
    rcases step_group h hFlight with
      ⟨old, hOld, hLeader, hNot⟩ | ⟨_, start, hProc⟩
    · rcases hOk.leads key old hOld with
        ⟨start, pc, hProc, hLeads⟩
      rw [hLeader] at hProc
      rcases get_next hNum h hProc with
        ⟨pc', hProc', hSame | ⟨fault, origin, rfl, hNext⟩⟩
      · exact ⟨start, pc', hProc', by rw [hSame]; exact hLeads⟩
      · rcases GetPc.leads_next hLeads hNext with
          ⟨result, rfl, _⟩ | hStill
        · cases hUse : cfg.useSF with
          | true =>
              exact
                absurd hProc
                  (hNot flight.leader fault origin start
                    result rfl hUse)
          | false =>
              rw [hOk.unused hUse key] at hOld
              cases hOld
        · exact ⟨start, pc', hProc', hStill⟩
    · exact ⟨start, _, hProc, trivial⟩
  · intro id result hDone
    rcases step_finished h hDone with
      hOld | ⟨fault, origin, key, start, rfl, hProc⟩
    · rcases hOk.finished id result hOld with
        ⟨key, start, pc, hProc, hResult⟩
      rcases get_next hNum h hProc with
        ⟨pc', hProc', hSame | ⟨_, _, _, hNext⟩⟩
      · exact
          ⟨key, start, pc', hProc', by
            rw [hSame]
            exact hResult⟩
      · exact
          ⟨key, start, pc', hProc',
            GetPc.hasResult_next hResult hNext⟩
    · rcases step_run_self h hProc with ⟨p', hProc', hRun⟩
      rcases Proc.run_get hRun with ⟨pc', rfl, hPc⟩
      exact
        ⟨key, start, pc', hProc',
          GetPc.hasResult_of_return (GetPc.run_next hPc)⟩

theorem flightsOk_new
    (cfg : ManagerConfig)
    (maxSize : Int)
    (l1TTL : Int)
    (redis : Redis)
    (clock : Int) :
    (ManagerSystem.new maxSize l1TTL redis
      clock).FlightsOk cfg := by
  refine ⟨fun _ _ => rfl, ?_, ?_⟩
  · intro key flight h
    cases h
  · intro id result h
    cases h

end ManagerSystem

end CacheServer

------------------------------------------------------------
-- Followers
------------------------------------------------------------

namespace CacheServer

namespace ManagerSystem

variable {cfg : ManagerConfig}
variable {s s' : ManagerSystem}
variable {a : ManagerAction}

/- A `Get` waits for a `Get` of its own key only. -/
def JoinsOwn
    (s : ManagerSystem) :
    Prop :=
  ∀ id key start leader,
    s.procs id = some (.get key start (.joined leader)) →
      ∃ begun pc,
        s.procs leader = some (.get key begun pc) ∧
          (pc.Leads ∨ pc.HasResult)

theorem leads_or_hasResult_next
    {c : Caller}
    {fault : Fault}
    {origin : OriginReply}
    {pc pc' : GetPc}
    (hPc : pc.Leads ∨ pc.HasResult)
    (h : GetPc.Next cfg s.shared c fault origin pc pc') :
    pc'.Leads ∨ pc'.HasResult := by
  rcases hPc with hLeads | hResult
  · rcases GetPc.leads_next hLeads h with
      ⟨_, _, hResult⟩ | hStill
    · exact Or.inr hResult
    · exact Or.inl hStill
  · exact Or.inr (GetPc.hasResult_next hResult h)

/- A `Get` that leads, or has led, does so after a step. -/
theorem leader_next
    {id : Nat}
    {key : Key}
    {start : Int}
    {pc : GetPc}
    (hNum : s.Numbered)
    (h : s.step cfg a = some s')
    (hProc : s.procs id = some (.get key start pc))
    (hPc : pc.Leads ∨ pc.HasResult) :
    ∃ pc',
      s'.procs id = some (.get key start pc') ∧
        (pc'.Leads ∨ pc'.HasResult) := by
  rcases get_next hNum h hProc with
    ⟨pc', hProc', hSame | ⟨_, _, _, hNext⟩⟩
  · exact ⟨pc', hProc', by rw [hSame]; exact hPc⟩
  · exact
      ⟨pc', hProc',
        leads_or_hasResult_next hPc hNext⟩

theorem joinsOwn_step
    (hNum : s.Numbered)
    (hOk : s.FlightsOk cfg)
    (hJoins : s.JoinsOwn)
    (h : s.step cfg a = some s') :
    s'.JoinsOwn := by
  intro id key start leader hProc
  have hLeader :
      ∃ begun pc,
        s.procs leader = some (.get key begun pc) ∧
          (pc.Leads ∨ pc.HasResult) := by
    rcases step_getProc h hProc with
      hOld | ⟨_, _, _, hPc⟩ | ⟨_, _, pc, _, hOld, hPc⟩
    · exact hJoins id key start leader hOld
    · cases hPc
    · cases GetPc.run_next hPc with
      | join hUse hGroup =>
          rcases hOk.leads key _ hGroup with
            ⟨first, pc, hLeads, hPc⟩
          exact ⟨first, pc, hLeads, Or.inl hPc⟩
  rcases hLeader with ⟨begun, pc, hLeads, hPc⟩
  rcases leader_next hNum h hLeads hPc with ⟨pc', hNext⟩
  exact ⟨begun, pc', hNext⟩

theorem joinsOwn_new
    (maxSize : Int)
    (l1TTL : Int)
    (redis : Redis)
    (clock : Int) :
    (ManagerSystem.new maxSize l1TTL redis
      clock).JoinsOwn := by
  intro id key start leader h
  cases h

/- Every `Get` that leads is the leader of its key's call. -/
def LeadersRegistered
    (s : ManagerSystem) :
    Prop :=
  ∀ id key start pc,
    s.procs id = some (.get key start pc) →
      pc.Leads →
        ∃ flight,
          s.shared.group key = some flight ∧
            flight.leader = id

/- A running call runs on, unless its key's `Get` returns. -/
theorem step_group_keeps
    {key : Key}
    {flight : Flight}
    (h : s.step cfg a = some s')
    (hFlight : s.shared.group key = some flight) :
    (∃ next,
      s'.shared.group key = some next ∧
        next.leader = flight.leader) ∨
      ∃ id fault origin start result,
        a = .run id fault origin ∧
          s.procs id =
            some (.get key start (.fnReturn result)) := by
  cases a with
  | call call =>
      cases h
      exact Or.inl ⟨flight, hFlight, rfl⟩
  | run id fault origin =>
      rcases step_run h with ⟨p, t, p', hProc, hRun, rfl⟩
      cases p with
      | get k start pc =>
          rcases Proc.run_get hRun with ⟨pc', rfl, hPc⟩
          rcases GetPc.run_group_keeps hPc hFlight with
            hKept | ⟨rfl, result, rfl⟩
          · exact Or.inl hKept
          · exact
              Or.inr
                ⟨id, fault, origin, start, result, rfl,
                  hProc⟩
      | _ =>
          have hSame := (Proc.run_effect hRun).group (by simp)
          refine Or.inl ⟨flight, ?_, rfl⟩
          simpa only [hSame] using hFlight
  | background id fault =>
      rcases step_background h with ⟨_, _, _, rfl⟩
      exact Or.inl ⟨flight, hFlight, rfl⟩
  | cancel id =>
      cases h
      exact Or.inl ⟨flight, hFlight, rfl⟩
  | redisDrop k =>
      cases h
      exact Or.inl ⟨flight, hFlight, rfl⟩
  | tick elapsed =>
      cases h
      exact Or.inl ⟨flight, hFlight, rfl⟩

theorem leadersRegistered_step
    (hUse : cfg.useSF = true)
    (hLeaders : s.LeadersRegistered)
    (h : s.step cfg a = some s') :
    s'.LeadersRegistered := by
  intro id key start pc' hProc hLeads'
  -- A leader from before is kept: only it could return.
  have hStays :
      ∀ begun pc,
        s.procs id = some (.get key begun pc) →
          pc.Leads →
            ∃ flight,
              s'.shared.group key = some flight ∧
                flight.leader = id := by
    intro begun pc hOld hLeads
    rcases hLeaders id key begun pc hOld hLeads with
      ⟨flight, hFlight, hLeader⟩
    rcases step_group_keeps h hFlight with
      ⟨next, hNext, hSame⟩ |
        ⟨other, _, _, first, result, rfl, hReturn⟩
    · exact ⟨next, hNext, by rw [hSame, hLeader]⟩
    · rcases hLeaders other key first _ hReturn trivial with
        ⟨again, hAgain, hOther⟩
      rw [hFlight] at hAgain
      cases hAgain
      have hEq : other = id := by rw [← hOther, hLeader]
      subst hEq
      rcases step_run_self h hReturn with ⟨p', hProc', hRun⟩
      rcases Proc.run_get hRun with ⟨pc'', rfl, hPc⟩
      rw [hProc] at hProc'
      cases hProc'
      exact
        absurd
          (GetPc.hasResult_of_return (GetPc.run_next hPc))
          (GetPc.not_hasResult_of_leads hLeads')
  rcases step_getProc h hProc with
    hOld | ⟨_, _, _, rfl⟩ | ⟨_, _, pc, _, hOld, hPc⟩
  · exact hStays start pc' hOld hLeads'
  · exact hLeads'.elim
  · by_cases hLeads : pc.Leads
    · exact hStays start pc hOld hLeads
    · cases GetPc.run_next hPc with
      | lead hGroup =>
          exact ⟨_, GetPc.run_group_lead hUse hPc, rfl⟩
      | countOriginCall => exact (hLeads trivial).elim
      | originValue _ => exact (hLeads trivial).elim
      | originError _ _ => exact (hLeads trivial).elim
      | countOriginErr => exact (hLeads trivial).elim
      | spawn => exact (hLeads trivial).elim
      | l1Store => exact (hLeads trivial).elim
      | _ => exact hLeads'.elim

/- What holds of the calls in every state reached. -/
structure WellFormed
    (cfg : ManagerConfig)
    (s : ManagerSystem) :
    Prop where
  numbered : s.Numbered
  flights : s.FlightsOk cfg
  joins : s.JoinsOwn
  leaders : cfg.useSF = true → s.LeadersRegistered

theorem wellFormed_step
    (hWell : s.WellFormed cfg)
    (h : s.step cfg a = some s') :
    s'.WellFormed cfg :=
  ⟨numbered_step hWell.numbered h,
    flightsOk_step hWell.numbered hWell.flights h,
    joinsOwn_step hWell.numbered hWell.flights hWell.joins
      h,
    fun hUse =>
      leadersRegistered_step hUse (hWell.leaders hUse) h⟩

theorem wellFormed_new
    (cfg : ManagerConfig)
    (maxSize : Int)
    (l1TTL : Int)
    (redis : Redis)
    (clock : Int) :
    (ManagerSystem.new maxSize l1TTL redis
      clock).WellFormed cfg :=
  ⟨numbered_new maxSize l1TTL redis clock,
    flightsOk_new cfg maxSize l1TTL redis clock,
    joinsOwn_new maxSize l1TTL redis clock,
    fun _ _ _ _ _ h => nomatch h⟩

theorem wellFormed_exec
    {actions : List ManagerAction}
    (hWell : s.WellFormed cfg)
    (hRun : (managerMachine cfg).exec s actions = some s') :
    s'.WellFormed cfg :=
  Machine.exec_invariant (I := WellFormed cfg)
    (fun _ _ _ hI hStep => wellFormed_step hI hStep)
    hRun hWell

/-
  A follower whose leader's result is there has waited for
  it before, and it was there, or the leader returns now.
-/
theorem step_waiting
    {id : Nat}
    {key : Key}
    {start : Int}
    {leader : Nat}
    {result : GetResult}
    (hWell : s.WellFormed cfg)
    (h : s.step cfg a = some s')
    (hProc :
      s'.procs id = some (.get key start (.joined leader)))
    (hDone : s'.shared.finished leader = some result) :
    (s.procs id = some (.get key start (.joined leader)) ∧
        s.shared.finished leader = some result) ∨
      ∃ begun,
        s.procs leader =
          some (.get key begun (.fnReturn result)) := by
  rcases step_finished h hDone with
    hOld | ⟨_, _, k, begun, _, hReturn⟩
  · apply Or.inl
    rcases step_getProc h hProc with
      hSame | ⟨_, _, _, hPc⟩ | ⟨_, _, pc, _, hWas, hPc⟩
    · exact ⟨hSame, hOld⟩
    · cases hPc
    · cases GetPc.run_next hPc with
      | join hUse hGroup =>
          rcases hWell.flights.leads key _ hGroup with
            ⟨_, _, hLeader, hLeads⟩
          rw [hWell.flights.not_finished hLeader hLeads]
            at hOld
          cases hOld
  · rcases (wellFormed_step hWell h).joins id key start leader
      hProc with ⟨first, pc, hLeader, _⟩
    rcases get_next hWell.numbered h hReturn with
      ⟨_, hNext, _⟩
    rw [hLeader] at hNext
    cases hNext
    exact Or.inr ⟨begun, hReturn⟩

end ManagerSystem

end CacheServer
