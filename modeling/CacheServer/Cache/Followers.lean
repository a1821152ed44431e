import CacheServer.Cache.Progress

/-
  Leaders and followers of a singleflight group.

  A `Get` that finds a running call of its key follows the
  `Get` that leads it, and returns what that one returns,
  whether it is a value or an error. A key has one leader at
  a time.

  Key definitions include:
    * `CacheServer.GetPc.result?`
    * `CacheServer.ManagerSystem.HandedOn`
    * `CacheServer.ManagerSystem.Follows`

  Key theorems include:
    * `CacheServer.ManagerSystem.handedOn_step`
    * `CacheServer.ManagerSystem.follows_step`
    * `CacheServer.followers_share_the_result`
-/

------------------------------------------------------------
-- Results
------------------------------------------------------------

namespace CacheServer

namespace GetPc

/- The result that a `Get` is going to return. -/
def result? :
    GetPc → Option GetResult
| .countCoalesced result => some result
| .addLatency result => some result
| .countRequest result => some result
| .done result => some result
| _ => none

variable {cfg : ManagerConfig}
variable {s : Shared}
variable {c : Caller}
variable {fault : Fault}
variable {origin : OriginReply}
variable {pc pc' : GetPc}
variable {result : GetResult}

/- A `Get` does not change its mind. -/
theorem result?_next
    (hResult : pc.result? = some result)
    (h : Next cfg s c fault origin pc pc') :
    pc'.result? = some result := by
  cases h with
  | countCoalesced => exact hResult
  | addLatency => exact hResult
  | countRequest => exact hResult
  | _ => cases hResult

theorem result?_of_return
    (h : Next cfg s c fault origin (.fnReturn result) pc') :
    pc'.result? = some result := by
  cases h with
  | returnShared => rfl
  | returnAlone => rfl

end GetPc

end CacheServer

------------------------------------------------------------
-- Handing On
------------------------------------------------------------

namespace CacheServer

namespace ManagerSystem

variable {cfg : ManagerConfig}
variable {s s' : ManagerSystem}
variable {a : ManagerAction}

/- A result that is handed on is that of its `Get`. -/
def HandedOn
    (s : ManagerSystem) :
    Prop :=
  ∀ id result,
    s.shared.finished id = some result →
      ∃ key start pc,
        s.procs id = some (.get key start pc) ∧
          pc.result? = some result

theorem handedOn_step
    (hNum : s.Numbered)
    (hHanded : s.HandedOn)
    (h : s.step cfg a = some s') :
    s'.HandedOn := by
  intro id result hDone
  rcases step_finished h hDone with
    hOld | ⟨fault, origin, key, start, rfl, hProc⟩
  · rcases hHanded id result hOld with
      ⟨key, start, pc, hProc, hResult⟩
    rcases get_next hNum h hProc with
      ⟨pc', hProc', hSame | ⟨_, _, _, hNext⟩⟩
    · exact ⟨key, start, pc', hProc', hSame ▸ hResult⟩
    · exact
        ⟨key, start, pc', hProc',
          GetPc.result?_next hResult hNext⟩
  · rcases step_run_self h hProc with ⟨p', hProc', hRun⟩
    rcases Proc.run_get hRun with ⟨pc', rfl, hPc⟩
    exact
      ⟨key, start, pc', hProc',
        GetPc.result?_of_return (GetPc.run_next hPc)⟩

/- What holds of results in every state reached. -/
structure Handing
    (cfg : ManagerConfig)
    (s : ManagerSystem) :
    Prop where
  wellFormed : s.WellFormed cfg
  handedOn : s.HandedOn

theorem handing_step
    (hHanding : s.Handing cfg)
    (h : s.step cfg a = some s') :
    s'.Handing cfg :=
  ⟨wellFormed_step hHanding.wellFormed h,
    handedOn_step hHanding.wellFormed.numbered
      hHanding.handedOn h⟩

theorem handing_new
    (cfg : ManagerConfig)
    (maxSize : Int)
    (l1TTL : Int)
    (redis : Redis)
    (clock : Int) :
    (ManagerSystem.new maxSize l1TTL redis
      clock).Handing cfg :=
  ⟨wellFormed_new cfg maxSize l1TTL redis clock,
    fun _ _ h => nomatch h⟩

/-
  A `Get` has joined a leader of its key, and waits for it
  or has its result.
-/
def Follows
    (id : Nat)
    (key : Key)
    (start : Int)
    (leader : Nat)
    (s : ManagerSystem) :
    Prop :=
  (∃ begun pc, s.procs leader = some (.get key begun pc)) ∧
    ∃ pc,
      s.procs id = some (.get key start pc) ∧
        (pc = .joined leader ∨
          ∃ result,
            pc.result? = some result ∧
              s.shared.finished leader = some result)

theorem follows_step
    {id : Nat}
    {key : Key}
    {start : Int}
    {leader : Nat}
    (hWell : s.WellFormed cfg)
    (hFollows : Follows id key start leader s)
    (h : s.step cfg a = some s') :
    Follows id key start leader s' := by
  rcases hFollows with
    ⟨⟨begun, first, hLeader⟩, pc, hProc, hPc⟩
  have hLeader' :
      ∃ begun pc,
        s'.procs leader = some (.get key begun pc) := by
    rcases get_next hWell.numbered h hLeader with
      ⟨next, hNext, _⟩
    exact ⟨begun, next, hNext⟩
  refine ⟨hLeader', ?_⟩
  rcases get_next hWell.numbered h hProc with
    ⟨pc', hProc', hSame | ⟨fault, origin, _, hNext⟩⟩
  · refine ⟨pc', hProc', ?_⟩
    rw [hSame]
    rcases hPc with hJoined | ⟨result, hResult, hDone⟩
    · exact Or.inl hJoined
    · exact
        Or.inr
          ⟨result, hResult,
            step_finished_keeps hWell.flights h hDone⟩
  · refine ⟨pc', hProc', Or.inr ?_⟩
    rcases hPc with rfl | ⟨result, hResult, hDone⟩
    · cases hNext with
      | joined hDone =>
          exact
            ⟨_, rfl,
              step_finished_keeps hWell.flights h hDone⟩
    · exact
        ⟨result, GetPc.result?_next hResult hNext,
          step_finished_keeps hWell.flights h hDone⟩

end ManagerSystem

open ManagerSystem

/-
  With coalescing, however the calls interleave: one `Get` of
  a key is inside the group's function at a time. And a `Get`
  that has joined another, whenever it returns, returns what
  that one returns, which is a `Get` of the same key.
-/
theorem followers_share_the_result
    (cfg : ManagerConfig)
    (maxSize : Int)
    (l1TTL : Int)
    (redis : Redis)
    (clock : Int)
    (actions : List ManagerAction)
    (s : ManagerSystem)
    (hUse : cfg.useSF = true)
    (hRun :
      (managerMachine cfg).exec
          (ManagerSystem.new maxSize l1TTL redis clock)
          actions =
        some s) :
    (∀ key id other start begun pc pc',
        s.procs id = some (.get key start pc) →
          s.procs other = some (.get key begun pc') →
            pc.Leads → pc'.Leads → id = other) ∧
      ∀ id key start leader,
        s.procs id = some (.get key start (.joined leader)) →
          ∀ later t result,
            (managerMachine cfg).exec s later = some t →
              t.procs id =
                  some (.get key start (.done result)) →
                ∃ begun pc,
                  t.procs leader =
                      some (.get key begun pc) ∧
                    pc.result? = some result := by
  have hHanding : s.Handing cfg :=
    Machine.exec_invariant (I := Handing cfg)
      (fun _ _ _ hI hStep => handing_step hI hStep) hRun
      (handing_new cfg maxSize l1TTL redis clock)
  constructor
  · intro key id other start begun pc pc' hProc hOther hLeads
      hLeads'
    have hRegistered := hHanding.wellFormed.leaders hUse
    rcases hRegistered id key start pc hProc hLeads with
      ⟨flight, hFlight, rfl⟩
    rcases hRegistered other key begun pc' hOther hLeads' with
      ⟨again, hAgain, rfl⟩
    rw [hFlight] at hAgain
    cases hAgain
    rfl
  · intro id key start leader hProc later t result hLater hDone
    rcases hHanding.wellFormed.joins id key start leader hProc
      with ⟨begun, first, hLeader, _⟩
    have hInv :
        t.Handing cfg ∧ Follows id key start leader t :=
      Machine.exec_invariant
        (I := fun u =>
          u.Handing cfg ∧ Follows id key start leader u)
        (fun u _ _ hI hStep =>
          ⟨handing_step hI.1 hStep,
            follows_step hI.1.wellFormed hI.2 hStep⟩)
        hLater
        ⟨hHanding, ⟨begun, first, hLeader⟩, _, hProc,
          Or.inl rfl⟩
    rcases hInv.2 with ⟨⟨since, last, hLast⟩, pc, hPc, hEnd⟩
    rw [hDone] at hPc
    cases hPc
    rcases hEnd with hJoined | ⟨other, hResult, hOther⟩
    · cases hJoined
    · cases hResult
      rcases hInv.1.handedOn leader result hOther with
        ⟨_, _, pc, hProc', hSame⟩
      rw [hLast] at hProc'
      cases hProc'
      exact ⟨since, last, hLast, hSame⟩

/- Two `Get`s of a key, of which one has joined the other. -/
def joinedPair : List ManagerAction :=
  [.call (.get [7]), .call (.get [7])] ++
    List.replicate 5 (.proceed 0) ++
    List.replicate 5 (.proceed 1)

/- The origin fails, and the follower is first to return. -/
def failedFetch : List ManagerAction :=
  [.proceed 0, .run 0 .none (.error (.failed [1]))] ++
    List.replicate 2 (.proceed 0) ++
    List.replicate 4 (.proceed 1)

theorem followers_share_the_result_failed :
    ∃ s t,
      (managerMachine { useSF := true, l2TTL := 60 }).exec
            freshManager joinedPair =
          some s ∧
        (managerMachine { useSF := true, l2TTL := 60 }).exec
              s failedFetch =
            some t ∧
          ∃ begun pc,
            t.procs 0 = some (.get [7] begun pc) ∧
              pc.result? =
                some (.originFailed [7] (.failed [1])) := by
  refine ⟨_, _, rfl, rfl, ?_⟩
  apply
    (followers_share_the_result
        { useSF := true, l2TTL := 60 } 1000 5 ∅ 0 joinedPair _
        rfl rfl).2
      1 [7] 0 0 rfl failedFetch
  case a => rfl
  case a => rfl

end CacheServer
