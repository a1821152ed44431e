import CacheServer.Cache.Singleflight
import CacheServer.Cache.WriteThenGet

/-
  Where the values of a key come from.

  A log beside the run keeps the values that clients have
  passed to `Set` and those that origin calls have produced,
  each with its key. Every value held for a key, by a tier,
  a call, a singleflight call or a background write, is one
  of them, or was in L2 under the key from the start.

  Key definitions include:
    * `CacheServer.Proc.offers`
    * `CacheServer.Proc.Commits`
    * `CacheServer.ManagerSystem.Only`
    * `CacheServer.ManagerSystem.Returned`
    * `CacheServer.Sources`
    * `CacheServer.ManagerSystem.Held`

  Key theorems include:
    * `CacheServer.ManagerSystem.only_step`
    * `CacheServer.no_value_crosses_keys`
-/

------------------------------------------------------------
-- The Values That Calls Offer
------------------------------------------------------------

namespace CacheServer

namespace Proc

/- The value that a call may put under its key or return. -/
def offers :
    Proc → Option (Key × Value)
| .get key _ pc => pc.carried.map (fun value => (key, value))
| .set key value _ => some (key, value)
| .invalidate _ _ => none

/- A `Get` that is about to find its L1 entry expired. -/
def Discards
    (Gone : Int → Prop) :
    Proc → Prop
| .get _ _ (.l1Check entry) => Gone entry.expiresAt
| _ => False

variable {cfg : ManagerConfig}
variable {s t : Shared}
variable {id : Nat}
variable {cancelled : Bool}
variable {fault : Fault}
variable {origin : OriginReply}
variable {p p' : Proc}
variable {key : Key}
variable {value : Value}

theorem offers_get
    {start : Int}
    {pc : GetPc} :
    (Proc.get key start pc).offers = some (key, value) ↔
      pc.carried = some value := by
  simp [offers]

theorem key_of_offers
    (h : p.offers = some (key, value)) :
    p.key = key := by
  cases p with
  | get k start pc =>
      rcases Option.map_eq_some_iff.mp h with ⟨_, _, hEq⟩
      cases hEq
      rfl
  | set k found pc =>
      cases h
      rfl
  | invalidate k pc => cases h

/- An open call that offers a value for good. -/
def Commits
    (p : Proc)
    (key : Key)
    (value : Value) :
    Prop :=
  p.finished = false ∧ p.offers = some (key, value) ∧
    ∀ Gone, ¬ p.Discards Gone

theorem commits_of_l1Write
    (h : p.l1Write = some (key, some value)) :
    p.Commits key value := by
  cases p with
  | get k start pc =>
      cases pc with
      | backPopulate found =>
          cases h
          exact ⟨rfl, rfl, fun _ hDiscards => hDiscards⟩
      | l1Store found =>
          cases h
          exact ⟨rfl, rfl, fun _ hDiscards => hDiscards⟩
      | _ => cases h
  | set k found pc =>
      cases pc with
      | l1 =>
          cases h
          exact ⟨rfl, rfl, fun _ hDiscards => hDiscards⟩
      | _ => cases h
  | invalidate k pc =>
      cases pc with
      | l1 => cases h
      | _ => cases h

theorem commits_of_l2Write
    (h : p.l2Write = some (key, some value)) :
    p.Commits key value := by
  cases p with
  | get k start pc => cases h
  | set k found pc =>
      cases pc with
      | l2 =>
          cases h
          exact ⟨rfl, rfl, fun _ hDiscards => hDiscards⟩
      | _ => cases h
  | invalidate k pc =>
      cases pc with
      | l2 => cases h
      | _ => cases h

theorem commits_of_spawned
    (h : p.spawned = some (key, value)) :
    p.Commits key value := by
  cases p with
  | get k start pc =>
      cases pc with
      | spawn found =>
          cases h
          exact ⟨rfl, rfl, fun _ hDiscards => hDiscards⟩
      | _ => cases h
  | set k found pc => cases h
  | invalidate k pc => cases h

/- A `Get` commits the value that it is about to return. -/
theorem commits_get
    {start : Int}
    {pc : GetPc}
    (hOpen : (Proc.get key start pc).finished = false)
    (hPc : ∀ entry, pc ≠ .l1Check entry)
    (hCarried : pc.carried = some value) :
    (Proc.get key start pc).Commits key value := by
  refine ⟨hOpen, offers_get.mpr hCarried, ?_⟩
  intro Gone hDiscards
  cases pc with
  | l1Check entry => exact hPc entry rfl
  | _ => exact hDiscards

/- What a call offers it offered before, or has learned. -/
theorem run_offers
    (h :
      p.run cfg s id cancelled fault origin = some (t, p'))
    (hOffers : p'.offers = some (key, value)) :
    p.offers = some (key, value) ∨
      ∃ start pc,
        p = .get key start pc ∧
          GetPc.Learns s
            { id := id, key := key, start := start
              cancelled := cancelled }
            fault origin value pc := by
  cases p with
  | get k start pc =>
      rcases run_get h with ⟨pc', rfl, hRun⟩
      rcases Option.map_eq_some_iff.mp hOffers with
        ⟨found, hCarried, hEq⟩
      cases hEq
      rcases GetPc.next_carried (GetPc.run_next hRun)
        hCarried with hOld | hLearns
      · exact Or.inl (offers_get.mpr hOld)
      · exact Or.inr ⟨start, pc, rfl, hLearns⟩
  | set k found pc =>
      rcases run_set h with ⟨_, rfl, _⟩
      exact Or.inl hOffers
  | invalidate k pc =>
      rcases run_invalidate h with ⟨_, rfl, _⟩
      cases hOffers

end Proc

namespace ManagerSystem

variable {s : ManagerSystem}
variable {a : ManagerAction}
variable {key : Key}
variable {value : Value}

/- A value written to L1 is committed by the call. -/
theorem commits_of_l1Write
    (h : s.l1Write a = some (key, some value)) :
    ∃ id p,
      s.procs id = some p ∧ p.Commits key value := by
  rcases l1Write_eq h with ⟨id, _, _, p, _, hProc, hP⟩
  exact ⟨id, p, hProc, Proc.commits_of_l1Write hP⟩

/- One written to L2 is a call's or a background write's. -/
theorem commits_of_l2Write
    (h : s.l2Write a = some (key, some value)) :
    (∃ id p,
      s.procs id = some p ∧ p.Commits key value) ∨
      ∃ id, s.shared.background id = some (key, value) := by
  rcases l2Write_eq h with
    ⟨id, _, _, p, _, hProc, hP⟩ |
      ⟨id, _, entry, _, hEntry, hEq⟩ |
      ⟨_, _, hEq⟩
  · exact Or.inl ⟨id, p, hProc, Proc.commits_of_l2Write hP⟩
  · cases hEq
    exact Or.inr ⟨id, hEntry⟩
  · cases hEq

end ManagerSystem

end CacheServer

------------------------------------------------------------
-- Systems That Answer Only Certain Values
------------------------------------------------------------

namespace CacheServer

namespace ManagerSystem

/-
  Every value that the system may still answer for a key
  satisfies `Ok`. Entries whose expiry time is `Gone` are
  not answered, and may be any.
-/
structure Only
    (Ok : Key → Value → Prop)
    (Gone : Int → Prop)
    (s : ManagerSystem) :
    Prop where
  gone : ∀ time, Gone time → time < s.clock
  calls :
    ∀ id p key value,
      s.procs id = some p →
        p.finished = false →
          p.offers = some (key, value) →
            Ok key value ∨ p.Discards Gone
  l1 :
    ∀ key entry,
      s.l1.read key = some entry →
        Ok key entry.value ∨ Gone entry.expiresAt
  l2 :
    ∀ key obj value,
      s.redis.lookup key = some obj →
        obj.value = .str value →
          Ok key value ∨
            ∃ time, obj.expiresAt = some time ∧ Gone time
  background :
    ∀ id key value,
      s.shared.background id = some (key, value) →
        Ok key value
  waiting :
    ∀ id key start leader result value,
      s.procs id = some (.get key start (.joined leader)) →
        s.shared.finished leader = some result →
          result.value? = some value → Ok key value

variable {cfg : ManagerConfig}
variable {s s' : ManagerSystem}
variable {a : ManagerAction}
variable {Ok Ok' : Key → Value → Prop}
variable {Gone : Int → Prop}

/- A `Get` that discards its entry does so in one step. -/
theorem Only.discarded
    {id : Nat}
    {cancelled : Bool}
    {fault : Fault}
    {origin : OriginReply}
    {p p' : Proc}
    {t : Shared}
    {offer : Key × Value}
    (hOnly : s.Only Ok Gone)
    (hDiscards : p.Discards Gone)
    (hRun :
      p.run cfg s.shared id cancelled fault origin =
        some (t, p')) :
    p'.offers ≠ some offer := by
  intro hOffers
  cases p with
  | get key start pc =>
      rcases Proc.run_get hRun with ⟨pc', rfl, hPc⟩
      cases pc with
      | l1Check entry =>
          cases GetPc.run_next hPc with
          | l1Expired hExpired => cases hOffers
          | l1Fresh hFresh =>
              have hOver := hOnly.gone _ hDiscards
              exact of_decide_eq_false hFresh hOver
      | _ => exact hDiscards
  | set key value pc => exact hDiscards
  | invalidate key pc => exact hDiscards

/- A `Get` learns an allowed value, a gone one, or a new one. -/
theorem Only.learns
    {id : Nat}
    {key : Key}
    {start : Int}
    {cancelled : Bool}
    {fault : Fault}
    {origin : OriginReply}
    {pc pc' : GetPc}
    {t : Shared}
    {value : Value}
    (hOnly : s.Only Ok Gone)
    (hProc : s.procs id = some (.get key start pc))
    (hRun :
      pc.run cfg s.shared
        { id := id, key := key, start := start
          cancelled := cancelled } fault origin =
        some (t, pc'))
    (h :
      GetPc.Learns s.shared
        { id := id, key := key, start := start
          cancelled := cancelled } fault origin value pc) :
    Ok key value ∨
      (Proc.get key start pc').Discards Gone ∨
        (key, value) ∈
          s.produced (.run id fault origin) := by
  cases h with
  | l1 hRead hValue =>
      subst hValue
      rcases hOnly.l1 key _ hRead with hOk | hGone
      · exact Or.inl hOk
      · cases GetPc.run_next hRun with
        | l1None hNone =>
            rw [hRead] at hNone
            cases hNone
        | l1Some hSome =>
            rw [hRead] at hSome
            cases hSome
            exact Or.inr (Or.inl hGone)
  | l2 hHit =>
      rcases L2Cache.get_eq_hit hHit with
        ⟨obj, hLookup, hFresh, hValue⟩
      rcases hOnly.l2 key obj value hLookup hValue with
        hOk | ⟨time, hTime, hGone⟩
      · exact Or.inl hOk
      · have hOver := hOnly.gone time hGone
        simp only [RedisObj.expired, hTime] at hFresh
        exact absurd hOver (of_decide_eq_false hFresh)
  | joined hDone hValue =>
      exact
        Or.inl
          (hOnly.waiting id key start _ _ value hProc hDone
            hValue)
  | origin hOrigin =>
      subst hOrigin
      apply Or.inr
      apply Or.inr
      simp [produced, hProc, Proc.originKey]

/- What a call commits is allowed. -/
theorem Only.commits
    {id : Nat}
    {p : Proc}
    {key : Key}
    {value : Value}
    (hOnly : s.Only Ok Gone)
    (hProc : s.procs id = some p)
    (hCommits : p.Commits key value) :
    Ok key value := by
  rcases hCommits with ⟨hOpen, hOffers, hKeeps⟩
  rcases hOnly.calls id p key value hProc hOpen hOffers with
    hOk | hDiscards
  · exact hOk
  · exact absurd hDiscards (hKeeps Gone)

/-
  What a call offers was offered before, is passed to a
  `Set`, or is learned from a tier, a leader or the origin.
-/
theorem only_calls_step
    (hOnly : s.Only Ok Gone)
    (hMono : ∀ key value, Ok key value → Ok' key value)
    (hSet :
      ∀ key value,
        a = .call (.set key value) → Ok' key value)
    (hOrigin :
      ∀ key value,
        (key, value) ∈ s.produced a → Ok' key value)
    (h : s.step cfg a = some s')
    {id : Nat}
    {p' : Proc}
    {key : Key}
    {value : Value}
    (hProc : s'.procs id = some p')
    (hOpen : p'.finished = false)
    (hOffers : p'.offers = some (key, value)) :
    Ok' key value ∨ p'.Discards Gone := by
  rcases step_proc h hProc with
    hOld | ⟨call, rfl, _, rfl⟩ |
      ⟨fault, origin, p, rfl, hOld, hRun⟩
  · rcases hOnly.calls id p' key value hOld hOpen hOffers
      with hOk | hDiscards
    · exact Or.inl (hMono key value hOk)
    · exact Or.inr hDiscards
  · cases call with
    | set k v =>
        cases hOffers
        exact Or.inl (hSet key value rfl)
    | _ => cases hOffers
  · rcases Proc.run_offers hRun hOffers with
      hBefore | ⟨start, pc, rfl, hLearns⟩
    · have hWasOpen := Proc.not_finished_of_run hRun
      rcases hOnly.calls id p key value hOld hWasOpen
        hBefore with hOk | hDiscards
      · exact Or.inl (hMono key value hOk)
      · exact absurd hOffers (hOnly.discarded hDiscards hRun)
    · rcases Proc.run_get hRun with ⟨pc', rfl, hPc⟩
      rcases hOnly.learns hOld hPc hLearns with
        hOk | hDiscards | hNew
      · exact Or.inl (hMono key value hOk)
      · exact Or.inr hDiscards
      · exact Or.inl (hOrigin key value hNew)

/- What a step writes to L1 was committed by a call. -/
theorem only_l1_step
    (hOnly : s.Only Ok Gone)
    (h : s.step cfg a = some s')
    {key : Key}
    {entry : L1Entry}
    (hRead : s'.l1.read key = some entry) :
    Ok key entry.value ∨ Gone entry.expiresAt := by
  rcases step_read h key with
    hSame | hNone | ⟨value, hWrite, hNew⟩
  · rw [hSame] at hRead
    exact hOnly.l1 key entry hRead
  · rw [hNone] at hRead
    cases hRead
  · rw [hNew] at hRead
    cases hRead
    rcases commits_of_l1Write hWrite with
      ⟨id, p, hProc, hCommits⟩
    exact Or.inl (hOnly.commits hProc hCommits)

/- And what it writes to L2, by a call or in background. -/
theorem only_l2_step
    (hOnly : s.Only Ok Gone)
    (h : s.step cfg a = some s')
    {key : Key}
    {obj : RedisObj}
    {value : Value}
    (hLookup : s'.redis.lookup key = some obj)
    (hValue : obj.value = .str value) :
    Ok key value ∨
      ∃ time, obj.expiresAt = some time ∧ Gone time := by
  rcases step_lookup h key with
    ⟨hSame, _⟩ | ⟨content, hWrite, hNew⟩
  · rw [hSame] at hLookup
    exact hOnly.l2 key obj value hLookup hValue
  · rw [hNew] at hLookup
    cases content with
    | none => cases hLookup
    | some written =>
        cases hLookup
        cases hValue
        apply Or.inl
        rcases commits_of_l2Write hWrite with
          ⟨id, p, hProc, hCommits⟩ | ⟨id, hEntry⟩
        · exact hOnly.commits hProc hCommits
        · exact hOnly.background id key value hEntry

/-
  A step adds no value but those that a `Set` begins with
  and those that an origin call produces.
-/
theorem only_step
    (hWell : s.WellFormed cfg)
    (hOnly : s.Only Ok Gone)
    (hMono : ∀ key value, Ok key value → Ok' key value)
    (hSet :
      ∀ key value,
        a = .call (.set key value) → Ok' key value)
    (hOrigin :
      ∀ key value,
        (key, value) ∈ s.produced a → Ok' key value)
    (h : s.step cfg a = some s') :
    s'.Only Ok' Gone := by
  constructor
  · intro time hGone
    exact lt_of_lt_of_le (hOnly.gone time hGone)
      (step_tiers h).clock
  · intro id p' key value hProc hOpen hOffers
    exact
      only_calls_step hOnly hMono hSet hOrigin h hProc hOpen
        hOffers
  · intro key entry hRead
    rcases only_l1_step hOnly h hRead with hOk | hGone
    · exact Or.inl (hMono key entry.value hOk)
    · exact Or.inr hGone
  · intro key obj value hLookup hValue
    rcases only_l2_step hOnly h hLookup hValue with
      hOk | hGone
    · exact Or.inl (hMono key value hOk)
    · exact Or.inr hGone
  · intro id key value hEntry
    apply hMono key value
    rcases step_background_entry h hEntry with
      hOld | ⟨_, _, p, _, hProc, hSpawn⟩
    · exact hOnly.background id key value hOld
    · exact
        hOnly.commits hProc (Proc.commits_of_spawned hSpawn)
  · intro id key start leader result value hProc hDone
      hValue
    apply hMono key value
    rcases step_waiting hWell h hProc hDone with
      ⟨hOld, hDoneOld⟩ | ⟨begun, hReturn⟩
    · exact
        hOnly.waiting id key start leader result value hOld
          hDoneOld hValue
    · exact
        hOnly.commits hReturn
          (Proc.commits_get rfl (by simp) hValue)

/- What `Get` calls from the `first` on have returned. -/
def Returned
    (Ok : Key → Value → Prop)
    (first : Nat)
    (s : ManagerSystem) :
    Prop :=
  ∀ id key start value,
    first ≤ id →
      s.procs id =
          some (.get key start (.done (.ok value))) →
        Ok key value

theorem returned_step
    {first : Nat}
    (hOnly : s.Only Ok Gone)
    (hReturned : s.Returned Ok first)
    (hMono : ∀ key value, Ok key value → Ok' key value)
    (h : s.step cfg a = some s') :
    s'.Returned Ok' first := by
  intro id key start value hLe hProc
  apply hMono key value
  rcases step_getProc h hProc with
    hOld | ⟨_, _, _, hPc⟩ | ⟨_, _, pc, _, hOld, hPc⟩
  · exact hReturned id key start value hLe hOld
  · cases hPc
  · cases GetPc.run_next hPc with
    | countRequest =>
        exact
          hOnly.commits hOld
            (Proc.commits_get rfl (by simp) rfl)

/- A manager just started answers what Redis holds. -/
theorem only_new
    (maxSize : Int)
    (l1TTL : Int)
    (redis : Redis)
    (clock : Int)
    (hRedis :
      ∀ key obj value,
        redis.lookup key = some obj →
          obj.value = .str value → Ok key value) :
    (ManagerSystem.new maxSize l1TTL redis clock).Only Ok
      (fun _ => False) := by
  refine ⟨?_, ?_, ?_, ?_, ?_, ?_⟩
  · intro time h
    exact h.elim
  · intro id p key value h
    cases h
  · intro key entry h
    cases h
  · intro key obj value hLookup hValue
    exact Or.inl (hRedis key obj value hLookup hValue)
  · intro id key value h
    cases h
  · intro id key start leader result value h
    cases h

end ManagerSystem

end CacheServer

------------------------------------------------------------
-- The Log Of Sources
------------------------------------------------------------

namespace CacheServer

/-
  The values passed to a `Set` that has begun, and those
  returned by origin calls, with their keys.
-/
structure Sources where
  sets : List (Key × Value)
  origins : OriginLog

/- The value that a `Set` begins with in this step. -/
def ManagerAction.begunSet :
    ManagerAction → List (Key × Value)
| .call (.set key value) => [(key, value)]
| _ => []

namespace ManagerSystem

def recordSources
    (s : ManagerSystem)
    (a : ManagerAction)
    (sources : Sources) :
    Sources :=
  { sets := sources.sets ++ a.begunSet
    origins := sources.origins ++ s.produced a }

end ManagerSystem

/- The interleavings of manager calls, with their sources. -/
def sourcedMachine
    (cfg : ManagerConfig) :
    Machine (ManagerSystem × Sources) ManagerAction :=
  (managerMachine cfg).withHistory
    ManagerSystem.recordSources

theorem sourcedMachine_step
    {cfg : ManagerConfig}
    {s s' : ManagerSystem × Sources}
    {a : ManagerAction}
    (h : (sourcedMachine cfg).step s a = some s') :
    s.1.step cfg a = some s'.1 ∧
      s'.2 = s.1.recordSources a s.2 :=
  Machine.withHistory_step.mp h

/- The value has a source under this very key. -/
def Sources.Supply
    (sources : Sources)
    (redis : Redis)
    (key : Key)
    (value : Value) :
    Prop :=
  (key, value) ∈ sources.sets ∨
    (key, value) ∈ sources.origins ∨
      ∃ obj,
        redis.lookup key = some obj ∧
          obj.value = .str value

/- The places of the system where a key can have a value. -/
inductive ManagerSystem.Held
    (s : ManagerSystem)
    (key : Key)
    (value : Value) :
    Prop
| returned
    {id : Nat}
    {start : Int}
    (hProc :
      s.procs id = some (.get key start (.done (.ok value))))
| l1
    {entry : L1Entry}
    (hRead : s.l1.read key = some entry)
    (hValue : entry.value = value)
| l2
    {obj : RedisObj}
    (hLookup : s.redis.lookup key = some obj)
    (hValue : obj.value = .str value)
-- a running singleflight call of the key
| inFlight
    {flight : Flight}
    {caller : Key}
    {start : Int}
    {pc : GetPc}
    (hGroup : s.shared.group key = some flight)
    (hLeader :
      s.procs flight.leader = some (.get caller start pc))
    (hCarried : pc.carried = some value)
-- a result that a follower is still to take
| handedOn
    {id leader : Nat}
    {start : Int}
    {result : GetResult}
    (hProc :
      s.procs id = some (.get key start (.joined leader)))
    (hDone : s.shared.finished leader = some result)
    (hValue : result.value? = some value)
| background
    {id : Nat}
    (hEntry : s.shared.background id = some (key, value))

end CacheServer

------------------------------------------------------------
-- No Value Crosses Keys
------------------------------------------------------------

namespace CacheServer

/- Whatever is held for a key is one of its own values. -/
theorem ManagerSystem.Only.held
    {cfg : ManagerConfig}
    {s : ManagerSystem}
    {Ok : Key → Value → Prop}
    {key : Key}
    {value : Value}
    (hWell : s.WellFormed cfg)
    (hOnly : s.Only Ok (fun _ => False))
    (hReturned : s.Returned Ok 0)
    (h : s.Held key value) :
    Ok key value := by
  cases h with
  | returned hProc =>
      exact
        hReturned _ key _ value (Nat.zero_le _) hProc
  | l1 hRead hValue =>
      subst hValue
      rcases hOnly.l1 key _ hRead with hOk | hGone
      · exact hOk
      · exact hGone.elim
  | l2 hLookup hValue =>
      rcases hOnly.l2 key _ value hLookup hValue with
        hOk | ⟨_, _, hGone⟩
      · exact hOk
      · exact hGone.elim
  | inFlight hGroup hLeader hCarried =>
      -- The leader of a call of the key is a `Get` of it.
      rcases hWell.flights.leads key _ hGroup with
        ⟨_, pc, hOwn, hLeads⟩
      rw [hLeader] at hOwn
      cases hOwn
      refine
        hOnly.commits hLeader
          (Proc.commits_get
            (GetPc.not_finished_of_leads hLeads) ?_ hCarried)
      intro entry hPc
      subst hPc
      exact hLeads
  | handedOn hProc hDone hValue =>
      exact
        hOnly.waiting _ key _ _ _ value hProc hDone hValue
  | background hEntry =>
      exact hOnly.background _ key value hEntry

/- A source stays one. -/
theorem Sources.Supply.record
    {sources : Sources}
    {redis : Redis}
    {s : ManagerSystem}
    {a : ManagerAction}
    {key : Key}
    {value : Value}
    (h : sources.Supply redis key value) :
    (s.recordSources a sources).Supply redis key value := by
  rcases h with hSet | hOrigin | hInitial
  · exact Or.inl (List.mem_append_left _ hSet)
  · exact Or.inr (Or.inl (List.mem_append_left _ hOrigin))
  · exact Or.inr (Or.inr hInitial)

/- The system answers only values that have a source. -/
structure Supplied
    (cfg : ManagerConfig)
    (redis : Redis)
    (s : ManagerSystem × Sources) :
    Prop where
  well : s.1.WellFormed cfg
  only : s.1.Only (s.2.Supply redis) (fun _ => False)
  returned : s.1.Returned (s.2.Supply redis) 0

theorem supplied_step
    {cfg : ManagerConfig}
    {redis : Redis}
    {s s' : ManagerSystem × Sources}
    {a : ManagerAction}
    (hInv : Supplied cfg redis s)
    (h : (sourcedMachine cfg).step s a = some s') :
    Supplied cfg redis s' := by
  rcases sourcedMachine_step h with ⟨hStep, hSources⟩
  have hMono :
      ∀ key value,
        s.2.Supply redis key value →
          s'.2.Supply redis key value := by
    intro key value hSupply
    rw [hSources]
    exact hSupply.record
  refine
    ⟨ManagerSystem.wellFormed_step hInv.well hStep, ?_,
      ManagerSystem.returned_step hInv.only hInv.returned
        hMono hStep⟩
  rw [hSources] at hMono ⊢
  refine
    ManagerSystem.only_step hInv.well hInv.only hMono ?_ ?_
      hStep
  · intro key value hSet
    subst hSet
    exact Or.inl (List.mem_append_right _ (by
      simp [ManagerAction.begunSet]))
  · intro key value hOrigin
    exact Or.inr (Or.inl (List.mem_append_right _ hOrigin))

/-
  In every interleaving, with or without coalescing and
  whatever Redis commands fail, a value held for a key or
  returned by its `Get` was passed to a `Set` of the key,
  was returned by an origin call for the key, or was in L2
  under the key at the start.
-/
theorem no_value_crosses_keys
    (cfg : ManagerConfig)
    (maxSize : Int)
    (l1TTL : Int)
    (redis : Redis)
    (clock : Int)
    (actions : List ManagerAction)
    (s : ManagerSystem × Sources)
    (hRun :
      (sourcedMachine cfg).exec
        (ManagerSystem.new maxSize l1TTL redis clock,
          { sets := [], origins := [] })
        actions = some s)
    (key : Key)
    (value : Value)
    (hHeld : s.1.Held key value) :
    s.2.Supply redis key value := by
  have hInv : Supplied cfg redis s := by
    refine
      Machine.exec_invariant (I := Supplied cfg redis)
        (fun _ _ _ hI hStep => supplied_step hI hStep)
        hRun ⟨?_, ?_, ?_⟩
    · exact
        ManagerSystem.wellFormed_new cfg maxSize l1TTL redis
          clock
    · apply ManagerSystem.only_new
      intro key obj value hLookup hValue
      exact Or.inr (Or.inr ⟨obj, hLookup, hValue⟩)
    · intro id key start value _ hProc
      cases hProc
  exact hInv.only.held hInv.well hInv.returned hHeld

/- A follower that still has to take the leader's value. -/
theorem no_value_crosses_keys_handed_on :
    ∃ s,
      (sourcedMachine ⟨true, 100⟩).exec
          (freshManager, { sets := [], origins := [] })
          [.call (.get [1]), .call (.get [1]),
            .proceed 0, .proceed 0, .proceed 0, .proceed 0,
            .proceed 1, .proceed 1, .proceed 1, .proceed 1,
            .proceed 0, .proceed 1,
            .proceed 0, .run 0 .none (.value [9]),
            .proceed 0, .proceed 0, .proceed 0] = some s ∧
        s.1.Held [1] [9] ∧ s.2.Supply ∅ [1] [9] :=
  have hRun := Machine.exec_get rfl
  have hHeld :=
    @ManagerSystem.Held.handedOn _ [1] [9] 1 0 0 (.ok [9])
      rfl rfl rfl
  ⟨_, hRun, hHeld,
    no_value_crosses_keys ⟨true, 100⟩ 1000 5 ∅ 0 _ _ hRun
      [1] [9] hHeld⟩

end CacheServer
