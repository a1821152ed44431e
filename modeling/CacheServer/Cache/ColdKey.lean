import CacheServer.Cache.Cancellation
import CacheServer.Cache.Provenance

/-
  A key that no tier holds is fetched once.

  `Get` calls look into both tiers before they reach the
  singleflight group. As long as each of them that gets
  there finds a call of the key running, or is the first to
  fetch it, one origin call is made, and its value is what
  all of them return. A `Get` that missed both tiers and
  gets there after the call has returned calls the origin
  again.

  Key definitions include:
    * `CacheServer.ManagerSystem.Cold`
    * `CacheServer.coldMachine`
    * `CacheServer.FetchedOnce`
    * `CacheServer.ReachesInTime`

  Key theorems include:
    * `CacheServer.onlyFetched_step`
    * `CacheServer.cold_key_fetched_once`
    * `CacheServer.cold_key_fetched_twice`
-/

------------------------------------------------------------
-- Cold Keys
------------------------------------------------------------

namespace CacheServer

namespace ManagerSystem

/-
  Neither tier has an unexpired entry for the key, and no
  call or background write of the key is in progress.
-/
structure Cold
    (s : ManagerSystem)
    (key : Key) :
    Prop where
  l1 :
    ∀ entry,
      s.l1.read key = some entry →
        entry.expired s.clock = true
  l2 : s.redis.live s.clock key = none
  calls :
    ∀ id p,
      s.procs id = some p → p.key = key → p.finished = true
  background :
    ∀ id value, s.shared.background id ≠ some (key, value)

/- The reply that the origin gives for the key in this step. -/
def replied
    (key : Key)
    (s : ManagerSystem)
    (a : ManagerAction) :
    List OriginReply :=
  match a with
  | .run id _ reply =>
      if (s.procs id).bind Proc.originKey = some key then
        [reply]
      else
        []
  | _ => []

def recordReply
    (key : Key)
    (s : ManagerSystem)
    (a : ManagerAction)
    (replies : List OriginReply) :
    List OriginReply :=
  replies ++ s.replied key a

/- A value that the origin produces is its reply. -/
theorem replied_of_produced
    {s : ManagerSystem}
    {a : ManagerAction}
    {key : Key}
    {value : Value}
    (h : (key, value) ∈ s.produced a) :
    .value value ∈ s.replied key a := by
  cases a with
  | run id fault reply =>
      cases reply with
      | error cause => cases h
      | value found =>
          cases hKey :
              (s.procs id).bind Proc.originKey with
          | none => simp [produced, hKey] at h
          | some k =>
              have hEq : key = k ∧ value = found := by
                simpa [produced, hKey] using h
              rcases hEq with ⟨rfl, rfl⟩
              simp [replied, hKey]
  | _ => cases h

end ManagerSystem

/- Interleavings, with the origin calls for the key. -/
def coldMachine
    (cfg : ManagerConfig)
    (key : Key) :
    Machine (ManagerSystem × List OriginReply)
      ManagerAction :=
  (managerMachine cfg).withHistory
    (ManagerSystem.recordReply key)

theorem coldMachine_step
    {cfg : ManagerConfig}
    {key : Key}
    {s s' : ManagerSystem × List OriginReply}
    {a : ManagerAction}
    (h : (coldMachine cfg key).step s a = some s') :
    s.1.step cfg a = some s'.1 ∧
      s'.2 = s.2 ++ s.1.replied key a :=
  Machine.withHistory_step.mp h

end CacheServer

------------------------------------------------------------
-- The Law And Its Condition
------------------------------------------------------------

namespace CacheServer

def OriginReply.isValue :
    OriginReply → Bool
| .value _ => true
| .error _ => false

/- No `Set` or `Invalidate` of the key begins. -/
def ManagerAction.LeavesKey
    (key : Key) :
    ManagerAction → Prop
| .call (.set k _) => k ≠ key
| .call (.invalidate k) => k ≠ key
| _ => True

instance
    (key : Key)
    (a : ManagerAction) :
    Decidable (a.LeavesKey key) := by
  unfold ManagerAction.LeavesKey
  split <;> infer_instance

/- Only `Get` calls of the key, and the origin succeeds. -/
def OnlyGets
    (key : Key)
    (s : ManagerSystem × List OriginReply)
    (a : ManagerAction) :
    Prop :=
  a.LeavesKey key ∧
    ∀ reply ∈ s.1.replied key a, reply.isValue = true

instance
    (key : Key)
    (s : ManagerSystem × List OriginReply)
    (a : ManagerAction) :
    Decidable (OnlyGets key s a) := by
  unfold OnlyGets
  infer_instance

/- A `Get` of the key gets to the singleflight group. -/
def ManagerSystem.reachesGroup
    (s : ManagerSystem)
    (key : Key) :
    ManagerAction → Bool
| .run id _ _ => (s.procs id).any (Proc.fetches key)
| _ => false

/-
  A `Get` that gets to the group finds a call of the key
  running there, or the origin has not been called yet.
-/
def ReachesInTime
    (key : Key)
    (s : ManagerSystem × List OriginReply)
    (a : ManagerAction) :
    Prop :=
  s.1.reachesGroup key a = true →
    (s.1.shared.group key).isSome = true ∨ s.2 = []

instance
    (key : Key)
    (s : ManagerSystem × List OriginReply)
    (a : ManagerAction) :
    Decidable (ReachesInTime key s a) := by
  unfold ReachesInTime
  infer_instance

/-
  The origin is called once at most, and every `Get` of the
  key that was called from `first` on and has returned, has
  returned what the one call produced.
-/
def FetchedOnce
    (key : Key)
    (first : Nat)
    (s : ManagerSystem × List OriginReply) :
    Prop :=
  s.2.length ≤ 1 ∧
    ∀ id start result,
      first ≤ id →
        s.1.procs id =
            some (.get key start (.done result)) →
          ∃ value, result = .ok value ∧ s.2 = [.value value]

end CacheServer

------------------------------------------------------------
-- One Fetch
------------------------------------------------------------

namespace CacheServer

/- The origin has produced the value, if the key is this. -/
def Fetched
    (key : Key)
    (replies : List OriginReply)
    (k : Key)
    (value : Value) :
    Prop :=
  k = key → .value value ∈ replies

/-
  The calls of the key from `first` on, in a run in which
  the origin is called for it at most once.
-/
structure OnlyFetched
    (cfg : ManagerConfig)
    (key : Key)
    (first : Nat)
    (Gone : Int → Prop)
    (s : ManagerSystem × List OriginReply) :
    Prop where
  well : s.1.WellFormed cfg
  numbers : first ≤ s.1.next
  older :
    ∀ id p,
      id < first →
        s.1.procs id = some p →
          p.key = key → p.finished = true
  once : s.2.length ≤ 1
  -- a leader that has still to call the origin is the first
  early :
    ∀ id start pc,
      s.1.procs id = some (.get key start pc) →
        pc = .countOriginCall ∨ pc = .originCall →
          s.2 = []
  only : s.1.Only (Fetched key s.2) Gone
  returned : s.1.Returned (Fetched key s.2) first
  held :
    ∀ id start pc,
      first ≤ id →
        s.1.procs id = some (.get key start pc) →
          pc.error? key = none
  waiting :
    ∀ id start leader result,
      s.1.procs id =
          some (.get key start (.joined leader)) →
        s.1.shared.finished leader = some result →
          result.error? = none

variable {cfg : ManagerConfig}
variable {key : Key}
variable {first : Nat}
variable {Gone : Int → Prop}
variable {s s' : ManagerSystem × List OriginReply}
variable {a : ManagerAction}

/- A reply is that of a `Get` of the key at its origin call. -/
theorem replied_cases
    (key : Key)
    (t : ManagerSystem)
    (a : ManagerAction) :
    t.replied key a = [] ∨
      ∃ id fault start reply,
        a = .run id fault reply ∧
          t.procs id = some (.get key start .originCall) ∧
            t.replied key a = [reply] := by
  cases a with
  | run id fault reply =>
      by_cases hKey :
          (t.procs id).bind Proc.originKey = some key
      · rcases Option.bind_eq_some_iff.mp hKey with
          ⟨p, hProc, hP⟩
        apply Or.inr
        cases p with
        | get k start pc =>
            cases pc with
            | originCall =>
                cases hP
                exact
                  ⟨id, fault, start, reply, rfl, hProc,
                    by simp [ManagerSystem.replied, hKey]⟩
            | _ => cases hP
        | set k value pc => cases hP
        | invalidate k pc => cases hP
      · exact
          Or.inl (by simp [ManagerSystem.replied, hKey])
  | _ => exact Or.inl rfl

/- The origin has replied for the key at most once. -/
theorem once_step
    (hInv : OnlyFetched cfg key first Gone s)
    (h : (coldMachine cfg key).step s a = some s') :
    s'.2.length ≤ 1 := by
  rw [(coldMachine_step h).2]
  rcases replied_cases key s.1 a with
    hNone | ⟨id, _, start, reply, _, hProc, hReply⟩
  · rw [hNone]
    simpa using hInv.once
  · rw [hReply, hInv.early id start _ hProc (Or.inr rfl)]
    simp

/- A leader that has still to call the origin is the first. -/
theorem early_step
    (hUse : cfg.useSF = true)
    (hInv : OnlyFetched cfg key first Gone s)
    (hInTime : ReachesInTime key s a)
    (h : (coldMachine cfg key).step s a = some s')
    {id : Nat}
    {start : Int}
    {pc' : GetPc}
    (hProc : s'.1.procs id = some (.get key start pc'))
    (hEarly : pc' = .countOriginCall ∨ pc' = .originCall) :
    s'.2 = [] := by
  rcases coldMachine_step h with ⟨hStep, hReplies⟩
  rw [hReplies]
  have hLeads : pc'.Leads := by
    rcases hEarly with rfl | rfl
    · trivial
    · trivial
  rcases ManagerSystem.step_getProc hStep hProc with
    hOld | ⟨_, _, _, rfl⟩ |
      ⟨fault, origin, pc, rfl, hOld, hPc⟩
  · rw [hInv.early id start pc' hOld hEarly]
    rcases replied_cases key s.1 a with
      hNone | ⟨other, _, begun, reply, rfl, hOther, _⟩
    · exact hNone
    · -- Both lead, so it is this `Get` that is replied to.
      rcases hInv.well.leaders hUse id key start pc' hOld
        hLeads with ⟨flight, hFlight, hLeader⟩
      rcases hInv.well.leaders hUse other key begun _ hOther
        trivial with ⟨again, hAgain, hSame⟩
      rw [hFlight] at hAgain
      cases hAgain
      have hEq : other = id := by rw [← hSame, hLeader]
      subst hEq
      rcases ManagerSystem.step_run_self hStep hOther with
        ⟨p', hNext, hRun⟩
      rcases Proc.run_get hRun with ⟨pc'', rfl, hPc⟩
      rw [hProc] at hNext
      cases hNext
      cases GetPc.run_next hPc with
      | originValue _ =>
          rcases hEarly with hEq | hEq
          · cases hEq
          · cases hEq
      | originError _ _ =>
          rcases hEarly with hEq | hEq
          · cases hEq
          · cases hEq
  · exact hLeads.elim
  · cases GetPc.run_next hPc with
    | lead hGroup =>
        have hReaches :
            s.1.reachesGroup key
              (.run id fault origin) = true := by
          simp [ManagerSystem.reachesGroup, hOld,
            Proc.fetches]
        rcases hInTime hReaches with hRunning | hFirst
        · have hFree := hGroup hUse
          simp only at hFree
          rw [hFree] at hRunning
          cases hRunning
        · rw [hFirst]
          simp [ManagerSystem.replied, hOld, Proc.originKey]
    | countOriginCall =>
        rw [hInv.early id start _ hOld (Or.inl rfl)]
        simp [ManagerSystem.replied, hOld, Proc.originKey]
    | _ =>
        rcases hEarly with hEq | hEq
        · cases hEq
        · cases hEq

/- Calls of the key from before `first` have returned. -/
theorem older_step
    (hInv : OnlyFetched cfg key first Gone s)
    (h : (coldMachine cfg key).step s a = some s')
    {id : Nat}
    {p' : Proc}
    (hLt : id < first)
    (hProc : s'.1.procs id = some p')
    (hKey : p'.key = key) :
    p'.finished = true := by
  have hStep := (coldMachine_step h).1
  rcases ManagerSystem.step_proc hStep hProc with
    hOld | ⟨call, _, rfl, _⟩ | ⟨_, _, p, _, hOld, hRun⟩
  · exact hInv.older id p' hLt hOld hKey
  · exact absurd hInv.numbers (not_le.mpr hLt)
  · have hFinished :=
      hInv.older id p hLt hOld
        (by rw [← hKey, Proc.run_key hRun])
    rw [Proc.not_finished_of_run hRun] at hFinished
    cases hFinished

/- No `Get` of the key comes to hold an error. -/
theorem held_step
    (hInv : OnlyFetched cfg key first Gone s)
    (hGets : OnlyGets key s a)
    (h : (coldMachine cfg key).step s a = some s')
    {id : Nat}
    {start : Int}
    {pc' : GetPc}
    (hLe : first ≤ id)
    (hProc : s'.1.procs id = some (.get key start pc')) :
    pc'.error? key = none := by
  have hStep := (coldMachine_step h).1
  rcases ManagerSystem.step_getProc hStep hProc with
    hOld | ⟨_, _, _, rfl⟩ |
      ⟨fault, origin, pc, rfl, hOld, hPc⟩
  · exact hInv.held id start pc' hLe hOld
  · rfl
  · cases hError : pc'.error? key with
    | none => rfl
    | some error =>
        rcases GetPc.next_error (GetPc.run_next hPc)
          hError with
          hBefore | ⟨rfl, _, rfl, _⟩ |
            ⟨leader, result, rfl, hDone, hResult⟩
        · simp only at hBefore
          rw [hInv.held id start pc hLe hOld] at hBefore
          cases hBefore
        · have hValue :=
            hGets.2 (.error error.2) (by
              simp [ManagerSystem.replied, hOld,
                Proc.originKey])
          cases hValue
        · rw [hInv.waiting id start leader result hOld
            hDone] at hResult
          cases hResult

/- No error waits for a follower. -/
theorem waiting_step
    (hInv : OnlyFetched cfg key first Gone s)
    (h : (coldMachine cfg key).step s a = some s')
    {id : Nat}
    {start : Int}
    {leader : Nat}
    {result : GetResult}
    (hProc :
      s'.1.procs id =
        some (.get key start (.joined leader)))
    (hDone : s'.1.shared.finished leader = some result) :
    result.error? = none := by
  have hStep := (coldMachine_step h).1
  rcases ManagerSystem.step_waiting hInv.well hStep hProc
    hDone with ⟨hOld, hDoneOld⟩ | ⟨begun, hReturn⟩
  · exact hInv.waiting id start leader result hOld hDoneOld
  · by_cases hLe : first ≤ leader
    · exact hInv.held leader begun _ hLe hReturn
    · have hFinished :=
        hInv.older leader _ (not_le.mp hLe) hReturn rfl
      cases hFinished

theorem onlyFetched_step
    (hUse : cfg.useSF = true)
    (hInv : OnlyFetched cfg key first Gone s)
    (hGets : OnlyGets key s a)
    (hInTime : ReachesInTime key s a)
    (h : (coldMachine cfg key).step s a = some s') :
    OnlyFetched cfg key first Gone s' := by
  rcases coldMachine_step h with ⟨hStep, hReplies⟩
  have hMono :
      ∀ k value,
        Fetched key s.2 k value →
          Fetched key s'.2 k value := by
    intro k value hFetched hKey
    rw [hReplies]
    exact List.mem_append_left _ (hFetched hKey)
  refine
    { well := ManagerSystem.wellFormed_step hInv.well hStep
      numbers :=
        le_trans hInv.numbers (ManagerSystem.step_next hStep)
      older := fun _ _ => older_step hInv h
      once := once_step hInv h
      early := fun _ _ _ => early_step hUse hInv hInTime h
      only := ?_
      returned :=
        ManagerSystem.returned_step hInv.only hInv.returned
          hMono hStep
      held := fun _ _ _ => held_step hInv hGets h
      waiting := fun _ _ _ _ => waiting_step hInv h }
  refine
    ManagerSystem.only_step hInv.well hInv.only hMono ?_ ?_
      hStep
  · intro k value hSet hKey
    subst hSet
    exact absurd hKey hGets.1
  · intro k value hNew hKey
    subst hKey
    rw [hReplies]
    apply List.mem_append_right
    exact ManagerSystem.replied_of_produced hNew

end CacheServer

------------------------------------------------------------
-- A Cold Key Is Fetched Once
------------------------------------------------------------

namespace CacheServer

/- An expiry time before the clock. -/
def Before
    (clock : Int)
    (time : Int) :
    Prop :=
  time < clock

/- A cold key has no value to answer. -/
theorem ManagerSystem.Cold.only
    {s : ManagerSystem}
    {key : Key}
    (hCold : s.Cold key) :
    s.Only (Fetched key []) (Before s.clock) := by
  have hOther :
      ∀ k value, k ≠ key → Fetched key [] k value :=
    fun k value hNe hKey => absurd hKey hNe
  constructor
  · exact fun time hGone => hGone
  · intro id p k value hProc hOpen hOffers
    apply Or.inl
    apply hOther
    intro hKey
    have hFinished :=
      hCold.calls id p hProc
        (by rw [Proc.key_of_offers hOffers, hKey])
    rw [hOpen] at hFinished
    cases hFinished
  · intro k entry hRead
    by_cases hKey : k = key
    · subst hKey
      have hOver : entry.expiresAt < s.clock :=
        of_decide_eq_true (hCold.l1 entry hRead)
      exact Or.inr hOver
    · exact Or.inl (hOther k _ hKey)
  · intro k obj value hLookup hValue
    by_cases hKey : k = key
    · subst hKey
      exact Or.inr (Redis.expired_of_live_none hCold.l2 hLookup)
    · exact Or.inl (hOther k _ hKey)
  · intro id k value hEntry
    apply hOther
    intro hKey
    subst hKey
    exact hCold.background id value hEntry
  · intro id k start leader result value hProc _ _
    apply hOther
    intro hKey
    have hFinished := hCold.calls id _ hProc hKey
    cases hFinished

/- Nothing has been fetched when the first `Get` begins. -/
theorem ManagerSystem.Cold.onlyFetched
    {cfg : ManagerConfig}
    {s : ManagerSystem}
    {key : Key}
    (hWell : s.WellFormed cfg)
    (hCold : s.Cold key) :
    OnlyFetched cfg key s.next (Before s.clock) (s, []) := by
  refine
    { well := hWell
      numbers := le_refl _
      older := fun id p _ => hCold.calls id p
      once := Nat.zero_le _
      early := fun _ _ _ _ _ => rfl
      only := hCold.only
      returned := ?_
      held := ?_
      waiting := ?_ }
  · intro id k start value hLe hProc
    rw [hWell.numbered.procs id hLe] at hProc
    cases hProc
  · intro id start pc hLe hProc
    rw [hWell.numbered.procs id hLe] at hProc
    cases hProc
  · intro id start leader result hProc _
    have hFinished := hCold.calls id _ hProc rfl
    cases hFinished

/- What the invariant says of the calls that have returned. -/
theorem OnlyFetched.fetchedOnce
    {cfg : ManagerConfig}
    {key : Key}
    {first : Nat}
    {Gone : Int → Prop}
    {s : ManagerSystem × List OriginReply}
    (hInv : OnlyFetched cfg key first Gone s) :
    FetchedOnce key first s := by
  refine ⟨hInv.once, ?_⟩
  intro id start result hLe hProc
  cases result with
  | originFailed k cause =>
      have hNone := hInv.held id start _ hLe hProc
      cases hNone
  | ok value =>
      have hMem :=
        hInv.returned id key start value hLe hProc rfl
      refine ⟨value, rfl, ?_⟩
      rcases List.length_eq_one_iff.mp
        (le_antisymm hInv.once (List.length_pos_of_mem hMem))
        with ⟨reply, hReply⟩
      rw [hReply] at hMem ⊢
      rw [List.mem_singleton.mp hMem]

/-
  A run from any state in which the key is cold. If every
  `Get` that gets to the group finds a call running there or
  is the first, then the origin is called once, and all that
  return return its value.
-/
theorem cold_key_fetched_once
    (cfg : ManagerConfig)
    (maxSize : Int)
    (l1TTL : Int)
    (redis : Redis)
    (clock : Int)
    (key : Key)
    (before : List ManagerAction)
    (actions : List ManagerAction)
    (start : ManagerSystem)
    (s : ManagerSystem × List OriginReply)
    (hUse : cfg.useSF = true)
    (hBefore :
      (managerMachine cfg).exec
        (ManagerSystem.new maxSize l1TTL redis clock)
        before = some start)
    (hCold : start.Cold key)
    (hGets :
      (coldMachine cfg key).Along (OnlyGets key) (start, [])
        actions)
    (hInTime :
      (coldMachine cfg key).Along (ReachesInTime key)
        (start, []) actions)
    (hRun :
      (coldMachine cfg key).exec (start, []) actions =
        some s) :
    FetchedOnce key start.next s := by
  have hWell : start.WellFormed cfg :=
    ManagerSystem.wellFormed_exec
      (ManagerSystem.wellFormed_new cfg maxSize l1TTL redis
        clock)
      hBefore
  have hInv :
      OnlyFetched cfg key start.next (Before start.clock)
        s := by
    refine
      Machine.exec_invariant_along
        (I :=
          OnlyFetched cfg key start.next
            (Before start.clock))
        ?_ (hGets.and hInTime) hRun (hCold.onlyFetched hWell)
    intro t a t' hInv hSteps hStep
    exact
      onlyFetched_step hUse hInv hSteps.1 hSteps.2 hStep
  exact hInv.fetchedOnce

/- Every key is cold on an empty server. -/
theorem cold_freshManager
    (key : Key) :
    freshManager.Cold key := by
  refine ⟨?_, rfl, ?_, ?_⟩
  · intro entry h
    cases h
  · intro id p h
    cases h
  · intro id value h
    cases h

/- A follower, and a `Get` that comes after the call. -/
theorem cold_key_fetched_once_by_three :
    ∃ s,
      (coldMachine ⟨true, 100⟩ [1]).exec (freshManager, [])
          (joinedGets ++
            [.run 0 .none (.value [7]),
              .proceed 0, .proceed 0, .proceed 0,
              .proceed 1, .call (.get [1]), .proceed 2,
              .proceed 2, .proceed 2, .proceed 2,
              .proceed 2]) = some s ∧
        FetchedOnce [1] 0 s :=
  have hRun := Machine.exec_get rfl
  ⟨_, hRun,
    cold_key_fetched_once ⟨true, 100⟩ 1000 5 ∅ 0 [1] [] _
      freshManager _ rfl rfl (cold_freshManager [1])
      (by decide) (by decide) hRun⟩

/-
  A `Get` misses both tiers, a second one fetches the key and
  returns, and the first then gets to the group.
-/
def lateGet : List ManagerAction :=
  [.call (.get [1]), .proceed 0, .proceed 0, .proceed 0,
    .proceed 0, .call (.get [1]), .proceed 1, .proceed 1,
    .proceed 1, .proceed 1, .proceed 1, .proceed 1,
    .run 1 .none (.value [7]), .proceed 1, .proceed 1,
    .proceed 1, .proceed 1, .proceed 1,
    .proceed 0, .proceed 0, .run 0 .none (.value [8]),
    .proceed 0, .proceed 0, .proceed 0, .proceed 0,
    .proceed 0]

/- Two overlapping calls of a cold key fetch it twice. -/
theorem cold_key_fetched_twice :
    (coldMachine ⟨true, 100⟩ [1]).Along (OnlyGets [1])
        (freshManager, []) lateGet ∧
      ∃ s,
        (coldMachine ⟨true, 100⟩ [1]).exec
            (freshManager, []) lateGet = some s ∧
          s.2 = [.value [7], .value [8]] ∧
            ¬ FetchedOnce [1] 0 s := by
  refine ⟨by decide, _, Machine.exec_get rfl, rfl, ?_⟩
  intro h
  exact absurd h.1 (by decide)

end CacheServer
