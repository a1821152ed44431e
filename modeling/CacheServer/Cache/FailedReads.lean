import CacheServer.Cache.SerialSchedule

/-
  What a `Get` does to L2 when its Redis command fails.

  `L2Cache.Get` reports an error as a miss. `Manager.Get`
  then fetches the key and stores the origin's value in L2,
  over a value that is there and could not be read. The
  steps of the `Get` are those of the concurrent model, so
  an entry may also expire between its start and its `GET`.

  Key definitions include:
    * `CacheServer.CacheStore.ReadOverwrites`
    * `CacheServer.GetLog`
    * `CacheServer.GetLog.FetchedOver`
    * `CacheServer.getLogMachine`
    * `CacheServer.ManagerSystem.OnlyGet`

  Key theorems include:
    * `CacheServer.GetPc.next_shown`
    * `CacheServer.ManagerSystem.onlyGet_step`
    * `CacheServer.read_overwrites_iff`
    * `CacheServer.read_overwrites_after_timeout`
-/

------------------------------------------------------------
-- Values That A Get Changes
------------------------------------------------------------

namespace CacheServer

/-
  The `Get` of `key`, from start to end at one time, changes
  the value that L2 holds for `other`, whose entry has not
  expired.
-/
def CacheStore.ReadOverwrites
    (cfg : ManagerConfig)
    (s : CacheStore)
    (key : Key)
    (input : GetInput)
    (other : Key) :
    Prop :=
  ∃ obj,
    s.redis.live s.clock other = some obj ∧
      ((s.get cfg key input).2.redis.lookup other).map
          (fun after => after.value) ≠
        some obj.value

end CacheServer

------------------------------------------------------------
-- The Way Of A Get
------------------------------------------------------------

namespace CacheServer

/-
  What a `Get` has met: no unexpired entry in L1, the reply
  of `GET` and the time of it, the reply of the origin, and
  the value whose `SET` was applied.
-/
structure GetLog where
  l1Missed : Bool
  l2 : Option L2Reply
  l2Time : Int
  origin : Option OriginReply
  stored : Option Value
deriving DecidableEq, Repr

namespace GetLog

def empty : GetLog :=
  { l1Missed := false
    l2 := none
    l2Time := 0
    origin := none
    stored := none }

/- Both tiers have missed, L2 by a failure or for lack. -/
def Missed
    (log : GetLog) :
    Prop :=
  log.l1Missed = true ∧
    (log.l2 = some .error ∨ log.l2 = some .nil)

/- The tiers have missed and the origin has this value. -/
def Fetched
    (log : GetLog)
    (value : Value) :
    Prop :=
  log.Missed ∧ log.origin = some (.value value)

/-
  `GET` failed, or came after this entry had expired; and
  another value than that of the entry was stored.
-/
def FetchedOver
    (log : GetLog)
    (held : RedisObj) :
    Prop :=
  (log.l2 = some .error ∨ held.expired log.l2Time = true) ∧
    ∃ value,
      log.Fetched value ∧ log.stored = some value ∧
        held.value ≠ .str value

end GetLog

/- What a step adds, given how its backend call turns out. -/
def GetPc.record
    (s : Shared)
    (key : Key)
    (fault : Fault)
    (origin : OriginReply)
    (log : GetLog) :
    GetPc → GetLog
| .l1Read =>
    { log with l1Missed := (s.store.l1.read key).isNone }
| .l1Check entry =>
    { log with l1Missed := entry.expired s.store.clock }
| .l2Get =>
    { log with
      l2 :=
        some
          (L2Cache.get s.store.redis s.store.clock key
            fault)
      l2Time := s.store.clock }
| .originCall => { log with origin := some origin }
| _ => log

def ManagerSystem.recordGet
    (s : ManagerSystem)
    (a : ManagerAction)
    (log : GetLog) :
    GetLog :=
  match a with
  | .run id fault origin =>
      match s.procs id with
      | some (.get key _ pc) =>
          pc.record s.shared key fault origin log
      | _ => log
  | .background id fault =>
      match s.shared.background id, fault.applied with
      | some (_, value), true =>
          { log with stored := some value }
      | _, _ => log
  | _ => log

/- The manager, with the log of the only `Get` that runs. -/
def getLogMachine
    (cfg : ManagerConfig) :
    Machine (ManagerSystem × GetLog) ManagerAction :=
  (managerMachine cfg).withHistory ManagerSystem.recordGet

/- The call takes a step or is cancelled, or time passes. -/
def ManagerAction.OfCall
    (id : Nat) :
    ManagerAction → Prop
| .run other _ _ => other = id
| .background other _ => other = id
| .cancel other => other = id
| .tick _ => True
| .call _ => False
| .redisDrop _ => False

instance (id : Nat) : DecidablePred (ManagerAction.OfCall id)
| .run other _ _ => inferInstanceAs (Decidable (other = id))
| .background other _ =>
    inferInstanceAs (Decidable (other = id))
| .cancel other => inferInstanceAs (Decidable (other = id))
| .tick _ => inferInstanceAs (Decidable True)
| .call _ => inferInstanceAs (Decidable False)
| .redisDrop _ => inferInstanceAs (Decidable False)

end CacheServer

------------------------------------------------------------
-- Steps Of The Only Get
------------------------------------------------------------

namespace CacheServer

namespace GetPc

/- What the log shows when a `Get` stands here. -/
def Shown
    (log : GetLog) :
    GetPc → Prop
| .lazyDelete => log.l1Missed = true
| .countL1Miss => log.l1Missed = true
| .l2Get => log.l1Missed = true
| .countL2Err => log.Missed
| .countL2Miss => log.Missed
| .fetch => log.Missed
| .joined _ => log.Missed
| .countOriginCall => log.Missed
| .originCall => log.Missed
| .spawn value => log.Fetched value
| _ => True

/- The `Get` may yet start a background write. -/
def unspawned :
    GetPc → Bool
| .l1Read => true
| .l1Check _ => true
| .lazyDelete => true
| .countL1Miss => true
| .l2Get => true
| .countL2Err => true
| .countL2Miss => true
| .fetch => true
| .joined _ => true
| .countOriginCall => true
| .originCall => true
| .spawn _ => true
| _ => false

variable {cfg : ManagerConfig}
variable {s : Shared}
variable {c : Caller}
variable {fault : Fault}
variable {origin : OriginReply}
variable {log : GetLog}
variable {pc pc' : GetPc}

/- The log shows how the `Get` has come where it stands. -/
theorem next_shown
    (h : Next cfg s c fault origin pc pc')
    (hShown : pc.Shown log) :
    pc'.Shown (pc.record s c.key fault origin log) := by
  cases h with
  | l1None hRead => simp [Shown, record, hRead]
  | l1Expired hExpired => simp [Shown, record, hExpired]
  | l2Nil hGet =>
      simpa [Shown, record, GetLog.Missed, hGet] using hShown
  | l2Error hGet =>
      simpa [Shown, record, GetLog.Missed, hGet] using hShown
  | originValue hOrigin =>
      simpa [Shown, record, GetLog.Missed, GetLog.Fetched,
        hOrigin] using hShown
  | lazyDelete => exact hShown
  | countL1Miss => exact hShown
  | countL2Err => exact hShown
  | countL2Miss => exact hShown
  | lead hGroup => exact hShown
  | join hUse hGroup => exact hShown
  | countOriginCall => exact hShown
  | _ => trivial

/- No step leads back before the background write. -/
theorem next_unspawned
    (h : Next cfg s c fault origin pc pc')
    (hNot : pc'.unspawned = true) :
    pc.unspawned = true ∧ pc.spawned c.key = none := by
  cases h with
  | l1None hRead => exact ⟨rfl, rfl⟩
  | l1Some hRead => exact ⟨rfl, rfl⟩
  | l1Expired hExpired => exact ⟨rfl, rfl⟩
  | lazyDelete => exact ⟨rfl, rfl⟩
  | countL1Miss => exact ⟨rfl, rfl⟩
  | l2Nil hGet => exact ⟨rfl, rfl⟩
  | l2Error hGet => exact ⟨rfl, rfl⟩
  | countL2Err => exact ⟨rfl, rfl⟩
  | countL2Miss => exact ⟨rfl, rfl⟩
  | lead hGroup => exact ⟨rfl, rfl⟩
  | join hUse hGroup => exact ⟨rfl, rfl⟩
  | countOriginCall => exact ⟨rfl, rfl⟩
  | originValue hOrigin => exact ⟨rfl, rfl⟩
  | _ => cases hNot

/- The steps after the background write show no more. -/
theorem record_of_spawned
    (key : Key)
    (h : pc.unspawned = false) :
    pc.record s key fault origin log = log := by
  cases pc with
  | l1Read => cases h
  | l1Check entry => cases h
  | l2Get => cases h
  | originCall => cases h
  | _ => rfl

@[simp] theorem record_stored
    (key : Key)
    (pc : GetPc) :
    (pc.record s key fault origin log).stored =
      log.stored := by
  cases pc with
  | _ => rfl

/- `GET` has come when Redis held no unexpired entry. -/
theorem record_missing
    (key : Key)
    (h :
      (pc.record s key fault origin log).l2 = some .nil) :
    (pc.unspawned = true ∧
        s.store.redis.live
            (pc.record s key fault origin log).l2Time key =
          none) ∨
      (log.l2 = some .nil ∧
        (pc.record s key fault origin log).l2Time =
          log.l2Time) := by
  cases pc with
  | l2Get =>
      exact
        Or.inl
          ⟨rfl, L2Cache.live_of_get_nil (Option.some.inj h)⟩
  | _ => exact Or.inr ⟨h, rfl⟩

/- The step that starts the write shows nothing itself. -/
theorem record_of_spawns
    {entry : Key × Value}
    (h : pc.spawned c.key = some entry)
    (hShown : pc.Shown log) :
    pc.unspawned = true ∧ entry.1 = c.key ∧
      (pc.record s c.key fault origin log).Fetched
        entry.2 := by
  cases pc with
  | spawn value =>
      cases h
      exact ⟨rfl, rfl, hShown⟩
  | _ => cases h

end GetPc

namespace ManagerSystem

/-
  The call numbered `id` is a `Get` of the key that has run
  alone from the state `s`, and the log is its own.
-/
structure OnlyGet
    (s : ManagerSystem)
    (id : Nat)
    (key : Key)
    (u : ManagerSystem × GetLog) :
    Prop where
  proc :
    ∃ start pc,
      u.1.procs id = some (.get key start pc) ∧
        pc.Shown u.2 ∧
          (pc.unspawned = true →
            u.1.shared.background id = none ∧
              u.2.stored = none)
  pending :
    ∀ entry,
      u.1.shared.background id = some entry →
        entry.1 = key ∧ u.2.Fetched entry.2 ∧
          u.2.stored = none
  missing :
    u.2.l2 = some .nil →
      s.redis.live u.2.l2Time key = none
  kept :
    ∀ other,
      other ≠ key ∨ u.2.stored = none →
        u.1.redis.lookup other = s.redis.lookup other
  stored :
    ∀ value,
      u.2.stored = some value →
        u.2.Fetched value ∧
          (u.1.redis.lookup key).map
              (fun after => after.value) =
            some (.str value)

variable {cfg : ManagerConfig}
variable {s : ManagerSystem}
variable {id : Nat}
variable {key : Key}
variable {u u' : ManagerSystem × GetLog}
variable {a : ManagerAction}

/- A step that leaves Redis, the calls and the log alone. -/
theorem OnlyGet.idle
    {t : ManagerSystem}
    (hOnly : OnlyGet s id key u)
    (hProcs : t.procs = u.1.procs)
    (hBack : t.shared.background = u.1.shared.background)
    (hRedis : t.redis = u.1.redis) :
    OnlyGet s id key (t, u.2) := by
  refine ⟨?_, ?_, hOnly.missing, ?_, ?_⟩
  · simpa only [hProcs, hBack] using hOnly.proc
  · simpa only [hBack] using hOnly.pending
  · simpa only [hRedis] using hOnly.kept
  · simpa only [hRedis] using hOnly.stored

/- A step of the `Get` itself. -/
theorem OnlyGet.run
    {t : ManagerSystem}
    {fault : Fault}
    {origin : OriginReply}
    (hOnly : OnlyGet s id key u)
    (h : u.1.step cfg (.run id fault origin) = some t) :
    OnlyGet s id key
      (t, u.1.recordGet (.run id fault origin) u.2) := by
  rcases hOnly.proc with
    ⟨start, pc, hProc, hShown, hUnspawned⟩
  rcases step_run_self h hProc with ⟨p', hProc', hRun⟩
  rcases Proc.run_get hRun with ⟨pc', rfl, hPc⟩
  have hNext := GetPc.run_next hPc
  have hEffect := GetPc.run_effect hPc
  have hLog :
      u.1.recordGet (.run id fault origin) u.2 =
        pc.record u.1.shared key fault origin u.2 := by
    simp [recordGet, hProc]
  have hRedis : t.redis = u.1.redis := hEffect.redis
  -- after the write has begun, nothing is logged any more
  have hSame :
      u.1.shared.background id ≠ none ∨ u.2.stored ≠ none →
        pc.record u.1.shared key fault origin u.2 = u.2 := by
    intro hLate
    apply GetPc.record_of_spawned key
    apply Bool.eq_false_iff.mpr
    intro hBefore
    rcases hUnspawned hBefore with ⟨hBack, hStored⟩
    rcases hLate with hPending | hApplied
    · exact hPending hBack
    · exact hApplied hStored
  rw [hLog]
  refine ⟨⟨start, pc', hProc', ?_, ?_⟩, ?_, ?_, ?_, ?_⟩
  · exact GetPc.next_shown hNext hShown
  · intro hLater
    rcases GetPc.next_unspawned hNext hLater with
      ⟨hBefore, hNone⟩
    rcases hUnspawned hBefore with ⟨hBack, hStored⟩
    refine ⟨?_, by simpa using hStored⟩
    apply Option.eq_none_iff_forall_ne_some.mpr
    intro entry hEntry
    rcases hEffect.background id entry hEntry with
      hOld | ⟨_, hSpawned⟩
    · rw [hBack] at hOld
      cases hOld
    · rw [hNone] at hSpawned
      cases hSpawned
  · intro entry hEntry
    rcases hEffect.background id entry hEntry with
      hOld | ⟨_, hSpawned⟩
    · rw [hSame (Or.inl (by simp [hOld]))]
      exact hOnly.pending entry hOld
    · rcases GetPc.record_of_spawns hSpawned hShown with
        ⟨hBefore, hKey, hFetched⟩
      refine ⟨hKey, hFetched, ?_⟩
      simpa using (hUnspawned hBefore).2
  · intro hNil
    rcases GetPc.record_missing key hNil with
      ⟨hBefore, hLive⟩ | ⟨hOld, hTime⟩
    · have hLookup :
          u.1.redis.lookup key = s.redis.lookup key :=
        hOnly.kept key (Or.inr (hUnspawned hBefore).2)
      have hNone :
          u.1.redis.live _ key = none := hLive
      rw [Redis.live, hLookup] at hNone
      exact hNone
    · rw [hTime]
      exact hOnly.missing hOld
  · intro other hOther
    rw [hRedis]
    exact hOnly.kept other (by simpa using hOther)
  · intro value hValue
    rw [GetPc.record_stored] at hValue
    rw [hSame (Or.inr (by simp [hValue])), hRedis]
    exact hOnly.stored value hValue

/- The background write of the `Get`, applied or not. -/
theorem OnlyGet.background
    {t : ManagerSystem}
    {fault : Fault}
    (hOnly : OnlyGet s id key u)
    (h : u.1.step cfg (.background id fault) = some t) :
    OnlyGet s id key
      (t, u.1.recordGet (.background id fault) u.2) := by
  rcases step_background h with ⟨k, value, hEntry, rfl⟩
  rcases hOnly.pending _ hEntry with
    ⟨hKey, hFetched, hStored⟩
  have hEq : k = key := hKey
  subst hEq
  rcases hOnly.proc with
    ⟨start, pc, hProc, hShown, hUnspawned⟩
  have hAfter : pc.unspawned ≠ true := by
    intro hBefore
    rw [(hUnspawned hBefore).1] at hEntry
    cases hEntry
  cases hApplied : fault.applied with
  | false =>
      have hLog :
          u.1.recordGet (.background id fault) u.2 = u.2 := by
        simp [recordGet, hEntry, hApplied]
      have hRedis :
          L2Cache.set u.1.redis u.1.clock cfg.l2TTL k value
              fault =
            u.1.redis := by
        simp [L2Cache.set, Fault.apply_eq, hApplied]
      rw [hLog, hRedis]
      refine
        ⟨⟨start, pc, hProc, hShown,
          fun hBefore => absurd hBefore hAfter⟩,
          ?_, hOnly.missing, hOnly.kept, hOnly.stored⟩
      intro entry hLeft
      simp at hLeft
  | true =>
      have hLog :
          u.1.recordGet (.background id fault) u.2 =
            { u.2 with stored := some value } := by
        simp [recordGet, hEntry, hApplied]
      have hRedis :
          L2Cache.set u.1.redis u.1.clock cfg.l2TTL k value
              fault =
            u.1.redis.set u.1.clock cfg.l2TTL k value := by
        simp [L2Cache.set, Fault.apply_eq, hApplied]
      rw [hLog, hRedis]
      refine
        ⟨⟨start, pc, hProc, ?_,
          fun hBefore => absurd hBefore hAfter⟩,
          ?_, hOnly.missing, ?_, ?_⟩
      · cases pc with
        | spawn found => exact absurd rfl hAfter
        | _ => exact hShown
      · intro entry hLeft
        simp at hLeft
      · intro other hOther
        rcases hOther with hNe | hNone
        · rw [← hOnly.kept other (Or.inl hNe)]
          exact Redis.set_lookup_ne _ _ _ _ hNe
        · cases hNone
      · intro found hFound
        cases hFound
        refine ⟨hFetched, ?_⟩
        have hLookup :=
          u.1.redis.set_lookup_self u.1.clock cfg.l2TTL k value
        exact
          congrArg (Option.map fun after => after.value) hLookup

theorem onlyGet_step
    (hOnly : OnlyGet s id key u)
    (hAction : a.OfCall id)
    (h : (getLogMachine cfg).step u a = some u') :
    OnlyGet s id key u' := by
  rcases u' with ⟨t, log⟩
  rcases Machine.withHistory_step.mp h with ⟨hStep, hLog⟩
  simp only at hStep hLog
  subst hLog
  cases a with
  | run other fault origin =>
      have hEq : other = id := hAction
      subst hEq
      exact hOnly.run hStep
  | background other fault =>
      have hEq : other = id := hAction
      subst hEq
      exact hOnly.background hStep
  | cancel other =>
      cases hStep
      exact hOnly.idle rfl rfl rfl
  | tick elapsed =>
      cases hStep
      exact hOnly.idle rfl rfl rfl
  | call call => exact hAction.elim
  | redisDrop k => exact hAction.elim

/- A `Get` that has just begun, with nothing else running. -/
theorem onlyGet_begin
    {t : ManagerSystem}
    (hRest : s.AtRest)
    (h : s.step cfg (.call (.get key)) = some t) :
    OnlyGet s s.next key (t, GetLog.empty) := by
  cases h
  refine
    ⟨⟨s.clock, .l1Read, Function.update_self _ _ _, trivial,
      fun _ => ⟨hRest.background s.next, rfl⟩⟩,
      ?_, fun hNil => ?_, fun _ _ => rfl, ?_⟩
  · intro entry hEntry
    have hNone := hRest.background s.next
    rw [hNone] at hEntry
    cases hEntry
  · cases hNil
  · intro value hValue
    cases hValue

/- Every run of a `Get` alone is that of `OnlyGet`. -/
theorem onlyGet_exec
    {actions : List ManagerAction}
    (hRest : s.AtRest)
    (hAlone : ∀ a ∈ actions, a.OfCall s.next)
    (hRun :
      (getLogMachine cfg).exec (s, GetLog.empty)
          (.call (.get key) :: actions) =
        some u) :
    OnlyGet s s.next key u := by
  rcases Machine.exec_cons.mp hRun with ⟨v, hBegin, hSteps⟩
  rcases v with ⟨t, log⟩
  rcases Machine.withHistory_step.mp hBegin with
    ⟨hCall, hLog⟩
  have hFirst : s.step cfg (.call (.get key)) = some t := hCall
  simp only at hLog
  subst hLog
  exact
    Machine.exec_invariant_along
      (P := fun _ a => a.OfCall s.next)
      (fun _ _ _ hI hAction hStep =>
        onlyGet_step hI hAction hStep)
      (Machine.along_of_forall_mem hAlone) hSteps
      (onlyGet_begin hRest hFirst)

end ManagerSystem

end CacheServer

------------------------------------------------------------
-- Reads That Overwrite
------------------------------------------------------------

namespace CacheServer

/-
  A `Get` that runs alone, with time passing anywhere, has
  changed the value that L2 held for some key when it began
  exactly if it is a `Get` of that key, L1 missed, `GET`
  failed or came after the entry had expired, and another
  value of the origin was stored.
-/
theorem read_overwrites_iff
    (cfg : ManagerConfig)
    (s : ManagerSystem)
    (hRest : s.AtRest)
    (key : Key)
    (actions : List ManagerAction)
    (hAlone : ∀ a ∈ actions, a.OfCall s.next)
    (t : ManagerSystem)
    (log : GetLog)
    (hRun :
      (getLogMachine cfg).exec (s, GetLog.empty)
          (.call (.get key) :: actions) =
        some (t, log))
    (other : Key)
    (obj : RedisObj)
    (hLive : s.redis.live s.clock other = some obj) :
    (t.redis.lookup other).map (fun after => after.value) ≠
        some obj.value ↔
      other = key ∧ log.FetchedOver obj := by
  have hOnly := ManagerSystem.onlyGet_exec hRest hAlone hRun
  have hHeld : s.redis.lookup other = some obj :=
    (Redis.live_eq_some.mp hLive).1
  have hSame :
      other ≠ key ∨ log.stored = none →
        (t.redis.lookup other).map
            (fun after => after.value) =
          some obj.value := by
    intro hKept
    rw [hOnly.kept other hKept, hHeld]
    rfl
  constructor
  · intro hChanged
    have hKey : other = key := by
      by_contra hNe
      exact hChanged (hSame (Or.inl hNe))
    subst hKey
    cases hStored : log.stored with
    | none => exact absurd (hSame (Or.inr hStored)) hChanged
    | some value =>
        rcases hOnly.stored value hStored with
          ⟨hFetched, hAfter⟩
        refine ⟨rfl, ?_, value, hFetched, hStored, ?_⟩
        · rcases hFetched.1.2 with hError | hNil
          · exact Or.inl hError
          · have hNone := hOnly.missing hNil
            rw [Redis.live, hHeld] at hNone
            exact Or.inr (by simpa using hNone)
        · intro hEq
          rw [hEq] at hChanged
          exact hChanged hAfter
  · intro h
    rcases h with ⟨rfl, _, value, _, hStored, hOther⟩
    rw [(hOnly.stored value hStored).2]
    intro hEq
    exact hOther (Option.some.inj hEq).symm

/- A value is set, and its copy in L1 expires. -/
def setThenWait : List ManagerAction :=
  [.call (.set [1] [7]), .proceed 0, .proceed 0, .tick 10]

def afterSet : ManagerSystem :=
  ((managerMachine ⟨true, 100⟩).exec freshManager
    setThenWait).getD freshManager

/- The rest of a `Get` whose `GET` times out. -/
def timedOutGet : List ManagerAction :=
  List.replicate 4 (.proceed 1) ++
    [.run 1 (.error false (bytes "i/o timeout")) (.value [])] ++
    List.replicate 4 (.proceed 1) ++
    [.run 1 .none (.value [9]), .proceed 1,
      .background 1 .none]

theorem read_overwrites_timed_out :
    (managerMachine ⟨true, 100⟩).exec freshManager
        setThenWait =
      some afterSet ∧
      ∃ t log,
        (getLogMachine ⟨true, 100⟩).exec
            (afterSet, GetLog.empty)
            (.call (.get [1]) :: timedOutGet) =
          some (t, log) ∧
          (t.redis.lookup [1]).map
              (fun after => after.value) ≠
            some (.str [7]) := by
  have hRun :
      (getLogMachine ⟨true, 100⟩).exec
          (afterSet, GetLog.empty)
          (.call (.get [1]) :: timedOutGet) =
        some (_, _) :=
    Machine.exec_get rfl
  refine ⟨rfl, _, _, hRun, ?_⟩
  refine
    (read_overwrites_iff ⟨true, 100⟩ afterSet
      ⟨fun _ => rfl, fun _ => rfl⟩ [1] timedOutGet
      (by decide) _ _ hRun [1] ⟨.str [7], some 100⟩
      rfl).mpr ?_
  exact
    ⟨rfl, Or.inl rfl, [9], ⟨⟨rfl, Or.inl rfl⟩, rfl⟩, rfl,
      by decide⟩

/- A value that a client wrote is lost by a `GET` timing out. -/
theorem read_overwrites_after_timeout :
    ∃ s,
      (serialMachine ⟨true, 100⟩).exec
          (CacheStore.new 1000 5 ∅ 0)
          [.set [1] [7] .none, .tick 10] = some s ∧
        s.ReadOverwrites ⟨true, 100⟩ [1]
          ⟨.error false (bytes "i/o timeout"), .value [9],
            .none⟩ [1] := by
  refine ⟨_, Machine.exec_get rfl, _, rfl, ?_⟩
  decide

end CacheServer
