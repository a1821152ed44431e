import CacheServer.Cache.WriteThenGet

/-
  Visibility of an acknowledged `Set`.

  Once a `Set` has returned, a later `Get` returns its value
  while the L2 entry lives, unless an older `Get` still
  writes another value: into L1 after the `Set` has written
  it, or into L2, in the background, after the `Set` has
  issued its Redis command.

  Key definitions include:
    * `CacheServer.GetPc.Serves`
    * `CacheServer.ManagerSystem.Visible`

  Key theorems include:
    * `CacheServer.GetPc.serves_next`
    * `CacheServer.ManagerSystem.visible_step`
    * `CacheServer.acknowledged_set_visible`
    * `CacheServer.acknowledged_set_overwritten`
-/

------------------------------------------------------------
-- Conditions On A Run
------------------------------------------------------------

namespace CacheServer

/- The lifetime of what was written to L2 is not over. -/
def Unexpired
    (cfg : ManagerConfig)
    (writtenAt : Int)
    (now : Int) :
    Prop :=
  ∀ time ∈ Redis.expiry writtenAt cfg.l2TTL, now ≤ time

instance
    (cfg : ManagerConfig)
    (writtenAt now : Int) :
    Decidable (Unexpired cfg writtenAt now) := by
  unfold Unexpired
  infer_instance

/- The next step looks a key up in L1 or in L2. -/
def Proc.looksUp :
    Proc → Bool
| .get _ _ .l1Read => true
| .get _ _ .l2Get => true
| _ => false

/- The reader looks up while the L2 entry is unexpired. -/
def LooksUpInTime
    (cfg : ManagerConfig)
    (writtenAt : Int)
    (reader : Nat)
    (s : LoggedSystem)
    (a : ManagerAction) :
    Prop :=
  ∀ id ∈ a.actor,
    id = reader →
      ∀ p ∈ s.1.procs id,
        p.looksUp = true → Unexpired cfg writtenAt s.1.clock

instance
    (cfg : ManagerConfig)
    (writtenAt : Int)
    (reader : Nat)
    (s : LoggedSystem)
    (a : ManagerAction) :
    Decidable (LooksUpInTime cfg writtenAt reader s a) := by
  unfold LooksUpInTime
  infer_instance

/- The content of a call that writes the key at all. -/
def IsWrite
    (content : Option (Option Value)) :
    Prop :=
  content ≠ none

/- No write of the key begins and Redis does as it is told. -/
structure ManagerAction.Calm
    (key : Key)
    (a : ManagerAction) :
    Prop where
  avoids : a.Avoids key IsWrite
  noFault : a.NoFault
  noDrop : a.NoDrop

theorem calm_get
    (key k : Key) :
    ManagerAction.Calm key (.call (.get k)) :=
  ⟨fun hWrite => hWrite rfl, trivial, trivial⟩

end CacheServer

------------------------------------------------------------
-- Gets That Serve One Value
------------------------------------------------------------

namespace CacheServer

namespace GetPc

/- A `Get` that is on its way to return this value. -/
def Serves
    (value : Value) :
    GetPc → Prop
| .l1Read => True
| .l1Check entry => entry.value = value
| .lazyDelete => True
| .countL1Miss => True
| .countL1Hit found => found = value
| .l2Get => True
| .countL2Hit found => found = value
| .backPopulate found => found = value
| .addLatency result => result = .ok value
| .countRequest result => result = .ok value
| .done result => result = .ok value
| _ => False

variable {cfg : ManagerConfig}
variable {s t : Shared}
variable {c : Caller}
variable {fault : Fault}
variable {origin : OriginReply}
variable {pc pc' : GetPc}

/- It stays so if what it looks up is this value. -/
theorem serves_next
    {value : Value}
    (hServes : pc.Serves value)
    (hL1 :
      pc = .l1Read →
        ∀ entry,
          s.store.l1.read c.key = some entry →
            entry.value = value)
    (hL2 :
      pc = .l2Get →
        L2Cache.get s.store.redis s.store.clock c.key fault =
          .hit value)
    (h : Next cfg s c fault origin pc pc') :
    pc'.Serves value := by
  cases h with
  | l1None hRead => trivial
  | l1Some hRead => exact hL1 rfl _ hRead
  | l1Expired hExpired => trivial
  | l1Fresh hFresh => exact hServes
  | lazyDelete => trivial
  | countL1Miss => trivial
  | countL1Hit => exact congrArg GetResult.ok hServes
  | l2Hit hGet =>
      have hSame := (hL2 rfl).symm.trans hGet
      exact (L2Reply.hit.inj hSame).symm
  | l2Nil hGet => cases (hL2 rfl).symm.trans hGet
  | l2Error hGet => cases (hL2 rfl).symm.trans hGet
  | countL2Hit => exact hServes
  | backPopulate => exact congrArg GetResult.ok hServes
  | addLatency => exact hServes
  | countRequest => exact hServes
  | _ => exact hServes.elim

end GetPc

end CacheServer

------------------------------------------------------------
-- While The Set Runs
------------------------------------------------------------

namespace CacheServer

namespace ManagerSystem

variable {cfg : ManagerConfig}
variable {s s' : ManagerSystem}
variable {a : ManagerAction}
variable {key : Key}
variable {value : Value}

/-
  The `Set` is before its L1 write, or before its command
  with L1 holding its value, or it has returned.
-/
structure Overwriting
    (key : Key)
    (value : Value)
    (writer : Nat)
    (s : ManagerSystem) :
    Prop where
  numbered : s.Numbered
  others : s.NoneOpen key IsWrite (some writer)
  own :
    s.procs writer = some (.set key value .l1) ∨
      (s.procs writer = some (.set key value .l2) ∧
        s.L1Holds key (fun v => v = value)) ∨
      ∃ error,
        s.procs writer =
          some (.set key value (.done error))

theorem overwriting_step
    {writer : Nat}
    (hInv : Overwriting key value writer s)
    (hAvoid : a.Avoids key IsWrite)
    (hOnly :
      s.procs writer = some (.set key value .l2) →
        OnlyWrites key (fun v => v = value) (s.l1Write a))
    (h : s.step cfg a = some s') :
    Overwriting key value writer s' := by
  refine
    ⟨numbered_step hInv.numbered h,
      noneOpen_step hInv.others hAvoid h, ?_⟩
  refine
    writing_step (writerOf_set key value) hInv.numbered
      (fun _ hv => hv) ?_ ?_ hInv.own h
  · intro v hEq
    cases hEq
    rfl
  · intro hL2 v hWrite
    exact hOnly hL2 _ hWrite rfl v rfl

end ManagerSystem

end CacheServer

------------------------------------------------------------
-- After The Set Has Returned
------------------------------------------------------------

namespace CacheServer

namespace ManagerSystem

variable {cfg : ManagerConfig}
variable {s s' : ManagerSystem}
variable {a : ManagerAction}
variable {key : Key}
variable {value : Value}
variable {limit : Nat}
variable {writtenAt : Int}

/-
  L2 holds the value at least as long as the `Set` made it,
  L1 holds no other, and later `Get` calls serve it.
-/
structure Served
    (cfg : ManagerConfig)
    (key : Key)
    (value : Value)
    (limit : Nat)
    (writtenAt : Int)
    (s : ManagerSystem) :
    Prop where
  l2 :
    ∃ obj,
      s.redis.lookup key = some obj ∧
        obj.value = .str value ∧
          ∀ now,
            Unexpired cfg writtenAt now →
              obj.expired now = false
  l1 : s.L1Holds key (fun v => v = value)
  gets :
    ∀ id start pc,
      limit ≤ id →
        s.procs id = some (.get key start pc) →
          pc.Serves value
  background :
    ∀ id v,
      limit ≤ id →
        s.shared.background id ≠ some (key, v)

/- The value is served until the L2 entry would expire. -/
structure Visible
    (cfg : ManagerConfig)
    (key : Key)
    (value : Value)
    (limit : Nat)
    (writtenAt : Int)
    (s : ManagerSystem) :
    Prop where
  numbered : s.Numbered
  writtenBefore : writtenAt ≤ s.clock
  writers : s.NoneOpen key IsWrite none
  served :
    Unexpired cfg writtenAt s.clock →
      Served cfg key value limit writtenAt s

/- A lifetime that is not over later is not over now. -/
theorem unexpired_earlier
    {now later : Int}
    (hLe : now ≤ later)
    (h : Unexpired cfg writtenAt later) :
    Unexpired cfg writtenAt now := by
  intro time hTime
  exact le_trans hLe (h time hTime)

/- What is written later lives at least as long. -/
theorem not_expired_of_unexpired
    {at' now : Int}
    (value : RedisValue)
    (hLe : writtenAt ≤ at')
    (h : Unexpired cfg writtenAt now) :
    RedisObj.expired
      { value := value
        expiresAt := Redis.expiry at' cfg.l2TTL } now =
      false := by
  by_cases hTtl : 0 < cfg.l2TTL
  · have hWithin : now ≤ writtenAt + cfg.l2TTL :=
      h _ (by simp [Redis.expiry, hTtl])
    have hNot : ¬ at' + cfg.l2TTL < now := by omega
    simp [RedisObj.expired, Redis.expiry, hTtl, hNot]
  · simp [RedisObj.expired, Redis.expiry, hTtl]

/- No write call is open, so values in L1 come from `Get`. -/
theorem value_of_l1Write
    {v : Value}
    (hWriters : s.NoneOpen key IsWrite none)
    (hServed : Served cfg key value limit writtenAt s)
    (hOld :
      ∀ id ∈ a.actor,
        id < limit →
          OnlyWrites key (fun v => v = value) (s.l1Write a))
    (hWrite : s.l1Write a = some (key, some v)) :
    v = value := by
  rcases l1Write_cases hWrite with
    ⟨id, fault, origin, p, rfl, hProc, hP⟩
  by_cases hId : id < limit
  · exact hOld id rfl hId _ hWrite rfl v rfl
  · rcases hP with ⟨start, pc, rfl, hPc⟩ | rfl
    · have hServes :=
        hServed.gets id start pc (by omega) hProc
      rcases hPc with rfl | rfl
      · exact hServes
      · exact hServes.elim
    · have hDone :=
        hWriters id _ hProc (by simp)
          (by simp [IsWrite, Proc.content])
      cases hDone

/- Nor does L2 get any value but this one. -/
theorem content_of_l2Write
    {content : Option Value}
    (hWriters : s.NoneOpen key IsWrite none)
    (hServed : Served cfg key value limit writtenAt s)
    (hOld :
      ∀ id ∈ a.actor,
        id < limit →
          OnlyWrites key (fun v => v = value) (s.l2Write a))
    (hDrop : a.NoDrop)
    (hWrite : s.l2Write a = some (key, content)) :
    content = some value := by
  rcases l2Write_cases hWrite with hRun | hBack | hDropped
  · rcases hRun with ⟨id, _, _, p, rfl, hProc, hOpen, hP⟩
    have hDone :=
      hWriters id p hProc (by simp) (by simp [IsWrite, hP])
    rw [hOpen] at hDone
    cases hDone
  · rcases hBack with ⟨id, _, v, rfl, hEntry, rfl⟩
    by_cases hId : id < limit
    · rw [hOld id rfl hId _ hWrite rfl v rfl]
    · exact
        absurd hEntry
          (hServed.background id v (by omega))
  · subst hDropped
    exact hDrop.elim

/- `GET` answers with the value. -/
theorem l2Get_of_served
    (hServed : Served cfg key value limit writtenAt s)
    (hAlive : Unexpired cfg writtenAt s.clock) :
    L2Cache.get s.redis s.clock key .none = .hit value := by
  rcases hServed.l2 with ⟨obj, hLookup, hValue, hFresh⟩
  exact
    L2Cache.get_of_live hLookup (hFresh _ hAlive) hValue

theorem served_step
    (hInv : Visible cfg key value limit writtenAt s)
    (hServed : Served cfg key value limit writtenAt s)
    (hAlive : Unexpired cfg writtenAt s.clock)
    (hCalm : a.Calm key)
    (hOld :
      ∀ id ∈ a.actor,
        id < limit →
          OnlyWrites key (fun v => v = value) (s.l1Write a) ∧
            OnlyWrites key (fun v => v = value) (s.l2Write a))
    (h : s.step cfg a = some s') :
    Served cfg key value limit writtenAt s' := by
  constructor
  · rcases step_lookup h key with
      ⟨hSame, _⟩ | ⟨content, hWrite, hLookup⟩
    · rw [hSame]
      exact hServed.l2
    · have hContent :=
        content_of_l2Write hInv.writers hServed
          (fun id hId hLt => (hOld id hId hLt).2)
          hCalm.noDrop hWrite
      subst hContent
      refine ⟨_, hLookup, rfl, ?_⟩
      intro now hNow
      exact
        not_expired_of_unexpired _ hInv.writtenBefore hNow
  · apply l1Holds_step hServed.l1 (fun _ hv => hv) ?_ h
    intro v hWrite
    exact
      value_of_l1Write hInv.writers hServed
        (fun id hId hLt => (hOld id hId hLt).1) hWrite
  · intro id start pc' hLe hProc
    rcases step_getProc h hProc with
      hSame | ⟨_, _, _, rfl⟩ |
        ⟨fault, origin, pc, rfl, hBefore, hPc⟩
    · exact hServed.gets id start pc' hLe hSame
    · trivial
    · have hFault : fault = .none := hCalm.noFault
      subst hFault
      have hServes := hServed.gets id start pc hLe hBefore
      refine
        GetPc.serves_next hServes ?_ ?_ (GetPc.run_next hPc)
      · exact fun _ => hServed.l1
      · exact fun _ => l2Get_of_served hServed hAlive
  · intro id v hLe hEntry
    rcases step_background_entry h hEntry with
      hSame | ⟨_, _, p, _, hProc, hSpawn⟩
    · exact hServed.background id v hLe hSame
    · cases p with
      | get k start pc =>
          cases pc with
          | spawn found =>
              cases hSpawn
              exact hServed.gets id start _ hLe hProc
          | _ => cases hSpawn
      | set k found pc => cases hSpawn
      | invalidate k pc => cases hSpawn

theorem visible_step
    (hInv : Visible cfg key value limit writtenAt s)
    (hCalm : a.Calm key)
    (hOld :
      ∀ id ∈ a.actor,
        id < limit →
          OnlyWrites key (fun v => v = value) (s.l1Write a) ∧
            OnlyWrites key (fun v => v = value) (s.l2Write a))
    (h : s.step cfg a = some s') :
    Visible cfg key value limit writtenAt s' := by
  have hClock := (step_tiers h).clock
  refine
    ⟨numbered_step hInv.numbered h,
      le_trans hInv.writtenBefore hClock,
      noneOpen_step hInv.writers hCalm.avoids h, ?_⟩
  intro hLater
  have hAlive := unexpired_earlier hClock hLater
  exact
    served_step hInv (hInv.served hAlive) hAlive hCalm hOld h

end ManagerSystem

end CacheServer

------------------------------------------------------------
-- Acknowledged Sets
------------------------------------------------------------

namespace CacheServer

open ManagerSystem

namespace WriteThenGet

variable {cfg : ManagerConfig}
variable {key : Key}
variable {value : Value}

/- When the `Set` issues its Redis command. -/
def writtenAt
    (w : WriteThenGet cfg key (.set key value)) :
    Int :=
  w.pending.1.clock

theorem numbered_start
    {write : ManagerCall}
    (w : WriteThenGet cfg key write) :
    w.start.1.Numbered :=
  numbered_exec (numbered_new _ _ _ _)
    (Machine.exec_of_withHistory w.runBefore)

/- While the `Set` is called no other write is open. -/
theorem overwriting_called
    (w : WriteThenGet cfg key (.set key value))
    (hQuiet : w.start.1.NoneOpen key IsWrite none) :
    Overwriting key value w.writer w.called.1 := by
  have hStep := (loggedMachine_step w.call).1
  have hNum := w.numbered_start
  refine
    ⟨numbered_step hNum hStep, ?_,
      Or.inl (step_call_self hStep)⟩
  intro id p hProc hNe hKind
  rcases step_proc hStep hProc with
    hOld | ⟨_, _, hId, _⟩ | ⟨_, _, _, hCall, _⟩
  · exact hQuiet id p hOld (by simp) hKind
  · exact absurd (congrArg some hId) hNe
  · cases hCall

/- When the `Set` has returned its value is visible. -/
theorem visible_returned
    (w : WriteThenGet cfg key (.set key value))
    (hInv : Overwriting key value w.writer w.pending.1) :
    Visible cfg key value w.limit w.writtenAt
      w.returned.1 := by
  have hStep := (loggedMachine_step w.command).1
  have hProc :
      w.pending.1.procs w.writer =
        some (.set key value .l2) :=
    w.atL2
  have hHolds :
      w.pending.1.L1Holds key (fun v => v = value) :=
    ManagerSystem.Writing.l1Holds (writerOf_set key value)
      hInv.own hProc
  have hNum := numbered_step hInv.numbered hStep
  have hL1Write :
      w.pending.1.l1Write
        (.run w.writer .none w.origin) = none := by
    simp [ManagerSystem.l1Write, hProc, Proc.l1Write]
  have hL2Write :
      w.pending.1.l2Write
          (.run w.writer .none w.origin) =
        some (key, some value) := by
    simp [ManagerSystem.l2Write, hProc, Proc.l2WriteIf,
      Proc.l2Write, Fault.applied]
  refine ⟨hNum, (step_tiers hStep).clock, ?_, ?_⟩
  · intro id p hAfter _ hKind
    by_cases hId : id = w.writer
    · subst hId
      rcases step_run_self hStep hProc with
        ⟨p', hNext, hRun⟩
      rcases Proc.run_set hRun with ⟨pc', rfl, hPc⟩
      have hDone := (Prod.mk.inj (Option.some.inj hPc)).2
      subst hDone
      have hSame := hNext.symm.trans hAfter
      cases hSame
      rfl
    · rcases step_proc hStep hAfter with
        hOld | ⟨_, hCall, _⟩ | ⟨_, _, _, hCall, _⟩
      · exact
          hInv.others id p hOld (by simpa using hId) hKind
      · cases hCall
      · cases hCall
        exact absurd rfl hId
  · intro _
    constructor
    · refine ⟨_, step_lookup_of_write hStep hL2Write, rfl, ?_⟩
      intro now hNow
      exact not_expired_of_unexpired _ (le_refl _) hNow
    · exact
        l1Holds_step_of_none hHolds (fun _ hv => hv) hL1Write
          hStep
    · intro id start pc hLe hAfter
      rw [hNum.procs id hLe] at hAfter
      cases hAfter
    · intro id v hLe hEntry
      rw [hNum.background id hLe] at hEntry
      cases hEntry

/- The reader serves the value while the value is visible. -/
structure Reading
    (w : WriteThenGet cfg key (.set key value))
    (s : LoggedSystem) :
    Prop where
  visible :
    Visible cfg key value w.limit w.writtenAt s.1
  reader :
    ∃ start pc,
      s.1.procs w.reader = some (.get key start pc) ∧
        pc.Serves value

theorem reading_step
    (w : WriteThenGet cfg key (.set key value))
    {s s' : LoggedSystem}
    {a : ManagerAction}
    (hInv : w.Reading s)
    (hCalm : a.Calm key)
    (hOld : OldWritesAre key (fun _ v => v = value) w.limit s a)
    (hInTime : LooksUpInTime cfg w.writtenAt w.reader s a)
    (h : (loggedMachine cfg).step s a = some s') :
    w.Reading s' := by
  have hStep := (loggedMachine_step h).1
  have hVisible := hInv.visible
  refine ⟨visible_step hVisible hCalm hOld hStep, ?_⟩
  rcases hInv.reader with ⟨start, pc, hProc, hServes⟩
  rcases step_proc_next hVisible.numbered hStep hProc with
    hSame | ⟨fault, origin, p', rfl, hNext, hRun⟩
  · exact ⟨start, pc, hSame, hServes⟩
  · have hFault : fault = .none := hCalm.noFault
    subst hFault
    rcases Proc.run_get hRun with ⟨pc', rfl, hPc⟩
    have hAlive :
        (Proc.get key start pc).looksUp = true →
          Unexpired cfg w.writtenAt s.1.clock :=
      hInTime w.reader rfl rfl _ hProc
    refine ⟨start, pc', hNext, ?_⟩
    refine
      GetPc.serves_next hServes ?_ ?_ (GetPc.run_next hPc)
    · intro hL1
      subst hL1
      exact (hVisible.served (hAlive rfl)).l1
    · intro hL2
      subst hL2
      exact
        l2Get_of_served (hVisible.served (hAlive rfl))
          (hAlive rfl)

end WriteThenGet

/-
  A `Set` returns nil with no other write of its key open
  or following. If older `Get` calls write no other value to
  L1 after its L1 write, nor to L2 after its command, then a
  later `Get` that looks the key up before the L2 entry
  expires returns the value.
-/
theorem acknowledged_set_visible
    (cfg : ManagerConfig)
    (key : Key)
    (value : Value)
    (w : WriteThenGet cfg key (.set key value))
    (result : GetResult)
    (hQuiet : w.start.1.NoneOpen key IsWrite none)
    (hCalm :
      ∀ a ∈ w.during ++ w.between ++ w.after, a.Calm key)
    (hDuring :
      (loggedMachine cfg).Along
        (NotRefilled key (fun _ v => v = value) w.writer
          (.set key value .l2)) w.called w.during)
    (hBetween :
      (loggedMachine cfg).Along
        (OldWritesAre key (fun _ v => v = value) w.limit)
        w.returned w.between)
    (hAfter :
      (loggedMachine cfg).Along
        (OldWritesAre key (fun _ v => v = value) w.limit)
        w.began w.after)
    (hInTime :
      (loggedMachine cfg).Along
        (LooksUpInTime cfg w.writtenAt w.reader) w.began
        w.after)
    (hReturns : w.Returns result) :
    result = .ok value := by
  have hCalmDuring : ∀ a ∈ w.during, a.Calm key :=
    fun a ha => hCalm a (by simp [ha])
  have hCalmBetween : ∀ a ∈ w.between, a.Calm key :=
    fun a ha => hCalm a (by simp [ha])
  have hCalmAfter : ∀ a ∈ w.after, a.Calm key :=
    fun a ha => hCalm a (by simp [ha])
  have hPending :
      Overwriting key value w.writer w.pending.1 :=
    Machine.exec_invariant_along
      (I := fun t => Overwriting key value w.writer t.1)
      (fun _ _ _ hI hP hStep =>
        overwriting_step hI hP.1.avoids hP.2
          (loggedMachine_step hStep).1)
      ((Machine.along_of_forall_mem hCalmDuring).and hDuring)
      w.runDuring (w.overwriting_called hQuiet)
  have hLater :
      Visible cfg key value w.limit w.writtenAt w.later.1 :=
    Machine.exec_invariant_along
      (I := fun t =>
        Visible cfg key value w.limit w.writtenAt t.1)
      (fun _ _ _ hI hP hStep =>
        visible_step hI hP.1 hP.2
          (loggedMachine_step hStep).1)
      ((Machine.along_of_forall_mem hCalmBetween).and
        hBetween)
      w.runBetween (w.visible_returned hPending)
  have hBegan : w.Reading w.began := by
    have hStep := (loggedMachine_step w.get).1
    refine
      ⟨visible_step hLater (calm_get key key) ?_ hStep, _, _,
        step_call_self hStep, trivial⟩
    intro id hId
    cases hId
  have hEnded : w.Reading w.ended :=
    Machine.exec_invariant_along (I := w.Reading)
      (fun _ _ _ hI hP hStep =>
        w.reading_step hI hP.1 hP.2.1 hP.2.2 hStep)
      ((Machine.along_of_forall_mem hCalmAfter).and
        (hAfter.and hInTime))
      w.runAfter hBegan
  rcases hEnded.reader with ⟨start, pc, hProc, hServes⟩
  rcases hReturns with ⟨start', hDone⟩
  rw [hDone] at hProc
  cases hProc
  exact hServes

/- A `Set`, and a `Get` that L2 answers after L1 expired. -/
def setThenGet :
    WriteThenGet ⟨true, 100⟩ [1] (.set [1] [8]) :=
  { maxSize := 1000
    l1TTL := 5
    redis := ∅
    clock := 0
    before := []
    during := [.proceed 0]
    between := [.tick 10]
    after := List.replicate 9 (.proceed 1)
    origin := .value []
    start := _
    called := _
    pending := _
    returned := _
    later := _
    began := _
    ended := _
    runBefore := Machine.exec_get rfl
    call := rfl
    runDuring := Machine.exec_get rfl
    atL2 := rfl
    command := rfl
    runBetween := Machine.exec_get rfl
    get := rfl
    runAfter := Machine.exec_get rfl }

theorem calm_proceed
    (key : Key)
    (id : Nat) :
    (ManagerAction.proceed id).Calm key :=
  ⟨trivial, rfl, trivial⟩

theorem acknowledged_set_visible_from_l2 :
    ∃ result,
      setThenGet.Returns result ∧ result = .ok [8] := by
  refine ⟨.ok [8], ⟨10, rfl⟩, ?_⟩
  refine
    acknowledged_set_visible ⟨true, 100⟩ [1] [8] setThenGet
      _ ?_ ?_ (by decide) (by decide) (by decide)
      (by decide) ⟨10, rfl⟩
  · intro id p hProc
    cases hProc
  · intro a ha
    have hCases : a = .proceed 0 ∨ a = .tick 10 ∨
        a = .proceed 1 := by
      simpa [setThenGet] using ha
    rcases hCases with rfl | rfl | rfl
    · exact calm_proceed [1] 0
    · exact ⟨trivial, trivial, trivial⟩
    · exact calm_proceed [1] 1

/-
  A `Get` has read the old value from L2 when a `Set` runs
  from start to end, and then copies the old value into L1.
-/
def overtakenSet :
    WriteThenGet ⟨true, 100⟩ [1] (.set [1] [8]) :=
  { maxSize := 1000
    l1TTL := 5
    redis := ∅
    clock := 0
    before := staleReader
    during := [.proceed 2]
    between := [.proceed 1]
    after := List.replicate 5 (.proceed 3)
    origin := .value []
    start := lagging
    called := _
    pending := _
    returned := _
    later := _
    began := _
    ended := _
    runBefore := staleReader_run
    call := rfl
    runDuring := Machine.exec_get rfl
    atL2 := rfl
    command := rfl
    runBetween := Machine.exec_get rfl
    get := rfl
    runAfter := Machine.exec_get rfl }

theorem acknowledged_set_overwritten :
    ¬ ∀ (cfg : ManagerConfig) (key : Key) (value : Value)
        (w : WriteThenGet cfg key (.set key value))
        (result : GetResult),
        w.start.1.NoneOpen key IsWrite none →
          (∀ a ∈ w.during ++ w.between ++ w.after,
            a.Calm key) →
            Unexpired cfg w.writtenAt w.later.1.clock →
              w.Returns result → result = .ok value := by
  intro h
  have hBad :=
    h ⟨true, 100⟩ [1] [8] overtakenSet (.ok [7]) ?_ ?_
      (by decide) ⟨10, rfl⟩
  · cases hBad
  · intro id p hProc _ hKind
    match id, hProc with
    | 0, hProc =>
        cases hProc
        rfl
    | 1, hProc =>
        cases hProc
        exact absurd rfl hKind
    | _ + 2, hProc => cases hProc
  · intro a ha
    have hCases : a = .proceed 2 ∨ a = .proceed 1 ∨
        a = .proceed 3 := by
      simpa [overtakenSet] using ha
    rcases hCases with rfl | rfl | rfl
    · exact calm_proceed [1] 2
    · exact calm_proceed [1] 1
    · exact calm_proceed [1] 3

end CacheServer
