import CacheServer.Cache.TierSteps

/-
  Runs in which a write returns and a `Get` of the key
  starts after it, with any other calls around both.

  A log beside the run keeps the values that origin calls
  have produced, so that a value can be told to be new.

  Key definitions include:
    * `CacheServer.loggedMachine`
    * `CacheServer.WriteThenGet`
    * `CacheServer.OldWritesAre`
    * `CacheServer.NotRefilled`
    * `CacheServer.ManagerSystem.NoneOpen`
    * `CacheServer.ManagerSystem.Writing`

  Key theorems include:
    * `CacheServer.ManagerSystem.l1Holds_step`
    * `CacheServer.ManagerSystem.noneOpen_step`
    * `CacheServer.ManagerSystem.writing_step`
-/

------------------------------------------------------------
-- The Log Of Origin Values
------------------------------------------------------------

namespace CacheServer

namespace Proc

/- The key of the origin call that the next step makes. -/
def originKey :
    Proc → Option Key
| .get key _ .originCall => some key
| _ => none

end Proc

/- The values produced by origin calls, with their keys. -/
abbrev OriginLog :=
  List (Key × Value)

namespace ManagerSystem

/- The value that an origin call produces in this step. -/
def produced
    (s : ManagerSystem)
    (a : ManagerAction) :
    OriginLog :=
  match a with
  | .run id _ (.value value) =>
      match (s.procs id).bind Proc.originKey with
      | some key => [(key, value)]
      | none => []
  | _ => []

def recordOrigin
    (s : ManagerSystem)
    (a : ManagerAction)
    (log : OriginLog) :
    OriginLog :=
  log ++ s.produced a

end ManagerSystem

abbrev LoggedSystem :=
  ManagerSystem × OriginLog

def loggedMachine
    (cfg : ManagerConfig) :
    Machine LoggedSystem ManagerAction :=
  (managerMachine cfg).withHistory
    ManagerSystem.recordOrigin

theorem loggedMachine_step
    {cfg : ManagerConfig}
    {s s' : LoggedSystem}
    {a : ManagerAction}
    (h : (loggedMachine cfg).step s a = some s') :
    s.1.step cfg a = some s'.1 ∧
      s'.2 = s.1.recordOrigin a s.2 :=
  Machine.withHistory_step.mp h

end CacheServer

------------------------------------------------------------
-- A Write, And A Get After It
------------------------------------------------------------

namespace CacheServer

/- A write call that is about to issue its Redis command. -/
def ManagerCall.atL2 :
    ManagerCall → Option Proc
| .get _ => none
| .set key value => some (.set key value .l2)
| .invalidate key => some (.invalidate key .l2)

/-
  A run from the start of a manager. `write` is called in
  `start` and returns nil with its Redis command, the step
  from `pending` to `returned`. A `Get` of the key is called
  in `later`. Any actions come before, between and after.
-/
structure WriteThenGet
    (cfg : ManagerConfig)
    (key : Key)
    (write : ManagerCall) where
  maxSize : Int
  l1TTL : Int
  redis : Redis
  clock : Int
  before : List ManagerAction
  during : List ManagerAction
  between : List ManagerAction
  after : List ManagerAction
  origin : OriginReply
  start : LoggedSystem
  called : LoggedSystem
  pending : LoggedSystem
  returned : LoggedSystem
  later : LoggedSystem
  began : LoggedSystem
  ended : LoggedSystem
  runBefore :
    (loggedMachine cfg).exec
      (ManagerSystem.new maxSize l1TTL redis clock, [])
      before = some start
  call :
    (loggedMachine cfg).step start (.call write) =
      some called
  runDuring :
    (loggedMachine cfg).exec called during = some pending
  atL2 :
    pending.1.procs start.1.next = write.atL2
  command :
    (loggedMachine cfg).step pending
      (.run start.1.next .none origin) = some returned
  runBetween :
    (loggedMachine cfg).exec returned between = some later
  get :
    (loggedMachine cfg).step later (.call (.get key)) =
      some began
  runAfter :
    (loggedMachine cfg).exec began after = some ended

namespace WriteThenGet

variable {cfg : ManagerConfig}
variable {key : Key}
variable {write : ManagerCall}

/- The number of the write call. -/
def writer
    (w : WriteThenGet cfg key write) :
    Nat :=
  w.start.1.next

/- The number of the `Get`. -/
def reader
    (w : WriteThenGet cfg key write) :
    Nat :=
  w.later.1.next

/- Calls numbered below this began before the return. -/
def limit
    (w : WriteThenGet cfg key write) :
    Nat :=
  w.returned.1.next

/- What the `Get` has returned at the end, if it has. -/
def Returns
    (w : WriteThenGet cfg key write)
    (result : GetResult) :
    Prop :=
  ∃ start,
    w.ended.1.procs w.reader =
      some (.get key start (.done result))

end WriteThenGet

end CacheServer

------------------------------------------------------------
-- A Get That Lags Behind
------------------------------------------------------------

namespace CacheServer

/-
  A `Get` that has found a value in L2 and is about to copy
  it into L1, whose own copy has expired.
-/
def staleReader : List ManagerAction :=
  [.call (.set [1] [7]), .proceed 0, .proceed 0, .tick 10,
    .call (.get [1]), .proceed 1, .proceed 1, .proceed 1,
    .proceed 1, .proceed 1, .proceed 1]

theorem staleReader_isSome :
    ((loggedMachine ⟨true, 100⟩).exec
      (ManagerSystem.new 1000 5 ∅ 0, [])
      staleReader).isSome = true := rfl

/- The state in which this `Get` waits. -/
def lagging : LoggedSystem :=
  Option.get _ staleReader_isSome

theorem staleReader_run :
    (loggedMachine ⟨true, 100⟩).exec
        (ManagerSystem.new 1000 5 ∅ 0, []) staleReader =
      some lagging :=
  Machine.exec_get staleReader_isSome

end CacheServer

------------------------------------------------------------
-- Writes That Are Allowed
------------------------------------------------------------

namespace CacheServer

/- The call whose step this is. -/
def ManagerAction.actor :
    ManagerAction → Option Nat
| .run id _ _ => some id
| .background id _ => some id
| _ => none

/- The write puts only such values under the key. -/
def OnlyWrites
    (key : Key)
    (Ok : Value → Prop)
    (w : Option TierWrite) :
    Prop :=
  ∀ write ∈ w, write.1 = key → ∀ v ∈ write.2, Ok v

instance
    (key : Key)
    (Ok : Value → Prop)
    [DecidablePred Ok]
    (w : Option TierWrite) :
    Decidable (OnlyWrites key Ok w) := by
  unfold OnlyWrites
  infer_instance

/- Calls below `limit` write only such values to the key. -/
def OldWritesAre
    (key : Key)
    (Ok : OriginLog → Value → Prop)
    (limit : Nat)
    (s : LoggedSystem)
    (a : ManagerAction) :
    Prop :=
  ∀ id ∈ a.actor,
    id < limit →
      OnlyWrites key (Ok s.2) (s.1.l1Write a) ∧
        OnlyWrites key (Ok s.2) (s.1.l2Write a)

instance
    (key : Key)
    (Ok : OriginLog → Value → Prop)
    [∀ log, DecidablePred (Ok log)]
    (limit : Nat)
    (s : LoggedSystem)
    (a : ManagerAction) :
    Decidable (OldWritesAre key Ok limit s a) := by
  unfold OldWritesAre
  infer_instance

/-
  While the writer is between its two steps, only such
  values are written to L1.
-/
def NotRefilled
    (key : Key)
    (Ok : OriginLog → Value → Prop)
    (writer : Nat)
    (atL2 : Proc)
    (s : LoggedSystem)
    (a : ManagerAction) :
    Prop :=
  s.1.procs writer = some atL2 →
    OnlyWrites key (Ok s.2) (s.1.l1Write a)

instance
    (key : Key)
    (Ok : OriginLog → Value → Prop)
    [∀ log, DecidablePred (Ok log)]
    (writer : Nat)
    (atL2 : Proc)
    (s : LoggedSystem)
    (a : ManagerAction) :
    Decidable (NotRefilled key Ok writer atL2 s a) := by
  unfold NotRefilled
  infer_instance

namespace ManagerSystem

variable {cfg : ManagerConfig}
variable {s s' : ManagerSystem}
variable {a : ManagerAction}
variable {key : Key}
variable {Ok Ok' : Value → Prop}

/- L1 has only such values under the key. -/
def L1Holds
    (s : ManagerSystem)
    (key : Key)
    (Ok : Value → Prop) :
    Prop :=
  ∀ entry, s.l1.read key = some entry → Ok entry.value

/- It stays so if only such values are written. -/
theorem l1Holds_step
    (hHolds : s.L1Holds key Ok)
    (hMono : ∀ v, Ok v → Ok' v)
    (hOnly :
      ∀ v, s.l1Write a = some (key, some v) → Ok' v)
    (h : s.step cfg a = some s') :
    s'.L1Holds key Ok' := by
  intro entry hEntry
  rcases step_read h key with
    hSame | hNone | ⟨v, hWrite, hRead⟩
  · rw [hSame] at hEntry
    exact hMono _ (hHolds entry hEntry)
  · rw [hNone] at hEntry
    cases hEntry
  · rw [hRead] at hEntry
    cases hEntry
    exact hOnly v hWrite

theorem l1Holds_step_of_none
    (hHolds : s.L1Holds key Ok)
    (hMono : ∀ v, Ok v → Ok' v)
    (hWrite : s.l1Write a = none)
    (h : s.step cfg a = some s') :
    s'.L1Holds key Ok' := by
  refine l1Holds_step hHolds hMono ?_ h
  intro v hSome
  rw [hWrite] at hSome
  cases hSome

end ManagerSystem

end CacheServer

------------------------------------------------------------
-- Open Writers Of A Key
------------------------------------------------------------

namespace CacheServer

/- What a write call leaves under the key, if it is on it. -/
def ManagerCall.content
    (key : Key) :
    ManagerCall → Option (Option Value)
| .get _ => none
| .set k value => if k = key then some (some value) else none
| .invalidate k => if k = key then some none else none

theorem ManagerCall.proc_content
    (call : ManagerCall)
    (now : Int)
    (key : Key) :
    (call.proc now).content key = call.content key := by
  cases call with
  | get k => rfl
  | set k value => rfl
  | invalidate k => rfl

/- No call of this kind begins. -/
def ManagerAction.Avoids
    (key : Key)
    (Kind : Option (Option Value) → Prop)
    (a : ManagerAction) :
    Prop :=
  match a with
  | .call made => ¬ Kind (made.content key)
  | _ => True

namespace ManagerSystem

variable {cfg : ManagerConfig}
variable {s s' : ManagerSystem}
variable {a : ManagerAction}
variable {key : Key}

/-
  Every call that leaves content of this kind under the key
  has returned, except perhaps the call `other`.
-/
def NoneOpen
    (s : ManagerSystem)
    (key : Key)
    (Kind : Option (Option Value) → Prop)
    (other : Option Nat) :
    Prop :=
  ∀ id p,
    s.procs id = some p →
      some id ≠ other →
        Kind (p.content key) → p.finished = true

theorem noneOpen_step
    {Kind : Option (Option Value) → Prop}
    {other : Option Nat}
    (hNone : s.NoneOpen key Kind other)
    (hAvoid : a.Avoids key Kind)
    (h : s.step cfg a = some s') :
    s'.NoneOpen key Kind other := by
  intro id p' hProc hNe hKind
  rcases step_proc h hProc with
    hOld | ⟨call, rfl, _, rfl⟩ | ⟨_, _, p, _, hOld, hRun⟩
  · exact hNone id p' hOld hNe hKind
  · rw [call.proc_content] at hKind
    exact absurd hKind hAvoid
  · rw [Proc.run_content hRun] at hKind
    rw [Proc.run_of_finished (hNone id p hOld hNe hKind)]
      at hRun
    cases hRun

end ManagerSystem

end CacheServer

------------------------------------------------------------
-- A Write Call In Progress
------------------------------------------------------------

namespace CacheServer

/-
  The states of a call that leaves `content` under the key
  in L1 first, and then issues its command.
-/
structure WriterOf
    (key : Key)
    (content : Option Value)
    (proc : WritePc → Proc) :
    Prop where
  injective : Function.Injective proc
  l1Write : (proc .l1).l1Write = some (key, content)
  first :
    ∀ cfg s t id cancelled fault origin p',
      (proc .l1).run cfg s id cancelled fault origin =
          some (t, p') →
        p' = proc .l2
  second :
    ∀ cfg s t id cancelled fault origin p',
      (proc .l2).run cfg s id cancelled fault origin =
          some (t, p') →
        ∃ error, p' = proc (.done error)
  finished : ∀ error, (proc (.done error)).finished = true

theorem writerOf_set
    (key : Key)
    (value : Value) :
    WriterOf key (some value) (.set key value) := by
  refine ⟨?_, rfl, ?_, ?_, fun _ => rfl⟩
  · intro pc pc' hEq
    cases hEq
    rfl
  · intro cfg s t id cancelled fault origin p' hRun
    cases hRun
    rfl
  · intro cfg s t id cancelled fault origin p' hRun
    cases hRun
    exact ⟨_, rfl⟩

theorem writerOf_invalidate
    (key : Key) :
    WriterOf key none (.invalidate key) := by
  refine ⟨?_, rfl, ?_, ?_, fun _ => rfl⟩
  · intro pc pc' hEq
    cases hEq
    rfl
  · intro cfg s t id cancelled fault origin p' hRun
    cases hRun
    rfl
  · intro cfg s t id cancelled fault origin p' hRun
    cases hRun
    exact ⟨_, rfl⟩

namespace ManagerSystem

variable {cfg : ManagerConfig}
variable {s s' : ManagerSystem}
variable {a : ManagerAction}
variable {key : Key}
variable {content : Option Value}
variable {proc : WritePc → Proc}
variable {writer : Nat}
variable {Ok Ok' : Value → Prop}

/-
  The call is before its L1 write, or before its command
  with only such values in L1, or it has returned.
-/
def Writing
    (s : ManagerSystem)
    (key : Key)
    (proc : WritePc → Proc)
    (writer : Nat)
    (Ok : Value → Prop) :
    Prop :=
  s.procs writer = some (proc .l1) ∨
    (s.procs writer = some (proc .l2) ∧ s.L1Holds key Ok) ∨
    ∃ error, s.procs writer = some (proc (.done error))

theorem Writing.l1Holds
    (hWriter : WriterOf key content proc)
    (hWriting : s.Writing key proc writer Ok)
    (hProc : s.procs writer = some (proc .l2)) :
    s.L1Holds key Ok := by
  rcases hWriting with hL1 | ⟨_, hHolds⟩ | ⟨error, hDone⟩
  · rw [hProc] at hL1
    cases hWriter.injective (Option.some.inj hL1)
  · exact hHolds
  · rw [hProc] at hDone
    cases hWriter.injective (Option.some.inj hDone)

/-
  It stays so if, before the command, others write only such
  values to L1.
-/
theorem writing_step
    (hWriter : WriterOf key content proc)
    (hNum : s.Numbered)
    (hMono : ∀ v, Ok v → Ok' v)
    (hContent : ∀ v, content = some v → Ok' v)
    (hOnly :
      s.procs writer = some (proc .l2) →
        ∀ v, s.l1Write a = some (key, some v) → Ok' v)
    (hWriting : s.Writing key proc writer Ok)
    (h : s.step cfg a = some s') :
    s'.Writing key proc writer Ok' := by
  rcases hWriting with hL1 | ⟨hL2, hHolds⟩ | ⟨error, hDone⟩
  · rcases step_proc_next hNum h hL1 with
      hSame | ⟨fault, origin, p', rfl, hNext, hRun⟩
    · exact Or.inl hSame
    · rw [hWriter.first _ _ _ _ _ _ _ _ hRun] at hNext
      have hWrite :
          s.l1Write (.run writer fault origin) =
            some (key, content) := by
        simp [l1Write, hL1, hWriter.l1Write]
      refine Or.inr (Or.inl ⟨hNext, ?_⟩)
      intro entry hEntry
      rw [step_read_of_write h hWrite] at hEntry
      cases hFound : content with
      | none =>
          rw [hFound] at hEntry
          cases hEntry
      | some v =>
          rw [hFound] at hEntry
          cases hEntry
          exact hContent v hFound
  · rcases step_proc_next hNum h hL2 with
      hSame | ⟨fault, origin, p', rfl, hNext, hRun⟩
    · have hHolds' := l1Holds_step hHolds hMono (hOnly hL2) h
      exact Or.inr (Or.inl ⟨hSame, hHolds'⟩)
    · rcases hWriter.second _ _ _ _ _ _ _ _ hRun with
        ⟨error, rfl⟩
      exact Or.inr (Or.inr ⟨error, hNext⟩)
  · rcases step_proc_next hNum h hDone with
      hSame | ⟨fault, origin, p', rfl, hNext, hRun⟩
    · exact Or.inr (Or.inr ⟨error, hSame⟩)
    · rw [Proc.run_of_finished (hWriter.finished error)]
        at hRun
      cases hRun

end ManagerSystem

end CacheServer
