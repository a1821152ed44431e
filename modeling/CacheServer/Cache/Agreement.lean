import CacheServer.Cache.TierSteps

/-
  Agreement of the tiers after concurrent writers.

  `Set` and `Invalidate` write L1 in one step and L2 in a
  later one, and the steps of several calls may interleave.
  If the same call comes last in both tiers, the tiers agree
  once every call has returned.

  Key definitions include:
    * `CacheServer.LastWriters`
    * `CacheServer.ManagerSystem.recordWriters`
    * `CacheServer.ManagerSystem.HoldsLast`

  Key theorems include:
    * `CacheServer.ManagerSystem.holdsLast_step`
    * `CacheServer.concurrent_writers_agree`
    * `CacheServer.concurrent_writers_disagree`
-/

------------------------------------------------------------
-- Writers Of A Key
------------------------------------------------------------

namespace CacheServer

/-
  The call whose L1 step on a key came last, and the one
  whose Redis command on it was the last to be applied.
-/
structure LastWriters where
  l1 : Option Nat
  l2 : Option Nat
deriving DecidableEq, Repr

/- Whether a write is to the key. -/
def TierWrite.isOn
    (key : Key)
    (w : Option TierWrite) :
    Bool :=
  match w with
  | none => false
  | some write => decide (write.1 = key)

namespace ManagerSystem

/- Remember a call that takes its step on the key. -/
def recordWriters
    (key : Key)
    (s : ManagerSystem)
    (a : ManagerAction)
    (last : LastWriters) :
    LastWriters :=
  match a with
  | .run id _ _ =>
      { l1 :=
          if TierWrite.isOn key (s.l1Write a) then
            some id
          else
            last.l1
        l2 :=
          if TierWrite.isOn key (s.l2Write a) then
            some id
          else
            last.l2 }
  | _ => last

/- Every call has returned and nothing runs behind it. -/
structure Idle
    (s : ManagerSystem) :
    Prop where
  procs :
    ∀ id p, s.procs id = some p → p.finished = true
  background : ∀ id, s.shared.background id = none

/- The last Redis command on the key was an `Invalidate`'s. -/
def LastCommandIsDel
    (s : ManagerSystem)
    (key : Key)
    (last : LastWriters) :
    Prop :=
  ∃ id pc,
    last.l2 = some id ∧
      s.procs id = some (.invalidate key pc)

end ManagerSystem

/- The call is no `Get`. -/
def ManagerAction.NoGet :
    ManagerAction → Prop
| .call (.get _) => False
| _ => True

end CacheServer

------------------------------------------------------------
-- Each Tier Holds What Its Last Writer Left
------------------------------------------------------------

namespace CacheServer

namespace Proc

variable {cfg : ManagerConfig}
variable {s t : Shared}
variable {id : Nat}
variable {cancelled : Bool}
variable {fault : Fault}
variable {origin : OriginReply}
variable {p p' : Proc}

def isGet :
    Proc → Bool
| .get _ _ _ => true
| _ => false

theorem run_isGet
    (h :
      p.run cfg s id cancelled fault origin =
        some (t, p')) :
    p'.isGet = p.isGet := by
  cases p with
  | get k start pc =>
      rcases run_get h with ⟨_, rfl, _⟩
      rfl
  | set k value pc =>
      rcases run_set h with ⟨_, rfl, _⟩
      rfl
  | invalidate k pc =>
      rcases run_invalidate h with ⟨_, rfl, _⟩
      rfl

/- A write call writes its content. -/
theorem content_of_l1Write
    {key : Key}
    {content : Option Value}
    (hGet : p.isGet = false)
    (h : p.l1Write = some (key, content)) :
    p.content key = some content := by
  cases p with
  | get k start pc => cases hGet
  | set k value pc =>
      cases pc with
      | l1 =>
          cases h
          simp [Proc.content]
      | _ => cases h
  | invalidate k pc =>
      cases pc with
      | l1 =>
          cases h
          simp [Proc.content]
      | _ => cases h

end Proc

namespace ManagerSystem

/- What call `id` has left under the key. -/
def Left
    (s : ManagerSystem)
    (key : Key)
    (id : Nat)
    (content : Option Value) :
    Prop :=
  ∃ p, s.procs id = some p ∧ p.content key = some content

/-
  Each tier holds under the key what its last writer left,
  or nothing. No `Get` runs, and nothing in the background.
-/
structure HoldsLast
    (key : Key)
    (s : ManagerSystem)
    (last : LastWriters) :
    Prop where
  numbered : s.Numbered
  gets :
    ∀ id p,
      s.procs id = some p →
        p.isGet = true → p.finished = true
  background : ∀ id, s.shared.background id = none
  l1 :
    ∀ id,
      last.l1 = some id →
        ∃ content,
          s.Left key id content ∧
            ∀ entry,
              s.l1.read key = some entry →
                content = some entry.value
  l2 :
    ∀ id,
      last.l2 = some id →
        ∃ content,
          s.Left key id content ∧
            ∀ obj,
              s.redis.lookup key = some obj →
                ∃ value,
                  content = some value ∧
                    obj.value = .str value

variable {cfg : ManagerConfig}
variable {s s' : ManagerSystem}
variable {a : ManagerAction}
variable {key : Key}

/- What a call leaves does not change while it runs. -/
theorem left_step
    {id : Nat}
    {content : Option Value}
    (hNum : s.Numbered)
    (h : s.step cfg a = some s')
    (hLeft : s.Left key id content) :
    s'.Left key id content := by
  rcases hLeft with ⟨p, hProc, hContent⟩
  rcases step_proc_next hNum h hProc with
    hSame | ⟨_, _, p', _, hNext, hRun⟩
  · exact ⟨p, hSame, hContent⟩
  · refine ⟨p', hNext, ?_⟩
    rw [Proc.run_content hRun, hContent]

/- A call that can take a step is no `Get`. -/
theorem HoldsLast.run_notGet
    {last : LastWriters}
    {id : Nat}
    {fault : Fault}
    {origin : OriginReply}
    {p : Proc}
    (hInv : HoldsLast key s last)
    (h : s.step cfg (.run id fault origin) = some s')
    (hProc : s.procs id = some p) :
    p.isGet = false := by
  rcases step_run h with ⟨q, t, q', hOld, hRun, _⟩
  have hSame : q = p := by
    rw [hOld] at hProc
    exact Option.some.inj hProc
  subst hSame
  cases hGet : q.isGet with
  | false => rfl
  | true =>
      rw [Proc.run_of_finished (hInv.gets id q hOld hGet)]
        at hRun
      cases hRun

theorem isOn_eq_true
    {w : Option TierWrite}
    (h : TierWrite.isOn key w = true) :
    ∃ content, w = some (key, content) := by
  rcases w with _ | ⟨k, content⟩
  · cases h
  · have hEq : k = key := of_decide_eq_true h
    exact ⟨content, by rw [hEq]⟩

theorem isOn_eq_false
    {w : Option TierWrite}
    (h : TierWrite.isOn key w = false)
    (content : Option Value) :
    w ≠ some (key, content) := by
  intro hEq
  rw [hEq] at h
  simp [TierWrite.isOn] at h

theorem isOn_l1Write
    (s : ManagerSystem)
    (key : Key)
    (a : ManagerAction) :
    TierWrite.isOn key (s.l1Write a) = true →
      ∃ id fault origin, a = .run id fault origin := by
  intro h
  cases a with
  | run id fault origin => exact ⟨id, fault, origin, rfl⟩
  | _ => cases h

/- L1 after a step, when the key's last writer is known. -/
theorem l1_step
    {last : LastWriters}
    (hInv : HoldsLast key s last)
    (h : s.step cfg a = some s') :
    ∀ id,
      (recordWriters key s a last).l1 = some id →
        ∃ content,
          s'.Left key id content ∧
            ∀ entry,
              s'.l1.read key = some entry →
                content = some entry.value := by
  intro id hLast
  cases hOn : TierWrite.isOn key (s.l1Write a) with
  | true =>
      rcases isOn_l1Write s key a hOn with
        ⟨runner, fault, origin, rfl⟩
      simp only [recordWriters, hOn, if_true,
        Option.some.injEq] at hLast
      subst hLast
      rcases isOn_eq_true hOn with ⟨content, hWrite⟩
      have hRead := step_read_of_write h hWrite
      simp only [l1Write] at hWrite
      rcases Option.bind_eq_some_iff.mp hWrite with
        ⟨p, hProc, hP⟩
      have hContent :=
        Proc.content_of_l1Write (hInv.run_notGet h hProc) hP
      refine
        ⟨content,
          left_step hInv.numbered h ⟨p, hProc, hContent⟩, ?_⟩
      intro entry hEntry
      rw [hRead] at hEntry
      cases content with
      | none => cases hEntry
      | some value =>
          cases hEntry
          rfl
  | false =>
      have hOld : last.l1 = some id := by
        cases a with
        | run runner fault origin =>
            simpa [recordWriters, hOn] using hLast
        | _ => exact hLast
      rcases hInv.l1 id hOld with ⟨content, hLeft, hHolds⟩
      refine
        ⟨content, left_step hInv.numbered h hLeft, ?_⟩
      intro entry hEntry
      rcases step_read h key with
        hSame | hNone | ⟨value, hWrite, _⟩
      · rw [hSame] at hEntry
        exact hHolds entry hEntry
      · rw [hNone] at hEntry
        cases hEntry
      · exact absurd hWrite (isOn_eq_false hOn _)

/- A step of a call writes the call's content to L2. -/
theorem content_of_run_l2Write
    {id : Nat}
    {fault : Fault}
    {origin : OriginReply}
    {content : Option Value}
    (h :
      s.l2Write (.run id fault origin) =
        some (key, content)) :
    s.Left key id content := by
  rcases l2Write_eq h with
    ⟨other, _, _, p, hRun, hProc, hP⟩ |
      ⟨_, _, _, hRun, _⟩ | ⟨_, hRun, _⟩
  · cases hRun
    exact ⟨p, hProc, Proc.content_of_l2Write hP⟩
  · cases hRun
  · cases hRun

/- L2 after a step, when the key's last writer is known. -/
theorem l2_step
    {last : LastWriters}
    (hInv : HoldsLast key s last)
    (h : s.step cfg a = some s') :
    ∀ id,
      (recordWriters key s a last).l2 = some id →
        ∃ content,
          s'.Left key id content ∧
            ∀ obj,
              s'.redis.lookup key = some obj →
                ∃ value,
                  content = some value ∧
                    obj.value = .str value := by
  intro id hLast
  have hKeep :
      ∀ old,
        last.l2 = some old →
          (∀ obj,
            s'.redis.lookup key = some obj →
              s.redis.lookup key = some obj) →
            ∃ content,
              s'.Left key old content ∧
                ∀ obj,
                  s'.redis.lookup key = some obj →
                    ∃ value,
                      content = some value ∧
                        obj.value = .str value := by
    intro old hOld hSub
    rcases hInv.l2 old hOld with ⟨content, hLeft, hHolds⟩
    exact
      ⟨content, left_step hInv.numbered h hLeft,
        fun obj hObj => hHolds obj (hSub obj hObj)⟩
  rcases step_lookup h key with
    ⟨hSame, hNe⟩ | ⟨content, hWrite, hLookup⟩
  · have hOff : TierWrite.isOn key (s.l2Write a) = false := by
      cases hOn : TierWrite.isOn key (s.l2Write a) with
      | false => rfl
      | true =>
          rcases isOn_eq_true hOn with ⟨content, hWrite⟩
          exact absurd hWrite (hNe content)
    have hOld : last.l2 = some id := by
      cases a with
      | run runner fault origin =>
          simpa [recordWriters, hOff] using hLast
      | _ => exact hLast
    apply hKeep id hOld
    intro obj hObj
    rw [← hSame]
    exact hObj
  · cases a with
    | run runner fault origin =>
        have hOn :
            TierWrite.isOn key
              (s.l2Write (.run runner fault origin)) =
                true := by
          rw [hWrite]
          simp [TierWrite.isOn]
        simp only [recordWriters, hOn, if_true,
          Option.some.injEq] at hLast
        subst hLast
        have hLeft := content_of_run_l2Write hWrite
        refine
          ⟨content, left_step hInv.numbered h hLeft, ?_⟩
        intro obj hObj
        rw [hLookup] at hObj
        cases content with
        | none => cases hObj
        | some value =>
            cases hObj
            exact ⟨value, rfl, rfl⟩
    | background runner fault =>
        simp [l2Write, hInv.background] at hWrite
    | redisDrop dropped =>
        -- Redis drops the key: it holds nothing.
        have hNone : content = none := by
          have hPair : (dropped, none) = (key, content) :=
            Option.some.inj hWrite
          exact (congrArg Prod.snd hPair).symm
        subst hNone
        apply hKeep id hLast
        intro obj hObj
        rw [hLookup] at hObj
        cases hObj
    | _ => cases hWrite

theorem holdsLast_step
    {last : LastWriters}
    (hInv : HoldsLast key s last)
    (hNoGet : a.NoGet)
    (h : s.step cfg a = some s') :
    HoldsLast key s' (recordWriters key s a last) := by
  refine
    ⟨numbered_step hInv.numbered h, ?_, ?_, l1_step hInv h,
      l2_step hInv h⟩
  · intro id p hProc hGet
    rcases step_proc h hProc with
      hOld | ⟨call, rfl, _, rfl⟩ | ⟨_, _, q, rfl, hOld, hRun⟩
    · exact hInv.gets id p hOld hGet
    · cases call with
      | get k => exact hNoGet.elim
      | set k value => cases hGet
      | invalidate k => cases hGet
    · have hNot := hInv.run_notGet h hOld
      rw [Proc.run_isGet hRun, hNot] at hGet
      cases hGet
  · intro id
    cases hEntry : s'.shared.background id with
    | none => rfl
    | some entry =>
        rcases step_background_entry h hEntry with
          hOld | ⟨_, _, p, rfl, hOld, hSpawn⟩
        · rw [hInv.background id] at hOld
          cases hOld
        · have hNot := hInv.run_notGet h hOld
          cases p with
          | get k start pc => cases hNot
          | set k value pc => cases hSpawn
          | invalidate k pc => cases hSpawn

theorem holdsLast_start
    (hNum : s.Numbered)
    (hIdle : s.Idle) :
    HoldsLast key s { l1 := none, l2 := none } := by
  refine
    ⟨hNum, fun id p hProc _ => hIdle.procs id p hProc,
      hIdle.background, ?_, ?_⟩
  · intro id h
    cases h
  · intro id h
    cases h

/- What one call has left is one content. -/
theorem left_unique
    {id : Nat}
    {content content' : Option Value}
    (h : s.Left key id content)
    (h' : s.Left key id content') :
    content = content' := by
  rcases h with ⟨p, hProc, hContent⟩
  rcases h' with ⟨p', hProc', hContent'⟩
  rw [hProc] at hProc'
  cases hProc'
  rw [hContent] at hContent'
  exact Option.some.inj hContent'

end ManagerSystem

end CacheServer

------------------------------------------------------------
-- Agreement
------------------------------------------------------------

namespace CacheServer

open ManagerSystem

/-
  From any idle state a manager reaches, after any run of
  `Set` and `Invalidate` calls: if the call whose L1 step on
  the key came last is the call whose Redis command on it was
  the last to be applied, the tiers agree, and if that
  command was a `DEL` then L1 has no entry. Commands that
  are not applied do not count.
-/
theorem concurrent_writers_agree
    (cfg : ManagerConfig)
    (maxSize : Int)
    (l1TTL : Int)
    (redis : Redis)
    (clock : Int)
    (key : Key)
    (before : List ManagerAction)
    (s₀ : ManagerSystem)
    (actions : List ManagerAction)
    (s : ManagerSystem × LastWriters)
    (id : Nat)
    (hStart :
      (managerMachine cfg).exec
        (ManagerSystem.new maxSize l1TTL redis clock)
        before = some s₀)
    (hIdle : s₀.Idle)
    (hNoGet : ∀ a ∈ actions, a.NoGet)
    (hRun :
      ((managerMachine cfg).withHistory
        (recordWriters key)).exec
          (s₀, { l1 := none, l2 := none }) actions = some s)
    (hL1 : s.2.l1 = some id)
    (hL2 : s.2.l2 = some id) :
    s.1.shared.store.AgreeOn key ∧
      (s.1.LastCommandIsDel key s.2 →
        s.1.l1.read key = none) := by
  have hInv : HoldsLast key s.1 s.2 := by
    refine
      Machine.exec_invariant_along
        (I := fun t => HoldsLast key t.1 t.2) ?_
        (Machine.along_of_forall_mem hNoGet) hRun
        (holdsLast_start
          (numbered_exec (numbered_new _ _ _ _) hStart)
          hIdle)
    intro t a t' hI hNot hStep
    rcases Machine.withHistory_step.mp hStep with
      ⟨hFirst, hLast⟩
    rw [hLast]
    exact holdsLast_step hI hNot hFirst
  rcases hInv.l1 id hL1 with ⟨content, hLeft, hHeld⟩
  rcases hInv.l2 id hL2 with ⟨content', hLeft', hHeld'⟩
  have hSame := left_unique hLeft hLeft'
  subst hSame
  constructor
  · intro entry obj hRead _ hLive
    have hEntry := hHeld entry hRead
    have hLookup := (Redis.live_eq_some.mp hLive).1
    rcases hHeld' obj hLookup with ⟨value, hValue, hObj⟩
    rw [hEntry] at hValue
    cases hValue
    exact hObj
  · intro hDel
    rcases hDel with ⟨last, pc, hLast, hProc⟩
    rw [hL2] at hLast
    cases hLast
    cases hRead : s.1.l1.read key with
    | none => rfl
    | some entry =>
        have hEntry := hHeld entry hRead
        rcases hLeft with ⟨p, hP, hContent⟩
        rw [hProc] at hP
        cases hP
        rw [hEntry] at hContent
        simp [Proc.content] at hContent

theorem idle_freshManager :
    freshManager.Idle := by
  constructor
  · intro id p h
    cases h
  · intro id
    rfl

/- Two `Set` calls that reach both tiers in one order. -/
theorem concurrent_writers_agree_in_order :
    ∃ s,
      ((managerMachine ⟨true, 100⟩).withHistory
            (recordWriters [1])).exec
          (freshManager, { l1 := none, l2 := none })
          [.call (.set [1] [7]), .call (.set [1] [8]),
            .proceed 0, .proceed 1, .proceed 0,
            .proceed 1] = some s ∧
        s.1.shared.store.AgreeOn [1] :=
  ⟨_, Machine.exec_get rfl,
    (concurrent_writers_agree ⟨true, 100⟩ 1000 5 ∅ 0 [1] []
      freshManager _ _ 1 rfl idle_freshManager
      (by simp [ManagerAction.NoGet, ManagerAction.proceed])
      (Machine.exec_get rfl) rfl rfl).1⟩

/-
  Two `Set` calls that reach L1 in one order and L2 in the
  other leave a different value in each.
-/
theorem concurrent_writers_disagree :
    ¬ ∀ (cfg : ManagerConfig) (maxSize l1TTL : Int)
        (redis : Redis) (clock : Int) (key : Key)
        (actions : List ManagerAction)
        (s : ManagerSystem × LastWriters),
        (∀ a ∈ actions, a.NoGet ∧ a.NoFault) →
          ((managerMachine cfg).withHistory
              (recordWriters key)).exec
              (ManagerSystem.new maxSize l1TTL redis clock,
                { l1 := none, l2 := none }) actions =
            some s →
            s.1.Idle →
              s.1.shared.store.AgreeOn key ∧
                (s.1.LastCommandIsDel key s.2 →
                  s.1.l1.read key = none) := by
  intro h
  have hBad :=
    (h ⟨true, 100⟩ 1000 5 ∅ 0 [1]
      [.call (.set [1] [7]), .call (.set [1] [8]),
        .proceed 0, .proceed 1, .proceed 1, .proceed 0] _
      (by simp [ManagerAction.NoGet, ManagerAction.NoFault,
        ManagerAction.proceed])
      (Machine.exec_get rfl) ?_).1
      { value := [8], expiresAt := 5 }
      { value := .str [7], expiresAt := some 100 } rfl rfl rfl
  · cases hBad
  · constructor
    · intro id p hProc
      match id, hProc with
      | 0, hProc =>
          cases hProc
          rfl
      | 1, hProc =>
          cases hProc
          rfl
      | _ + 2, hProc => cases hProc
    · intro id
      rfl

end CacheServer
