import CacheServer.Cache.GetSteps

/-
  What one step of the manager does to the tiers and to the
  calls.

  Every step puts at most one value under one key of one
  tier, or deletes it.

  Key definitions include:
    * `CacheServer.Proc.content`
    * `CacheServer.ManagerSystem.l1Write`
    * `CacheServer.ManagerSystem.l2Write`
    * `CacheServer.ManagerSystem.Numbered`

  Key theorems include:
    * `CacheServer.Proc.run_effect`
    * `CacheServer.ManagerSystem.step_read`
    * `CacheServer.ManagerSystem.step_lookup`
    * `CacheServer.ManagerSystem.step_proc`
    * `CacheServer.ManagerSystem.l1Write_cases`
    * `CacheServer.ManagerSystem.l2Write_cases`
-/

------------------------------------------------------------
-- The Writes Of A Step
------------------------------------------------------------

namespace CacheServer

def Proc.key :
    Proc → Key
| .get key _ _ => key
| .set key _ _ => key
| .invalidate key _ => key

def ManagerCall.key :
    ManagerCall → Key
| .get key => key
| .set key _ => key
| .invalidate key => key

namespace Proc

/- What the next step of a call writes to L1. -/
def l1Write :
    Proc → Option TierWrite
| .get key _ pc => pc.l1Write key
| .set key value .l1 => some (key, some value)
| .invalidate key .l1 => some (key, none)
| _ => none

/- What the next step of a call writes to L2. -/
def l2Write :
    Proc → Option TierWrite
| .set key value .l2 => some (key, some value)
| .invalidate key .l2 => some (key, none)
| _ => none

/- What the next step writes to L2, if it is applied. -/
def l2WriteIf
    (fault : Fault)
    (p : Proc) :
    Option TierWrite :=
  if fault.applied then p.l2Write else none

end Proc

namespace ManagerSystem

abbrev clock
    (s : ManagerSystem) :
    Int :=
  s.shared.store.clock

abbrev l1
    (s : ManagerSystem) :
    L1Cache :=
  s.shared.store.l1

abbrev redis
    (s : ManagerSystem) :
    Redis :=
  s.shared.store.redis

/- What this action writes to L1. -/
def l1Write
    (s : ManagerSystem) :
    ManagerAction → Option TierWrite
| .run id _ _ => (s.procs id).bind Proc.l1Write
| _ => none

/- What this action writes to L2, if it is applied. -/
def l2Write
    (s : ManagerSystem) :
    ManagerAction → Option TierWrite
| .run id fault _ =>
    (s.procs id).bind (fun p => p.l2WriteIf fault)
| .background id fault =>
    if fault.applied then
      (s.shared.background id).map (fun p => (p.1, some p.2))
    else
      none
| .redisDrop key => some (key, none)
| _ => none

end ManagerSystem

/- A step in which no Redis command fails. -/
def ManagerAction.NoFault :
    ManagerAction → Prop
| .run _ fault _ => fault = .none
| .background _ fault => fault = .none
| _ => True

/- Redis drops keys by their TTL only. -/
def ManagerAction.NoDrop :
    ManagerAction → Prop
| .redisDrop _ => False
| _ => True

end CacheServer

------------------------------------------------------------
-- What A Step Of A Call Does
------------------------------------------------------------

namespace CacheServer

namespace Proc

variable {cfg : ManagerConfig}
variable {s t : Shared}
variable {id : Nat}
variable {cancelled : Bool}
variable {fault : Fault}
variable {origin : OriginReply}
variable {p p' : Proc}

/- The background write that the next step starts. -/
def spawned :
    Proc → Option (Key × Value)
| .get key _ pc => pc.spawned key
| _ => none

theorem l2WriteIf_none
    (p : Proc)
    (fault : Fault)
    (h : p.l2Write = none) :
    p.l2WriteIf fault = none := by
  simp [l2WriteIf, h]

theorem l2Write_of_l2WriteIf
    {fault : Fault}
    {write : TierWrite}
    (h : p.l2WriteIf fault = some write) :
    p.l2Write = some write := by
  unfold l2WriteIf at h
  cases hApplied : fault.applied with
  | false => simp [hApplied] at h
  | true => simpa [hApplied] using h

/- The effect of a step on the stores and the goroutines. -/
structure Effect
    (cfg : ManagerConfig)
    (s t : Shared)
    (id : Nat)
    (fault : Fault)
    (p : Proc) :
    Prop where
  clock : t.store.clock = s.store.clock
  l1 : t.store.l1 = s.store.l1.write s.store.clock p.l1Write
  redis :
    t.store.redis =
      s.store.redis.write s.store.clock cfg.l2TTL
        (p.l2WriteIf fault)
  background :
    ∀ i entry,
      t.background i = some entry →
        s.background i = some entry ∨
          (i = id ∧ p.spawned = some entry)
  finished :
    ∀ i r,
      t.finished i = some r →
        s.finished i = some r ∨
          (i = id ∧
            ∃ key start, p = .get key start (.fnReturn r))
  group :
    (∀ key start pc, p ≠ .get key start pc) →
      t.group = s.group

theorem run_get
    {key : Key}
    {start : Int}
    {pc : GetPc}
    (h :
      (Proc.get key start pc).run cfg s id cancelled fault
        origin = some (t, p')) :
    ∃ pc',
      p' = .get key start pc' ∧
        pc.run cfg s
          { id := id, key := key, start := start
            cancelled := cancelled } fault origin =
          some (t, pc') := by
  rcases Option.map_eq_some_iff.mp h with ⟨r, hRun, hEq⟩
  cases hEq
  exact ⟨r.2, rfl, hRun⟩

theorem run_set
    {key : Key}
    {value : Value}
    {pc : WritePc}
    (h :
      (Proc.set key value pc).run cfg s id cancelled fault
        origin = some (t, p')) :
    ∃ pc',
      p' = .set key value pc' ∧
        pc.runSet cfg s key value fault = some (t, pc') := by
  rcases Option.map_eq_some_iff.mp h with ⟨r, hRun, hEq⟩
  cases hEq
  exact ⟨r.2, rfl, hRun⟩

theorem run_invalidate
    {key : Key}
    {pc : WritePc}
    (h :
      (Proc.invalidate key pc).run cfg s id cancelled fault
        origin = some (t, p')) :
    ∃ pc',
      p' = .invalidate key pc' ∧
        pc.runInvalidate s key fault = some (t, pc') := by
  rcases Option.map_eq_some_iff.mp h with ⟨r, hRun, hEq⟩
  cases hEq
  exact ⟨r.2, rfl, hRun⟩

/- A step that changes the tiers, and not the clock. -/
theorem Effect.of_tiers
    {store : CacheStore}
    {pc pc' : WritePc}
    (h : some ({ s with store := store }, pc) = some (t, pc'))
    (hClock : store.clock = s.store.clock)
    (hL1 :
      store.l1 =
        s.store.l1.write s.store.clock p.l1Write)
    (hRedis :
      store.redis =
        s.store.redis.write s.store.clock cfg.l2TTL
          (p.l2WriteIf fault)) :
    Effect cfg s t id fault p := by
  have hShared : { s with store := store } = t :=
    (Prod.mk.inj (Option.some.inj h)).1
  subst hShared
  exact
    ⟨hClock, hL1, hRedis, fun _ _ hp => Or.inl hp,
      fun _ _ hr => Or.inl hr, fun _ => rfl⟩

/- What a step of a call does to the shared state. -/
theorem run_effect
    (h :
      p.run cfg s id cancelled fault origin =
        some (t, p')) :
    Effect cfg s t id fault p := by
  cases p with
  | get key start pc =>
      rcases run_get h with ⟨pc', _, hRun⟩
      have hEffect := GetPc.run_effect hRun
      refine
        ⟨hEffect.clock, hEffect.l1, ?_, hEffect.background,
          ?_, fun hNot => absurd rfl (hNot key start pc)⟩
      · rw [hEffect.redis, l2WriteIf_none _ fault rfl]
        rfl
      · intro i r hr
        rcases hEffect.finished i r hr with hOld | ⟨hId, hPc⟩
        · exact Or.inl hOld
        · exact Or.inr ⟨hId, key, start, by rw [hPc]⟩
  | set key value pc =>
      rcases run_set h with ⟨pc', _, hRun⟩
      cases pc with
      | l1 =>
          refine Effect.of_tiers hRun rfl rfl ?_
          rw [l2WriteIf_none _ fault rfl]
          rfl
      | l2 =>
          refine Effect.of_tiers hRun rfl rfl ?_
          simp only [L2Cache.set, Fault.apply_eq, l2WriteIf]
          cases fault.applied with
          | true => rfl
          | false => rfl
      | done error =>
          cases hRun
  | invalidate key pc =>
      rcases run_invalidate h with ⟨pc', _, hRun⟩
      cases pc with
      | l1 =>
          refine Effect.of_tiers hRun rfl rfl ?_
          rw [l2WriteIf_none _ fault rfl]
          rfl
      | l2 =>
          refine Effect.of_tiers hRun rfl rfl ?_
          simp only [L2Cache.delete, Fault.apply_eq,
            l2WriteIf]
          cases fault.applied with
          | true => rfl
          | false => rfl
      | done error =>
          cases hRun

/- The call has returned. -/
def finished :
    Proc → Bool
| .get _ _ (.done _) => true
| .set _ _ (.done _) => true
| .invalidate _ (.done _) => true
| _ => false

/- What a write call leaves under the key, if it is on it. -/
def content
    (key : Key) :
    Proc → Option (Option Value)
| .get _ _ _ => none
| .set k value _ => if k = key then some (some value) else none
| .invalidate k _ => if k = key then some none else none

/- A call keeps its arguments. -/
theorem run_content
    (h :
      p.run cfg s id cancelled fault origin = some (t, p'))
    (key : Key) :
    p'.content key = p.content key := by
  cases p with
  | get k start pc =>
      rcases run_get h with ⟨_, rfl, _⟩
      rfl
  | set k value pc =>
      rcases run_set h with ⟨_, rfl, _⟩
      rfl
  | invalidate k pc =>
      rcases run_invalidate h with ⟨_, rfl, _⟩
      rfl

/- A call that has returned takes no step. -/
theorem run_of_finished
    (h : p.finished = true) :
    p.run cfg s id cancelled fault origin = none := by
  cases p with
  | get k start pc =>
      cases pc with
      | done result => rfl
      | _ => cases h
  | set k value pc =>
      cases pc with
      | done error => rfl
      | _ => cases h
  | invalidate k pc =>
      cases pc with
      | done error => rfl
      | _ => cases h

theorem run_key
    (h :
      p.run cfg s id cancelled fault origin =
        some (t, p')) :
    p'.key = p.key := by
  cases p with
  | get key start pc =>
      rcases run_get h with ⟨_, rfl, _⟩
      rfl
  | set key value pc =>
      rcases run_set h with ⟨_, rfl, _⟩
      rfl
  | invalidate key pc =>
      rcases run_invalidate h with ⟨_, rfl, _⟩
      rfl

/- A call leaves content under its own key only. -/
theorem key_of_content
    {key : Key}
    {content : Option Value}
    (h : p.content key = some content) :
    p.key = key := by
  cases p with
  | get k start pc => cases h
  | set k value pc =>
      by_cases hEq : k = key
      · exact hEq
      · simp [Proc.content, hEq] at h
  | invalidate k pc =>
      by_cases hEq : k = key
      · exact hEq
      · simp [Proc.content, hEq] at h

theorem key_of_spawned
    {key : Key}
    {value : Value}
    (h : p.spawned = some (key, value)) :
    p.key = key := by
  cases p with
  | get k start pc =>
      cases pc with
      | spawn found =>
          cases h
          rfl
      | _ => cases h
  | set k found pc => cases h
  | invalidate k pc => cases h

theorem not_finished_of_run
    (h :
      p.run cfg s id cancelled fault origin =
        some (t, p')) :
    p.finished = false := by
  cases hFin : p.finished with
  | false => rfl
  | true =>
      rw [run_of_finished hFin] at h
      cases h

theorem content_of_l2Write
    {key : Key}
    {content : Option Value}
    (h : p.l2Write = some (key, content)) :
    p.content key = some content := by
  cases p with
  | get k start pc => cases h
  | set k value pc =>
      cases pc with
      | l2 =>
          cases h
          simp [Proc.content]
      | _ => cases h
  | invalidate k pc =>
      cases pc with
      | l2 =>
          cases h
          simp [Proc.content]
      | _ => cases h

end Proc

end CacheServer

------------------------------------------------------------
-- What A Step Of The System Does
------------------------------------------------------------

namespace CacheServer

namespace ManagerSystem

variable {cfg : ManagerConfig}
variable {s s' : ManagerSystem}
variable {a : ManagerAction}

/- A step of a call, taken apart. -/
theorem step_run
    {id : Nat}
    {fault : Fault}
    {origin : OriginReply}
    (h : s.step cfg (.run id fault origin) = some s') :
    ∃ p t p',
      s.procs id = some p ∧
        p.run cfg s.shared id (s.cancelled id) fault origin =
          some (t, p') ∧
        s' =
          { s with
            shared := t
            procs :=
              Function.update s.procs id (some p') } := by
  cases hProc : s.procs id with
  | none =>
      simp [step, hProc] at h
  | some p =>
      simp only [step, hProc] at h
      rcases Option.map_eq_some_iff.mp h with
        ⟨r, hRun, hEq⟩
      exact ⟨p, r.1, r.2, rfl, hRun, hEq.symm⟩

theorem step_of_run
    {id : Nat}
    {fault : Fault}
    {origin : OriginReply}
    {p p' : Proc}
    {t : Shared}
    (hProc : s.procs id = some p)
    (hRun :
      p.run cfg s.shared id (s.cancelled id) fault origin =
        some (t, p')) :
    s.step cfg (.run id fault origin) =
      some
        { s with
          shared := t
          procs := Function.update s.procs id (some p') } := by
  simp [step, hProc, hRun]

/- The call that begins. -/
theorem step_call_self
    {call : ManagerCall}
    (h : s.step cfg (.call call) = some s') :
    s'.procs s.next = some (call.proc s.clock) := by
  cases h
  simp

/- The call that takes the step. -/
theorem step_run_self
    {id : Nat}
    {fault : Fault}
    {origin : OriginReply}
    {p : Proc}
    (h : s.step cfg (.run id fault origin) = some s')
    (hProc : s.procs id = some p) :
    ∃ p',
      s'.procs id = some p' ∧
        p.run cfg s.shared id (s.cancelled id) fault origin =
          some (s'.shared, p') := by
  rcases step_run h with ⟨q, t, p', hOld, hRun, rfl⟩
  rw [hProc] at hOld
  cases hOld
  exact ⟨p', by simp, hRun⟩

/- A background write, taken apart. -/
theorem step_background
    {id : Nat}
    {fault : Fault}
    (h : s.step cfg (.background id fault) = some s') :
    ∃ key value,
      s.shared.background id = some (key, value) ∧
        s' =
          { s with
            shared :=
              { s.shared.setRedis
                  (L2Cache.set s.redis s.clock cfg.l2TTL key
                    value fault) with
                background :=
                  Function.update s.shared.background id
                    none } } := by
  cases hEntry : s.shared.background id with
  | none =>
      simp [step, runBackground, hEntry] at h
  | some entry =>
      rcases entry with ⟨key, value⟩
      simp only [step, runBackground, hEntry,
        Option.map_some, Option.some.injEq] at h
      exact ⟨key, value, rfl, h.symm⟩

/- The effect of a step on the tiers and the clock. -/
structure TierEffect
    (cfg : ManagerConfig)
    (s s' : ManagerSystem)
    (a : ManagerAction) :
    Prop where
  clock : s.clock ≤ s'.clock
  l1 : s'.l1 = s.l1.write s.clock (s.l1Write a)
  redis :
    s'.redis =
      s.redis.write s.clock cfg.l2TTL (s.l2Write a)

theorem step_tiers
    (h : s.step cfg a = some s') :
    TierEffect cfg s s' a := by
  cases a with
  | call call =>
      cases h
      exact ⟨le_refl _, rfl, rfl⟩
  | run id fault origin =>
      rcases step_run h with ⟨p, t, p', hProc, hRun, rfl⟩
      have hEffect := Proc.run_effect hRun
      refine ⟨le_of_eq hEffect.clock.symm, ?_, ?_⟩
      · simpa [l1Write, hProc] using hEffect.l1
      · simpa [l2Write, hProc] using hEffect.redis
  | background id fault =>
      rcases step_background h with
        ⟨key, value, hEntry, rfl⟩
      refine ⟨le_refl _, rfl, ?_⟩
      simp only [l2Write, hEntry, Shared.setRedis,
        L2Cache.set, Fault.apply_eq]
      cases fault.applied with
      | true => rfl
      | false => rfl
  | cancel id =>
      cases h
      exact ⟨le_refl _, rfl, rfl⟩
  | redisDrop key =>
      cases h
      exact ⟨le_refl _, rfl, rfl⟩
  | tick elapsed =>
      cases h
      exact
        ⟨Int.le_add_of_nonneg_right
            (Int.natCast_nonneg elapsed), rfl, rfl⟩

/- A key keeps its L1 entry, loses it, or is written. -/
theorem step_read
    (h : s.step cfg a = some s')
    (key : Key) :
    s'.l1.read key = s.l1.read key ∨
      s'.l1.read key = none ∨
      ∃ value,
        s.l1Write a = some (key, some value) ∧
          s'.l1.read key =
            some
              { value := value
                expiresAt := s.clock + s.l1.ttl } := by
  rw [(step_tiers h).l1]
  exact s.l1.read_write_cases s.clock (s.l1Write a) key

/- What a step writes to L1 is what the key then holds. -/
theorem step_read_of_write
    {key : Key}
    {content : Option Value}
    (h : s.step cfg a = some s')
    (hWrite : s.l1Write a = some (key, content)) :
    s'.l1.read key =
      content.map
        (fun value =>
          { value := value
            expiresAt := s.clock + s.l1.ttl }) := by
  rw [(step_tiers h).l1, hWrite]
  exact s.l1.read_write_self s.clock key content

/- A key that is not written keeps its L2 object. -/
theorem step_lookup_of_ne
    {key : Key}
    (h : s.step cfg a = some s')
    (hNe : ∀ content, s.l2Write a ≠ some (key, content)) :
    s'.redis.lookup key = s.redis.lookup key := by
  rw [(step_tiers h).redis]
  exact Redis.lookup_write_ne _ _ _ hNe

theorem step_lookup_of_write
    {key : Key}
    {content : Option Value}
    (h : s.step cfg a = some s')
    (hWrite : s.l2Write a = some (key, content)) :
    s'.redis.lookup key =
      content.map
        (fun value =>
          { value := .str value
            expiresAt :=
              Redis.expiry s.clock cfg.l2TTL }) := by
  rw [(step_tiers h).redis, hWrite]
  exact Redis.lookup_write_self _ _ _ key content

/- A key keeps its L2 object or is written. -/
theorem step_lookup
    (h : s.step cfg a = some s')
    (key : Key) :
    (s'.redis.lookup key = s.redis.lookup key ∧
        ∀ content, s.l2Write a ≠ some (key, content)) ∨
      ∃ content,
        s.l2Write a = some (key, content) ∧
          s'.redis.lookup key =
            content.map
              (fun value =>
                { value := .str value
                  expiresAt :=
                    Redis.expiry s.clock cfg.l2TTL }) := by
  by_cases hWrite : ∃ content, s.l2Write a = some (key, content)
  · rcases hWrite with ⟨content, hContent⟩
    exact
      Or.inr
        ⟨content, hContent, step_lookup_of_write h hContent⟩
  · have hNe :
        ∀ content, s.l2Write a ≠ some (key, content) :=
      fun content hContent => hWrite ⟨content, hContent⟩
    exact Or.inl ⟨step_lookup_of_ne h hNe, hNe⟩

/- A call is as it was, is new, or has taken this step. -/
theorem step_proc
    {id : Nat}
    {p' : Proc}
    (h : s.step cfg a = some s')
    (hProc : s'.procs id = some p') :
    s.procs id = some p' ∨
      (∃ call,
        a = .call call ∧ id = s.next ∧
          p' = call.proc s.clock) ∨
      ∃ fault origin p,
        a = .run id fault origin ∧
          s.procs id = some p ∧
            p.run cfg s.shared id (s.cancelled id) fault
              origin = some (s'.shared, p') := by
  cases a with
  | call call =>
      cases h
      by_cases hEq : id = s.next
      · subst hEq
        have hCall : call.proc s.clock = p' := by
          simpa using hProc
        exact Or.inr (Or.inl ⟨call, rfl, rfl, hCall.symm⟩)
      · exact Or.inl (by simpa [hEq] using hProc)
  | run other fault origin =>
      rcases step_run h with ⟨p, t, next, hOld, hRun, rfl⟩
      by_cases hEq : id = other
      · subst hEq
        have hNext : next = p' := by simpa using hProc
        subst hNext
        exact
          Or.inr (Or.inr ⟨fault, origin, p, rfl, hOld, hRun⟩)
      · exact Or.inl (by simpa [hEq] using hProc)
  | background other fault =>
      rcases step_background h with ⟨_, _, _, rfl⟩
      exact Or.inl hProc
  | cancel other =>
      cases h
      exact Or.inl hProc
  | redisDrop key =>
      cases h
      exact Or.inl hProc
  | tick elapsed =>
      cases h
      exact Or.inl hProc

/- A `Get` in progress, and the step that has moved it. -/
theorem step_getProc
    {id : Nat}
    {key : Key}
    {start : Int}
    {pc' : GetPc}
    (h : s.step cfg a = some s')
    (hProc : s'.procs id = some (.get key start pc')) :
    s.procs id = some (.get key start pc') ∨
      (a = .call (.get key) ∧ id = s.next ∧
        start = s.clock ∧ pc' = .l1Read) ∨
      ∃ fault origin pc,
        a = .run id fault origin ∧
          s.procs id = some (.get key start pc) ∧
            pc.run cfg s.shared
              { id := id, key := key, start := start
                cancelled := s.cancelled id } fault origin =
              some (s'.shared, pc') := by
  rcases step_proc h hProc with
    hOld | ⟨call, hAction, hNext, hCall⟩ |
      ⟨fault, origin, p, hAction, hOld, hRun⟩
  · exact Or.inl hOld
  · cases call with
    | get k =>
        cases hCall
        exact Or.inr (Or.inl ⟨hAction, hNext, rfl, rfl⟩)
    | set k value => cases hCall
    | invalidate k => cases hCall
  · cases p with
    | get k begun pc =>
        rcases Proc.run_get hRun with ⟨next, hEq, hPc⟩
        cases hEq
        exact
          Or.inr
            (Or.inr ⟨fault, origin, pc, hAction, hOld, hPc⟩)
    | set k value pc =>
        rcases Proc.run_set hRun with ⟨_, hEq, _⟩
        cases hEq
    | invalidate k pc =>
        rcases Proc.run_invalidate hRun with ⟨_, hEq, _⟩
        cases hEq

/- A background write was there before or is started now. -/
theorem step_background_entry
    {id : Nat}
    {entry : Key × Value}
    (h : s.step cfg a = some s')
    (hEntry : s'.shared.background id = some entry) :
    s.shared.background id = some entry ∨
      ∃ fault origin p,
        a = .run id fault origin ∧
          s.procs id = some p ∧ p.spawned = some entry := by
  cases a with
  | call call =>
      cases h
      exact Or.inl hEntry
  | run other fault origin =>
      rcases step_run h with ⟨p, t, next, hOld, hRun, rfl⟩
      rcases (Proc.run_effect hRun).background id entry
        hEntry with hSame | ⟨hId, hSpawn⟩
      · exact Or.inl hSame
      · subst hId
        exact
          Or.inr ⟨fault, origin, p, rfl, hOld, hSpawn⟩
  | background other fault =>
      rcases step_background h with ⟨_, _, _, rfl⟩
      by_cases hEq : id = other
      · subst hEq
        simp at hEntry
      · exact Or.inl (by simpa [hEq] using hEntry)
  | cancel other =>
      cases h
      exact Or.inl hEntry
  | redisDrop key =>
      cases h
      exact Or.inl hEntry
  | tick elapsed =>
      cases h
      exact Or.inl hEntry

/- A result was there before or is handed on now. -/
theorem step_finished
    {id : Nat}
    {result : GetResult}
    (h : s.step cfg a = some s')
    (hResult : s'.shared.finished id = some result) :
    s.shared.finished id = some result ∨
      ∃ fault origin key start,
        a = .run id fault origin ∧
          s.procs id =
            some (.get key start (.fnReturn result)) := by
  cases a with
  | call call =>
      cases h
      exact Or.inl hResult
  | run other fault origin =>
      rcases step_run h with ⟨p, t, next, hOld, hRun, rfl⟩
      rcases (Proc.run_effect hRun).finished id result
        hResult with hSame | ⟨hId, key, start, hProc⟩
      · exact Or.inl hSame
      · subst hId
        subst hProc
        exact Or.inr ⟨fault, origin, key, start, rfl, hOld⟩
  | background other fault =>
      rcases step_background h with ⟨_, _, _, rfl⟩
      exact Or.inl hResult
  | cancel other =>
      cases h
      exact Or.inl hResult
  | redisDrop key =>
      cases h
      exact Or.inl hResult
  | tick elapsed =>
      cases h
      exact Or.inl hResult

theorem step_next
    (h : s.step cfg a = some s') :
    s.next ≤ s'.next := by
  cases a with
  | call call =>
      cases h
      exact Nat.le_succ _
  | run id fault origin =>
      rcases step_run h with ⟨_, _, _, _, _, rfl⟩
      exact le_refl _
  | background id fault =>
      rcases step_background h with ⟨_, _, _, rfl⟩
      exact le_refl _
  | cancel id =>
      cases h
      exact le_refl _
  | redisDrop key =>
      cases h
      exact le_refl _
  | tick elapsed =>
      cases h
      exact le_refl _

/- Numbers that have not been given out belong to no call. -/
structure Numbered
    (s : ManagerSystem) :
    Prop where
  procs : ∀ id, s.next ≤ id → s.procs id = none
  background :
    ∀ id, s.next ≤ id → s.shared.background id = none
  finished :
    ∀ id, s.next ≤ id → s.shared.finished id = none

theorem numbered_step
    (hNum : s.Numbered)
    (h : s.step cfg a = some s') :
    s'.Numbered := by
  constructor
  · intro id hLe
    have hNone := hNum.procs id (le_trans (step_next h) hLe)
    cases hProc : s'.procs id with
    | none => rfl
    | some p' =>
        rcases step_proc h hProc with
          hOld | ⟨call, rfl, hId, _⟩ | ⟨_, _, p, _, hOld, _⟩
        · rw [hNone] at hOld
          cases hOld
        · cases h
          subst hId
          exact absurd hLe (Nat.not_succ_le_self _)
        · rw [hNone] at hOld
          cases hOld
  · intro id hLe
    have hOldLe := le_trans (step_next h) hLe
    cases hEntry : s'.shared.background id with
    | none => rfl
    | some entry =>
        rcases step_background_entry h hEntry with
          hOld | ⟨_, _, p, _, hOld, _⟩
        · rw [hNum.background id hOldLe] at hOld
          cases hOld
        · rw [hNum.procs id hOldLe] at hOld
          cases hOld
  · intro id hLe
    have hOldLe := le_trans (step_next h) hLe
    cases hResult : s'.shared.finished id with
    | none => rfl
    | some result =>
        rcases step_finished h hResult with
          hOld | ⟨_, _, _, _, _, hOld⟩
        · rw [hNum.finished id hOldLe] at hOld
          cases hOld
        · rw [hNum.procs id hOldLe] at hOld
          cases hOld

theorem numbered_new
    (maxSize : Int)
    (l1TTL : Int)
    (redis : Redis)
    (clock : Int) :
    (ManagerSystem.new maxSize l1TTL redis clock).Numbered :=
  ⟨fun _ _ => rfl, fun _ _ => rfl, fun _ _ => rfl⟩

/- Every state that a manager reaches is numbered. -/
theorem numbered_exec
    {actions : List ManagerAction}
    (hNum : s.Numbered)
    (hRun : (managerMachine cfg).exec s actions = some s') :
    s'.Numbered :=
  Machine.exec_invariant (I := Numbered)
    (fun _ _ _ hI hStep => numbered_step hI hStep) hRun hNum

/- A call stays as it is, unless it takes this step. -/
theorem step_proc_next
    {id : Nat}
    {p : Proc}
    (hNum : s.Numbered)
    (h : s.step cfg a = some s')
    (hProc : s.procs id = some p) :
    s'.procs id = some p ∨
      ∃ fault origin p',
        a = .run id fault origin ∧
          s'.procs id = some p' ∧
            p.run cfg s.shared id (s.cancelled id) fault
              origin = some (s'.shared, p') := by
  cases a with
  | call call =>
      cases h
      have hNe : id ≠ s.next := by
        intro hEq
        rw [hNum.procs id (le_of_eq hEq.symm)] at hProc
        cases hProc
      exact Or.inl (by simpa [hNe] using hProc)
  | run other fault origin =>
      rcases step_run h with ⟨q, t, next, hOld, hRun, rfl⟩
      by_cases hEq : id = other
      · subst hEq
        have hSame : q = p := by
          rw [hOld] at hProc
          exact Option.some.inj hProc
        subst hSame
        exact
          Or.inr
            ⟨fault, origin, next, rfl, by simp, hRun⟩
      · exact Or.inl (by simpa [hEq] using hProc)
  | background other fault =>
      rcases step_background h with ⟨_, _, _, rfl⟩
      exact Or.inl hProc
  | cancel other =>
      cases h
      exact Or.inl hProc
  | redisDrop key =>
      cases h
      exact Or.inl hProc
  | tick elapsed =>
      cases h
      exact Or.inl hProc

end ManagerSystem

end CacheServer

------------------------------------------------------------
-- Where Writes Come From
------------------------------------------------------------

namespace CacheServer

namespace ManagerSystem

variable {s : ManagerSystem}
variable {a : ManagerAction}
variable {key : Key}

/- Only a step of a call writes to L1. -/
theorem l1Write_eq
    {write : TierWrite}
    (h : s.l1Write a = some write) :
    ∃ id fault origin p,
      a = .run id fault origin ∧
        s.procs id = some p ∧ p.l1Write = some write := by
  cases a with
  | run id fault origin =>
      rcases Option.bind_eq_some_iff.mp h with ⟨p, hProc, hP⟩
      exact ⟨id, fault, origin, p, rfl, hProc, hP⟩
  | _ => cases h

/- A step of a call writes to L2, a background write, a drop. -/
theorem l2Write_eq
    {write : TierWrite}
    (h : s.l2Write a = some write) :
    (∃ id fault origin p,
      a = .run id fault origin ∧
        s.procs id = some p ∧ p.l2Write = some write) ∨
      (∃ id fault entry,
        a = .background id fault ∧
          s.shared.background id = some entry ∧
            write = (entry.1, some entry.2)) ∨
      ∃ key, a = .redisDrop key ∧ write = (key, none) := by
  cases a with
  | run id fault origin =>
      rcases Option.bind_eq_some_iff.mp h with ⟨p, hProc, hP⟩
      exact
        Or.inl
          ⟨id, fault, origin, p, rfl, hProc,
            Proc.l2Write_of_l2WriteIf hP⟩
  | background id fault =>
      cases hApplied : fault.applied with
      | false =>
          simp [l2Write, hApplied] at h
      | true =>
          simp only [l2Write, hApplied, if_true] at h
          rcases Option.map_eq_some_iff.mp h with
            ⟨entry, hEntry, hEq⟩
          exact
            Or.inr
              (Or.inl
                ⟨id, fault, entry, rfl, hEntry, hEq.symm⟩)
  | redisDrop k =>
      cases h
      exact Or.inr (Or.inr ⟨k, rfl, rfl⟩)
  | _ => cases h

/- A value written to L1 comes from a `Get` or a `Set`. -/
theorem l1Write_cases
    {value : Value}
    (h : s.l1Write a = some (key, some value)) :
    ∃ id fault origin p,
      a = .run id fault origin ∧
        s.procs id = some p ∧
          ((∃ start pc,
              p = .get key start pc ∧
                (pc = .backPopulate value ∨
                  pc = .l1Store value)) ∨
            p = .set key value .l1) := by
  rcases l1Write_eq h with
    ⟨id, fault, origin, p, rfl, hProc, hP⟩
  refine ⟨id, fault, origin, p, rfl, hProc, ?_⟩
  cases p with
  | get k start pc =>
      apply Or.inl
      cases pc with
      | backPopulate found =>
          cases hP
          exact ⟨start, _, rfl, Or.inl rfl⟩
      | l1Store found =>
          cases hP
          exact ⟨start, _, rfl, Or.inr rfl⟩
      | _ => cases hP
  | set k found pc =>
      cases pc with
      | l1 =>
          cases hP
          exact Or.inr rfl
      | _ => cases hP
  | invalidate k pc =>
      cases pc with
      | l1 => cases hP
      | _ => cases hP

/-
  L2 content is written by an open write call, by a
  background write, or by Redis dropping the key.
-/
theorem l2Write_cases
    {content : Option Value}
    (h : s.l2Write a = some (key, content)) :
    (∃ id fault origin p,
      a = .run id fault origin ∧
        s.procs id = some p ∧
          p.finished = false ∧
            p.content key = some content) ∨
      (∃ id fault value,
        a = .background id fault ∧
          s.shared.background id = some (key, value) ∧
            content = some value) ∨
      a = .redisDrop key := by
  rcases l2Write_eq h with
    ⟨id, fault, origin, p, rfl, hProc, hP⟩ |
      ⟨id, fault, entry, rfl, hEntry, hEq⟩ |
      ⟨k, rfl, hEq⟩
  · refine
      Or.inl
        ⟨id, fault, origin, p, rfl, hProc, ?_,
          Proc.content_of_l2Write hP⟩
    cases hFin : p.finished with
    | false => rfl
    | true =>
        cases p with
        | get k start pc => cases hP
        | set k found pc =>
            cases pc with
            | l2 => cases hFin
            | _ => cases hP
        | invalidate k pc =>
            cases pc with
            | l2 => cases hFin
            | _ => cases hP
  · cases hEq
    exact
      Or.inr
        (Or.inl ⟨id, fault, entry.2, rfl, hEntry, rfl⟩)
  · cases hEq
    exact Or.inr (Or.inr rfl)

end ManagerSystem

end CacheServer
