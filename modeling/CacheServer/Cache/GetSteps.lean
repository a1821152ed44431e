import CacheServer.Cache.Interleaving

/-
  What one step of a `Get` does.

  A step puts at most one value under the key in L1, or
  deletes it, and goes on to one of few places. The value
  that a `Get` carries was read from a tier, came from the
  origin, or came from the call it has joined.

  Key definitions include:
    * `CacheServer.TierWrite`
    * `CacheServer.GetPc.Effect`
    * `CacheServer.GetPc.Next`
    * `CacheServer.GetPc.carried`

  Key theorems include:
    * `CacheServer.GetPc.run_effect`
    * `CacheServer.GetPc.run_next`
    * `CacheServer.GetPc.next_carried`
-/

------------------------------------------------------------
-- Writes To A Tier
------------------------------------------------------------

namespace CacheServer

/- A key and what it is to hold: a value, or nothing. -/
abbrev TierWrite :=
  Key × Option Value

namespace L1Cache

def write
    (c : L1Cache)
    (now : Int) :
    Option TierWrite → L1Cache
| none => c
| some (key, some value) => c.set now key value
| some (key, none) => c.delete key

/- The entry that a write leaves under its own key. -/
theorem read_write_self
    (c : L1Cache)
    (now : Int)
    (key : Key)
    (content : Option Value) :
    (c.write now (some (key, content))).read key =
      content.map
        (fun value =>
          { value := value, expiresAt := now + c.ttl }) := by
  cases content with
  | none => exact c.read_delete_self key
  | some value => exact c.read_set_self now key value

/- A key keeps its entry, loses it, or is written itself. -/
theorem read_write_cases
    (c : L1Cache)
    (now : Int)
    (w : Option TierWrite)
    (key : Key) :
    (c.write now w).read key = c.read key ∨
      (c.write now w).read key = none ∨
      ∃ value,
        w = some (key, some value) ∧
          (c.write now w).read key =
            some
              { value := value
                expiresAt := now + c.ttl } := by
  rcases w with _ | ⟨other, _ | value⟩
  · exact Or.inl rfl
  · rcases c.read_delete_or_none other key with h | h
    · exact Or.inl h
    · exact Or.inr (Or.inl h)
  · by_cases hEq : key = other
    · subst hEq
      exact
        Or.inr (Or.inr
          ⟨value, rfl, c.read_set_self now key value⟩)
    · rcases c.read_set_ne_or_none now value hEq with h | h
      · exact Or.inl h
      · exact Or.inr (Or.inl h)

end L1Cache

namespace Redis

def write
    (r : Redis)
    (now : Int)
    (ttl : Int) :
    Option TierWrite → Redis
| none => r
| some (key, some value) => r.set now ttl key value
| some (key, none) => r.del key

theorem lookup_write_self
    (r : Redis)
    (now : Int)
    (ttl : Int)
    (key : Key)
    (content : Option Value) :
    (r.write now ttl (some (key, content))).lookup key =
      content.map
        (fun value =>
          { value := .str value
            expiresAt := expiry now ttl }) := by
  cases content with
  | none => exact r.del_lookup_self key
  | some value => exact r.set_lookup_self now ttl key value

theorem lookup_write_ne
    (r : Redis)
    (now : Int)
    (ttl : Int)
    {w : Option TierWrite}
    {key : Key}
    (hNe : ∀ content, w ≠ some (key, content)) :
    (r.write now ttl w).lookup key = r.lookup key := by
  rcases w with _ | ⟨other, content⟩
  · rfl
  · have hOther : key ≠ other := by
      intro hEq
      subst hEq
      exact hNe content rfl
    cases content with
    | none => exact r.del_lookup_ne hOther
    | some value => exact r.set_lookup_ne now ttl value hOther

end Redis

end CacheServer

------------------------------------------------------------
-- What A Step Of A Get Does To The Shared State
------------------------------------------------------------

namespace CacheServer

/- The next L1 write of a `Get`. -/
def GetPc.l1Write
    (key : Key) :
    GetPc → Option TierWrite
| .lazyDelete => some (key, none)
| .backPopulate value => some (key, some value)
| .l1Store value => some (key, some value)
| _ => none

namespace GetPc

/- The background write that the next step starts. -/
def spawned
    (key : Key) :
    GetPc → Option (Key × Value)
| .spawn value => some (key, value)
| _ => none

/- The effect of a step on the stores and the goroutines. -/
structure Effect
    (s t : Shared)
    (c : Caller)
    (pc : GetPc) :
    Prop where
  clock : t.store.clock = s.store.clock
  l1 :
    t.store.l1 =
      s.store.l1.write s.store.clock (pc.l1Write c.key)
  redis : t.store.redis = s.store.redis
  background :
    ∀ i p,
      t.background i = some p →
        s.background i = some p ∨
          (i = c.id ∧ pc.spawned c.key = some p)
  finished :
    ∀ i r,
      t.finished i = some r →
        s.finished i = some r ∨
          (i = c.id ∧ pc = .fnReturn r)
  group :
    pc ≠ .fetch →
      (∀ r, pc ≠ .fnReturn r) → t.group = s.group

variable {cfg : ManagerConfig}
variable {s t : Shared}
variable {c : Caller}
variable {fault : Fault}
variable {origin : OriginReply}
variable {pc pc' : GetPc}

/- A step that changes L1 and counters at most. -/
theorem Effect.of_frame
    {store : CacheStore}
    {next : GetPc}
    (h : some ({ s with store := store }, next) = some (t, pc'))
    (hClock : store.clock = s.store.clock)
    (hL1 :
      store.l1 =
        s.store.l1.write s.store.clock (pc.l1Write c.key))
    (hRedis : store.redis = s.store.redis) :
    Effect s t c pc := by
  have hShared : { s with store := store } = t :=
    (Prod.mk.inj (Option.some.inj h)).1
  subst hShared
  exact
    ⟨hClock, hL1, hRedis, fun _ _ hp => Or.inl hp,
      fun _ _ hr => Or.inl hr, fun _ _ => rfl⟩

/- A step that writes nothing to L1. -/
theorem Effect.of_stay
    {next : GetPc}
    (h : some (s, next) = some (t, pc'))
    (hWrite : pc.l1Write c.key = none) :
    Effect s t c pc :=
  Effect.of_frame h rfl (by rw [hWrite]; rfl) rfl

theorem Effect.of_count
    {metrics : Metrics}
    {next : GetPc}
    (h : some (s.setMetrics metrics, next) = some (t, pc'))
    (hWrite : pc.l1Write c.key = none) :
    Effect s t c pc :=
  Effect.of_frame h rfl (by rw [hWrite]; rfl) rfl

theorem runFetch_effect :
    Effect s (runFetch cfg s c).1 c .fetch := by
  unfold runFetch
  cases cfg.useSF with
  | false =>
      have hStay : some (s, fetch) = some (s, fetch) := rfl
      exact Effect.of_stay hStay rfl
  | true =>
      cases hGroup : s.group c.key with
      | none =>
          exact
            ⟨rfl, rfl, rfl, fun _ _ h => Or.inl h,
              fun _ _ h => Or.inl h,
              fun h => absurd rfl h⟩
      | some flight =>
          exact
            ⟨rfl, rfl, rfl, fun _ _ h => Or.inl h,
              fun _ _ h => Or.inl h,
              fun h => absurd rfl h⟩

theorem runFnReturn_effect
    (result : GetResult) :
    Effect s (runFnReturn cfg s c result).1 c
      (.fnReturn result) := by
  unfold runFnReturn
  cases cfg.useSF with
  | false =>
      have hStay : some (s, fetch) = some (s, fetch) := rfl
      exact Effect.of_stay hStay rfl
  | true =>
      refine
        ⟨rfl, rfl, rfl, fun _ _ h => Or.inl h, ?_,
          fun _ h => absurd rfl (h result)⟩
      intro i r h
      by_cases hEq : i = c.id
      · subst hEq
        have hResult : result = r := by simpa using h
        exact Or.inr ⟨rfl, by rw [hResult]⟩
      · exact Or.inl (by simpa [hEq] using h)

/- What a step of a `Get` does to the shared state. -/
theorem run_effect
    (h : pc.run cfg s c fault origin = some (t, pc')) :
    Effect s t c pc := by
  cases pc with
  | l1Read =>
      cases hRead : s.store.l1.read c.key with
      | none =>
          simp only [run, hRead] at h
          exact Effect.of_stay h rfl
      | some entry =>
          simp only [run, hRead] at h
          exact Effect.of_stay h rfl
  | l1Check entry =>
      cases hExp : entry.expired s.store.clock with
      | true =>
          simp only [run, hExp, if_true] at h
          exact Effect.of_stay h rfl
      | false =>
          simp only [run, hExp, Bool.false_eq_true,
            if_false] at h
          exact Effect.of_stay h rfl
  | lazyDelete => exact Effect.of_frame h rfl rfl rfl
  | countL1Miss => exact Effect.of_count h rfl
  | countL1Hit value => exact Effect.of_count h rfl
  | l2Get =>
      cases hGet :
          L2Cache.get s.store.redis s.store.clock c.key
            fault with
      | hit value =>
          simp only [run, hGet] at h
          exact Effect.of_stay h rfl
      | nil =>
          simp only [run, hGet] at h
          exact Effect.of_stay h rfl
      | error =>
          simp only [run, hGet] at h
          exact Effect.of_stay h rfl
  | countL2Err => exact Effect.of_count h rfl
  | countL2Miss => exact Effect.of_count h rfl
  | countL2Hit value => exact Effect.of_count h rfl
  | backPopulate value =>
      exact Effect.of_frame h rfl rfl rfl
  | fetch =>
      have hEffect : Effect s (runFetch cfg s c).1 c .fetch :=
        runFetch_effect
      rw [show runFetch cfg s c = (t, pc') from
        Option.some.inj h] at hEffect
      exact hEffect
  | joined leader =>
      cases hDone : s.finished leader with
      | none =>
          simp [run, hDone] at h
      | some result =>
          simp only [run, hDone] at h
          exact Effect.of_stay h rfl
  | countOriginCall => exact Effect.of_count h rfl
  | originCall =>
      rcases origin with value | (text | _)
      · exact Effect.of_stay h rfl
      · exact Effect.of_stay h rfl
      · cases hCancel : c.cancelled with
        | false =>
            simp [run, hCancel] at h
        | true =>
            simp only [run, hCancel, if_true] at h
            exact Effect.of_stay h rfl
  | countOriginErr cause => exact Effect.of_count h rfl
  | spawn value =>
      have hShared := (Prod.mk.inj (Option.some.inj h)).1
      rw [← hShared]
      refine
        ⟨rfl, rfl, rfl, ?_, fun _ _ hr => Or.inl hr,
          fun _ _ => rfl⟩
      intro i p hp
      by_cases hEq : i = c.id
      · subst hEq
        exact Or.inr ⟨rfl, by simpa [spawned] using hp⟩
      · exact Or.inl (by simpa [hEq] using hp)
  | l1Store value => exact Effect.of_frame h rfl rfl rfl
  | fnReturn result =>
      have hEffect :
          Effect s (runFnReturn cfg s c result).1 c
            (.fnReturn result) :=
        runFnReturn_effect result
      rw [show runFnReturn cfg s c result = (t, pc') from
        Option.some.inj h] at hEffect
      exact hEffect
  | countCoalesced result => exact Effect.of_count h rfl
  | addLatency result => exact Effect.of_count h rfl
  | countRequest result => exact Effect.of_count h rfl
  | done result =>
      simp [run] at h

end GetPc

end CacheServer

------------------------------------------------------------
-- Where A Step Of A Get Leads
------------------------------------------------------------

namespace CacheServer

namespace GetPc

/- The steps of a `Get`, with what each goes by. -/
inductive Next
    (cfg : ManagerConfig)
    (s : Shared)
    (c : Caller)
    (fault : Fault)
    (origin : OriginReply) :
    GetPc → GetPc → Prop
| l1None
    (hRead : s.store.l1.read c.key = none) :
    Next cfg s c fault origin .l1Read .countL1Miss
| l1Some
    {entry : L1Entry}
    (hRead : s.store.l1.read c.key = some entry) :
    Next cfg s c fault origin .l1Read (.l1Check entry)
| l1Expired
    {entry : L1Entry}
    (hExpired : entry.expired s.store.clock = true) :
    Next cfg s c fault origin (.l1Check entry) .lazyDelete
| l1Fresh
    {entry : L1Entry}
    (hFresh : entry.expired s.store.clock = false) :
    Next cfg s c fault origin (.l1Check entry)
      (.countL1Hit entry.value)
| lazyDelete :
    Next cfg s c fault origin .lazyDelete .countL1Miss
| countL1Miss :
    Next cfg s c fault origin .countL1Miss .l2Get
| countL1Hit
    {value : Value} :
    Next cfg s c fault origin (.countL1Hit value)
      (.addLatency (.ok value))
| l2Hit
    {value : Value}
    (hGet :
      L2Cache.get s.store.redis s.store.clock c.key fault =
        .hit value) :
    Next cfg s c fault origin .l2Get (.countL2Hit value)
| l2Nil
    (hGet :
      L2Cache.get s.store.redis s.store.clock c.key fault =
        .nil) :
    Next cfg s c fault origin .l2Get .countL2Miss
| l2Error
    (hGet :
      L2Cache.get s.store.redis s.store.clock c.key fault =
        .error) :
    Next cfg s c fault origin .l2Get .countL2Err
| countL2Err :
    Next cfg s c fault origin .countL2Err .countL2Miss
| countL2Miss :
    Next cfg s c fault origin .countL2Miss .fetch
| countL2Hit
    {value : Value} :
    Next cfg s c fault origin (.countL2Hit value)
      (.backPopulate value)
| backPopulate
    {value : Value} :
    Next cfg s c fault origin (.backPopulate value)
      (.addLatency (.ok value))
| lead
    (hGroup : cfg.useSF = true → s.group c.key = none) :
    Next cfg s c fault origin .fetch .countOriginCall
| join
    {flight : Flight}
    (hUse : cfg.useSF = true)
    (hGroup : s.group c.key = some flight) :
    Next cfg s c fault origin .fetch (.joined flight.leader)
| joined
    {leader : Nat}
    {result : GetResult}
    (hDone : s.finished leader = some result) :
    Next cfg s c fault origin (.joined leader)
      (.countCoalesced result)
| countOriginCall :
    Next cfg s c fault origin .countOriginCall .originCall
| originValue
    {value : Value}
    (hOrigin : origin = .value value) :
    Next cfg s c fault origin .originCall (.spawn value)
| originError
    {cause : OriginError}
    (hOrigin : origin = .error cause)
    (hCause : cause = .cancelled → c.cancelled = true) :
    Next cfg s c fault origin .originCall
      (.countOriginErr cause)
| countOriginErr
    {cause : OriginError} :
    Next cfg s c fault origin (.countOriginErr cause)
      (.fnReturn (.originFailed c.key cause))
| spawn
    {value : Value} :
    Next cfg s c fault origin (.spawn value) (.l1Store value)
| l1Store
    {value : Value} :
    Next cfg s c fault origin (.l1Store value)
      (.fnReturn (.ok value))
| returnShared
    {result : GetResult} :
    Next cfg s c fault origin (.fnReturn result)
      (.countCoalesced result)
| returnAlone
    {result : GetResult} :
    Next cfg s c fault origin (.fnReturn result)
      (.addLatency result)
| countCoalesced
    {result : GetResult} :
    Next cfg s c fault origin (.countCoalesced result)
      (.addLatency result)
| addLatency
    {result : GetResult} :
    Next cfg s c fault origin (.addLatency result)
      (.countRequest result)
| countRequest
    {result : GetResult} :
    Next cfg s c fault origin (.countRequest result)
      (.done result)

variable {cfg : ManagerConfig}
variable {s t : Shared}
variable {c : Caller}
variable {fault : Fault}
variable {origin : OriginReply}
variable {pc pc' : GetPc}

/- A step that has been evaluated leads where it says. -/
theorem Next.of_eq
    {u : Shared}
    {next : GetPc}
    (h : some (u, next) = some (t, pc'))
    (hNext : Next cfg s c fault origin pc next) :
    Next cfg s c fault origin pc pc' := by
  have hEq : next = pc' := (Prod.mk.inj (Option.some.inj h)).2
  exact hEq ▸ hNext

theorem runFetch_next :
    Next cfg s c fault origin .fetch (runFetch cfg s c).2 := by
  unfold runFetch
  cases hUse : cfg.useSF with
  | false =>
      refine Next.lead ?_
      intro hTrue
      rw [hUse] at hTrue
      cases hTrue
  | true =>
      cases hGroup : s.group c.key with
      | none => exact Next.lead fun _ => hGroup
      | some flight => exact Next.join hUse hGroup

theorem runFnReturn_next
    (result : GetResult) :
    Next cfg s c fault origin (.fnReturn result)
      (runFnReturn cfg s c result).2 := by
  unfold runFnReturn
  cases cfg.useSF with
  | false => exact Next.returnAlone
  | true =>
      rcases s.group c.key with _ | ⟨leader, _ | dups⟩
      · exact Next.returnAlone
      · exact Next.returnAlone
      · exact Next.returnShared

/- Every step of a `Get` is one of these. -/
theorem run_next
    (h : pc.run cfg s c fault origin = some (t, pc')) :
    Next cfg s c fault origin pc pc' := by
  cases pc with
  | l1Read =>
      cases hRead : s.store.l1.read c.key with
      | none =>
          simp only [run, hRead] at h
          exact Next.of_eq h (.l1None hRead)
      | some entry =>
          simp only [run, hRead] at h
          exact Next.of_eq h (.l1Some hRead)
  | l1Check entry =>
      cases hExp : entry.expired s.store.clock with
      | true =>
          simp only [run, hExp, if_true] at h
          exact Next.of_eq h (.l1Expired hExp)
      | false =>
          simp only [run, hExp, Bool.false_eq_true,
            if_false] at h
          exact Next.of_eq h (.l1Fresh hExp)
  | lazyDelete => exact Next.of_eq h .lazyDelete
  | countL1Miss => exact Next.of_eq h .countL1Miss
  | countL1Hit value => exact Next.of_eq h .countL1Hit
  | l2Get =>
      cases hGet :
          L2Cache.get s.store.redis s.store.clock c.key
            fault with
      | hit value =>
          simp only [run, hGet] at h
          exact Next.of_eq h (.l2Hit hGet)
      | nil =>
          simp only [run, hGet] at h
          exact Next.of_eq h (.l2Nil hGet)
      | error =>
          simp only [run, hGet] at h
          exact Next.of_eq h (.l2Error hGet)
  | countL2Err => exact Next.of_eq h .countL2Err
  | countL2Miss => exact Next.of_eq h .countL2Miss
  | countL2Hit value => exact Next.of_eq h .countL2Hit
  | backPopulate value => exact Next.of_eq h .backPopulate
  | fetch => exact Next.of_eq h runFetch_next
  | joined leader =>
      cases hDone : s.finished leader with
      | none =>
          simp [run, hDone] at h
      | some result =>
          simp only [run, hDone] at h
          exact Next.of_eq h (.joined hDone)
  | countOriginCall => exact Next.of_eq h .countOriginCall
  | originCall =>
      rcases origin with value | (text | _)
      · exact Next.of_eq h (.originValue rfl)
      · refine Next.of_eq h (.originError rfl ?_)
        intro hCause
        cases hCause
      · cases hCancel : c.cancelled with
        | false =>
            simp [run, hCancel] at h
        | true =>
            simp only [run, hCancel, if_true] at h
            exact
              Next.of_eq h
                (.originError rfl fun _ => hCancel)
  | countOriginErr cause => exact Next.of_eq h .countOriginErr
  | spawn value => exact Next.of_eq h .spawn
  | l1Store value => exact Next.of_eq h .l1Store
  | fnReturn result =>
      exact Next.of_eq h (runFnReturn_next result)
  | countCoalesced result =>
      exact Next.of_eq h .countCoalesced
  | addLatency result => exact Next.of_eq h .addLatency
  | countRequest result => exact Next.of_eq h .countRequest
  | done result =>
      simp [run] at h

end GetPc

end CacheServer

------------------------------------------------------------
-- The Values That A Get Carries
------------------------------------------------------------

namespace CacheServer

/- The value of a successful result. -/
def GetResult.value? :
    GetResult → Option Value
| .ok value => some value
| .originFailed _ _ => none

namespace GetPc

/- The value that a `Get` holds and may still hand on. -/
def carried :
    GetPc → Option Value
| .l1Check entry => some entry.value
| .countL1Hit value => some value
| .countL2Hit value => some value
| .backPopulate value => some value
| .spawn value => some value
| .l1Store value => some value
| .fnReturn result => result.value?
| .countCoalesced result => result.value?
| .addLatency result => result.value?
| .countRequest result => result.value?
| .done result => result.value?
| _ => none

/- A value that a step learns from outside the call. -/
inductive Learns
    (s : Shared)
    (c : Caller)
    (fault : Fault)
    (origin : OriginReply)
    (value : Value) :
    GetPc → Prop
| l1
    {entry : L1Entry}
    (hRead : s.store.l1.read c.key = some entry)
    (hValue : entry.value = value) :
    Learns s c fault origin value .l1Read
| l2
    (hGet :
      L2Cache.get s.store.redis s.store.clock c.key fault =
        .hit value) :
    Learns s c fault origin value .l2Get
| joined
    {leader : Nat}
    {result : GetResult}
    (hDone : s.finished leader = some result)
    (hValue : result.value? = some value) :
    Learns s c fault origin value (.joined leader)
| origin
    (hOrigin : origin = .value value) :
    Learns s c fault origin value .originCall

variable {cfg : ManagerConfig}
variable {s t : Shared}
variable {c : Caller}
variable {fault : Fault}
variable {origin : OriginReply}
variable {pc pc' : GetPc}

/- A value carried after a step was carried or is learned. -/
theorem next_carried
    {value : Value}
    (h : Next cfg s c fault origin pc pc')
    (hCarried : pc'.carried = some value) :
    pc.carried = some value ∨
      Learns s c fault origin value pc := by
  cases h with
  | l1Some hRead =>
      exact Or.inr (.l1 hRead (Option.some.inj hCarried))
  | l2Hit hGet =>
      have hValue := Option.some.inj hCarried
      subst hValue
      exact Or.inr (.l2 hGet)
  | joined hDone => exact Or.inr (.joined hDone hCarried)
  | originValue hOrigin =>
      have hValue := Option.some.inj hCarried
      subst hValue
      exact Or.inr (.origin hOrigin)
  | l1Fresh hFresh => exact Or.inl hCarried
  | countL1Hit => exact Or.inl hCarried
  | countL2Hit => exact Or.inl hCarried
  | backPopulate => exact Or.inl hCarried
  | spawn => exact Or.inl hCarried
  | l1Store => exact Or.inl hCarried
  | returnShared => exact Or.inl hCarried
  | returnAlone => exact Or.inl hCarried
  | countCoalesced => exact Or.inl hCarried
  | addLatency => exact Or.inl hCarried
  | countRequest => exact Or.inl hCarried
  | _ => cases hCarried

end GetPc

end CacheServer
