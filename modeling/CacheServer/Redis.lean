import CacheServer.Basic

/-
  The Redis commands that the server issues.

  Redis is one store of typed keys, each with an optional
  expiry time. A key whose time has passed is absent to
  every command. A command on a key of another type is a
  WRONGTYPE error, except `SET` and `DEL`, which take a key
  of any type.

  Key definitions include:
    * `CacheServer.Redis`
    * `CacheServer.Redis.get`
    * `CacheServer.Redis.set`
    * `CacheServer.Redis.hset`
    * `CacheServer.Redis.sadd`
    * `CacheServer.Redis.HasFields`
    * `CacheServer.Redis.HasMember`
    * `CacheServer.Fault`

  Key theorems include:
    * `CacheServer.Redis.live_eq_some`
    * `CacheServer.Redis.get_eq_value`
    * `CacheServer.Redis.hset_lookup_ne`
    * `CacheServer.Redis.srem_lookup_ne`
    * `CacheServer.Redis.notMember_of_srem`
    * `CacheServer.Redis.hset_hasFields`
    * `CacheServer.Redis.sadd_hasMember`
-/

------------------------------------------------------------
-- Keys And Their Values
------------------------------------------------------------

namespace CacheServer

inductive RedisValue
| str (value : Bytes)
| hash (fields : Table Bytes Bytes)
| set (members : Table Bytes Unit)
deriving DecidableEq

structure RedisObj where
  value : RedisValue
  expiresAt : Option Int
deriving DecidableEq

/- A key expires once the clock has passed its time. -/
def RedisObj.expired
    (obj : RedisObj)
    (now : Int) :
    Bool :=
  match obj.expiresAt with
  | none => false
  | some time => decide (time < now)

abbrev Redis :=
  Table Key RedisObj

/- The reply to `GET`. -/
inductive GetReply
| value (value : Bytes)
| nil
| wrongType
deriving DecidableEq, Repr

/-
  What a caller sees of a backend call: its reply, or an
  error with a text. A call that fails may have been applied
  all the same.
-/
inductive Fault
| none
| error (applied : Bool) (text : Bytes)
deriving DecidableEq, Repr

/- The state a faulty call leaves. -/
def Fault.apply
    {σ : Type}
    (fault : Fault)
    (before after : σ) :
    σ :=
  match fault with
  | .none => after
  | .error true _ => after
  | .error false _ => before

@[simp] theorem Fault.apply_none
    {σ : Type}
    (before after : σ) :
    Fault.none.apply before after = after := rfl

/- Whether a backend call was applied. -/
def Fault.applied :
    Fault → Bool
| .none => true
| .error applied _ => applied

theorem Fault.apply_eq
    {σ : Type}
    (fault : Fault)
    (before after : σ) :
    fault.apply before after =
      if fault.applied then after else before := by
  cases fault with
  | none => rfl
  | error applied text =>
      cases applied with
      | true => rfl
      | false => rfl

/- A call is applied or not. -/
theorem Fault.apply_cases
    {σ : Type}
    (fault : Fault)
    (before after : σ) :
    fault.apply before after = before ∨
      fault.apply before after = after := by
  cases fault with
  | none => exact Or.inr rfl
  | error applied text =>
      cases applied with
      | true => exact Or.inr rfl
      | false => exact Or.inl rfl

/- What holds before and after a call holds in any case. -/
theorem Fault.apply_holds
    {σ : Type}
    {P : σ → Prop}
    {before after : σ}
    (fault : Fault)
    (hBefore : P before)
    (hAfter : P after) :
    P (fault.apply before after) := by
  rcases fault.apply_cases before after with hEq | hEq
  · rw [hEq]
    exact hBefore
  · rw [hEq]
    exact hAfter

end CacheServer

------------------------------------------------------------
-- Commands
------------------------------------------------------------

namespace CacheServer

namespace Redis

/- The object of a key that has not expired. -/
def live
    (r : Redis)
    (now : Int)
    (key : Key) :
    Option RedisObj :=
  (r.lookup key).filter (fun obj => !obj.expired now)

def get
    (r : Redis)
    (now : Int)
    (key : Key) :
    GetReply :=
  match r.live now key with
  | none => .nil
  | some obj =>
      match obj.value with
      | .str value => .value value
      | _ => .wrongType

/- A positive lifetime ends; any other one does not. -/
def expiry
    (now : Int)
    (ttl : Int) :
    Option Int :=
  if 0 < ttl then some (now + ttl) else none

/- `SET` replaces a key of any type and restarts its TTL. -/
def set
    (r : Redis)
    (now : Int)
    (ttl : Int)
    (key : Key)
    (value : Bytes) :
    Redis :=
  r.insert key
    { value := .str value, expiresAt := expiry now ttl }

def del
    (r : Redis)
    (key : Key) :
    Redis :=
  r.erase key

/- Store the fields of an `HSET` one after the other. -/
def putFields
    (hash : Table Bytes Bytes)
    (fields : List (Bytes × Bytes)) :
    Table Bytes Bytes :=
  fields.foldl (fun h f => h.insert f.1 f.2) hash

/- `HSET`; `none` stands for a WRONGTYPE error. -/
def hset
    (r : Redis)
    (now : Int)
    (key : Key)
    (fields : List (Bytes × Bytes)) :
    Option Redis :=
  match r.live now key with
  | none =>
      some
        (r.insert key
          { value := .hash (putFields ∅ fields)
            expiresAt := none })
  | some obj =>
      match obj.value with
      | .hash hash =>
          some
            (r.insert key
              { obj with
                value := .hash (putFields hash fields) })
      | _ => none

/- `HGETALL`: an absent key reads as the empty hash. -/
def hgetall
    (r : Redis)
    (now : Int)
    (key : Key) :
    Option (Table Bytes Bytes) :=
  match r.live now key with
  | none => some ∅
  | some obj =>
      match obj.value with
      | .hash hash => some hash
      | _ => none

/- Add a member to a set, unless it is one already. -/
def addMember
    (members : Table Bytes Unit)
    (member : Bytes) :
    Table Bytes Unit :=
  if member ∈ members then
    members
  else
    members.insert member ()

/- `SADD`; `none` stands for a WRONGTYPE error. -/
def sadd
    (r : Redis)
    (now : Int)
    (key : Key)
    (member : Bytes) :
    Option Redis :=
  match r.live now key with
  | none =>
      some
        (r.insert key
          { value := .set (addMember ∅ member)
            expiresAt := none })
  | some obj =>
      match obj.value with
      | .set members =>
          some
            (r.insert key
              { obj with
                value := .set (addMember members member) })
      | _ => none

/- `SREM`; a set that loses its last member is deleted. -/
def srem
    (r : Redis)
    (now : Int)
    (key : Key)
    (member : Bytes) :
    Option Redis :=
  match r.live now key with
  | none => some r
  | some obj =>
      match obj.value with
      | .set members =>
          if Table.len (members.erase member) = 0 then
            some (r.erase key)
          else
            some
              (r.insert key
                { obj with
                  value := .set (members.erase member) })
      | _ => none

/- `SMEMBERS`: an absent key reads as the empty set. -/
def smembers
    (r : Redis)
    (now : Int)
    (key : Key) :
    Option (List Bytes) :=
  match r.live now key with
  | none => some []
  | some obj =>
      match obj.value with
      | .set members => some members.keys
      | _ => none

end Redis

end CacheServer

------------------------------------------------------------
-- Expiry
------------------------------------------------------------

namespace CacheServer

namespace Redis

theorem live_eq_some
    {r : Redis}
    {now : Int}
    {key : Key}
    {obj : RedisObj} :
    r.live now key = some obj ↔
      r.lookup key = some obj ∧ obj.expired now = false := by
  simp [live, Option.filter_eq_some_iff]

/- What is held under a key that is not live has expired. -/
theorem expired_of_live_none
    {r : Redis}
    {now : Int}
    {key : Key}
    {obj : RedisObj}
    (hLive : r.live now key = none)
    (hLookup : r.lookup key = some obj) :
    ∃ time, obj.expiresAt = some time ∧ time < now := by
  cases hExp : obj.expired now with
  | false =>
      rw [live_eq_some.mpr ⟨hLookup, hExp⟩] at hLive
      cases hLive
  | true =>
      cases hTime : obj.expiresAt with
      | none => simp [RedisObj.expired, hTime] at hExp
      | some time =>
          refine ⟨time, rfl, ?_⟩
          simpa [RedisObj.expired, hTime] using hExp

/- The same of a command that may answer with WRONGTYPE. -/
theorem apply_holds
    {P : Redis → Prop}
    {r : Redis}
    {result : Option Redis}
    (fault : Fault)
    (hBefore : P r)
    (hAfter : ∀ r', result = some r' → P r') :
    P (fault.apply r (result.getD r)) := by
  apply fault.apply_holds hBefore
  cases hResult : result with
  | none => exact hBefore
  | some r' => exact hAfter r' hResult

/- What a key holds decides what is live under it. -/
theorem live_congr
    {r r' : Redis}
    {key : Key}
    (now : Int)
    (h : r'.lookup key = r.lookup key) :
    r'.live now key = r.live now key := by
  simp [live, h]

/- `GET` answers with the string of a live key. -/
theorem get_eq_value
    {r : Redis}
    {now : Int}
    {key : Key}
    {value : Bytes} :
    r.get now key = .value value ↔
      ∃ obj,
        r.live now key = some obj ∧
          obj.value = .str value := by
  cases hLive : r.live now key with
  | none =>
      simp [get, hLive]
  | some obj =>
      cases hValue : obj.value with
      | str v => simp [get, hLive, hValue]
      | hash fields => simp [get, hLive, hValue]
      | set members => simp [get, hLive, hValue]

end Redis

end CacheServer

------------------------------------------------------------
-- A Command Changes Its Own Key Only
------------------------------------------------------------

namespace CacheServer

namespace Redis

@[simp] theorem set_lookup_self
    (r : Redis)
    (now : Int)
    (ttl : Int)
    (key : Key)
    (value : Bytes) :
    (r.set now ttl key value).lookup key =
      some
        { value := .str value
          expiresAt := expiry now ttl } :=
  AList.lookup_insert _

theorem set_lookup_ne
    (r : Redis)
    (now : Int)
    (ttl : Int)
    {key other : Key}
    (value : Bytes)
    (hNe : other ≠ key) :
    (r.set now ttl key value).lookup other =
      r.lookup other :=
  AList.lookup_insert_ne hNe

@[simp] theorem del_lookup_self
    (r : Redis)
    (key : Key) :
    (r.del key).lookup key = none :=
  AList.lookup_erase _ _

theorem del_lookup_ne
    (r : Redis)
    {key other : Key}
    (hNe : other ≠ key) :
    (r.del key).lookup other = r.lookup other :=
  AList.lookup_erase_ne hNe

theorem hset_lookup_ne
    {r r' : Redis}
    {now : Int}
    {key other : Key}
    {fields : List (Bytes × Bytes)}
    (h : r.hset now key fields = some r')
    (hNe : other ≠ key) :
    r'.lookup other = r.lookup other := by
  cases hLive : r.live now key with
  | none =>
      simp only [hset, hLive, Option.some.injEq] at h
      subst h
      exact AList.lookup_insert_ne hNe
  | some obj =>
      cases hValue : obj.value with
      | str value => simp [hset, hLive, hValue] at h
      | set members => simp [hset, hLive, hValue] at h
      | hash hash =>
          simp only [hset, hLive, hValue,
            Option.some.injEq] at h
          subst h
          exact AList.lookup_insert_ne hNe

theorem sadd_lookup_ne
    {r r' : Redis}
    {now : Int}
    {key other : Key}
    {member : Bytes}
    (h : r.sadd now key member = some r')
    (hNe : other ≠ key) :
    r'.lookup other = r.lookup other := by
  cases hLive : r.live now key with
  | none =>
      simp only [sadd, hLive, Option.some.injEq] at h
      subst h
      exact AList.lookup_insert_ne hNe
  | some obj =>
      cases hValue : obj.value with
      | str value => simp [sadd, hLive, hValue] at h
      | hash fields => simp [sadd, hLive, hValue] at h
      | set members =>
          simp only [sadd, hLive, hValue,
            Option.some.injEq] at h
          subst h
          exact AList.lookup_insert_ne hNe

theorem srem_lookup_ne
    {r r' : Redis}
    {now : Int}
    {key other : Key}
    {member : Bytes}
    (h : r.srem now key member = some r')
    (hNe : other ≠ key) :
    r'.lookup other = r.lookup other := by
  cases hLive : r.live now key with
  | none =>
      simp only [srem, hLive, Option.some.injEq] at h
      rw [h]
  | some obj =>
      cases hValue : obj.value with
      | str value => simp [srem, hLive, hValue] at h
      | hash fields => simp [srem, hLive, hValue] at h
      | set members =>
          by_cases hLast :
              Table.len (members.erase member) = 0
          · simp only [srem, hLive, hValue, hLast, if_true,
              Option.some.injEq] at h
            subst h
            exact AList.lookup_erase_ne hNe
          · simp only [srem, hLive, hValue, hLast, if_false,
              Option.some.injEq] at h
            subst h
            exact AList.lookup_insert_ne hNe

/- A read depends on what its own key holds. -/
theorem hgetall_congr
    {r r' : Redis}
    {key : Key}
    (now : Int)
    (h : r'.lookup key = r.lookup key) :
    r'.hgetall now key = r.hgetall now key := by
  simp [hgetall, live_congr now h]

theorem smembers_congr
    {r r' : Redis}
    {key : Key}
    (now : Int)
    (h : r'.lookup key = r.lookup key) :
    r'.smembers now key = r.smembers now key := by
  simp [smembers, live_congr now h]

end Redis

end CacheServer

------------------------------------------------------------
-- Missing Hashes And Members
------------------------------------------------------------

namespace CacheServer

namespace Redis

variable {r r' : Redis}
variable {now later : Int}
variable {key : Key}
variable {member other : Bytes}

/- `HGETALL` finds no field. -/
def NoHash
    (r : Redis)
    (now : Int)
    (key : Key) :
    Prop :=
  ∀ hash, r.hgetall now key = some hash → hash.len = 0

/- `SMEMBERS` does not list the member. -/
def NotMember
    (r : Redis)
    (now : Int)
    (key : Key)
    (member : Bytes) :
    Prop :=
  ∀ members, r.smembers now key = some members → member ∉ members

instance
    (r : Redis)
    (now : Int)
    (key : Key) :
    Decidable (r.NoHash now key) :=
  inferInstanceAs
    (Decidable (∀ hash ∈ r.hgetall now key, hash.len = 0))

instance
    (r : Redis)
    (now : Int)
    (key : Key)
    (member : Bytes) :
    Decidable (r.NotMember now key member) :=
  inferInstanceAs
    (Decidable
      (∀ members ∈ r.smembers now key, member ∉ members))

theorem noHash_iff :
    r.NoHash now key ↔
      ∀ obj,
        r.live now key = some obj →
          ∀ hash, obj.value = .hash hash → hash.len = 0 := by
  unfold NoHash hgetall
  cases hLive : r.live now key with
  | none =>
      constructor
      · intro _ obj hSome
        cases hSome
      · intro _ hash hHash
        cases hHash
        rfl
  | some obj =>
      cases hValue : obj.value with
      | str value => simp [hValue]
      | set members => simp [hValue]
      | hash fields => simp [hValue]

theorem notMember_iff :
    r.NotMember now key member ↔
      ∀ obj,
        r.live now key = some obj →
          ∀ members,
            obj.value = .set members → member ∉ members := by
  unfold NotMember smembers
  cases hLive : r.live now key with
  | none =>
      constructor
      · intro _ obj hSome
        cases hSome
      · intro _ members hMembers
        cases hMembers
        simp
  | some obj =>
      cases hValue : obj.value with
      | str value => simp [hValue]
      | hash fields => simp [hValue]
      | set members => simp [hValue, AList.mem_keys]

/- What is live later is live now. -/
theorem live_of_later
    {obj : RedisObj}
    (hLe : now ≤ later)
    (hLive : r.live later key = some obj) :
    r.live now key = some obj := by
  rcases live_eq_some.mp hLive with ⟨hLookup, hFresh⟩
  refine live_eq_some.mpr ⟨hLookup, ?_⟩
  cases hTime : obj.expiresAt with
  | none => simp [RedisObj.expired, hTime]
  | some time =>
      simp only [RedisObj.expired, hTime,
        decide_eq_false_iff_not, not_lt] at hFresh ⊢
      omega

/- Nothing comes back as time passes. -/
theorem NoHash.of_le
    (h : r.NoHash now key)
    (hLe : now ≤ later) :
    r.NoHash later key := by
  rw [noHash_iff] at h ⊢
  intro obj hLive
  exact h obj (live_of_later hLe hLive)

theorem NotMember.of_le
    (h : r.NotMember now key member)
    (hLe : now ≤ later) :
    r.NotMember later key member := by
  rw [notMember_iff] at h ⊢
  intro obj hLive
  exact h obj (live_of_later hLe hLive)

theorem NoHash.congr
    (h : r.NoHash now key)
    (hSame : r'.lookup key = r.lookup key) :
    r'.NoHash now key := by
  intro hash hHash
  rw [hgetall_congr now hSame] at hHash
  exact h hash hHash

theorem NotMember.congr
    (h : r.NotMember now key member)
    (hSame : r'.lookup key = r.lookup key) :
    r'.NotMember now key member := by
  intro members hMembers
  rw [smembers_congr now hSame] at hMembers
  exact h members hMembers

/- `DEL` leaves no hash. -/
theorem noHash_del
    (r : Redis)
    (now : Int)
    (key : Key) :
    (r.del key).NoHash now key := by
  rw [noHash_iff]
  intro obj hLive
  rw [live, del_lookup_self] at hLive
  cases hLive

theorem NoHash.del
    {erased : Key}
    (h : r.NoHash now key) :
    (r.del erased).NoHash now key := by
  by_cases hEq : key = erased
  · subst hEq
    exact noHash_del r now key
  · exact h.congr (del_lookup_ne r hEq)

theorem mem_addMember
    {members : Table Bytes Unit} :
    member ∈ addMember members other ↔
      member = other ∨ member ∈ members := by
  unfold addMember
  by_cases hMem : other ∈ members
  · rw [if_pos hMem]
    constructor
    · exact Or.inr
    · intro h
      rcases h with rfl | hOld
      · exact hMem
      · exact hOld
  · rw [if_neg hMem, AList.mem_insert]

/- A set stored under the key is what it lists. -/
theorem notMember_insert
    {obj : RedisObj}
    {members : Table Bytes Unit}
    (hValue : obj.value = .set members)
    (hNot : member ∉ members) :
    Redis.NotMember (r.insert key obj) now key member := by
  rw [notMember_iff]
  intro obj' hLive members' hMembers
  have hLookup := (live_eq_some.mp hLive).1
  rw [AList.lookup_insert] at hLookup
  cases hLookup
  rw [hValue] at hMembers
  cases hMembers
  exact hNot

/- `SADD` adds its own member only. -/
theorem NotMember.sadd
    (h : r.NotMember now key member)
    (hNe : member ≠ other)
    (hAdd : r.sadd now key other = some r') :
    r'.NotMember now key member := by
  rw [notMember_iff] at h
  cases hLive : r.live now key with
  | none =>
      simp only [Redis.sadd, hLive, Option.some.injEq] at hAdd
      subst hAdd
      apply notMember_insert rfl
      rw [mem_addMember]
      simp [hNe]
  | some obj =>
      cases hValue : obj.value with
      | str value => simp [Redis.sadd, hLive, hValue] at hAdd
      | hash fields =>
          simp [Redis.sadd, hLive, hValue] at hAdd
      | set members =>
          simp only [Redis.sadd, hLive, hValue,
            Option.some.injEq] at hAdd
          subst hAdd
          apply notMember_insert rfl
          rw [mem_addMember]
          have hOld := h obj hLive members hValue
          simp [hNe, hOld]

/- `SREM` leaves the members other than its own. -/
theorem notMember_of_srem
    (hRem : r.srem now key other = some r')
    (hNot : member = other ∨ r.NotMember now key member) :
    r'.NotMember now key member := by
  cases hLive : r.live now key with
  | none =>
      simp only [srem, hLive, Option.some.injEq] at hRem
      subst hRem
      rw [notMember_iff]
      intro obj hSome
      rw [hLive] at hSome
      cases hSome
  | some obj =>
      cases hValue : obj.value with
      | str value => simp [srem, hLive, hValue] at hRem
      | hash fields => simp [srem, hLive, hValue] at hRem
      | set members =>
          have hErased : member ∉ members.erase other := by
            rw [AList.mem_erase]
            rcases hNot with hEq | hNot
            · exact fun h => h.1 hEq
            · rw [notMember_iff] at hNot
              have hOld := hNot obj hLive members hValue
              exact fun h => hOld h.2
          by_cases hLast :
              Table.len (members.erase other) = 0
          · simp only [srem, hLive, hValue, hLast, if_true,
              Option.some.injEq] at hRem
            subst hRem
            rw [notMember_iff]
            intro obj' hSome
            rw [live, AList.lookup_erase] at hSome
            cases hSome
          · simp only [srem, hLive, hValue, hLast, if_false,
              Option.some.injEq] at hRem
            subst hRem
            exact notMember_insert rfl hErased

/- `SREM` fails on a key that lists no members. -/
theorem notMember_of_srem_none
    (hRem : r.srem now key other = none) :
    r.NotMember now key member := by
  rw [notMember_iff]
  intro obj hLive members hValue
  by_cases hLast : Table.len (members.erase other) = 0
  · simp [srem, hLive, hValue, hLast] at hRem
  · simp [srem, hLive, hValue, hLast] at hRem

end Redis

end CacheServer

------------------------------------------------------------
-- Hashes And Sets That Last
------------------------------------------------------------

namespace CacheServer

namespace Redis

variable {r r' : Redis}
variable {now : Int}
variable {key : Key}
variable {member other : Bytes}
variable {fields : List (Bytes × Bytes)}

/- The hash under a key that has no expiry time. -/
def lastingHash
    (r : Redis)
    (key : Key) :
    Option (Table Bytes Bytes) :=
  match r.lookup key with
  | some ⟨.hash hash, none⟩ => some hash
  | _ => none

def lastingSet
    (r : Redis)
    (key : Key) :
    Option (Table Bytes Unit) :=
  match r.lookup key with
  | some ⟨.set members, none⟩ => some members
  | _ => none

/- The key holds a hash with these fields, for good. -/
def HasFields
    (r : Redis)
    (key : Key)
    (fields : List (Bytes × Bytes)) :
    Prop :=
  ∃ hash ∈ r.lastingHash key,
    ∀ f ∈ fields, hash.lookup f.1 = some f.2

def HasMember
    (r : Redis)
    (key : Key)
    (member : Bytes) :
    Prop :=
  ∃ members ∈ r.lastingSet key, member ∈ members

/- An `HSET` under the key stores its fields for good. -/
def TakesFields
    (r : Redis)
    (now : Int)
    (key : Key) :
    Prop :=
  r.live now key = none ∨ (r.lastingHash key).isSome = true

def TakesMember
    (r : Redis)
    (now : Int)
    (key : Key) :
    Prop :=
  r.live now key = none ∨ (r.lastingSet key).isSome = true

instance
    (r : Redis)
    (key : Key)
    (fields : List (Bytes × Bytes)) :
    Decidable (r.HasFields key fields) :=
  inferInstanceAs
    (Decidable
      (∃ hash ∈ r.lastingHash key,
        ∀ f ∈ fields, hash.lookup f.1 = some f.2))

instance
    (r : Redis)
    (key : Key)
    (member : Bytes) :
    Decidable (r.HasMember key member) :=
  inferInstanceAs
    (Decidable (∃ members ∈ r.lastingSet key, member ∈ members))

instance
    (r : Redis)
    (now : Int)
    (key : Key) :
    Decidable (r.TakesFields now key) :=
  inferInstanceAs
    (Decidable
      (r.live now key = none ∨
        (r.lastingHash key).isSome = true))

instance
    (r : Redis)
    (now : Int)
    (key : Key) :
    Decidable (r.TakesMember now key) :=
  inferInstanceAs
    (Decidable
      (r.live now key = none ∨
        (r.lastingSet key).isSome = true))

theorem lastingHash_eq_some
    {hash : Table Bytes Bytes} :
    r.lastingHash key = some hash ↔
      r.lookup key = some ⟨.hash hash, none⟩ := by
  unfold lastingHash
  split
  · rename_i found hLookup
    rw [hLookup]
    simp
  · rename_i hNot
    constructor
    · intro h
      cases h
    · intro h
      exact absurd h (hNot hash)

theorem lastingSet_eq_some
    {members : Table Bytes Unit} :
    r.lastingSet key = some members ↔
      r.lookup key = some ⟨.set members, none⟩ := by
  unfold lastingSet
  split
  · rename_i found hLookup
    rw [hLookup]
    simp
  · rename_i hNot
    constructor
    · intro h
      cases h
    · intro h
      exact absurd h (hNot members)

/- What has no expiry time is live. -/
theorem live_of_lasting
    {value : RedisValue}
    (now : Int)
    (hLookup : r.lookup key = some ⟨value, none⟩) :
    r.live now key = some ⟨value, none⟩ :=
  live_eq_some.mpr ⟨hLookup, rfl⟩

theorem HasFields.congr
    (h : r.HasFields key fields)
    (hSame : r'.lookup key = r.lookup key) :
    r'.HasFields key fields := by
  rcases h with ⟨hash, hHash, hFields⟩
  refine ⟨hash, ?_, hFields⟩
  exact
    lastingHash_eq_some.mpr
      (hSame.trans (lastingHash_eq_some.mp hHash))

theorem HasMember.congr
    (h : r.HasMember key member)
    (hSame : r'.lookup key = r.lookup key) :
    r'.HasMember key member := by
  rcases h with ⟨members, hMembers, hMem⟩
  refine ⟨members, ?_, hMem⟩
  exact
    lastingSet_eq_some.mpr
      (hSame.trans (lastingSet_eq_some.mp hMembers))

theorem putFields_lookup_ne
    {hash : Table Bytes Bytes}
    {name : Bytes}
    (hNot : name ∉ fields.map Prod.fst) :
    (putFields hash fields).lookup name = hash.lookup name := by
  induction fields generalizing hash with
  | nil => rfl
  | cons f rest ih =>
      simp only [List.map_cons, List.mem_cons, not_or] at hNot
      exact
        (ih hNot.2).trans (AList.lookup_insert_ne hNot.1)

/- Fields of different names are all found again. -/
theorem putFields_lookup
    {hash : Table Bytes Bytes}
    {f : Bytes × Bytes}
    (hNodup : (fields.map Prod.fst).Nodup)
    (hMem : f ∈ fields) :
    (putFields hash fields).lookup f.1 = some f.2 := by
  induction fields generalizing hash with
  | nil => cases hMem
  | cons g rest ih =>
      simp only [List.map_cons, List.nodup_cons] at hNodup
      rcases List.mem_cons.mp hMem with rfl | hRest
      · exact
          (putFields_lookup_ne hNodup.1).trans
            (AList.lookup_insert hash)
      · exact ih hNodup.2 hRest

/- `HSET` succeeds where it can, and stores its fields. -/
theorem hset_hasFields
    {wanted : List (Bytes × Bytes)}
    (hTakes : r.TakesFields now key)
    (hNodup : (fields.map Prod.fst).Nodup)
    (hWanted : ∀ f ∈ wanted, f ∈ fields) :
    ((r.hset now key fields).getD r).HasFields key wanted := by
  have hStored :
      ∀ hash : Table Bytes Bytes,
        HasFields
          (r.insert key
            { value := .hash (putFields hash fields)
              expiresAt := none })
          key wanted := by
    intro hash
    refine
      ⟨putFields hash fields,
        lastingHash_eq_some.mpr (AList.lookup_insert r), ?_⟩
    intro f hMem
    exact putFields_lookup hNodup (hWanted f hMem)
  rcases hTakes with hNone | hHash
  · simp only [hset, hNone, Option.getD_some]
    exact hStored ∅
  · rcases Option.isSome_iff_exists.mp hHash with
      ⟨hash, hLasting⟩
    have hLive :=
      live_of_lasting now (lastingHash_eq_some.mp hLasting)
    simp only [hset, hLive, Option.getD_some]
    exact hStored hash

/- `SADD` succeeds where it can, and stores its member. -/
theorem sadd_hasMember
    (hTakes : r.TakesMember now key) :
    ((r.sadd now key member).getD r).HasMember key member := by
  have hStored :
      ∀ members : Table Bytes Unit,
        HasMember
          (r.insert key
            { value := .set (addMember members member)
              expiresAt := none })
          key member := by
    intro members
    exact
      ⟨addMember members member,
        lastingSet_eq_some.mpr (AList.lookup_insert r),
        mem_addMember.mpr (Or.inl rfl)⟩
  rcases hTakes with hNone | hSet
  · simp only [sadd, hNone, Option.getD_some]
    exact hStored ∅
  · rcases Option.isSome_iff_exists.mp hSet with
      ⟨members, hLasting⟩
    have hLive :=
      live_of_lasting now (lastingSet_eq_some.mp hLasting)
    simp only [sadd, hLive, Option.getD_some]
    exact hStored members

/- `SADD` drops no member. -/
theorem HasMember.sadd
    (h : r.HasMember key member)
    (hAdd : r.sadd now key other = some r') :
    r'.HasMember key member := by
  rcases h with ⟨members, hMembers, hMem⟩
  have hLive :=
    live_of_lasting now (lastingSet_eq_some.mp hMembers)
  simp only [Redis.sadd, hLive, Option.some.injEq] at hAdd
  subst hAdd
  exact
    ⟨addMember members other,
      lastingSet_eq_some.mpr (AList.lookup_insert r),
      mem_addMember.mpr (Or.inr hMem)⟩

/- `SREM` drops its own member only. -/
theorem HasMember.srem
    (h : r.HasMember key member)
    (hNe : member ≠ other)
    (hRem : r.srem now key other = some r') :
    r'.HasMember key member := by
  rcases h with ⟨members, hMembers, hMem⟩
  have hLive :=
    live_of_lasting now (lastingSet_eq_some.mp hMembers)
  have hKept : member ∈ members.erase other :=
    AList.mem_erase.mpr ⟨hNe, hMem⟩
  have hNotLast : Table.len (members.erase other) ≠ 0 := by
    intro hLen
    rcases Table.exists_lookup_of_mem hKept with
      ⟨_, hLookup⟩
    have hEntry := AList.mem_lookup_iff.mp hLookup
    rw [List.length_eq_zero_iff.mp hLen] at hEntry
    cases hEntry
  simp only [Redis.srem, hLive, hNotLast, if_false,
    Option.some.injEq] at hRem
  subst hRem
  exact
    ⟨members.erase other,
      lastingSet_eq_some.mpr (AList.lookup_insert r), hKept⟩

/- `HGETALL` finds the fields. -/
theorem HasFields.hgetall
    (h : r.HasFields key fields)
    (now : Int) :
    ∃ hash,
      r.hgetall now key = some hash ∧
        ∀ f ∈ fields, hash.lookup f.1 = some f.2 := by
  rcases h with ⟨hash, hHash, hFields⟩
  have hLive :=
    live_of_lasting now (lastingHash_eq_some.mp hHash)
  exact ⟨hash, by simp [Redis.hgetall, hLive], hFields⟩

/- `SMEMBERS` lists the member once. -/
theorem HasMember.smembers
    (h : r.HasMember key member)
    (now : Int) :
    ∃ members,
      r.smembers now key = some members ∧
        members.count member = 1 := by
  rcases h with ⟨members, hMembers, hMem⟩
  have hLive :=
    live_of_lasting now (lastingSet_eq_some.mp hMembers)
  refine ⟨members.keys, by simp [Redis.smembers, hLive], ?_⟩
  exact
    List.count_eq_one_of_mem members.keys_nodup
      (AList.mem_keys.mp hMem)

end Redis

end CacheServer
