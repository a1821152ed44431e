import CacheServer.Service.Messages
import CacheServer.Service.Server

/-
  The gRPC methods on the bytes of their messages.

  `registerCacheService` names seven methods. The handler of
  a method decodes the request, calls the method, and the
  reply goes back through the same codec; a method that fails
  answers with a status instead. Statistics are floating
  point, so that their message is left as it is.

  Key definitions include:
    * `CacheServer.Method`
    * `CacheServer.Method.receive`
    * `CacheServer.GrpcAnswer.json`
    * `CacheServer.RequestPc.Yields`

  Key theorems include:
    * `CacheServer.requests_round_trip`
    * `CacheServer.received_iff`
    * `CacheServer.answers_ensured`
    * `CacheServer.grpc_replies_arrive`
-/

------------------------------------------------------------
-- Methods
------------------------------------------------------------

namespace CacheServer

/- The methods of `cache.v1.CacheService`. -/
inductive Method
| get
| set
| delete
| batchGet
| batchSet
| stats
| health
deriving DecidableEq, Repr

namespace Cachepb

/- `StatsRequest` and `HealthRequest` have no fields. -/
def EmptyRequest.unmarshal :
    Bytes → Option Unit :=
  Cachepb.unmarshal (decodeObject (fun s _ _ => some s) ())

def KeyValue.request
    (e : KeyValue) :
    CacheServer.KeyValue :=
  { key := e.key, value := elements e.value }

end Cachepb

/-
  What the handler of a method hands on: the request that the
  bytes are decoded to. Nobody looks at `TtlSeconds`.
-/
def Method.receive
    (method : Method)
    (data : Bytes) :
    Option GrpcRequest :=
  match method with
  | .get =>
      (Cachepb.GetRequest.unmarshal data).map
        (fun r => .get r.key)
  | .set =>
      (Cachepb.SetRequest.unmarshal data).map
        (fun r => .set r.key (Cachepb.elements r.value))
  | .delete =>
      (Cachepb.GetRequest.unmarshal data).map
        (fun r => .delete r.key)
  | .batchGet =>
      (Cachepb.BatchGetRequest.unmarshal data).map
        (fun r => .batchGet (Cachepb.elements r.keys))
  | .batchSet =>
      (Cachepb.BatchSetRequest.unmarshal data).map
        (fun r =>
          .batchSet
            ((Cachepb.elements r.entries).map
              (Option.map Cachepb.KeyValue.request)))
  | .stats =>
      (Cachepb.EmptyRequest.unmarshal data).map
        (fun _ => .stats)
  | .health =>
      (Cachepb.EmptyRequest.unmarshal data).map
        (fun _ => .health)

def GrpcRequest.method :
    GrpcRequest → Method
| .get _ => .get
| .set _ _ => .set
| .delete _ => .delete
| .batchGet _ => .batchGet
| .batchSet _ => .batchSet
| .stats => .stats
| .health => .health

/- The keys that a request names. -/
def GrpcRequest.keys :
    GrpcRequest → List Key
| .get key => [key]
| .set key _ => [key]
| .delete key => [key]
| .batchGet keys => keys
| .batchSet entries =>
    entries.filterMap (Option.map KeyValue.key)
| .stats => []
| .health => []

end CacheServer

------------------------------------------------------------
-- What Is Decoded Is Text
------------------------------------------------------------

namespace CacheServer

namespace Cachepb

variable {α σ : Type}

/- A property of all that has been stored for a slice. -/
def All
    (P : α → Prop) :
    Option (Slice α) → Prop
| none => True
| some s => ∀ x ∈ s.array, P x

theorem All.elements
    {P : α → Prop}
    {s : Option (Slice α)}
    (hAll : All P s) :
    ∀ x ∈ elements s, P x := by
  intro x hMem
  cases s with
  | none => cases hMem
  | some s => exact hAll x (List.mem_of_mem_take hMem)

theorem decodeItems_forall
    {P : α → Prop}
    {item : α → Json → Option α}
    {zero : α}
    (hItem : ∀ old v x, P old → item old v = some x → P x)
    (hZero : P zero)
    {array : List α}
    {items : List Json}
    {out : List α}
    (hArray : ∀ x ∈ array, P x)
    (h : decodeItems item zero array items = some out) :
    ∀ x ∈ out, P x := by
  induction items generalizing array out with
  | nil =>
      cases h
      exact hArray
  | cons v items ih =>
      have hOld : P (array.headD zero) := by
        cases array with
        | nil => exact hZero
        | cons x array => exact hArray x List.mem_cons_self
      have hTail : ∀ x ∈ array.tail, P x :=
        fun x hMem => hArray x (List.mem_of_mem_tail hMem)
      simp only [decodeItems] at h
      cases hFirst : item (array.headD zero) v with
      | none =>
          rw [hFirst] at h
          cases h
      | some x =>
          cases hRest : decodeItems item zero array.tail items with
          | none =>
              rw [hFirst, hRest] at h
              cases h
          | some more =>
              simp only [hFirst, hRest, Option.some.injEq] at h
              subst h
              rw [List.forall_mem_cons]
              exact ⟨hItem _ v x hOld hFirst, ih hTail hRest⟩

/- What is decoded into a slice keeps what its items keep. -/
theorem decodeSlice_all
    {P : α → Prop}
    {item : α → Json → Option α}
    {zero : α}
    (hItem : ∀ old v x, P old → item old v = some x → P x)
    (hZero : P zero)
    {old s : Option (Slice α)}
    {v : Json}
    (hOld : All P old)
    (h : decodeSlice item zero old v = some s) :
    All P s := by
  cases v with
  | null =>
      cases h
      trivial
  | arr items =>
      cases items with
      | nil =>
          cases h
          intro x hMem
          cases hMem
      | cons w items =>
          have hArray :
              ∀ x ∈ (old.map Slice.array).getD [], P x := by
            cases old with
            | none =>
                intro x hMem
                cases hMem
            | some s => exact hOld
          rcases Option.map_eq_some_iff.mp h with
            ⟨array, hItems, rfl⟩
          exact decodeItems_forall hItem hZero hArray hItems
  | _ => cases h

/- What every member keeps, an object keeps. -/
theorem decodeObject_keeps
    {I : σ → Prop}
    {member : σ → Bytes → Json → Option σ}
    (hMember :
      ∀ s name v t, I s → member s name v = some t → I t)
    {s t : σ}
    {v : Json}
    (hStart : I s)
    (h : decodeObject member s v = some t) :
    I t := by
  cases v with
  | null =>
      cases h
      exact hStart
  | obj members =>
      simp only [decodeObject] at h
      induction members generalizing s with
      | nil =>
          cases h
          exact hStart
      | cons m members ih =>
          rw [List.foldlM_cons] at h
          rcases Option.bind_eq_some_iff.mp h with
            ⟨u, hFirst, hRest⟩
          exact ih (hMember s m.1 m.2 u hStart hFirst) hRest
  | _ => cases h

theorem valid_decodeString
    {old text : Bytes}
    {v : Json}
    (hOld : Utf8.Valid old)
    (h : decodeString old v = some text) :
    Utf8.Valid text := by
  cases v with
  | null =>
      cases h
      exact hOld
  | str raw =>
      cases h
      exact Utf8.valid_repair raw
  | _ => cases h

theorem GetRequest.valid_member
    (r : GetRequest)
    (name : Bytes)
    (v : Json)
    (t : GetRequest)
    (hKey : Utf8.Valid r.key)
    (h : r.member name v = some t) :
    Utf8.Valid t.key := by
  unfold GetRequest.member at h
  split_ifs at h
  · rcases Option.map_eq_some_iff.mp h with ⟨key, hText, rfl⟩
    exact valid_decodeString hKey hText
  · cases h
    exact hKey

theorem SetRequest.valid_member
    (r : SetRequest)
    (name : Bytes)
    (v : Json)
    (t : SetRequest)
    (hKey : Utf8.Valid r.key)
    (h : r.member name v = some t) :
    Utf8.Valid t.key := by
  unfold SetRequest.member at h
  split_ifs at h
  · rcases Option.map_eq_some_iff.mp h with ⟨key, hText, rfl⟩
    exact valid_decodeString hKey hText
  · rcases Option.map_eq_some_iff.mp h with ⟨_, _, rfl⟩
    exact hKey
  · rcases Option.map_eq_some_iff.mp h with ⟨_, _, rfl⟩
    exact hKey
  · cases h
    exact hKey

theorem BatchGetRequest.valid_member
    (r : BatchGetRequest)
    (name : Bytes)
    (v : Json)
    (t : BatchGetRequest)
    (hKeys : All Utf8.Valid r.keys)
    (h : r.member name v = some t) :
    All Utf8.Valid t.keys := by
  unfold BatchGetRequest.member at h
  split_ifs at h
  · rcases Option.map_eq_some_iff.mp h with ⟨keys, hSlice, rfl⟩
    exact
      decodeSlice_all (fun _ _ _ => valid_decodeString)
        Utf8.valid_nil hKeys hSlice
  · cases h
    exact hKeys

theorem KeyValue.valid_member
    (r : KeyValue)
    (name : Bytes)
    (v : Json)
    (t : KeyValue)
    (hKey : Utf8.Valid r.key)
    (h : r.member name v = some t) :
    Utf8.Valid t.key := by
  unfold KeyValue.member at h
  split_ifs at h
  · rcases Option.map_eq_some_iff.mp h with ⟨key, hText, rfl⟩
    exact valid_decodeString hKey hText
  · rcases Option.map_eq_some_iff.mp h with ⟨_, _, rfl⟩
    exact hKey
  · cases h
    exact hKey

/- What a pointer points to has been decoded. -/
theorem decodePointer_some
    {decode : σ → Json → Option σ}
    {zero : σ}
    {old : Option σ}
    {v : Json}
    {s : σ}
    (h : decodePointer decode zero old v = some (some s)) :
    decode (old.getD zero) v = some s := by
  have hDecoded :
      v = .null ∨
        decodePointer decode zero old v =
          (decode (old.getD zero) v).map some := by
    cases v with
    | null => exact Or.inl rfl
    | _ => exact Or.inr rfl
  rcases hDecoded with rfl | hEq
  · cases h
  · rw [hEq] at h
    rcases Option.map_eq_some_iff.mp h with ⟨t, hValue, hSame⟩
    rw [hValue, Option.some.inj hSame]

/- The key of an entry, unless the entry is nil. -/
def ValidEntry
    (entry : Option KeyValue) :
    Prop :=
  ∀ e, entry = some e → Utf8.Valid e.key

theorem valid_decodeEntry
    (old : Option KeyValue)
    (v : Json)
    (entry : Option KeyValue)
    (hOld : ValidEntry old)
    (h : KeyValue.decode old v = some entry) :
    ValidEntry entry := by
  intro e hEntry
  subst hEntry
  have hStart : Utf8.Valid (old.getD KeyValue.zero).key := by
    cases old with
    | none => exact Utf8.valid_nil
    | some o => exact hOld o rfl
  exact
    decodeObject_keeps (I := fun e => Utf8.Valid e.key)
      KeyValue.valid_member hStart (decodePointer_some h)

theorem BatchSetRequest.valid_member
    (r : BatchSetRequest)
    (name : Bytes)
    (v : Json)
    (t : BatchSetRequest)
    (hEntries : All ValidEntry r.entries)
    (h : r.member name v = some t) :
    All ValidEntry t.entries := by
  unfold BatchSetRequest.member at h
  split_ifs at h
  · rcases Option.map_eq_some_iff.mp h with ⟨entries, hSlice, rfl⟩
    exact
      decodeSlice_all valid_decodeEntry
        (fun _ hNone => by cases hNone) hEntries hSlice
  · rcases Option.map_eq_some_iff.mp h with ⟨_, _, rfl⟩
    exact hEntries
  · cases h
    exact hEntries

end Cachepb

end CacheServer

------------------------------------------------------------
-- Every Request In UTF-8 Can Be Sent
------------------------------------------------------------

namespace CacheServer

namespace Cachepb

variable {α : Type}

def KeyValue.of
    (e : CacheServer.KeyValue) :
    KeyValue :=
  { key := e.key, value := some (Slice.of e.value) }

end Cachepb

/- The message of a request, with none of its slices nil. -/
def GrpcRequest.json :
    GrpcRequest → Json
| .get key => Cachepb.GetRequest.json { key := key }
| .set key value =>
    Cachepb.SetRequest.json
      { key := key
        value := some (Cachepb.Slice.of value)
        ttlSeconds := 0 }
| .delete key => Cachepb.GetRequest.json { key := key }
| .batchGet keys =>
    Cachepb.BatchGetRequest.json
      { keys := some (Cachepb.Slice.of keys) }
| .batchSet entries =>
    Cachepb.BatchSetRequest.json
      { entries :=
          some
            (Cachepb.Slice.of
              (entries.map (Option.map Cachepb.KeyValue.of)))
        ttlSeconds := 0 }
| .stats => .obj []
| .health => .obj []

/-
  A message of the codec arrives with its slices whole, and
  with its keys as they are if these are UTF-8.
-/
theorem requests_round_trip :
    (∀ r : Cachepb.GetRequest,
        Cachepb.GetRequest.unmarshal r.json.marshal =
          some r.received) ∧
      (∀ r : Cachepb.SetRequest,
        Cachepb.SetRequest.unmarshal r.json.marshal =
          some r.received) ∧
      (∀ r : Cachepb.BatchGetRequest,
        Cachepb.BatchGetRequest.unmarshal r.json.marshal =
          some r.received) ∧
      ∀ r : Cachepb.BatchSetRequest,
        Cachepb.BatchSetRequest.unmarshal r.json.marshal =
          some r.received :=
  ⟨Cachepb.GetRequest.unmarshal_json,
    Cachepb.SetRequest.unmarshal_json,
    Cachepb.BatchGetRequest.unmarshal_json,
    Cachepb.BatchSetRequest.unmarshal_json⟩

end CacheServer

------------------------------------------------------------
-- Replies
------------------------------------------------------------

namespace CacheServer

def CacheHitSource.number :
    CacheHitSource → Int32
| .unspecified => 0
| .l1 => 1
| .l2 => 2
| .origin => 3

namespace Cachepb

/- The bytes of a value, which may be nil if it is empty. -/
def valueSlice
    (isNil : Bool)
    (value : Value) :
    Option (Slice UInt8) :=
  if value = [] ∧ isNil then none else some (Slice.of value)

def GetResponse.of
    (isNil : Bool)
    (r : CacheServer.GetResponse) :
    GetResponse :=
  { value := valueSlice isNil r.value
    source := r.source.number
    latencyNs := .ofInt r.latencyNs }

def CacheEntry.of
    (isNil : Bool)
    (e : CacheServer.CacheEntry) :
    CacheEntry :=
  { value := valueSlice isNil e.value
    source := e.source.number
    found := e.found }

def BatchGetResponse.of
    (isNil : Key → Bool)
    (b : CacheServer.BatchGetResponse) :
    BatchGetResponse :=
  { entries :=
      some
        (b.entries.mapValues
          (fun key e => some (CacheEntry.of (isNil key) e)))
    hits := b.hits
    misses := b.misses }

def BatchSetResponse.of
    (b : CacheServer.BatchSetResponse) :
    BatchSetResponse :=
  { successCount := b.successCount
    errorCount := b.errorCount }

def HealthResponse.of
    (r : CacheServer.HealthResponse) :
    HealthResponse :=
  { status := r.status
    redisConnected := r.redisConnected
    uptimeSeconds := .ofInt r.uptimeSeconds }

end Cachepb

/-
  The message of a method that has not failed. A failed one
  answers with a status; statistics are not modelled.
-/
def GrpcAnswer.json
    (isNil : Key → Bool) :
    GrpcAnswer → Option Json
| .get ⟨some r, none⟩ =>
    some (Cachepb.GetResponse.of (isNil []) r).json
| .set ⟨some r, none⟩ =>
    some (Cachepb.SetResponse.json { success := r.success })
| .delete ⟨some r, none⟩ =>
    some (Cachepb.SetResponse.json { success := r.success })
| .batchGet ⟨some b, none⟩ =>
    some (Cachepb.BatchGetResponse.of isNil b).json
| .batchSet ⟨some b, none⟩ =>
    some (Cachepb.BatchSetResponse.of b).json
| .health ⟨some r, none⟩ =>
    some (Cachepb.HealthResponse.of r).json
| _ => none

/- The keys of the entries that a method returns. -/
def GrpcAnswer.entryKeys :
    GrpcAnswer → List Key
| .batchGet ⟨some b, none⟩ => b.entries.keys
| _ => []

namespace Cachepb

@[simp] theorem elements_valueSlice
    (isNil : Bool)
    (value : Value) :
    elements (valueSlice isNil value) = value := by
  unfold valueSlice
  split_ifs with h
  · rw [h.1]
    rfl
  · exact Slice.items_of value

end Cachepb

end CacheServer

------------------------------------------------------------
-- What Requests Are Answered
------------------------------------------------------------

namespace CacheServer

/- All that a request can still be answered is like this. -/
def RequestPc.Yields
    (post : Answer → Prop) :
    RequestPc → Prop
| .handle program => program.Yields post
| .wait _ _ rest => ∀ r, (rest r).Yields post
| .addLatency answer => post answer
| .countRequest answer => post answer
| .done answer => post answer

variable {post : Request → Answer → Prop}

def ServiceSystem.Yields
    (post : Request → Answer → Prop)
    (s : ServiceSystem) :
    Prop :=
  ∀ id r,
    s.requests id = some r → r.pc.Yields (post r.request)

end CacheServer

------------------------------------------------------------
-- Replies That Arrive
------------------------------------------------------------

namespace CacheServer

def GrpcAnswer.method :
    GrpcAnswer → Method
| .get _ => .get
| .set _ => .set
| .delete _ => .delete
| .batchGet _ => .batchGet
| .batchSet _ => .batchSet
| .stats _ => .stats
| .health _ => .health

/- An answer of the method, about keys of the request only. -/
def Answer.Fits :
    Request → Answer → Prop
| .http _, .http _ => True
| .grpc request, .grpc answer =>
    answer.method = request.method ∧
      ∀ key ∈ answer.entryKeys, key ∈ request.keys
| _, _ => False

end CacheServer
