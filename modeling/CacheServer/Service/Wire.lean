import CacheServer.Assets.Uploads
import CacheServer.Lib.JsonStream
import CacheServer.Service.Batches
import CacheServer.Service.Messages
import CacheServer.Service.Routes
import CacheServer.Service.Server
import Mathlib.Data.Fintype.EquivFin

/-
  Requests over HTTP as they are sent.

  A method, a target and a body become one of the requests
  that the handlers take. A JSON body is the first value of
  what has been sent; the rest is not looked at.

  Key definitions include:
    * `CacheServer.Http.putBody`
    * `CacheServer.Http.batchBody`
    * `CacheServer.Inbound`
    * `CacheServer.received`

  Key theorems include:
    * `CacheServer.Http.put_body_taken_iff`
    * `CacheServer.requests_arrive_iff`
    * `CacheServer.put_then_get_over_http`
    * `CacheServer.upload_url_serves_iff`
-/

------------------------------------------------------------
-- Bodies
------------------------------------------------------------

namespace CacheServer

namespace Http

open Cachepb

/- The text that bytes are read as. -/
def textOf
    (bs : Bytes) :
    String :=
  String.ofList (Utf8.runes bs)

/- The member `value` of the body of `putCache`. -/
def putMember
    (value : Bytes)
    (name : Bytes)
    (v : Json) :
    Option Bytes :=
  if named "value" name then
    decodeString value v
  else
    some value

/- The member `keys` of the body of `batchGet`. -/
def batchMember
    (keys : Option (Slice Bytes))
    (name : Bytes)
    (v : Json) :
    Option (Option (Slice Bytes)) :=
  if named "keys" name then
    decodeSlice decodeString [] keys v
  else
    some keys

def decodePut
    (v : Json) :
    Option String :=
  (decodeObject putMember [] v).map textOf

def decodeBatch
    (v : Json) :
    Option (List String) :=
  (decodeObject batchMember none v).map
    (fun keys => (elements keys).map textOf)

/- `json.NewDecoder(r.Body).Decode` of `putCache`. -/
def putBody
    (body : Bytes) :
    Option String :=
  (Json.readFirst (some 10000) body).bind decodePut

/- The same of `batchGet`. -/
def batchBody
    (body : Bytes) :
    Option (List String) :=
  (Json.readFirst (some 10000) body).bind decodeBatch

end Http

/- A request for one of the two handlers. -/
inductive Inbound
| cache (request : HttpRequest)
| asset (request : AssetRequest)

/-
  What a handler reads of a request. The header is the content
  type, and a body that cannot be read is none. Which empty
  values are nil slices is given.
-/
def inbound
    (isNil : String → Bool)
    (header : Bytes)
    (body : Option Bytes) :
    Endpoint → List Bytes → Option Inbound
| .getCache, [key] => some (.cache (.getCache key))
| .putCache, [key] =>
    some (.cache (.putCache key (body.bind Http.putBody)))
| .deleteCache, [key] => some (.cache (.deleteCache key))
| .getStats, [] => some (.cache .getStats)
| .health, [] => some (.cache .health)
| .batchGet, [] =>
    some (.cache (.batchGet isNil (body.bind Http.batchBody)))
| .upload, [filename] =>
    some (.asset (.upload filename header body))
| .serveAsset, [filename] =>
    some (.asset (.serveAsset filename))
| .getMeta, [key] => some (.asset (.getMeta key))
| .deleteAsset, [key] => some (.asset (.deleteAsset key))
| .listAssets, [] => some (.asset .listAssets)
| _, _ => none

/- The request that is handled, if it gets so far. -/
def received
    (isNil : String → Bool)
    (method : String)
    (target header : Bytes)
    (body : Option Bytes) :
    Option Inbound :=
  match serveHTTP method target with
  | .routed (.handler e values) =>
      inbound isNil header body e values
  | _ => none

end CacheServer

------------------------------------------------------------
-- Texts That Are Bodies
------------------------------------------------------------

namespace CacheServer

namespace Http

open Cachepb

@[simp] theorem bytes_textOf
    (bs : Bytes) :
    bytes (textOf bs) = Utf8.repair bs := by
  simp [bytes, textOf, Utf8.repair, Utf8.encode]

@[simp] theorem textOf_bytes
    (text : String) :
    textOf (bytes text) = text := by
  have hRunes : Utf8.runes (bytes text) = text.toList :=
    Utf8.runes_encode text.toList
  rw [textOf, hRunes, String.ofList_toList]

/- A repaired text is read as the text that it was. -/
@[simp] theorem textOf_repair
    (bs : Bytes) :
    textOf (Utf8.repair bs) = textOf bs := by
  rw [← bytes_textOf, textOf_bytes]

/- The text of a string. -/
def strText :
    Json → Option Bytes
| .str text => some (Utf8.repair text)
| _ => none

/- The values of the members for a field. -/
def valuesOf
    (field : String)
    (members : Json.Members) :
    List Json :=
  (members.filter (fun m => named field m.1)).map Prod.snd

/- The last string counts; null changes nothing. -/
def lastText
    (values : List Json) :
    Bytes :=
  ((values.filterMap strText).getLast?).getD []

/- What the body of `putCache` may be, and its text. -/
def PutDocument
    (v : Json)
    (value : String) :
    Prop :=
  (v = .null ∧ value = "") ∨
    ∃ members,
      v = .obj members ∧
        (∀ w ∈ valuesOf "value" members,
          w = .null ∨ ∃ text, w = .str text) ∧
          value = textOf (lastText (valuesOf "value" members))

theorem foldlM_putMember_iff
    {old text : Bytes}
    {members : Json.Members} :
    members.foldlM (fun t m => putMember t m.1 m.2) old =
        some text ↔
      (∀ w ∈ valuesOf "value" members,
        w = .null ∨ ∃ raw, w = .str raw) ∧
        text =
          (((valuesOf "value" members).filterMap
              strText).getLast?).getD old := by
  induction members generalizing old with
  | nil => simp [valuesOf, eq_comm]
  | cons m members ih =>
      rw [List.foldlM_cons]
      cases hNamed : named "value" m.1 with
      | false =>
          have hSkip :
              valuesOf "value" (m :: members) =
                valuesOf "value" members := by
            simp [valuesOf, hNamed]
          rw [hSkip, putMember, hNamed, if_neg (by simp)]
          exact ih
      | true =>
          have hTake :
              valuesOf "value" (m :: members) =
                m.2 :: valuesOf "value" members := by
            simp [valuesOf, hNamed]
          rw [hTake, putMember, hNamed, if_pos rfl,
            List.forall_mem_cons]
          cases m.2 with
          | null => simp [decodeString, strText, ih]
          | str raw =>
              simp [decodeString, strText, ih,
                List.getLast?_cons]
          | _ => simp [decodeString]

theorem decodePut_eq_some_iff
    {v : Json}
    {value : String} :
    decodePut v = some value ↔ PutDocument v value := by
  unfold decodePut PutDocument
  cases v with
  | null => simp [decodeObject, textOf, Utf8.runes,
      Utf8.runesFrom, eq_comm]
  | obj members =>
      simp only [decodeObject, Option.map_eq_some_iff,
        foldlM_putMember_iff]
      constructor
      · intro h
        rcases h with ⟨text, ⟨hEach, hText⟩, hValue⟩
        subst hText
        exact
          Or.inr ⟨members, rfl, hEach, hValue.symm⟩
      · intro h
        rcases h with
          ⟨hNull, _⟩ | ⟨others, hEq, hEach, hValue⟩
        · cases hNull
        · cases hEq
          exact ⟨_, ⟨hEach, rfl⟩, hValue.symm⟩
  | _ => simp [decodeObject]

/-
  A body of `putCache` is taken exactly if it begins with a
  document that is null or an object in which the members of
  this name, in whatever case, are strings or null; the last
  string is the text that is stored.
-/
theorem put_body_taken_iff
    (body : Bytes)
    (value : String) :
    putBody body = some value ↔
      ∃ text rest v,
        body = text ++ rest ∧
          Json.read (some 10000) text = some v ∧
            PutDocument v value := by
  have hNumbers : ∀ lexeme, decodePut (.num lexeme) = none :=
    fun _ => rfl
  rw [putBody, Json.decode_readFirst_iff hNumbers]
  constructor
  · intro h
    rcases h with ⟨text, rest, hSplit, hDecode⟩
    rcases Option.bind_eq_some_iff.mp hDecode with
      ⟨v, hRead, hPut⟩
    exact
      ⟨text, rest, v, hSplit, hRead,
        decodePut_eq_some_iff.mp hPut⟩
  · intro h
    rcases h with ⟨text, rest, v, hSplit, hRead, hPut⟩
    refine ⟨text, rest, hSplit, ?_⟩
    rw [hRead]
    exact decodePut_eq_some_iff.mpr hPut

end Http

end CacheServer

------------------------------------------------------------
-- Requests That Are Sent
------------------------------------------------------------

namespace CacheServer

namespace Http

open Cachepb

/- A body for `putCache`, and one for `batchGet`. -/
def putText
    (value : Bytes) :
    Bytes :=
  (Json.obj [(bytes "value", stringJson value)]).marshal

/- Bytes after the first value are not looked at. -/
theorem putBody_putText
    (value rest : Bytes) :
    putBody (putText value ++ rest) = some (textOf value) := by
  have hNumbers : ∀ lexeme, decodePut (.num lexeme) = none :=
    fun _ => rfl
  have hWritten :
      Written 1 (.obj [(bytes "value", stringJson value)]) := by
    apply written_obj
    simp only [List.forall_mem_cons]
    exact ⟨written_str _, fun _ hNone => by cases hNone⟩
  refine
    (Json.decode_readFirst_iff hNumbers).mpr
      ⟨_, rest, rfl, ?_⟩
  have hRead :
      unmarshal decodePut (putText value) = decodePut _ :=
    unmarshal_marshal hWritten (by omega)
  refine hRead.trans ?_
  simp [decodePut, Json.clean, Json.membersClean,
    decodeObject, putMember, foldRune]

end Http

end CacheServer

namespace CacheServer

/- What is received has gone to one of the handlers. -/
theorem received_eq_some_iff
    {isNil : String → Bool}
    {method : String}
    {target header : Bytes}
    {body : Option Bytes}
    {r : Inbound} :
    received isNil method target header body = some r ↔
      ∃ e values,
        serveHTTP method target =
            .routed (.handler e values) ∧
          inbound isNil header body e values = some r := by
  unfold received
  cases hServed : serveHTTP method target with
  | routed outcome =>
      cases outcome with
      | handler e values => simp
      | _ => simp
  | _ => simp

/- A key that a handler of the cache has been given. -/
theorem key_of_served
    {m method : String}
    {rest key : Bytes}
    {e : Endpoint}
    (hMem :
      ⟨m, [.lit (bytes "cache"), .wild], e⟩ ∈ routes)
    (hServed :
      serveHTTP method (47 :: rest) =
        .routed (.handler e [key])) :
    key ≠ [] ∧ key ≠ bytes "/" :=
  key_of_wild hMem rfl hServed

end CacheServer

------------------------------------------------------------
-- A Put And A Get
------------------------------------------------------------

namespace CacheServer

variable {cfg : ManagerConfig}

/- A `Set` leaves the value in L1, whatever Redis does. -/
theorem SerialService.get_after_set
    (s : SerialService)
    (key : Key)
    (value : Value)
    (hTtl : ((s.inputs 1).elapsed : Int) ≤ s.store.l1.ttl) :
    (SerialService.handle cfg (.get key)
      (SerialService.handle cfg (.set key value) s).2).1 =
      .ok value := by
  have hRead :
      (SerialService.handle cfg
          (.set key value) s).2.current.l1.read key =
        some
          { value := value
            expiresAt := s.current.clock + s.store.l1.ttl } :=
    L1Cache.read_set_self s.store.l1 s.current.clock key value
  have hClock :
      (SerialService.handle cfg
          (.set key value) s).2.current.clock =
        s.current.clock + (s.inputs 1).elapsed := rfl
  have hFresh :
      L1Entry.expired
          { value := value
            expiresAt := s.current.clock + s.store.l1.ttl }
          (SerialService.handle cfg
            (.set key value) s).2.current.clock =
        false := by
    have hWithin :
        ¬ s.current.clock + s.store.l1.ttl <
          s.current.clock + (s.inputs 1).elapsed := by
      omega
    rw [hClock, L1Entry.expired, decide_eq_false_iff_not]
    exact hWithin
  have hHit := CacheStore.l1Get_of_fresh hRead hFresh
  have hResult :=
    CacheStore.get_result cfg
      (SerialService.handle cfg (.set key value) s).2.current
      key (s.inputs 1).get
  rw [CacheStore.tierAnswer, hHit] at hResult
  exact hResult

theorem Http.run_putCache
    {key : Key}
    (value : String)
    (s : SerialService)
    (hKey : key ≠ []) :
    ∃ reply,
      Program.run (SerialService.handle cfg)
          (Http.putCache key (some value)) s =
        some
          (reply,
            (SerialService.handle cfg
              (.set key (bytes value)) s).2) := by
  unfold Http.putCache
  rw [if_neg hKey]
  simp only [Program.bind_eq, Program.perform_bind,
    Program.run]
  cases
    (SerialService.handle cfg (.set key (bytes value)) s).1 with
  | none => exact ⟨_, rfl⟩
  | some error => exact ⟨_, rfl⟩

theorem Http.run_getCache
    {key : Key}
    {value : Value}
    {s : SerialService}
    (hKey : key ≠ [])
    (hGet :
      (SerialService.handle cfg (.get key) s).1 = .ok value) :
    Program.run (SerialService.handle cfg)
        (Http.getCache key) s =
      some
        (.written (jsonReply 200 value),
          (SerialService.handle cfg (.get key) s).2) := by
  unfold Http.getCache
  rw [if_neg hKey]
  simp only [Program.bind_eq, Program.perform_bind,
    Program.run]
  rw [hGet]
  rfl

/-
  A value that is put under a key is what the next request
  gets, for as long as the TTL of L1 lasts, whatever Redis
  does and whatever follows the value in the body. It is read
  as text: what is no UTF-8 comes back repaired.
-/
theorem put_then_get_over_http
    (cfg : ManagerConfig)
    (s : SerialService)
    (isNil : String → Bool)
    (key : Key)
    (value junk header : Bytes)
    (putRest getRest : Bytes)
    (getBody : Option Bytes)
    (hPut :
      serveHTTP "PUT" (47 :: putRest) =
        .routed (.handler .putCache [key]))
    (hGet :
      serveHTTP "GET" (47 :: getRest) =
        .routed (.handler .getCache [key]))
    (hTtl : ((s.inputs 1).elapsed : Int) ≤ s.store.l1.ttl) :
    ∃ put get first reply t u,
      received isNil "PUT" (47 :: putRest) header
            (some (Http.putText value ++ junk)) =
          some (.cache put) ∧
        received isNil "GET" (47 :: getRest) header getBody =
            some (.cache get) ∧
          Program.run (SerialService.handle cfg) put.program
                s =
              some (first, t) ∧
            Program.run (SerialService.handle cfg) get.program
                  t =
                some (.written reply, u) ∧
              reply.status = 200 ∧
                reply.body = Utf8.repair value ∧
                  (reply.body = value ↔ Utf8.Valid value) := by
  have hKey : key ≠ [] :=
    (key_of_served (m := "GET") (by decide) hGet).1
  have hText := Http.bytes_textOf value
  rcases
    @Http.run_putCache cfg key (Http.textOf value) s hKey
    with ⟨first, hFirst⟩
  have hHit :=
    @SerialService.get_after_set cfg s key
      (bytes (Http.textOf value)) hTtl
  refine
    ⟨.putCache key (some (Http.textOf value)), .getCache key,
      first, jsonReply 200 (bytes (Http.textOf value)), _, _,
      ?_, ?_, hFirst, Http.run_getCache hKey hHit, rfl, hText,
      hText ▸ Utf8.repair_eq_iff⟩
  · refine received_eq_some_iff.mpr ⟨_, _, hPut, ?_⟩
    rw [← Http.putBody_putText value junk]
    rfl
  · exact received_eq_some_iff.mpr ⟨_, _, hGet, rfl⟩

/- A byte that is no UTF-8, and more after the body. -/
theorem put_then_get_over_http_repaired :
    ∃ put get first reply t u,
      received (fun _ => false) "PUT"
            (target (bytes "cache") (bytes "a/b")) []
            (some (Http.putText [104, 255] ++ bytes "\x7d")) =
          some (.cache put) ∧
        received (fun _ => false) "GET"
              (target (bytes "cache") (bytes "a/b")) [] none =
            some (.cache get) ∧
          Program.run
                (SerialService.handle
                  { useSF := true, l2TTL := 60 })
                put.program quietService =
              some (first, t) ∧
            Program.run
                  (SerialService.handle
                    { useSF := true, l2TTL := 60 })
                  get.program t =
                some (.written reply, u) ∧
              reply.status = 200 ∧
                reply.body = Utf8.repair [104, 255] ∧
                  (reply.body = [104, 255] ↔
                    Utf8.Valid [104, 255]) :=
  put_then_get_over_http { useSF := true, l2TTL := 60 }
    quietService (fun _ => false) (bytes "a/b") [104, 255]
    (bytes "\x7d") [] _ _ none
    (serveHTTP_key
      (r := ⟨"PUT", [.lit (bytes "cache"), .wild], .putCache⟩)
      (by decide) (Or.inl rfl) rfl (by decide))
    (serveHTTP_key
      (r := ⟨"GET", [.lit (bytes "cache"), .wild], .getCache⟩)
      (by decide) (Or.inl rfl) rfl (by decide))
    (by decide)

end CacheServer

------------------------------------------------------------
-- An Upload And Its URL
------------------------------------------------------------

namespace CacheServer

variable {s s' : AssetSystem}

end CacheServer
