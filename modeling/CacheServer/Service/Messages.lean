import CacheServer.Assets.JsonBodies
import CacheServer.Lib.Base64
import CacheServer.Lib.Decimal
import CacheServer.Lib.JsonMarshal

/-
  The messages of `api/cachepb/cache.go`, and the codec of
  `internal/grpcserver/server.go`.

  The codec is `encoding/json`, which goes by the types of
  the fields: bytes are a string in base64 or an array of
  numbers, null leaves a string or a number as it is and sets
  anything else to nil, and a name may be written in capital
  letters. A value is decoded into what is there already, so
  that a member that comes twice is decoded twice. None
  stands for an error of the codec.

  Key definitions include:
    * `CacheServer.Cachepb.Slice`
    * `CacheServer.Cachepb.decodeObject`
    * `CacheServer.Cachepb.SetRequest.json`
    * `CacheServer.Cachepb.SetRequest.unmarshal`
    * `CacheServer.Cachepb.BatchGetResponse.json`

  Key theorems include:
    * `CacheServer.Cachepb.decodeSlice_clean`
    * `CacheServer.Cachepb.decodeMap_clean`
    * `CacheServer.Cachepb.unmarshal_marshal`
    * `CacheServer.Cachepb.BatchSetRequest.unmarshal_json`
-/

------------------------------------------------------------
-- Slices And Names
------------------------------------------------------------

namespace CacheServer

namespace Cachepb

/-
  A slice and the array behind it, as far as it has been
  written. Elements after the length are out of use.
-/
structure Slice (α : Type) where
  array : List α
  len : Nat
deriving DecidableEq, Repr

variable {α σ : Type}

def Slice.items
    (s : Slice α) :
    List α :=
  s.array.take s.len

def Slice.of
    (items : List α) :
    Slice α :=
  { array := items, len := items.length }

@[simp] theorem Slice.items_of
    (items : List α) :
    (Slice.of items).items = items := by
  simp [Slice.items, Slice.of]

/- The elements of a slice that may be nil. -/
def elements :
    Option (Slice α) → List α
| none => []
| some s => s.items

@[simp] theorem elements_of
    (items : List α) :
    elements (some (Slice.of items)) = items :=
  Slice.items_of items

/- Letters that only differ in case; two are not ASCII. -/
def foldRune
    (c : Char) :
    Char :=
  if c = '\u017F' then 's'
  else if c = '\u212A' then 'k'
  else c.toLower

/- Whether a member is for the field of this name. -/
def named
    (field : String)
    (name : Bytes) :
    Bool :=
  (Utf8.runes name).map foldRune = field.toList

end Cachepb

end CacheServer

------------------------------------------------------------
-- Fields
------------------------------------------------------------

namespace CacheServer

namespace Cachepb

variable {α σ : Type}

def decodeString
    (old : Bytes) :
    Json → Option Bytes
| .null => some old
| .str text => some (Utf8.repair text)
| _ => none

def decodeBool
    (old : Bool) :
    Json → Option Bool
| .null => some old
| .bool b => some b
| _ => none

def decodeInt64
    (old : Int64) :
    Json → Option Int64
| .null => some old
| .num lexeme => (Decimal.parse 64 lexeme).map Int64.ofInt
| _ => none

def decodeInt32
    (old : Int32) :
    Json → Option Int32
| .null => some old
| .num lexeme => (Decimal.parse 32 lexeme).map Int32.ofInt
| _ => none

def decodeByte
    (old : UInt8) :
    Json → Option UInt8
| .null => some old
| .num lexeme =>
    match Decimal.unsigned lexeme with
    | some n => if n < 256 then some (.ofNat n) else none
    | none => none
| _ => none

/- Items go where the array has an element, or behind it. -/
def decodeItems
    (item : α → Json → Option α)
    (zero : α) :
    List α → List Json → Option (List α)
| array, [] => some array
| array, v :: rest =>
    match item (array.headD zero) v,
      decodeItems item zero array.tail rest with
    | some x, some more => some (x :: more)
    | _, _ => none

/- The array is used again; an empty slice has a new one. -/
def decodeSlice
    (item : α → Json → Option α)
    (zero : α)
    (old : Option (Slice α)) :
    Json → Option (Option (Slice α))
| .null => some none
| .arr [] => some (some (Slice.of []))
| .arr items =>
    (decodeItems item zero ((old.map Slice.array).getD [])
        items).map
      (fun array =>
        some { array := array, len := items.length })
| _ => none

def decodeBytes
    (old : Option (Slice UInt8)) :
    Json → Option (Option (Slice UInt8))
| .str text =>
    (Base64.decode (Utf8.repair text)).map
      (fun bs => some (Slice.of bs))
| v => decodeSlice decodeByte 0 old v

/- A pointer that is not nil is decoded into. -/
def decodePointer
    (decode : σ → Json → Option σ)
    (zero : σ)
    (old : Option σ) :
    Json → Option (Option σ)
| .null => some none
| v => (decode (old.getD zero) v).map some

/- The members of an object, each for its field. -/
def decodeObject
    (member : σ → Bytes → Json → Option σ)
    (s : σ) :
    Json → Option σ
| .null => some s
| .obj members => members.foldlM (fun t m => member t m.1 m.2) s
| _ => none

/- A member of a map starts from nothing. -/
def decodeMap
    (decode : α → Json → Option α)
    (zero : α)
    (old : Option (Table Bytes α)) :
    Json → Option (Option (Table Bytes α))
| .null => some none
| .obj members =>
    (members.foldlM
        (fun table m =>
          (decode zero m.2).map
            (fun x => table.insert (Utf8.repair m.1) x))
        (old.getD ∅)).map some
| _ => none

/- The limit on nesting is that of `encoding/json`. -/
def unmarshal
    (decode : Json → Option σ)
    (data : Bytes) :
    Option σ :=
  (Json.read (some 10000) data).bind decode

def stringJson
    (text : Bytes) :
    Json :=
  .str text

def int64Json
    (n : Int64) :
    Json :=
  .num (decimal n.toInt)

def int32Json
    (n : Int32) :
    Json :=
  .num (decimal n.toInt)

def bytesJson :
    Option (Slice UInt8) → Json
| none => .null
| some s => .str (Base64.encode s.items)

def sliceJson
    (item : α → Json) :
    Option (Slice α) → Json
| none => .null
| some s => .arr (s.items.map item)

def pointerJson
    (encode : σ → Json) :
    Option σ → Json
| none => .null
| some s => encode s

/- The order of the bytes of names. -/
def nameLE
    (m m' : Bytes × α) :
    Prop :=
  m.1 ≤ m'.1

instance : DecidableRel (@nameLE α) :=
  fun m m' => inferInstanceAs (Decidable (m.1 ≤ m'.1))

def mapJson
    (encode : α → Json) :
    Option (Table Bytes α) → Json
| none => .null
| some table =>
    .obj
      (((table.entries.map
            (fun e => (e.1, e.2))).insertionSort nameLE).map
        (fun e => (e.1, encode e.2)))

end Cachepb

end CacheServer

------------------------------------------------------------
-- Requests
------------------------------------------------------------

namespace CacheServer

namespace Cachepb

/- `GetRequest`, and `DeleteRequest`, which is the same. -/
structure GetRequest where
  key : Bytes
deriving DecidableEq, Repr

structure SetRequest where
  key : Bytes
  value : Option (Slice UInt8)
  ttlSeconds : Int64
deriving DecidableEq

structure BatchGetRequest where
  keys : Option (Slice Bytes)
deriving DecidableEq, Repr

structure KeyValue where
  key : Bytes
  value : Option (Slice UInt8)
deriving DecidableEq, Repr

structure BatchSetRequest where
  entries : Option (Slice (Option KeyValue))
  ttlSeconds : Int64
deriving DecidableEq

/- A member that is left out if it is zero. -/
def ttlMember
    (ttlSeconds : Int64) :
    Json.Members :=
  if ttlSeconds = 0 then []
  else [(bytes "ttl_seconds", int64Json ttlSeconds)]

def GetRequest.zero : GetRequest :=
  { key := [] }

def GetRequest.json
    (r : GetRequest) :
    Json :=
  .obj [(bytes "key", stringJson r.key)]

def GetRequest.member
    (r : GetRequest)
    (name : Bytes)
    (v : Json) :
    Option GetRequest :=
  if named "key" name then
    (decodeString r.key v).map (fun key => { r with key := key })
  else
    some r

def SetRequest.zero : SetRequest :=
  { key := [], value := none, ttlSeconds := 0 }

def SetRequest.json
    (r : SetRequest) :
    Json :=
  .obj
    ((bytes "key", stringJson r.key) ::
      (bytes "value", bytesJson r.value) ::
        ttlMember r.ttlSeconds)

def SetRequest.member
    (r : SetRequest)
    (name : Bytes)
    (v : Json) :
    Option SetRequest :=
  if named "key" name then
    (decodeString r.key v).map (fun key => { r with key := key })
  else if named "value" name then
    (decodeBytes r.value v).map
      (fun value => { r with value := value })
  else if named "ttl_seconds" name then
    (decodeInt64 r.ttlSeconds v).map
      (fun ttlSeconds => { r with ttlSeconds := ttlSeconds })
  else
    some r

def BatchGetRequest.zero : BatchGetRequest :=
  { keys := none }

def BatchGetRequest.json
    (r : BatchGetRequest) :
    Json :=
  .obj [(bytes "keys", sliceJson stringJson r.keys)]

def BatchGetRequest.member
    (r : BatchGetRequest)
    (name : Bytes)
    (v : Json) :
    Option BatchGetRequest :=
  if named "keys" name then
    (decodeSlice decodeString [] r.keys v).map
      (fun keys => { r with keys := keys })
  else
    some r

def KeyValue.zero : KeyValue :=
  { key := [], value := none }

def KeyValue.json
    (r : KeyValue) :
    Json :=
  .obj
    [(bytes "key", stringJson r.key),
      (bytes "value", bytesJson r.value)]

def KeyValue.member
    (r : KeyValue)
    (name : Bytes)
    (v : Json) :
    Option KeyValue :=
  if named "key" name then
    (decodeString r.key v).map (fun key => { r with key := key })
  else if named "value" name then
    (decodeBytes r.value v).map
      (fun value => { r with value := value })
  else
    some r

def KeyValue.decode :
    Option KeyValue → Json → Option (Option KeyValue) :=
  decodePointer (decodeObject KeyValue.member) KeyValue.zero

def BatchSetRequest.zero : BatchSetRequest :=
  { entries := none, ttlSeconds := 0 }

def BatchSetRequest.json
    (r : BatchSetRequest) :
    Json :=
  .obj
    ((bytes "entries",
        sliceJson (pointerJson KeyValue.json) r.entries) ::
      ttlMember r.ttlSeconds)

def BatchSetRequest.member
    (r : BatchSetRequest)
    (name : Bytes)
    (v : Json) :
    Option BatchSetRequest :=
  if named "entries" name then
    (decodeSlice KeyValue.decode none r.entries v).map
      (fun entries => { r with entries := entries })
  else if named "ttl_seconds" name then
    (decodeInt64 r.ttlSeconds v).map
      (fun ttlSeconds => { r with ttlSeconds := ttlSeconds })
  else
    some r

def GetRequest.unmarshal :
    Bytes → Option GetRequest :=
  Cachepb.unmarshal
    (decodeObject GetRequest.member GetRequest.zero)

def SetRequest.unmarshal :
    Bytes → Option SetRequest :=
  Cachepb.unmarshal
    (decodeObject SetRequest.member SetRequest.zero)

def BatchGetRequest.unmarshal :
    Bytes → Option BatchGetRequest :=
  Cachepb.unmarshal
    (decodeObject BatchGetRequest.member BatchGetRequest.zero)

def BatchSetRequest.unmarshal :
    Bytes → Option BatchSetRequest :=
  Cachepb.unmarshal
    (decodeObject BatchSetRequest.member BatchSetRequest.zero)

end Cachepb

end CacheServer

------------------------------------------------------------
-- Responses
------------------------------------------------------------

namespace CacheServer

namespace Cachepb

/- `CacheHitSource` is a number of 32 bits. -/
structure GetResponse where
  value : Option (Slice UInt8)
  source : Int32
  latencyNs : Int64
deriving DecidableEq

/- `SetResponse`, and `DeleteResponse`, which is the same. -/
structure SetResponse where
  success : Bool
deriving DecidableEq, Repr

abbrev DeleteResponse :=
  SetResponse

structure CacheEntry where
  value : Option (Slice UInt8)
  source : Int32
  found : Bool
deriving DecidableEq

structure BatchGetResponse where
  entries : Option (Table Bytes (Option CacheEntry))
  hits : Int32
  misses : Int32

structure BatchSetResponse where
  successCount : Int32
  errorCount : Int32
deriving DecidableEq

structure HealthResponse where
  status : Bytes
  redisConnected : Bool
  uptimeSeconds : Int64
deriving DecidableEq

def GetResponse.zero : GetResponse :=
  { value := none, source := 0, latencyNs := 0 }

def GetResponse.json
    (r : GetResponse) :
    Json :=
  .obj
    [(bytes "value", bytesJson r.value),
      (bytes "source", int32Json r.source),
      (bytes "latency_ns", int64Json r.latencyNs)]

def GetResponse.member
    (r : GetResponse)
    (name : Bytes)
    (v : Json) :
    Option GetResponse :=
  if named "value" name then
    (decodeBytes r.value v).map
      (fun value => { r with value := value })
  else if named "source" name then
    (decodeInt32 r.source v).map
      (fun source => { r with source := source })
  else if named "latency_ns" name then
    (decodeInt64 r.latencyNs v).map
      (fun latencyNs => { r with latencyNs := latencyNs })
  else
    some r

def SetResponse.zero : SetResponse :=
  { success := false }

def SetResponse.json
    (r : SetResponse) :
    Json :=
  .obj [(bytes "success", .bool r.success)]

def SetResponse.member
    (r : SetResponse)
    (name : Bytes)
    (v : Json) :
    Option SetResponse :=
  if named "success" name then
    (decodeBool r.success v).map
      (fun success => { r with success := success })
  else
    some r

def CacheEntry.zero : CacheEntry :=
  { value := none, source := 0, found := false }

def CacheEntry.json
    (r : CacheEntry) :
    Json :=
  .obj
    [(bytes "value", bytesJson r.value),
      (bytes "source", int32Json r.source),
      (bytes "found", .bool r.found)]

def CacheEntry.member
    (r : CacheEntry)
    (name : Bytes)
    (v : Json) :
    Option CacheEntry :=
  if named "value" name then
    (decodeBytes r.value v).map
      (fun value => { r with value := value })
  else if named "source" name then
    (decodeInt32 r.source v).map
      (fun source => { r with source := source })
  else if named "found" name then
    (decodeBool r.found v).map
      (fun found => { r with found := found })
  else
    some r

def CacheEntry.decode :
    Option CacheEntry → Json → Option (Option CacheEntry) :=
  decodePointer (decodeObject CacheEntry.member) CacheEntry.zero

def BatchGetResponse.zero : BatchGetResponse :=
  { entries := none, hits := 0, misses := 0 }

def BatchGetResponse.json
    (r : BatchGetResponse) :
    Json :=
  .obj
    [(bytes "entries",
        mapJson (pointerJson CacheEntry.json) r.entries),
      (bytes "hits", int32Json r.hits),
      (bytes "misses", int32Json r.misses)]

def BatchGetResponse.member
    (r : BatchGetResponse)
    (name : Bytes)
    (v : Json) :
    Option BatchGetResponse :=
  if named "entries" name then
    (decodeMap CacheEntry.decode none r.entries v).map
      (fun entries => { r with entries := entries })
  else if named "hits" name then
    (decodeInt32 r.hits v).map
      (fun hits => { r with hits := hits })
  else if named "misses" name then
    (decodeInt32 r.misses v).map
      (fun misses => { r with misses := misses })
  else
    some r

def BatchSetResponse.zero : BatchSetResponse :=
  { successCount := 0, errorCount := 0 }

def BatchSetResponse.json
    (r : BatchSetResponse) :
    Json :=
  .obj
    [(bytes "success_count", int32Json r.successCount),
      (bytes "error_count", int32Json r.errorCount)]

def BatchSetResponse.member
    (r : BatchSetResponse)
    (name : Bytes)
    (v : Json) :
    Option BatchSetResponse :=
  if named "success_count" name then
    (decodeInt32 r.successCount v).map
      (fun successCount => { r with successCount := successCount })
  else if named "error_count" name then
    (decodeInt32 r.errorCount v).map
      (fun errorCount => { r with errorCount := errorCount })
  else
    some r

def HealthResponse.zero : HealthResponse :=
  { status := [], redisConnected := false, uptimeSeconds := 0 }

def HealthResponse.json
    (r : HealthResponse) :
    Json :=
  .obj
    [(bytes "status", stringJson r.status),
      (bytes "redis_connected", .bool r.redisConnected),
      (bytes "uptime_seconds", int64Json r.uptimeSeconds)]

def HealthResponse.member
    (r : HealthResponse)
    (name : Bytes)
    (v : Json) :
    Option HealthResponse :=
  if named "status" name then
    (decodeString r.status v).map
      (fun status => { r with status := status })
  else if named "redis_connected" name then
    (decodeBool r.redisConnected v).map
      (fun redisConnected =>
        { r with redisConnected := redisConnected })
  else if named "uptime_seconds" name then
    (decodeInt64 r.uptimeSeconds v).map
      (fun uptimeSeconds =>
        { r with uptimeSeconds := uptimeSeconds })
  else
    some r

def GetResponse.unmarshal :
    Bytes → Option GetResponse :=
  Cachepb.unmarshal
    (decodeObject GetResponse.member GetResponse.zero)

def SetResponse.unmarshal :
    Bytes → Option SetResponse :=
  Cachepb.unmarshal
    (decodeObject SetResponse.member SetResponse.zero)

def BatchGetResponse.unmarshal :
    Bytes → Option BatchGetResponse :=
  Cachepb.unmarshal
    (decodeObject BatchGetResponse.member BatchGetResponse.zero)

def BatchSetResponse.unmarshal :
    Bytes → Option BatchSetResponse :=
  Cachepb.unmarshal
    (decodeObject BatchSetResponse.member BatchSetResponse.zero)

def HealthResponse.unmarshal :
    Bytes → Option HealthResponse :=
  Cachepb.unmarshal
    (decodeObject HealthResponse.member HealthResponse.zero)

end Cachepb

end CacheServer

------------------------------------------------------------
-- Fields That Are Read Back
------------------------------------------------------------

namespace CacheServer

namespace Cachepb

open Json

variable {α σ : Type}

theorem valid_bytes
    (text : String) :
    Utf8.Valid (bytes text) :=
  ⟨text.toList, rfl⟩

@[simp] theorem repair_bytes
    (text : String) :
    Utf8.repair (bytes text) = bytes text :=
  Utf8.repair_eq_iff.mpr (valid_bytes text)

@[simp] theorem repair_repair
    (bs : Bytes) :
    Utf8.repair (Utf8.repair bs) = Utf8.repair bs :=
  Utf8.repair_eq_iff.mpr (Utf8.valid_repair bs)

@[simp] theorem named_bytes
    (field name : String) :
    named field (bytes name) =
      decide (name.toList.map foldRune = field.toList) := by
  have hRunes : Utf8.runes (bytes name) = name.toList :=
    Utf8.runes_encode name.toList
  unfold named
  rw [hRunes]

/- A slice with its elements as they arrive. -/
def received
    (repair : α → α) :
    Option (Slice α) → Option (Slice α)
| none => none
| some s => some (Slice.of (s.items.map repair))

@[simp] theorem elements_received
    (repair : α → α)
    (s : Option (Slice α)) :
    elements (received repair s) = (elements s).map repair := by
  cases s with
  | none => rfl
  | some s => exact Slice.items_of _

@[simp] theorem decodeString_clean
    (old text : Bytes) :
    decodeString old (stringJson text).clean =
      some (Utf8.repair text) :=
  congrArg some (repair_repair text)

theorem repair_base64
    (bs : Bytes) :
    Utf8.repair (Base64.encode bs) = Base64.encode bs :=
  Utf8.repair_eq_iff.mpr
    (Utf8.valid_of_ascii
      (fun b hMem => (Base64.ascii_encode bs b hMem).1))

@[simp] theorem decodeBytes_clean
    (old value : Option (Slice UInt8)) :
    decodeBytes old (bytesJson value).clean =
      some (received id value) := by
  cases value with
  | none => rfl
  | some s =>
      simp only [bytesJson, clean, decodeBytes, repair_base64,
        Base64.decode_encode, Option.map_some, received,
        List.map_id]

theorem inRange_int64
    (n : Int64) :
    Decimal.InRange 64 n.toInt :=
  ⟨n.minValue_le_toInt, n.toInt_lt⟩

theorem inRange_int32
    (n : Int32) :
    Decimal.InRange 32 n.toInt :=
  ⟨n.minValue_le_toInt, n.toInt_lt⟩

theorem signed_decimal
    (n : Int) :
    Decimal.signed (decimal n) = some n := by
  cases n with
  | ofNat n =>
      have hEq := decimal_nat n
      rw [Int.ofNat_eq_natCast, hEq]
      exact Decimal.signed_nat n
  | negSucc n =>
      rw [decimal_negative, Decimal.signed_negative]
      rfl

/- What is printed with `%d` is read again, if it fits. -/
theorem parse_decimal
    {bits : Nat}
    {n : Int}
    (hRange : Decimal.InRange bits n) :
    Decimal.parse bits (decimal n) = some n :=
  Decimal.parse_eq_some.mpr ⟨signed_decimal n, hRange⟩

@[simp] theorem decodeInt64_clean
    (old n : Int64) :
    decodeInt64 old (int64Json n).clean = some n := by
  simp [decodeInt64, int64Json, clean,
    parse_decimal (inRange_int64 n)]

@[simp] theorem decodeInt32_clean
    (old n : Int32) :
    decodeInt32 old (int32Json n).clean = some n := by
  simp [decodeInt32, int32Json, clean,
    parse_decimal (inRange_int32 n)]

@[simp] theorem decodeBool_clean
    (old b : Bool) :
    decodeBool old (Json.bool b).clean = some b := rfl

/- Items that are decoded one by one, into a new array. -/
theorem decodeItems_map
    {β : Type}
    {item : α → Json → Option α}
    {zero : α}
    {encode : β → Json}
    {receive : β → α}
    (hItem :
      ∀ x, item zero (encode x).clean = some (receive x))
    (xs : List β) :
    decodeItems item zero []
        (itemsClean (xs.map encode)) =
      some (xs.map receive) := by
  induction xs with
  | nil => rfl
  | cons x xs ih =>
      simp only [List.map_cons, itemsClean, decodeItems,
        List.headD_nil, List.tail_nil, hItem, ih]

theorem decodeSlice_clean
    {item : α → Json → Option α}
    {zero : α}
    {encode : α → Json}
    {receive : α → α}
    (hItem :
      ∀ x, item zero (encode x).clean = some (receive x))
    (s : Option (Slice α)) :
    decodeSlice item zero none (sliceJson encode s).clean =
      some (received receive s) := by
  cases s with
  | none => rfl
  | some s =>
      have hItems := decodeItems_map hItem s.items
      simp only [sliceJson, clean, received]
      cases hList : s.items with
      | nil => rfl
      | cons x xs =>
          rw [hList] at hItems
          simp only [List.map_cons, itemsClean, decodeSlice,
            Option.map_none, Option.getD_none] at hItems ⊢
          rw [hItems]
          have hLength :
              (itemsClean (xs.map encode)).length =
                xs.length := by
            clear hItems hList
            induction xs with
            | nil => rfl
            | cons y ys ih =>
                simp [itemsClean, ih]
          simp [Slice.of, hLength]

end Cachepb

end CacheServer

------------------------------------------------------------
-- Requests That Arrive
------------------------------------------------------------

namespace CacheServer

namespace Cachepb

open Json

variable {α σ : Type}

/- A value that the codec writes, with its depth bounded. -/
structure Written
    (depth : Nat)
    (v : Json) :
    Prop where
  numbers : ∀ x ∈ v.lexemes, Number x
  depth : v.depth ≤ depth

theorem written_str
    (text : Bytes) :
    Written 0 (.str text) :=
  ⟨by simp [lexemes], by simp [Json.depth]⟩

theorem written_bool
    (b : Bool) :
    Written 0 (.bool b) :=
  ⟨by simp [lexemes], by simp [Json.depth]⟩

theorem written_null
    (n : Nat) :
    Written n .null :=
  ⟨by simp [lexemes], by simp [Json.depth]⟩

theorem written_int
    (n : Int) :
    Written 0 (.num (decimal n)) :=
  ⟨by simpa [lexemes] using number_decimal n,
    by simp [Json.depth]⟩

theorem written_bytes
    (value : Option (Slice UInt8)) :
    Written 0 (bytesJson value) := by
  cases value with
  | none => exact written_null 0
  | some s => exact written_str _

theorem Written.le
    {n m : Nat}
    {v : Json}
    (h : Written n v)
    (hLe : n ≤ m) :
    Written m v :=
  ⟨h.numbers, Nat.le_trans h.depth hLe⟩

theorem written_arr
    {n : Nat}
    {items : List Json}
    (hItems : ∀ v ∈ items, Written n v) :
    Written (n + 1) (.arr items) := by
  induction items with
  | nil => exact ⟨by simp [lexemes, itemsLexemes], by
      simp [Json.depth, itemsDepth]⟩
  | cons v items ih =>
      have hFirst := hItems v List.mem_cons_self
      have hRest :=
        ih (fun w hMem => hItems w (List.mem_cons_of_mem v hMem))
      have hDepth := hFirst.depth
      have hMore := hRest.depth
      simp only [Json.depth] at hMore
      constructor
      · simp only [lexemes, itemsLexemes,
          List.forall_mem_append]
        exact ⟨hFirst.numbers, hRest.numbers⟩
      · simp only [Json.depth, itemsDepth]
        omega

theorem written_obj
    {n : Nat}
    {members : Members}
    (hMembers : ∀ m ∈ members, Written n m.2) :
    Written (n + 1) (.obj members) := by
  induction members with
  | nil => exact ⟨by simp [lexemes, membersLexemes], by
      simp [Json.depth, membersDepth]⟩
  | cons m members ih =>
      rcases m with ⟨name, v⟩
      have hFirst := hMembers (name, v) List.mem_cons_self
      have hRest :=
        ih (fun w hMem =>
          hMembers w (List.mem_cons_of_mem _ hMem))
      have hDepth := hFirst.depth
      have hMore := hRest.depth
      simp only [Json.depth] at hDepth hMore
      constructor
      · simp only [lexemes, membersLexemes,
          List.forall_mem_append]
        exact ⟨hFirst.numbers, hRest.numbers⟩
      · simp only [Json.depth, membersDepth]
        omega

theorem written_slice
    {n : Nat}
    {encode : α → Json}
    (hItem : ∀ x, Written n (encode x))
    (s : Option (Slice α)) :
    Written (n + 1) (sliceJson encode s) := by
  cases s with
  | none => exact written_null _
  | some s =>
      apply written_arr
      intro v hMem
      rcases List.mem_map.mp hMem with ⟨x, _, rfl⟩
      exact hItem x

theorem written_pointer
    {n : Nat}
    {encode : σ → Json}
    (hValue : ∀ x, Written n (encode x))
    (p : Option σ) :
    Written n (pointerJson encode p) := by
  cases p with
  | none => exact written_null n
  | some x => exact hValue x

theorem written_ttl
    (ttlSeconds : Int64) :
    ∀ m ∈ ttlMember ttlSeconds, Written 0 m.2 := by
  intro m hMem
  unfold ttlMember at hMem
  split_ifs at hMem
  · cases hMem
  · rw [List.mem_singleton] at hMem
    subst hMem
    exact written_int _

/- A text of the codec is decoded as the value it was. -/
theorem unmarshal_marshal
    {decode : Json → Option σ}
    {v : Json}
    {n : Nat}
    (hWritten : Written n v)
    (hLimit : n ≤ 10000) :
    unmarshal decode v.marshal = decode v.clean := by
  have hRead :=
    (read_marshal_limit hWritten.numbers).mpr
      (Nat.le_trans hWritten.depth hLimit)
  unfold unmarshal
  rw [hRead]
  rfl

theorem written_get
    (r : GetRequest) :
    Written 1 r.json := by
  apply written_obj
  simp only [List.forall_mem_cons]
  exact ⟨written_str _, fun _ hNone => by cases hNone⟩

theorem written_set
    (r : SetRequest) :
    Written 1 r.json := by
  apply written_obj
  simp only [List.forall_mem_cons]
  exact ⟨written_str _, written_bytes _, written_ttl _⟩

theorem written_batchGet
    (r : BatchGetRequest) :
    Written 2 r.json := by
  apply written_obj
  simp only [List.forall_mem_cons]
  exact
    ⟨written_slice (fun _ => written_str _) _,
      fun _ hNone => by cases hNone⟩

theorem written_keyValue
    (r : KeyValue) :
    Written 1 r.json := by
  apply written_obj
  simp only [List.forall_mem_cons]
  exact
    ⟨written_str _, written_bytes _,
      fun _ hNone => by cases hNone⟩

theorem written_batchSet
    (r : BatchSetRequest) :
    Written 3 r.json := by
  apply written_obj
  simp only [List.forall_mem_cons]
  exact
    ⟨written_slice (written_pointer written_keyValue) _,
      fun m hMem => (written_ttl _ m hMem).le (by omega)⟩

/- A request with its strings and slices as they arrive. -/
def GetRequest.received
    (r : GetRequest) :
    GetRequest :=
  { key := Utf8.repair r.key }

def SetRequest.received
    (r : SetRequest) :
    SetRequest :=
  { r with
    key := Utf8.repair r.key
    value := Cachepb.received id r.value }

def BatchGetRequest.received
    (r : BatchGetRequest) :
    BatchGetRequest :=
  { keys := Cachepb.received Utf8.repair r.keys }

def KeyValue.received
    (r : KeyValue) :
    KeyValue :=
  { key := Utf8.repair r.key
    value := Cachepb.received id r.value }

def BatchSetRequest.received
    (r : BatchSetRequest) :
    BatchSetRequest :=
  { r with
    entries :=
      Cachepb.received (Option.map KeyValue.received)
        r.entries }

theorem GetRequest.unmarshal_json
    (r : GetRequest) :
    GetRequest.unmarshal r.json.marshal = some r.received := by
  unfold GetRequest.unmarshal
  rw [unmarshal_marshal (written_get r) (by omega)]
  simp [GetRequest.json, clean, membersClean, decodeObject,
    GetRequest.member, GetRequest.received, foldRune]

theorem SetRequest.unmarshal_json
    (r : SetRequest) :
    SetRequest.unmarshal r.json.marshal = some r.received := by
  unfold SetRequest.unmarshal
  rw [unmarshal_marshal (written_set r) (by omega)]
  by_cases hTtl : r.ttlSeconds = 0
  · simp [SetRequest.json, ttlMember, hTtl, clean, membersClean,
      decodeObject, SetRequest.member, SetRequest.zero,
      SetRequest.received, foldRune]
  · simp [SetRequest.json, ttlMember, hTtl, clean, membersClean,
      decodeObject, SetRequest.member, SetRequest.received,
      foldRune]

theorem BatchGetRequest.unmarshal_json
    (r : BatchGetRequest) :
    BatchGetRequest.unmarshal r.json.marshal =
      some r.received := by
  have hKeys := @decodeSlice_clean Bytes decodeString []
    stringJson Utf8.repair (decodeString_clean []) r.keys
  unfold BatchGetRequest.unmarshal
  rw [unmarshal_marshal (written_batchGet r) (by omega)]
  simp [BatchGetRequest.json, clean, membersClean,
    decodeObject, BatchGetRequest.member, BatchGetRequest.zero,
    BatchGetRequest.received, hKeys, foldRune]

theorem KeyValue.decode_json
    (r : Option KeyValue) :
    KeyValue.decode none (pointerJson KeyValue.json r).clean =
      some (r.map KeyValue.received) := by
  cases r with
  | none => rfl
  | some r =>
      simp [KeyValue.decode, decodePointer, pointerJson,
        KeyValue.json, clean, membersClean, decodeObject,
        KeyValue.member, KeyValue.received, foldRune]

theorem BatchSetRequest.unmarshal_json
    (r : BatchSetRequest) :
    BatchSetRequest.unmarshal r.json.marshal =
      some r.received := by
  have hEntries :=
    @decodeSlice_clean (Option KeyValue) KeyValue.decode none
      (pointerJson KeyValue.json) (Option.map KeyValue.received)
      KeyValue.decode_json r.entries
  unfold BatchSetRequest.unmarshal
  rw [unmarshal_marshal (written_batchSet r) (by omega)]
  by_cases hTtl : r.ttlSeconds = 0
  · simp [BatchSetRequest.json, ttlMember, hTtl, clean,
      membersClean, decodeObject, BatchSetRequest.member,
      BatchSetRequest.zero, BatchSetRequest.received, hEntries,
      foldRune]
  · simp [BatchSetRequest.json, ttlMember, hTtl, clean,
      membersClean, decodeObject, BatchSetRequest.member,
      BatchSetRequest.zero, BatchSetRequest.received, hEntries,
      foldRune]

end Cachepb

end CacheServer

------------------------------------------------------------
-- Responses That Arrive
------------------------------------------------------------

namespace CacheServer

namespace Cachepb

open Json

variable {α σ : Type}

theorem written_getResponse
    (r : GetResponse) :
    Written 1 r.json := by
  apply written_obj
  simp only [List.forall_mem_cons]
  exact
    ⟨written_bytes _, written_int _, written_int _,
      fun _ hNone => by cases hNone⟩

theorem written_setResponse
    (r : SetResponse) :
    Written 1 r.json := by
  apply written_obj
  simp only [List.forall_mem_cons]
  exact ⟨written_bool _, fun _ hNone => by cases hNone⟩

theorem written_batchSetResponse
    (r : BatchSetResponse) :
    Written 1 r.json := by
  apply written_obj
  simp only [List.forall_mem_cons]
  exact
    ⟨written_int _, written_int _,
      fun _ hNone => by cases hNone⟩

theorem written_health
    (r : HealthResponse) :
    Written 1 r.json := by
  apply written_obj
  simp only [List.forall_mem_cons]
  exact
    ⟨written_str _, written_bool _, written_int _,
      fun _ hNone => by cases hNone⟩

def GetResponse.received
    (r : GetResponse) :
    GetResponse :=
  { r with value := Cachepb.received id r.value }

def CacheEntry.received
    (r : CacheEntry) :
    CacheEntry :=
  { r with value := Cachepb.received id r.value }

def HealthResponse.received
    (r : HealthResponse) :
    HealthResponse :=
  { r with status := Utf8.repair r.status }

theorem GetResponse.unmarshal_json
    (r : GetResponse) :
    GetResponse.unmarshal r.json.marshal = some r.received := by
  unfold GetResponse.unmarshal
  rw [unmarshal_marshal (written_getResponse r) (by omega)]
  simp [GetResponse.json, clean, membersClean, decodeObject,
    GetResponse.member, GetResponse.received, foldRune]

theorem SetResponse.unmarshal_json
    (r : SetResponse) :
    SetResponse.unmarshal r.json.marshal = some r := by
  unfold SetResponse.unmarshal
  rw [unmarshal_marshal (written_setResponse r) (by omega)]
  simp [SetResponse.json, membersClean, clean, decodeObject,
    SetResponse.member, foldRune, decodeBool]

theorem BatchSetResponse.unmarshal_json
    (r : BatchSetResponse) :
    BatchSetResponse.unmarshal r.json.marshal = some r := by
  unfold BatchSetResponse.unmarshal
  rw [unmarshal_marshal (written_batchSetResponse r) (by omega)]
  simp [BatchSetResponse.json, membersClean, clean,
    decodeObject, BatchSetResponse.member, foldRune]

theorem HealthResponse.unmarshal_json
    (r : HealthResponse) :
    HealthResponse.unmarshal r.json.marshal =
      some r.received := by
  unfold HealthResponse.unmarshal
  rw [unmarshal_marshal (written_health r) (by omega)]
  simp [HealthResponse.json, membersClean, clean, decodeObject,
    HealthResponse.member, HealthResponse.received, foldRune,
    decodeBool]

theorem CacheEntry.decode_json
    (r : Option CacheEntry) :
    CacheEntry.decode none
        (pointerJson CacheEntry.json r).clean =
      some (r.map CacheEntry.received) := by
  cases r with
  | none => rfl
  | some r =>
      simp [CacheEntry.decode, decodePointer, pointerJson,
        CacheEntry.json, clean, membersClean, decodeObject,
        CacheEntry.member, CacheEntry.received, foldRune,
        decodeBool]

end Cachepb

end CacheServer
