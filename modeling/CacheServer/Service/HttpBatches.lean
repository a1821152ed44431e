import CacheServer.Service.Http
import CacheServer.Service.Batches
import CacheServer.Assets.JsonBodies

/-
  The batch endpoint of the HTTP server.

  `batchGet` hands the values to the JSON encoder as texts
  that are JSON already. One that is not lets the encoder
  fail, and the reply has no body then.

  Key definitions include:
    * `CacheServer.AnswersBatch`
    * `CacheServer.WellFormed`
    * `CacheServer.simulatedPayload`

  Key theorems include:
    * `CacheServer.batchGet_answers_iff`
    * `CacheServer.simulatedPayload_shows_iff`
-/

------------------------------------------------------------
-- What A Batch Is To Answer
------------------------------------------------------------

namespace CacheServer

open Json

/- A text in UTF-8 that the scanner of the encoder takes. -/
def WellFormed
    (value : Value) :
    Prop :=
  Utf8.Valid value ∧ (read (some 10000) value).isSome = true

/- A member stands for what `Manager.Get` returned. -/
def StandsFor
    (isNil : Bool)
    (v : Json) :
    GetResult → Prop
| .originFailed _ _ =>
    v = .obj [(bytes "error", .str (bytes "fetch failed"))]
| .ok value =>
    Denotes value v ∨ (value = [] ∧ isNil = true) ∧ v = .null

namespace Http

/-
  `Manager.Get` on each key in order. The last result comes
  first, so that a lookup finds the last one for its key.
-/
def getResults
    (keys : List String) :
    ServiceProgram (List (String × GetResult)) :=
  Program.loop
    (fun results key =>
      (Program.perform (ServiceCall.get (bytes key))).bind
        (fun result => .ret ((key, result) :: results)))
    [] keys

end Http

/-
  The body is one object whose members are the keys, and each
  stands for the last result of its key.
-/
def AnswersBatch
    (isNil : String → Bool)
    (keys : List String)
    (results : List (String × GetResult))
    (body : Bytes) :
    Prop :=
  ∃ members,
    Denotes body (.obj members) ∧
      (members.map Prod.fst).Nodup ∧
        (∀ name,
          name ∈ members.map Prod.fst ↔
            ∃ key ∈ keys, name = bytes key) ∧
          ∀ key ∈ keys,
            ∃ result v,
              results.lookup key = some result ∧
                field (bytes key) members = some v ∧
                  StandsFor (isNil key) v result

end CacheServer

------------------------------------------------------------
-- The Loop
------------------------------------------------------------

namespace CacheServer

open Json

variable {S : Type}
variable {handle : (c : ServiceCall) → S → c.Answer × S}

/- The map holds the last result of each key. -/
structure Http.Collected
    (isNil : String → Bool)
    (map : Table String (Option Bytes))
    (results : List (String × GetResult))
    (keys : List String) :
    Prop where
  lookup_eq :
    ∀ key,
      map.lookup key =
        (results.lookup key).map (rawMessage (isNil key))
  mem_iff :
    ∀ key, (results.lookup key).isSome = true ↔ key ∈ keys

open Http

theorem run_messageLoops
    (isNil : String → Bool)
    (keys : List String)
    (s : S) :
    ∃ map results s',
      Program.run handle
          (Program.loop (getMessage isNil) ∅ keys) s =
        some (map, s') ∧
        Program.run handle (getResults keys) s =
            some (results, s') ∧
          Collected isNil map results keys := by
  have hLoops :=
    Program.run_loops handle (getMessage isNil)
      (fun results (key : String) =>
        (Program.perform (ServiceCall.get (bytes key))).bind
          (fun result => .ret ((key, result) :: results)))
      (I := fun map results _ rest =>
        ∃ done,
          done ++ rest = keys ∧
            Collected isNil map results done)
      ?_ (x := ∅) (y := []) (s := s)
      ⟨[], rfl, fun _ => rfl, fun _ => by simp⟩
  · rcases hLoops with
      ⟨map, results, s', hFirst, hOther, done, hDone, hAll⟩
    rw [List.append_nil] at hDone
    exact ⟨map, results, s', hFirst, hOther, hDone ▸ hAll⟩
  · intro map results t key rest hInv
    rcases hInv with ⟨done, hDone, hAll⟩
    refine
      ⟨_, (key, (handle (.get (bytes key)) t).1) :: results,
        _, rfl, rfl, done ++ [key], by simp [← hDone], ?_, ?_⟩
    · intro other
      by_cases hEq : other = key
      · subst hEq
        rw [List.lookup_cons_self]
        exact AList.lookup_insert _
      · rw [List.lookup_cons, beq_false_of_ne hEq]
        exact
          (AList.lookup_insert_ne hEq).trans
            (hAll.lookup_eq other)
    · intro other
      rw [List.mem_append, List.mem_singleton,
        ← hAll.mem_iff other]
      by_cases hEq : other = key
      · subst hEq
        simp [List.lookup_cons_self]
      · simp [List.lookup_cons, beq_false_of_ne hEq, hEq]

end CacheServer

------------------------------------------------------------
-- The Body
------------------------------------------------------------

namespace CacheServer

open Json
open Http

variable {isNil : String → Bool}
variable {map : Table String (Option Bytes)}
variable {results : List (String × GetResult)}
variable {keys : List String}

theorem bytes_injective :
    Function.Injective bytes := by
  intro key other h
  exact String.toList_injective (Utf8.encode_injective h)

theorem mem_messages
    {m : List Char × Option Bytes} :
    m ∈ messages map ↔
      ∃ key,
        m.1 = key.toList ∧ map.lookup key = some m.2 := by
  constructor
  · intro h
    rcases List.mem_map.mp h with ⟨⟨key, message⟩, hMem, rfl⟩
    exact ⟨key, rfl, AList.mem_lookup_iff.mpr hMem⟩
  · intro h
    rcases m with ⟨name, message⟩
    rcases h with ⟨key, rfl, hLookup⟩
    exact
      List.mem_map.mpr
        ⟨⟨key, message⟩, AList.mem_lookup_iff.mp hLookup, rfl⟩

theorem messages_names
    (map : Table String (Option Bytes)) :
    (messages map).map (fun m => Utf8.encode m.1) =
      map.keys.map bytes := by
  unfold messages AList.keys List.keys
  rw [List.map_map, List.map_map]
  rfl

theorem read_fetchFailed :
    read (some 10000) fetchFailed =
      some
        (.obj
          [(bytes "error", .str (bytes "fetch failed"))]) := by
  rfl

theorem valid_fetchFailed :
    Utf8.Valid fetchFailed :=
  Utf8.valid_of_ascii (by decide)

/- The value is null or taken by the encoder. -/
def Encodable
    (isNil : Bool) :
    GetResult → Prop
| .originFailed _ _ => True
| .ok value =>
    (value = [] ∧ isNil = true) ∨ WellFormed value

theorem encodable_iff
    (isNil : Bool)
    (result : GetResult) :
    Encodable isNil result ↔
      Utf8.Valid (marshalRaw (rawMessage isNil result)) ∧
        (read (some 10000)
              (marshalRaw (rawMessage isNil result))).isSome =
          true := by
  cases result with
  | originFailed asked cause =>
      refine iff_of_true trivial ⟨valid_fetchFailed, ?_⟩
      change (read (some 10000) fetchFailed).isSome = true
      rw [read_fetchFailed]
      rfl
  | ok value =>
      by_cases hNil : value = [] ∧ isNil = true
      · have hRaw : rawMessage isNil (.ok value) = none := by
          simp [rawMessage, hNil]
        rw [hRaw]
        have hValid : Utf8.Valid (marshalRaw none) :=
          Utf8.valid_of_ascii (by decide)
        exact iff_of_true (Or.inl hNil) ⟨hValid, rfl⟩
      · have hRaw :
            rawMessage isNil (.ok value) = some value := by
          simp only [rawMessage, if_neg hNil]
        rw [hRaw]
        constructor
        · intro h
          rcases h with hNull | hWellFormed
          · exact absurd hNull hNil
          · exact hWellFormed
        · intro h
          exact Or.inr h

/- What the encoder reads stands for the result. -/
theorem standsFor_of_read
    {isNil : Bool}
    {result : GetResult}
    {v : Json}
    (hEncodable : Encodable isNil result)
    (hRead :
      read (some 10000)
          (marshalRaw (rawMessage isNil result)) =
        some v) :
    StandsFor isNil v result := by
  cases result with
  | originFailed asked cause =>
      have hSame := read_fetchFailed.symm.trans hRead
      exact (Option.some.inj hSame).symm
  | ok value =>
      by_cases hNil : value = [] ∧ isNil = true
      · have hRaw : rawMessage isNil (.ok value) = none := by
          simp [rawMessage, hNil]
        rw [hRaw] at hRead
        cases hRead
        exact Or.inr ⟨hNil, rfl⟩
      · have hRaw :
            rawMessage isNil (.ok value) = some value := by
          simp only [rawMessage, if_neg hNil]
        rw [hRaw] at hRead
        rcases hEncodable with hNull | hWellFormed
        · exact absurd hNull hNil
        · exact
            Or.inl ⟨hWellFormed.1, read_unlimited hRead⟩

/- The messages are those of the results. -/
theorem Http.Collected.forall_messages
    (h : Collected isNil map results keys)
    {P : Option Bytes → Prop} :
    (∀ m ∈ messages map, P m.2) ↔
      ∀ key result,
        results.lookup key = some result →
          P (rawMessage (isNil key) result) := by
  constructor
  · intro hAll key result hResult
    have hLookup := h.lookup_eq key
    rw [hResult] at hLookup
    exact
      hAll (key.toList, _)
        (mem_messages.mpr ⟨key, rfl, hLookup⟩)
  · intro hAll m hMem
    rcases mem_messages.mp hMem with ⟨key, _, hLookup⟩
    rw [h.lookup_eq key] at hLookup
    rcases Option.map_eq_some_iff.mp hLookup with
      ⟨result, hResult, hEq⟩
    rw [← hEq]
    exact hAll key result hResult

/- The keys of the map are those asked for. -/
theorem Http.Collected.mem_keys
    (h : Collected isNil map results keys)
    (key : String) :
    key ∈ map ↔ key ∈ keys := by
  rw [← h.mem_iff key, ← AList.lookup_isSome, h.lookup_eq,
    Option.isSome_map]

theorem answersBatch_iff
    (h : Collected isNil map results keys) :
    AnswersBatch isNil keys results (encoded map).body ↔
      ∀ key result,
        results.lookup key = some result →
          Encodable (isNil key) result := by
  have hReads :=
    h.forall_messages
      (P := fun message =>
        (read (some 10000) (marshalRaw message)).isSome = true)
  have hValids :=
    h.forall_messages
      (P := fun message => Utf8.Valid (marshalRaw message))
  have hSome :=
    (encodeMap_isSome (some 10000) (messages map)).trans hReads
  constructor
  · intro hAnswers key result hResult
    rw [encodable_iff]
    rcases hAnswers with ⟨members, ⟨hValid, hRead⟩, _⟩
    cases hEncode : encodeMap (some 10000) (messages map) with
    | none =>
        have hEmpty : (encoded map).body = [] := by
          simp [encoded, jsonReply, hEncode]
        rw [hEmpty] at hRead
        cases hRead
    | some out =>
        have hBody : (encoded map).body = out := by
          simp [encoded, jsonReply, hEncode]
        rw [hEncode] at hSome
        rw [hBody] at hValid
        rcases read_encodeMap hEncode with
          ⟨_, _, _, _, hUtf8⟩
        exact
          ⟨(hUtf8.trans hValids).mp hValid key result hResult,
            hSome.mp rfl key result hResult⟩
  · intro hAll
    have hEncodes :
        (encodeMap (some 10000) (messages map)).isSome =
          true :=
      hSome.mpr
        (fun key result hResult =>
          ((encodable_iff _ _).mp (hAll key result hResult)).2)
    rcases Option.isSome_iff_exists.mp hEncodes with
      ⟨out, hEncode⟩
    have hBody : (encoded map).body = out := by
      simp [encoded, jsonReply, hEncode]
    rcases read_encodeMap hEncode with
      ⟨members, hRead, hNames, hMembers, hUtf8⟩
    rw [messages_names] at hNames
    have hNodup : (members.map Prod.fst).Nodup :=
      hNames.nodup_iff.mpr
        (map.keys_nodup.map bytes_injective)
    rw [hBody]
    refine ⟨members, ⟨?_, hRead⟩, hNodup, ?_, ?_⟩
    · refine (hUtf8.trans hValids).mpr ?_
      intro key result hResult
      exact ((encodable_iff _ _).mp (hAll key result hResult)).1
    · intro name
      rw [hNames.mem_iff, List.mem_map]
      constructor
      · intro hName
        rcases hName with ⟨key, hKey, rfl⟩
        exact
          ⟨key, (h.mem_keys key).mp (AList.mem_keys.mp hKey),
            rfl⟩
      · intro hName
        rcases hName with ⟨key, hKey, rfl⟩
        exact
          ⟨key, AList.mem_keys.mpr ((h.mem_keys key).mpr hKey),
            rfl⟩
    · intro key hKey
      rcases Option.isSome_iff_exists.mp
        ((h.mem_iff key).mpr hKey) with ⟨result, hResult⟩
      have hLookup := h.lookup_eq key
      rw [hResult] at hLookup
      rcases hMembers (key.toList, _)
        (mem_messages.mpr ⟨key, rfl, hLookup⟩) with
        ⟨v, hMem, hValue⟩
      exact
        ⟨result, v, hResult, field_of_mem hNodup hMem,
          standsFor_of_read (hAll key result hResult) hValue⟩

/-
  Whatever the calls return, the reply to a batch is 200. Its
  body answers the batch exactly if the last value of each
  key is null or well-formed JSON.
-/
theorem batchGet_answers_iff
    {S : Type}
    (handle : (c : ServiceCall) → S → c.Answer × S)
    (s : S)
    (isNil : String → Bool)
    (keys : List String) :
    ∃ results reply s',
      Program.run handle (getResults keys) s =
          some (results, s') ∧
        Program.run handle (batchGet isNil (some keys)) s =
            some (.written reply, s') ∧
          reply.status = 200 ∧
            (AnswersBatch isNil keys results reply.body ↔
              ∀ key result,
                results.lookup key = some result →
                  Encodable (isNil key) result) := by
  rcases @run_messageLoops S handle isNil keys s with
    ⟨map, results, s', hMap, hResults, hAll⟩
  refine
    ⟨results, encoded map, s', hResults, ?_, rfl,
      answersBatch_iff hAll⟩
  unfold batchGet
  rw [Program.run_bind, hMap]
  rfl

/- A text that is not JSON is put, and is asked for then. -/
theorem run_batchGet_hello
    (cfg : ManagerConfig) :
    ∃ created s t u results reply,
      Program.run (SerialService.handle cfg)
            (putCache (bytes "k") (some "hello"))
            quietService =
          some (created, s) ∧
        Program.run (SerialService.handle cfg)
              (getResults ["k"]) s =
            some (results, t) ∧
          Program.run (SerialService.handle cfg)
                (batchGet (fun _ => false) (some ["k"])) s =
              some (.written reply, u) ∧
            reply.body = [] :=
  ⟨_, _, _, _, _, _, rfl, rfl, rfl, rfl⟩

/- Its value is not JSON, so the reply has no body. -/
theorem batchGet_drops :
    ¬ ∀ (cfg : ManagerConfig) (key value : String)
        (created : HttpReply) (s t u : SerialService)
        (results : List (String × GetResult))
        (reply : Reply),
        Program.run (SerialService.handle cfg)
              (putCache (bytes key) (some value))
              quietService =
            some (created, s) →
          Program.run (SerialService.handle cfg)
                (getResults [key]) s =
              some (results, t) →
            Program.run (SerialService.handle cfg)
                  (batchGet (fun _ => false) (some [key])) s =
                some (.written reply, u) →
              AnswersBatch (fun _ => false) [key] results
                reply.body := by
  intro h
  rcases run_batchGet_hello { useSF := true, l2TTL := 60 } with
    ⟨created, s, t, u, results, reply, hPut, hResults, hBatch,
      hEmpty⟩
  rcases h _ "k" "hello" created s t u results reply hPut
    hResults hBatch with ⟨members, ⟨_, hRead⟩, _⟩
  rw [hEmpty] at hRead
  cases hRead

end CacheServer

------------------------------------------------------------
-- Payloads Of The Simulated Origin
------------------------------------------------------------

namespace CacheServer

open Json

/- What `SimulatedOrigin.Fetch` builds for a key. -/
def simulatedPayload
    (key : Key)
    (random : Nat)
    (millis : Int) :
    Value :=
  bytes "\x7b\"key\":\"" ++ key ++
    bytes "\",\"data\":\"payload_" ++ key ++ bytes "_" ++
    decimal random ++ bytes "\",\"timestamp\":" ++
    decimal millis ++
    bytes ",\"source\":\"origin\",\"ttl\":300\x7d"

def payloadMembers
    (key : Key)
    (random : Nat)
    (millis : Int) :
    Json.Members :=
  [(bytes "key", .str key),
    (bytes "data",
      .str (bytes "payload_" ++ key ++ bytes "_" ++
        decimal random)),
    (bytes "timestamp", .num (decimal millis)),
    (bytes "source", .str (bytes "origin")),
    (bytes "ttl", .num (decimal 300))]

theorem simulatedPayload_eq_raw
    (key : Key)
    (random : Nat)
    (millis : Int) :
    simulatedPayload key random millis =
      (Json.obj (payloadMembers key random millis)).raw := by
  simp only [simulatedPayload, payloadMembers, raw,
    membersRaw, List.append_assoc, List.cons_append,
    List.nil_append]
  rfl

theorem plain_of_digit
    (b : UInt8)
    (hDigit : digit b = true) :
    b < 128 ∧ Plain b := by
  simp only [digit, Bool.and_eq_true, decide_eq_true_eq]
    at hDigit
  grind [Plain]

theorem literal_decimal
    (n : Nat) :
    Literal (decimal n) := by
  rw [decimal_nat]
  exact
    literal_of_ascii
      (fun b hMem => plain_of_digit b (digits_of_nat n b hMem))

theorem literal_append
    {text other : Bytes}
    (hText : Literal text)
    (hOther : Literal other) :
    Literal (text ++ other) :=
  ⟨hText.1.append hOther.1, hText.2.append hOther.2⟩

/- A payload shows its key if this needs no escaping. -/
theorem simulatedPayload_shows_iff
    (key : Key)
    (random : Nat)
    (millis : Int) :
    Shows (simulatedPayload key random millis)
        (payloadMembers key random millis) ↔
      Literal key := by
  have hNodup :
      ((payloadMembers key random millis).map
        Prod.fst).Nodup := by
    change
      [bytes "key", bytes "data", bytes "timestamp",
        bytes "source", bytes "ttl"].Nodup
    decide
  have hNumbers :
      ∀ x ∈
        (Json.obj
          (payloadMembers key random millis)).lexemes,
        Number x := by
    simp [payloadMembers, lexemes, membersLexemes,
      number_decimal]
  have hTexts :
      (Json.obj (payloadMembers key random millis)).texts =
        [bytes "key", key, bytes "data",
          bytes "payload_" ++ key ++ bytes "_" ++
            decimal random,
          bytes "timestamp", bytes "source", bytes "origin",
          bytes "ttl"] := rfl
  rw [simulatedPayload_eq_raw,
    fields_raw_iff hNodup hNumbers, hTexts]
  constructor
  · intro h
    exact h key (by simp)
  · intro h x hMem
    have hData :
        Literal
          (bytes "payload_" ++ key ++ bytes "_" ++
            decimal random) :=
      literal_append
        (literal_append
          (literal_append (literal_of_ascii (by decide)) h)
          (literal_of_ascii (by decide)))
        (literal_decimal random)
    simp only [List.mem_cons, List.not_mem_nil, or_false]
      at hMem
    rcases hMem with
      rfl | rfl | rfl | rfl | rfl | rfl | rfl | rfl
    · exact literal_of_ascii (by decide)
    · exact h
    · exact literal_of_ascii (by decide)
    · exact hData
    · exact literal_of_ascii (by decide)
    · exact literal_of_ascii (by decide)
    · exact literal_of_ascii (by decide)
    · exact literal_of_ascii (by decide)

end CacheServer
