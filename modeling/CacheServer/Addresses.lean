import CacheServer.Lib.Fields
import CacheServer.Lib.Utf8
import CacheServer.Startup

/-
  The Redis addresses of `internal/config/config.go`.

  `envSlice` reads the characters of a variable one by one,
  gathers what stands between commas and drops what is empty.
  `NewL2` takes the first address without looking whether
  there is one.

  Key definitions include:
    * `CacheServer.envSlice`
    * `CacheServer.redisAddrs`
    * `CacheServer.newL2Slice`
    * `CacheServer.SplitsAndFilters`

  Key theorems include:
    * `CacheServer.envSlice_eq`
    * `CacheServer.fields_encode`
    * `CacheServer.newL2Slice_slice`
    * `CacheServer.envSlice_splits_and_filters`
-/

------------------------------------------------------------
-- Lists From The Environment
------------------------------------------------------------

namespace CacheServer

/- The loop of `envSlice`, with `result` and `current`. -/
def envSliceLoop :
    List Char → List Bytes → Bytes → List Bytes × Bytes
| [], result, current => (result, current)
| c :: cs, result, current =>
    if c = ',' then
      if current ≠ [] then
        envSliceLoop cs (result ++ [current]) []
      else
        envSliceLoop cs result []
    else
      envSliceLoop cs result
        (current ++ String.utf8EncodeChar c)

/- `os.Getenv` is empty for a variable that is not set. -/
def envSlice
    (getenv : String → Bytes)
    (key : String)
    (fallback : List Bytes) :
    List Bytes :=
  let v := getenv key
  if v ≠ [] then
    let (result, current) :=
      envSliceLoop (Utf8.runes v) [] []
    let result :=
      if current ≠ [] then result ++ [current] else result
    if 0 < result.length then result else fallback
  else
    fallback

/- `Config.RedisAddrs`. -/
def redisAddrs
    (getenv : String → Bytes) :
    List Bytes :=
  envSlice getenv "REDIS_ADDRS" [bytes "localhost:6379"]

/- The client of `NewL2`; `none` is a panic at `addrs[0]`. -/
def newL2Client
    (addrs : List Bytes)
    (password : Bytes)
    (poolSize : Int) :
    Option RedisClient :=
  if 1 < addrs.length then
    some (.cluster addrs password poolSize (poolSize.tdiv 4))
  else
    addrs[0]?.map
      (fun addr =>
        .node addr password poolSize (poolSize.tdiv 4))

/- `NewL2` of a slice, given the error of its `PING`. -/
def newL2Slice
    (addrs : List Bytes)
    (password : Bytes)
    (poolSize : Int)
    (ttl : Int)
    (ping : Option Bytes) :
    Option (Option L2Cache × Option Bytes) :=
  (newL2Client addrs password poolSize).map
    (fun client =>
      match ping with
      | some text =>
          (none, some (bytes "redis ping failed: " ++ text))
      | none => (some { client := client, ttl := ttl }, none))

/- The addresses as the slice that `NewL2` is given. -/
def RedisAddrs.slice
    (addrs : RedisAddrs) :
    List Bytes :=
  addrs.first :: addrs.more

end CacheServer

------------------------------------------------------------
-- Between Commas
------------------------------------------------------------

namespace CacheServer

/- The byte of a comma. -/
def comma : UInt8 := 44

/- The loop gathers a part without a comma. -/
theorem envSliceLoop_append
    {part : List Char}
    (hFree : ',' ∉ part)
    (cs : List Char)
    (result : List Bytes)
    (current : Bytes) :
    envSliceLoop (part ++ cs) result current =
      envSliceLoop cs result (current ++ Utf8.encode part) := by
  induction part generalizing current with
  | nil => simp
  | cons c part ih =>
      have hNe : c ≠ ',' := by
        intro hEq
        exact hFree (hEq ▸ List.mem_cons_self)
      have hRest : ',' ∉ part := by
        intro hMem
        exact hFree (List.mem_cons_of_mem c hMem)
      rw [List.cons_append, envSliceLoop, if_neg hNe,
        ih hRest, Utf8.encode_cons, List.append_assoc]

/- What is left of the loop is added if it is not empty. -/
def envSliceResult
    (cs : List Char)
    (result : List Bytes) :
    List Bytes :=
  (envSliceLoop cs result []).1 ++
    Fields.field (envSliceLoop cs result []).2

theorem append_field
    (result : List Bytes)
    (current : Bytes) :
    (if current ≠ [] then result ++ [current] else result) =
      result ++ Fields.field current := by
  by_cases hNil : current = []
  · simp [Fields.field, hNil]
  · simp [Fields.field, hNil]

theorem field_encode
    (part : List Char) :
    Fields.field (Utf8.encode part) =
      (Fields.field part).map Utf8.encode := by
  cases part with
  | nil => rfl
  | cons c part =>
      rcases Utf8.encodeChar_head c with ⟨b, more, hBytes, _⟩
      simp [Fields.field, hBytes]

theorem envSliceResult_eq
    (cs : List Char)
    (result : List Bytes) :
    envSliceResult cs result =
      result ++ (Fields.fields ',' cs).map Utf8.encode := by
  induction cs using Fields.split_induction ','
    generalizing result with
  | free cs hFree =>
      have hLoop := envSliceLoop_append hFree [] result []
      rw [List.append_nil] at hLoop
      rw [envSliceResult, hLoop, Fields.fields_of_notMem hFree]
      rw [envSliceLoop, List.nil_append, field_encode]
  | cut part cs hFree ih =>
      have hLoop :
          envSliceLoop (part ++ ',' :: cs) result [] =
            envSliceLoop cs
              (result ++ Fields.field (Utf8.encode part))
              [] := by
        rw [envSliceLoop_append hFree, ← append_field]
        rw [envSliceLoop, if_pos rfl, List.nil_append]
        by_cases hNil : Utf8.encode part = []
        · simp [hNil]
        · simp [hNil]
      have hRest :=
        ih (result ++ Fields.field (Utf8.encode part))
      rw [envSliceResult, hLoop, ← envSliceResult, hRest,
        Fields.fields_append_cons hFree, field_encode,
        List.map_append, List.append_assoc]

/- The fields of what was read, or the fallback. -/
theorem envSlice_eq
    (getenv : String → Bytes)
    (key : String)
    (fallback : List Bytes) :
    envSlice getenv key fallback =
      let found :=
        (Fields.fields ',' (Utf8.runes (getenv key))).map
          Utf8.encode
      if found = [] then fallback else found := by
  have hResult := envSliceResult_eq (Utf8.runes (getenv key)) []
  rw [envSliceResult, ← append_field, List.nil_append]
    at hResult
  by_cases hUnset : getenv key = []
  · simp [envSlice, hUnset, Utf8.runes, Utf8.runesFrom]
  · simp only [envSlice, ne_eq, hUnset, not_false_eq_true,
      if_true, hResult, List.length_pos_iff]
    by_cases hFound :
        (Fields.fields ',' (Utf8.runes (getenv key))).map
            Utf8.encode = []
    · simp [hFound]
    · simp [hFound]

/- A byte that is no character is read as U+FFFD. -/
example :
    envSlice (fun _ => [255, comma, 97]) "REDIS_ADDRS" [] =
      [bytes "\uFFFD", bytes "a"] := by
  decide

end CacheServer

------------------------------------------------------------
-- Commas In UTF-8
------------------------------------------------------------

namespace CacheServer

/- Only a comma has the byte of a comma. -/
theorem comma_notMem_encodeChar
    {c : Char}
    (hNe : c ≠ ',') :
    comma ∉ String.utf8EncodeChar c := by
  rcases Utf8.encodeChar_cases c with
    ⟨hAscii, hEncode⟩ | ⟨_, hHigh⟩
  · rw [hEncode, List.mem_singleton]
    intro hByte
    have hNat := congrArg UInt8.toNat hByte
    have hSame : c.toNat % 2 ^ 8 = c.toNat :=
      Nat.mod_eq_of_lt (by omega)
    rw [UInt8.toNat_ofNat', hSame] at hNat
    have hComma : c.toNat = (',' : Char).toNat := hNat.symm
    exact hNe (Char.toNat_inj.mp hComma)
  · intro hMem
    exact absurd (hHigh comma hMem) (by decide)

theorem fields_encode
    (text : List Char) :
    Fields.fields comma (Utf8.encode text) =
      (Fields.fields ',' text).map Utf8.encode := by
  have hSep : String.utf8EncodeChar ',' = [comma] := rfl
  refine Fields.fields_flatMap hSep ?_ text
  intro c hNe
  rcases Utf8.encodeChar_head c with ⟨b, more, hBytes, _⟩
  refine ⟨?_, comma_notMem_encodeChar hNe⟩
  rw [hBytes]
  exact List.cons_ne_nil b more

/- There is an address, however the variable is written. -/
theorem envSlice_ne_nil
    (getenv : String → Bytes)
    (key : String)
    {fallback : List Bytes}
    (hFallback : fallback ≠ []) :
    envSlice getenv key fallback ≠ [] := by
  rw [envSlice_eq]
  by_cases hFound :
      (Fields.fields ',' (Utf8.runes (getenv key))).map
          Utf8.encode = []
  · simp only [hFound, if_true]
    exact hFallback
  · simp only [hFound, if_false]
    exact hFound

/- Of a valid variable the fields are those of its bytes. -/
theorem envSlice_of_valid
    {getenv : String → Bytes}
    {key : String}
    (hValid : Utf8.Valid (getenv key))
    (fallback : List Bytes) :
    envSlice getenv key fallback =
      if Fields.fields comma (getenv key) = [] then
        fallback
      else
        Fields.fields comma (getenv key) := by
  rcases hValid with ⟨text, hText⟩
  rw [envSlice_eq, ← hText, Utf8.runes_encode, fields_encode]

end CacheServer

------------------------------------------------------------
-- The First Address
------------------------------------------------------------

namespace CacheServer

theorem newL2Slice_slice
    (addrs : RedisAddrs)
    (password : Bytes)
    (poolSize : Int)
    (ttl : Int)
    (ping : Option Bytes) :
    newL2Slice addrs.slice password poolSize ttl ping =
      some (newL2 addrs password poolSize ttl ping) := by
  rcases addrs with ⟨first, _ | ⟨second, more⟩⟩
  · have hClient :
        newL2Client [first] password poolSize =
          some
            (.node first password poolSize
              (poolSize.tdiv 4)) := rfl
    simp only [newL2Slice, RedisAddrs.slice, hClient, newL2]
    cases ping with
    | none => rfl
    | some text => rfl
  · have hClient :
        newL2Client (first :: second :: more) password
            poolSize =
          some
            (.cluster (first :: second :: more) password
              poolSize (poolSize.tdiv 4)) :=
      if_pos (Nat.succ_lt_succ (Nat.succ_pos more.length))
    simp only [newL2Slice, RedisAddrs.slice, hClient, newL2]
    cases ping with
    | none => rfl
    | some text => rfl

theorem RedisAddrs.exists_slice
    {addrs : List Bytes}
    (hNe : addrs ≠ []) :
    ∃ r : RedisAddrs, r.slice = addrs := by
  cases addrs with
  | nil => exact absurd rfl hNe
  | cons first more => exact ⟨⟨first, more⟩, rfl⟩

/-
  What a list of addresses is to the variable and the
  fallback it was read from.
-/
structure SplitsAndFilters
    (v : Bytes)
    (fallback : List Bytes)
    (addrs : List Bytes) :
    Prop where
  eq :
    addrs =
      if Fields.fields comma v = [] then
        fallback
      else
        Fields.fields comma v
  ne_empty : ∀ addr ∈ addrs, addr ≠ []
  comma_free :
    Fields.fields comma v ≠ [] →
      ∀ addr ∈ addrs, comma ∉ addr
  of_join :
    ∀ list : List Bytes,
      list ≠ [] →
      (∀ addr ∈ list, addr ≠ [] ∧ comma ∉ addr) →
      v = [comma].intercalate list →
        addrs = list
  ne_nil : addrs ≠ []

/-
  `envSlice` of a valid variable is split-and-filter, and in
  every environment `NewL2` finds a first address: it makes
  the client that it makes of a list known to have one.
-/
theorem envSlice_splits_and_filters
    (getenv : String → Bytes)
    (key : String)
    (fallback : List Bytes)
    (hValid : Utf8.Valid (getenv key))
    (hFallback : fallback ≠ [])
    (hAddrs : ∀ addr ∈ fallback, addr ≠ []) :
    SplitsAndFilters (getenv key) fallback
        (envSlice getenv key fallback) ∧
      ∀ env : String → Bytes,
        ∃ addrs : RedisAddrs,
          addrs.slice = redisAddrs env ∧
            ∀ password poolSize ttl ping,
              newL2Slice (redisAddrs env) password poolSize
                  ttl ping =
                some
                  (newL2 addrs password poolSize ttl ping) := by
  have hEq := envSlice_of_valid hValid fallback
  refine ⟨⟨hEq, ?_, ?_, ?_, ?_⟩, ?_⟩
  · intro addr hMem
    rw [hEq] at hMem
    by_cases hFound : Fields.fields comma (getenv key) = []
    · rw [if_pos hFound] at hMem
      exact hAddrs addr hMem
    · rw [if_neg hFound] at hMem
      exact (Fields.mem_fields hMem).1
  · intro hFound addr hMem
    rw [hEq, if_neg hFound] at hMem
    exact (Fields.mem_fields hMem).2
  · intro list hNe hList hJoin
    have hFields :
        Fields.fields comma (getenv key) = list := by
      rw [hJoin]
      exact Fields.fields_intercalate hList
    rw [hEq, hFields, if_neg hNe]
  · exact envSlice_ne_nil getenv key hFallback
  · intro env
    rcases RedisAddrs.exists_slice
        (envSlice_ne_nil env "REDIS_ADDRS"
          (List.cons_ne_nil (bytes "localhost:6379") []))
      with ⟨addrs, hSlice⟩
    have hSlice' : addrs.slice = redisAddrs env := hSlice
    refine ⟨addrs, hSlice', ?_⟩
    intro password poolSize ttl ping
    rw [← hSlice', newL2Slice_slice]

/- Two addresses, with commas around and between them. -/
theorem envSlice_splits_and_filters_two :
    envSlice (fun _ => bytes ",a:1,,b:2,") "REDIS_ADDRS"
        [bytes "localhost:6379"] =
      [bytes "a:1", bytes "b:2"] := by
  have hValid : Utf8.Valid (bytes ",a:1,,b:2,") :=
    Utf8.valid_encode ",a:1,,b:2,".toList
  have hBoth :=
    envSlice_splits_and_filters
      (fun _ => bytes ",a:1,,b:2,") "REDIS_ADDRS"
      [bytes "localhost:6379"] hValid
      (List.cons_ne_nil _ _) (by decide)
  rw [hBoth.1.eq]
  decide

end CacheServer
