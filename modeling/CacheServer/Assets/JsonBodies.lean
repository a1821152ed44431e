import CacheServer.Assets.Deletes
import CacheServer.Assets.Uploads
import CacheServer.Lib.JsonText

/-
  The JSON bodies that the asset endpoints write by hand.

  `upload`, `getMeta` and `listAssets` put keys and content
  types between quotes as they are. Their bodies are the
  texts of the values they mean, written without escape
  sequences.

  Key definitions include:
    * `CacheServer.AssetMeta`
    * `CacheServer.Lists`
    * `CacheServer.KeepsMetadata`

  Key theorems include:
    * `CacheServer.listed_eq_raw`
    * `CacheServer.metaFound_eq_raw`
    * `CacheServer.uploaded_eq_raw`
    * `CacheServer.listAssets_faithful_iff`
    * `CacheServer.metadata_round_trips_iff`
-/

------------------------------------------------------------
-- What The Bodies Mean
------------------------------------------------------------

namespace CacheServer

/- The metadata of an asset, as clients decode it. -/
structure AssetMeta where
  key : Bytes
  contentType : Bytes
  size : Int
  url : Bytes
  uploadedAt : Int
deriving DecidableEq, Repr

/- The members it is decoded from, a number by its text. -/
def AssetMeta.members
    (m : AssetMeta) :
    Json.Members :=
  [(bytes "key", .str m.key),
    (bytes "content_type", .str m.contentType),
    (bytes "size", .num (decimal m.size)),
    (bytes "url", .str m.url),
    (bytes "uploaded_at", .num (decimal m.uploadedAt))]

/- The members of the reply to an upload. -/
def uploadMembers
    (key : Key)
    (contentType : Bytes)
    (size : Int) :
    Json.Members :=
  [(bytes "status", .str (bytes "uploaded")),
    (bytes "key", .str key),
    (bytes "url", .str (assetUrl key)),
    (bytes "size", .num (decimal size)),
    (bytes "content_type", .str contentType)]

/- The members of a list of keys. -/
def listMembers
    (keys : List Key) :
    Json.Members :=
  [(bytes "count", .num (decimal keys.length)),
    (bytes "assets", .arr (keys.map .str))]

/- The metadata that an upload between two states stores. -/
def AssetMeta.Of
    (m : AssetMeta)
    (s t : AssetSystem)
    (filename : Key)
    (header : Bytes)
    (body : Option Bytes) :
    Prop :=
  ∃ sent now,
    body = some sent ∧
      s.store.clock ≤ now ∧
        now ≤ t.store.clock ∧
          m =
            { key := filename
              contentType := uploadContentType header filename
              size := (sent.take maxUpload).length
              url := assetUrl filename
              uploadedAt := now / 1000000000 }

/-
  The reply to the upload shows its fields exactly if `P`
  holds, and so does that of each `getMeta` that comes next,
  which is 200 in any case.
-/
def AssetMeta.ShownIff
    (m : AssetMeta)
    (t : AssetSystem)
    (reply : Reply)
    (P : Prop) :
    Prop :=
  (Json.Shows reply.body
      (uploadMembers m.key m.contentType m.size) ↔
    P) ∧
    ∀ id order,
      t.calls.lookup id = some (.getMeta m.key) →
        ∃ u found,
          assetMachine.step t (.run id .none order) = some u ∧
            u.calls.lookup id = some (.done found) ∧
              found.status = 200 ∧
                (Json.Shows found.body m.members ↔ P)

/-
  The body is an object with the number of the keys, and with
  exactly the keys, each once.
-/
def Lists
    (body : Bytes)
    (keys : List Key) :
    Prop :=
  ∃ order : List Key,
    order.Perm keys ∧ Json.Shows body (listMembers order)

end CacheServer

------------------------------------------------------------
-- The Bodies As Texts Of Values
------------------------------------------------------------

namespace CacheServer

open Json

theorem decimal_nat
    (n : Nat) :
    decimal n = Utf8.encode (Nat.toDigits 10 n) := by
  have hText : (toString (n : Int)).toList = n.repr.toList :=
    rfl
  unfold decimal bytes Utf8.encode
  rw [hText, Nat.toList_repr]

theorem decimal_negative
    (n : Nat) :
    decimal (Int.negSucc n) =
      45 :: Utf8.encode (Nat.toDigits 10 (n + 1)) := by
  have hText :
      (toString (Int.negSucc n)).toList =
        ("-" ++ (n + 1).repr).toList :=
    rfl
  unfold decimal bytes Utf8.encode
  rw [hText, String.toList_append, Nat.toList_repr]
  rfl

theorem number_decimal
    (n : Int) :
    Number (decimal n) := by
  cases n with
  | ofNat n =>
      have hEq := decimal_nat n
      rw [Int.ofNat_eq_natCast, hEq]
      exact number_nat n
  | negSucc n =>
      rw [decimal_negative]
      exact number_negative (n + 1)

theorem metaFound_eq_raw
    (key : Key)
    (hash : Table Bytes Bytes) :
    (metaFound key hash).body =
      (Json.obj
        [(bytes "key", .str key),
          (bytes "content_type",
            .str (hashField hash "content_type")),
          (bytes "size", .num (hashField hash "size")),
          (bytes "url", .str (hashField hash "url")),
          (bytes "uploaded_at",
            .num (hashField hash "uploaded_at"))]).raw := by
  simp only [metaFound, jsonReply, raw, membersRaw,
    List.append_assoc, List.cons_append, List.nil_append]
  rfl

theorem uploaded_eq_raw
    (key : Key)
    (size : Int)
    (contentType : Bytes) :
    (uploaded key size contentType).body =
      (Json.obj (uploadMembers key contentType size)).raw := by
  simp only [uploaded, jsonReply, uploadMembers, raw,
    membersRaw, List.append_assoc, List.cons_append,
    List.nil_append]
  rfl

/- The keys after the first, each with its comma. -/
theorem quotedKeys_cons
    (key : Key)
    (rest : List Key) :
    quotedKeys (key :: rest) =
      raw (.str key) ++ itemsRaw (rest.map .str) := by
  induction rest generalizing key with
  | nil =>
      simp only [quotedKeys, raw, itemsRaw, List.map_nil,
        List.append_nil]
      rfl
  | cons other rest ih =>
      have hStep :
          quotedKeys (key :: other :: rest) =
            bytes "\"" ++ key ++ bytes "\"," ++
              quotedKeys (other :: rest) := rfl
      rw [hStep, ih]
      simp only [raw, itemsRaw, List.map_cons,
        List.append_assoc, List.cons_append, List.nil_append]
      rfl

theorem listed_eq_raw
    (keys : List Key) :
    (listed keys).body =
      (Json.obj (listMembers keys)).raw := by
  cases keys with
  | nil => rfl
  | cons key rest =>
      simp only [listed, jsonReply, quotedKeys_cons,
        listMembers, raw, membersRaw, List.map_cons,
        List.append_assoc, List.cons_append, List.nil_append]
      rfl

end CacheServer

------------------------------------------------------------
-- Lists Of Keys
------------------------------------------------------------

namespace CacheServer

open Json

variable {keys other : List Key}

theorem itemsTexts_strings
    (keys : List Key) :
    itemsTexts (keys.map .str) = keys := by
  induction keys with
  | nil => rfl
  | cons key rest ih => simp [itemsTexts, texts, ih]

theorem itemsLexemes_strings
    (keys : List Key) :
    itemsLexemes (keys.map .str) = [] := by
  induction keys with
  | nil => rfl
  | cons key rest ih => simp [itemsLexemes, lexemes, ih]

theorem itemsSize_perm
    (h : other.Perm keys) :
    itemsSize (other.map .str) = itemsSize (keys.map .str) := by
  induction h with
  | nil => rfl
  | cons key _ ih => simp [itemsSize, ih]
  | swap key next rest =>
      simp only [List.map_cons, itemsSize]
      omega
  | trans _ _ hFirst hLast => exact hFirst.trans hLast

theorem listMembers_nodup
    (keys : List Key) :
    ((listMembers keys).map Prod.fst).Nodup := by
  change [bytes "count", bytes "assets"].Nodup
  decide

theorem listMembers_texts
    (keys : List Key) :
    (Json.obj (listMembers keys)).texts =
      [bytes "count", bytes "assets"] ++ keys := by
  simp [listMembers, texts, membersTexts, itemsTexts_strings]

theorem listMembers_numbers
    (keys : List Key) :
    ∀ x ∈ (Json.obj (listMembers keys)).lexemes, Number x := by
  simp [listMembers, lexemes, membersLexemes,
    itemsLexemes_strings, number_decimal]

theorem listMembers_size
    (h : other.Perm keys) :
    size (.obj (listMembers other)) =
      size (.obj (listMembers keys)) := by
  have hEmpty : other.isEmpty = keys.isEmpty := by
    rw [Bool.eq_iff_iff, List.isEmpty_iff, List.isEmpty_iff]
    exact
      ⟨fun hNil => List.nil_perm.mp (hNil ▸ h),
        fun hNil => List.perm_nil.mp (hNil ▸ h)⟩
  simp [listMembers, size, membersSize, itemsSize_perm h,
    h.length_eq, hEmpty]

theorem literal_names :
    Literal (bytes "count") ∧ Literal (bytes "assets") :=
  ⟨⟨Utf8.valid_of_ascii (by decide), by decide⟩,
    ⟨Utf8.valid_of_ascii (by decide), by decide⟩⟩

/- A list is read back if no key needs an escape sequence. -/
theorem lists_iff
    (keys : List Key) :
    Lists (listed keys).body keys ↔
      ∀ key ∈ keys, Literal key := by
  have hTexts := listMembers_texts keys
  rw [listed_eq_raw]
  constructor
  · intro h key hKey
    rcases h with ⟨order, hPerm, hShows⟩
    have hMem :
        key ∈ (Json.obj (listMembers keys)).texts := by
      rw [hTexts]
      exact List.mem_append_right _ hKey
    have hOrder :
        key ∈ (Json.obj (listMembers order)).texts := by
      rw [listMembers_texts]
      exact
        List.mem_append_right _ (hPerm.mem_iff.mpr hKey)
    constructor
    · rcases hShows with ⟨members, ⟨hUtf8, _⟩, _⟩
      exact
        (valid_raw_iff _
          (fun l hLexeme =>
            (listMembers_numbers keys l hLexeme).ascii)).mp
          hUtf8 key hMem
    · have hLength :=
        raw_length (Json.obj (listMembers keys))
      rw [← listMembers_size hPerm] at hLength
      exact
        plain_of_shows (listMembers_nodup order) (by omega)
          hShows key hOrder
  · intro h
    refine ⟨keys, List.Perm.refl keys, ?_⟩
    refine
      (fields_raw_iff (listMembers_nodup keys)
        (listMembers_numbers keys)).mpr
        ?_
    intro x hMem
    rw [hTexts] at hMem
    rcases List.mem_append.mp hMem with hName | hKey
    · simp only [List.mem_cons, List.not_mem_nil, or_false]
        at hName
      rcases hName with rfl | rfl
      · exact literal_names.1
      · exact literal_names.2
    · exact h x hKey

/-
  Whatever the index holds, the body of `listAssets` lists
  its keys exactly if each may stand between quotes.
-/
theorem listAssets_faithful_iff
    (s : AssetSystem)
    (id : Nat)
    (order : MapOrder)
    (keys : List Key)
    (hCall : s.calls.lookup id = some .listAssets)
    (hIndex :
      s.store.redis.smembers s.store.clock indexKey =
        some keys) :
    ∃ t reply,
      assetMachine.step s (.run id .none order) = some t ∧
        t.calls.lookup id = some (.done reply) ∧
          reply.status = 200 ∧
            (Lists reply.body keys ↔
              ∀ key ∈ keys, Literal key) := by
  have hReply :
      AssetCall.runListAssets s.store .none = listed keys := by
    simp [AssetCall.runListAssets, hIndex]
  refine
    ⟨{ s with
        calls := s.calls.insert id (.done (listed keys)) },
      listed keys, ?_, AList.lookup_insert _, rfl,
      lists_iff keys⟩
  simp only [assetMachine, AssetSystem.step, hCall,
    AssetCall.run, hReply, Option.map_some]

/- An upload that goes well, and then a list of the keys. -/
def uploadThenList
    (filename : Key) :
    Option AssetSystem :=
  assetMachine.exec noAssets
    [.call 0 (.upload filename [9] (some [8])), .proceed 0,
      .proceed 0, .proceed 0, .proceed 0, .proceed 0,
      .call 1 .listAssets]

theorem listAssets_faithful_letter :
    ∃ t reply,
      assetMachine.step
            ((uploadThenList [97]).get (by decide))
            (.run 1 .none .stored) =
          some t ∧
        t.calls.lookup 1 = some (.done reply) ∧
          reply.status = 200 ∧
            Lists reply.body [[97]] := by
  rcases
      listAssets_faithful_iff
        ((uploadThenList [97]).get (by decide)) 1 .stored
        [[97]] (by decide) (by decide) with
    ⟨t, reply, hStep, hDone, hStatus, hIff⟩
  refine ⟨t, reply, hStep, hDone, hStatus, hIff.mpr ?_⟩
  intro key hMem
  rw [List.mem_singleton.mp hMem]
  exact ⟨Utf8.valid_of_ascii (by decide), by decide⟩

/- An asset whose key is a quotation mark. -/
theorem listAssets_faithful_quote :
    ¬ ∀ (actions : List AssetAction) (s : AssetSystem)
        (id : Nat) (keys : List Key),
        assetMachine.exec noAssets actions = some s →
          s.calls.lookup id = some .listAssets →
            s.store.redis.smembers s.store.clock indexKey =
                some keys →
              (∀ key ∈ keys, key ≠ [] ∧ Utf8.Valid key) →
                Lists
                  (AssetCall.runListAssets s.store
                    .none).body
                  keys := by
  intro h
  have hUtf8 : Utf8.Valid [34] :=
    Utf8.valid_of_ascii (by decide)
  have hLists :=
    h _ ((uploadThenList [34]).get (by decide)) 1 [[34]]
      (Machine.exec_get (by decide)) (by decide) (by decide)
      (by
        intro key hMem
        rw [List.mem_singleton.mp hMem]
        exact ⟨by decide, hUtf8⟩)
  have hLiteral :=
    (lists_iff [[34]]).mp hLists [34]
      (List.mem_singleton_self _)
  have hPlain := hLiteral.2 34 (List.mem_singleton_self _)
  exact hPlain.1 rfl

end CacheServer

------------------------------------------------------------
-- Metadata That Is Stored
------------------------------------------------------------

namespace CacheServer

/- The key holds a hash with these fields, live or not. -/
def Redis.StoresFields
    (r : Redis)
    (key : Key)
    (fields : List (Bytes × Bytes)) :
    Prop :=
  ∃ hash expiresAt,
    r.lookup key =
        some { value := .hash hash, expiresAt := expiresAt } ∧
      ∀ f ∈ fields, hash.lookup f.1 = some f.2

/- An `HSET` that succeeds stores its fields. -/
theorem Redis.hset_storesFields
    {r r' : Redis}
    {now : Int}
    {key : Key}
    {fields : List (Bytes × Bytes)}
    (hNodup : (fields.map Prod.fst).Nodup)
    (h : r.hset now key fields = some r') :
    r'.StoresFields key fields := by
  cases hLive : r.live now key with
  | none =>
      simp only [hset, hLive, Option.some.injEq] at h
      subst h
      exact
        ⟨putFields ∅ fields, none, AList.lookup_insert _,
          fun f hMem => putFields_lookup hNodup hMem⟩
  | some obj =>
      rcases obj with ⟨value, expiresAt⟩
      cases value with
      | str value => simp [hset, hLive] at h
      | set members => simp [hset, hLive] at h
      | hash hash =>
          simp only [hset, hLive, Option.some.injEq] at h
          subst h
          exact
            ⟨putFields hash fields, expiresAt,
              AList.lookup_insert _,
              fun f hMem => putFields_lookup hNodup hMem⟩

/- The asset is described as at some time since `start`. -/
def AssetStore.DescribedSince
    (s : AssetStore)
    (start : Int)
    (key : Key)
    (contentType : Bytes)
    (size : Int)
    (now : Int) :
    Prop :=
  start ≤ now ∧ now ≤ s.clock ∧
    s.redis.StoresFields (metaKey key)
      (metaFields key contentType size now)

/- Where an upload stands whose `HSET` succeeds. -/
inductive MetaStage
    (start : Int)
    (key : Key)
    (contentType : Bytes)
    (body : Bytes)
    (s : AssetStore) :
    AssetCall → Prop
| refused
    {reply : Reply}
    (hStatus : reply.status ≠ 201) :
    MetaStage start key contentType body s (.done reply)
| put :
    MetaStage start key contentType body s
      (.upload key contentType body .putObject)
| hset :
    MetaStage start key contentType body s
      (.upload key contentType body (.hset body.length))
| sadd
    {now : Int}
    (hMeta :
      s.DescribedSince start key contentType body.length
        now) :
    MetaStage start key contentType body s
      (.upload key contentType body (.sadd body.length))
| stamp
    {now : Int}
    (hMeta :
      s.DescribedSince start key contentType body.length
        now) :
    MetaStage start key contentType body s
      (.upload key contentType body (.stamp body.length))
| fill
    {now : Int}
    {asset : CachedAsset}
    (hMeta :
      s.DescribedSince start key contentType body.length
        now) :
    MetaStage start key contentType body s
      (.upload key contentType body
        (.fill body.length asset))
| stored
    {now : Int}
    (hMeta :
      s.DescribedSince start key contentType body.length
        now) :
    MetaStage start key contentType body s
      (.done (uploaded key body.length contentType))

/-
  The `HSET` of this upload succeeds, and no other request
  writes the metadata of its asset.
-/
def KeepsMetadata
    (id : Nat)
    (key : Key)
    (s : AssetSystem) :
    AssetAction → Prop
| .run other fault _ =>
    match s.calls.lookup other with
    | some (.upload asset contentType _ (.hset size)) =>
        if other = id then
          fault = .none ∧
            (s.store.redis.hset s.store.clock (metaKey asset)
              (metaFields asset contentType size
                s.store.clock)).isSome =
              true
        else
          asset ≠ key
    | some (.deleteAsset asset .del) => asset ≠ key
    | _ => True
| _ => True

instance
    (id : Nat)
    (key : Key)
    (s : AssetSystem)
    (a : AssetAction) :
    Decidable (KeepsMetadata id key s a) :=
  match a with
  | .call _ _ => isTrue trivial
  | .run other fault _ =>
      match hCall : s.calls.lookup other with
      | some (.upload asset contentType _ (.hset size)) =>
          decidable_of_iff
            (if other = id then
              fault = .none ∧
                (s.store.redis.hset s.store.clock
                  (metaKey asset)
                  (metaFields asset contentType size
                    s.store.clock)).isSome =
                  true
            else
              asset ≠ key)
            (by simp [KeepsMetadata, hCall])
      | some (.deleteAsset asset .del) =>
          decidable_of_iff (asset ≠ key)
            (by simp [KeepsMetadata, hCall])
      | some (.upload _ _ _ .putObject) =>
          isTrue (by simp [KeepsMetadata, hCall])
      | some (.upload _ _ _ (.sadd _)) =>
          isTrue (by simp [KeepsMetadata, hCall])
      | some (.upload _ _ _ (.stamp _)) =>
          isTrue (by simp [KeepsMetadata, hCall])
      | some (.upload _ _ _ (.fill _ _)) =>
          isTrue (by simp [KeepsMetadata, hCall])
      | some (.serveAsset _ _) =>
          isTrue (by simp [KeepsMetadata, hCall])
      | some (.deleteAsset _ .removeObject) =>
          isTrue (by simp [KeepsMetadata, hCall])
      | some (.deleteAsset _ .srem) =>
          isTrue (by simp [KeepsMetadata, hCall])
      | some (.deleteAsset _ .remove) =>
          isTrue (by simp [KeepsMetadata, hCall])
      | some (.getMeta _) =>
          isTrue (by simp [KeepsMetadata, hCall])
      | some .listAssets =>
          isTrue (by simp [KeepsMetadata, hCall])
      | some (.done _) =>
          isTrue (by simp [KeepsMetadata, hCall])
      | none => isTrue (by simp [KeepsMetadata, hCall])
  | .tick _ => isTrue trivial

end CacheServer

------------------------------------------------------------
-- The Stages Of The Metadata
------------------------------------------------------------

namespace CacheServer

variable {s s' : AssetStore}
variable {start now : Int}
variable {key : Key}
variable {contentType body : Bytes}
variable {fault : Fault}
variable {order : MapOrder}
variable {call next : AssetCall}

theorem AssetStore.DescribedSince.congr
    {size : Int}
    (h : s.DescribedSince start key contentType size now)
    (hSame :
      s'.redis.lookup (metaKey key) =
        s.redis.lookup (metaKey key))
    (hClock : s.clock ≤ s'.clock) :
    s'.DescribedSince start key contentType size now := by
  rcases h with ⟨hStart, hNow, hash, expiresAt, hHash, hAll⟩
  exact
    ⟨hStart, le_trans hNow hClock, hash, expiresAt,
      hSame.trans hHash, hAll⟩

/- What other requests do leaves the stage as it is. -/
theorem MetaStage.congr
    (h : MetaStage start key contentType body s call)
    (hSame :
      s'.redis.lookup (metaKey key) =
        s.redis.lookup (metaKey key))
    (hClock : s.clock ≤ s'.clock) :
    MetaStage start key contentType body s' call := by
  cases h with
  | refused hStatus => exact .refused hStatus
  | put => exact .put
  | hset => exact .hset
  | sadd hMeta => exact .sadd (hMeta.congr hSame hClock)
  | stamp hMeta => exact .stamp (hMeta.congr hSame hClock)
  | fill hMeta => exact .fill (hMeta.congr hSame hClock)
  | stored hMeta => exact .stored (hMeta.congr hSame hClock)

theorem metaStage_run
    (hStage : MetaStage start key contentType body s call)
    (hStart : start ≤ s.clock)
    (hOk :
      call =
          .upload key contentType body (.hset body.length) →
        fault = .none ∧
          (s.redis.hset s.clock (metaKey key)
            (metaFields key contentType body.length
              s.clock)).isSome =
            true)
    (h : call.run s fault order = some (s', next)) :
    MetaStage start key contentType body s' next := by
  cases hStage with
  | refused hStatus => cases h
  | put =>
      have hRun :
          AssetCall.runUpload s key contentType body fault
              order .putObject =
            some (s', next) :=
        h
      cases AssetCall.runUpload_step hRun with
      | stored _ => exact .hset
      | refused _ =>
          refine .refused ?_
          simp [uploadFailed, httpError]
  | hset =>
      rcases hOk rfl with ⟨rfl, hSome⟩
      rcases Option.isSome_iff_exists.mp hSome with
        ⟨redis, hSet⟩
      cases h
      have hStored :
          redis.StoresFields (metaKey key)
            (metaFields key contentType body.length s.clock) := by
        apply Redis.hset_storesFields ?_ hSet
        simp only [metaFields, List.map_cons, List.map_nil]
        decide
      rw [hSet]
      exact .sadd ⟨hStart, le_refl _, hStored⟩
  | sadd hMeta =>
      cases h
      refine .stamp (hMeta.congr ?_ (le_refl _))
      exact
        Redis.apply_holds
          (P := fun r =>
            r.lookup (metaKey key) =
              s.redis.lookup (metaKey key))
          fault rfl
          (fun _ hAdd =>
            Redis.sadd_lookup_ne hAdd
              (metaKey_ne_indexKey key))
  | stamp hMeta =>
      cases h
      exact .fill hMeta
  | fill hMeta =>
      have hRun :
          AssetCall.runUpload s key contentType body fault
              order (.fill body.length _) =
            some (s', next) :=
        h
      cases AssetCall.runUpload_step hRun with
      | filled _ =>
          exact .stored (hMeta.congr rfl (le_refl _))
  | stored hMeta => cases h

theorem AssetCall.run_clock
    (h : call.run s fault order = some (s', next)) :
    s'.clock = s.clock := by
  cases call with
  | upload asset kind sent pc =>
      cases AssetCall.runUpload_step h with
      | _ => rfl
  | serveAsset asset pc =>
      cases AssetCall.runServe_step h with
      | _ => rfl
  | deleteAsset asset pc =>
      cases pc with
      | _ =>
          cases h
          rfl
  | getMeta asset =>
      cases h
      rfl
  | listAssets =>
      cases h
      rfl
  | done reply => cases h

/- Requests that do not write the metadata leave it alone. -/
theorem lookup_metaKey_run
    (hUpload :
      ∀ asset kind sent size,
        call = .upload asset kind sent (.hset size) →
          asset ≠ key)
    (hDelete :
      ∀ asset, call = .deleteAsset asset .del → asset ≠ key)
    (h : call.run s fault order = some (s', next)) :
    s'.redis.lookup (metaKey key) =
      s.redis.lookup (metaKey key) := by
  have hIndex := metaKey_ne_indexKey key
  cases call with
  | upload asset kind sent pc =>
      cases AssetCall.runUpload_step h with
      | hset size =>
          have hNe := metaKey_ne (hUpload _ _ _ size rfl).symm
          exact
            Redis.apply_holds
              (P := fun r =>
                r.lookup (metaKey key) =
                  s.redis.lookup (metaKey key))
              fault rfl
              (fun _ hSet => Redis.hset_lookup_ne hSet hNe)
      | sadd size =>
          exact
            Redis.apply_holds
              (P := fun r =>
                r.lookup (metaKey key) =
                  s.redis.lookup (metaKey key))
              fault rfl
              (fun _ hAdd => Redis.sadd_lookup_ne hAdd hIndex)
      | _ => rfl
  | serveAsset asset pc =>
      cases AssetCall.runServe_step h with
      | _ => rfl
  | deleteAsset asset pc =>
      cases pc with
      | del =>
          cases h
          have hNe := metaKey_ne (hDelete asset rfl).symm
          exact
            fault.apply_holds
              (P := fun r : Redis =>
                r.lookup (metaKey key) =
                  s.redis.lookup (metaKey key))
              rfl (Redis.del_lookup_ne s.redis hNe)
      | srem =>
          cases h
          exact
            Redis.apply_holds
              (P := fun r =>
                r.lookup (metaKey key) =
                  s.redis.lookup (metaKey key))
              fault rfl
              (fun _ hRem => Redis.srem_lookup_ne hRem hIndex)
      | _ =>
          cases h
          rfl
  | getMeta asset =>
      cases h
      rfl
  | listAssets =>
      cases h
      rfl
  | done reply => cases h

end CacheServer

------------------------------------------------------------
-- Metadata That Is Read Back
------------------------------------------------------------

namespace CacheServer

open Json
open AssetSystem

/- The request is an upload at some stage. -/
def UploadsMetadata
    (start : Int)
    (id : Nat)
    (key : Key)
    (contentType : Bytes)
    (body : Bytes)
    (s : AssetSystem) :
    Prop :=
  start ≤ s.store.clock ∧
    ∃ call,
      s.calls.lookup id = some call ∧
        MetaStage start key contentType body s.store call

section

variable {s s' : AssetSystem}
variable {a : AssetAction}
variable {start : Int}
variable {id : Nat}
variable {key : Key}
variable {contentType body : Bytes}

theorem uploadsMetadata_step
    (h : UploadsMetadata start id key contentType body s)
    (hKeeps : KeepsMetadata id key s a)
    (hStep : assetMachine.step s a = some s') :
    UploadsMetadata start id key contentType body s' := by
  rcases h with ⟨hStart, call, hCall, hStage⟩
  rcases step_eq hStep with hNew | hMove | hTime
  · rcases hNew with ⟨other, request, rfl, hFresh, rfl⟩
    have hNe : id ≠ other := by
      rintro rfl
      exact
        hFresh
          (AList.lookup_isSome.mp (by rw [hCall]; rfl))
    exact
      ⟨hStart, call,
        (AList.lookup_insert_ne hNe).trans hCall, hStage⟩
  · rcases hMove with
      ⟨other, fault, order, moved, store, next, rfl, hMoved,
        hRun, rfl⟩
    simp only [KeepsMetadata, hMoved] at hKeeps
    by_cases hSame : other = id
    · subst hSame
      rw [hCall] at hMoved
      cases hMoved
      have hOk :
          call =
              .upload key contentType body
                (.hset body.length) →
            fault = .none ∧
              (s.store.redis.hset s.store.clock (metaKey key)
                (metaFields key contentType body.length
                  s.store.clock)).isSome =
                true := by
        rintro rfl
        simpa using hKeeps
      have hNext := metaStage_run hStage hStart hOk hRun
      have hClock := AssetCall.run_clock hRun
      exact
        ⟨le_of_le_of_eq hStart hClock.symm, next,
          AList.lookup_insert _, hNext⟩
    · have hClock := AssetCall.run_clock hRun
      have hMeta :
          store.redis.lookup (metaKey key) =
            s.store.redis.lookup (metaKey key) := by
        refine lookup_metaKey_run ?_ ?_ hRun
        · rintro asset kind sent size rfl
          simpa [hSame] using hKeeps
        · rintro asset rfl
          exact hKeeps
      exact
        ⟨le_of_le_of_eq hStart hClock.symm, call,
          (AList.lookup_insert_ne (Ne.symm hSame)).trans hCall,
          hStage.congr hMeta (le_of_eq hClock.symm)⟩
  · rcases hTime with ⟨elapsed, rfl, rfl⟩
    have hLater :
        s.store.clock ≤ s.store.clock + (elapsed : Int) := by
      omega
    exact
      ⟨le_trans hStart hLater, call, hCall,
        hStage.congr rfl hLater⟩

end

theorem literal_of_ascii
    {text : Bytes}
    (hAscii : ∀ b ∈ text, b < 128 ∧ Plain b) :
    Literal text :=
  ⟨Utf8.valid_of_ascii (fun b hMem => (hAscii b hMem).1),
    fun b hMem => (hAscii b hMem).2⟩

theorem literal_assetUrl
    (key : Key) :
    Literal (assetUrl key) ↔ Literal key := by
  have hSplit :
      assetUrl key = bytes "/assets" ++ 47 :: key := rfl
  have hPrefix : Literal (bytes "/assets/") :=
    literal_of_ascii (by decide)
  unfold Literal
  constructor
  · intro h
    refine ⟨?_, fun b hMem => h.2 b ?_⟩
    · rw [hSplit] at h
      exact ((Utf8.valid_append_ascii (by decide)).mp h.1).2
    · exact List.mem_append_right _ hMem
  · intro h
    exact ⟨hPrefix.1.append h.1, hPrefix.2.append h.2⟩

/- The fields of the reply can be read back. -/
theorem uploaded_shows_iff
    (key : Key)
    (size : Int)
    (contentType : Bytes) :
    Shows (uploaded key size contentType).body
        (uploadMembers key contentType size) ↔
      Literal key ∧ Literal contentType := by
  have hNames :
      Literal (bytes "status") ∧ Literal (bytes "uploaded") ∧
        Literal (bytes "key") ∧ Literal (bytes "url") ∧
          Literal (bytes "size") ∧
            Literal (bytes "content_type") :=
    ⟨literal_of_ascii (by decide), literal_of_ascii (by decide),
      literal_of_ascii (by decide), literal_of_ascii (by decide),
      literal_of_ascii (by decide),
      literal_of_ascii (by decide)⟩
  have hNodup :
      ((uploadMembers key contentType size).map
        Prod.fst).Nodup := by
    simp only [uploadMembers, List.map_cons, List.map_nil]
    decide
  have hNumbers :
      ∀ x ∈
          (Json.obj
            (uploadMembers key contentType size)).lexemes,
        Number x := by
    simp [uploadMembers, lexemes, membersLexemes,
      number_decimal]
  rw [uploaded_eq_raw, fields_raw_iff hNodup hNumbers]
  simp [uploadMembers, texts, membersTexts, hNames,
    literal_assetUrl]

/- The metadata can be read back. -/
theorem raw_shows_iff
    (m : AssetMeta)
    (hUrl : m.url = assetUrl m.key) :
    Shows (Json.obj m.members).raw m.members ↔
      Literal m.key ∧ Literal m.contentType := by
  have hNames :
      Literal (bytes "key") ∧ Literal (bytes "content_type") ∧
        Literal (bytes "size") ∧ Literal (bytes "url") ∧
          Literal (bytes "uploaded_at") :=
    ⟨literal_of_ascii (by decide), literal_of_ascii (by decide),
      literal_of_ascii (by decide), literal_of_ascii (by decide),
      literal_of_ascii (by decide)⟩
  have hNodup : (m.members.map Prod.fst).Nodup := by
    simp only [AssetMeta.members, List.map_cons, List.map_nil]
    decide
  have hNumbers :
      ∀ x ∈ (Json.obj m.members).lexemes, Number x := by
    simp [AssetMeta.members, lexemes, membersLexemes,
      number_decimal]
  rw [fields_raw_iff hNodup hNumbers]
  simp [AssetMeta.members, texts, membersTexts, hNames, hUrl,
    literal_assetUrl]
  exact fun hKey _ => hKey

/- `getMeta` writes out the fields that are stored. -/
theorem runGetMeta_of_describedSince
    {s : AssetStore}
    {start now : Int}
    {key : Key}
    {contentType : Bytes}
    {size : Int}
    (h : s.DescribedSince start key contentType size now)
    (hLive : (s.redis.live s.clock (metaKey key)).isSome = true) :
    (AssetCall.runGetMeta s key .none).status = 200 ∧
      (AssetCall.runGetMeta s key .none).body =
        (Json.obj
          (AssetMeta.members
            { key := key
              contentType := contentType
              size := size
              url := assetUrl key
              uploadedAt := now / 1000000000 })).raw := by
  rcases h with ⟨_, _, hash, expiresAt, hHash, hAll⟩
  rcases Option.isSome_iff_exists.mp hLive with ⟨obj, hObj⟩
  rw [Redis.live_eq_some, hHash] at hObj
  rcases hObj with ⟨hSame, hFresh⟩
  cases hSame
  have hFound :
      s.redis.hgetall s.clock (metaKey key) = some hash := by
    have hThere :=
      Redis.live_eq_some.mpr ⟨hHash, hFresh⟩
    simp [Redis.hgetall, hThere]
  have hField :
      ∀ f ∈ metaFields key contentType size now,
        (hash.lookup f.1).getD [] = f.2 := by
    intro f hMem
    rw [hAll f hMem]
    rfl
  have hLen : hash.len ≠ 0 := by
    intro hZero
    have hEntry :=
      AList.mem_lookup_iff.mp
        (hAll (bytes "content_type", contentType)
          (by simp [metaFields]))
    rw [List.length_eq_zero_iff.mp hZero] at hEntry
    cases hEntry
  have hReply :
      AssetCall.runGetMeta s key .none = metaFound key hash := by
    simp [AssetCall.runGetMeta, hFound, hLen]
  simp only [metaFields, List.forall_mem_cons] at hField
  rcases hField with ⟨hType, hSize, hUrl, hTime, _⟩
  rw [hReply]
  refine ⟨rfl, ?_⟩
  rw [metaFound_eq_raw]
  simp only [hashField, hType, hSize, hUrl, hTime,
    AssetMeta.members]

/- A reply that has been given stays. -/
theorem done_of_step
    {s s' : AssetSystem}
    {a : AssetAction}
    {id : Nat}
    {reply : Reply}
    (hDone : s.calls.lookup id = some (.done reply))
    (hStep : assetMachine.step s a = some s') :
    s'.calls.lookup id = some (.done reply) := by
  have hNext : s.step a = some s' := hStep
  rcases step_eq hNext with hNew | hMove | hTime
  · rcases hNew with ⟨other, request, rfl, hFresh, rfl⟩
    have hNe : id ≠ other := by
      rintro rfl
      exact
        hFresh
          (AList.lookup_isSome.mp (by rw [hDone]; rfl))
    exact (AList.lookup_insert_ne hNe).trans hDone
  · rcases hMove with
      ⟨other, fault, order, call, store, next, rfl, hCall,
        hRun, rfl⟩
    have hNe : id ≠ other := by
      rintro rfl
      rw [hDone] at hCall
      cases hCall
      cases hRun
    exact (AList.lookup_insert_ne hNe).trans hDone
  · rcases hTime with ⟨elapsed, rfl, rfl⟩
    exact hDone

/- What has arrived is at the first stage, or refused. -/
theorem uploadsMetadata_call
    {s s' : AssetSystem}
    {id : Nat}
    {filename : Key}
    {header : Bytes}
    {body : Option Bytes}
    (hStep :
      assetMachine.step s
          (.call id (.upload filename header body)) =
        some s') :
    (∃ reply,
      s'.calls.lookup id = some (.done reply) ∧
        reply.status ≠ 201) ∨
      ∃ sent,
        body = some sent ∧
          UploadsMetadata s.store.clock id filename
            (uploadContentType header filename)
            (sent.take maxUpload) s' := by
  have hNext :
      s.step (.call id (.upload filename header body)) =
        some s' :=
    hStep
  rcases step_eq hNext with hNew | hMove | hTime
  · rcases hNew with ⟨other, request, hSame, _, rfl⟩
    cases hSame
    have hCall :
        (s.calls.insert id
            (s.handler.accept
              (.upload filename header body))).lookup id =
          some
            (s.handler.accept
              (.upload filename header body)) :=
      AList.lookup_insert _
    cases hAccept :
        s.handler.accept (.upload filename header body) with
    | done reply =>
        have hCases :=
          s.handler.accept_cases (.upload filename header body)
        rw [hAccept] at hCases hCall
        cases hCases with
        | refused hStatus =>
            exact Or.inl ⟨reply, hCall, by omega⟩
    | upload asset kind sent pc =>
        have hCases :=
          s.handler.accept_cases (.upload filename header body)
        rw [hAccept] at hCases hCall
        cases hCases with
        | upload _ _ =>
            exact
              Or.inr
                ⟨_, rfl, le_refl _, _, hCall, .put⟩
    | _ =>
        have hCases :=
          s.handler.accept_cases (.upload filename header body)
        rw [hAccept] at hCases
        cases hCases
  · rcases hMove with ⟨_, _, _, _, _, _, hSame, _⟩
    cases hSame
  · rcases hTime with ⟨_, hSame, _⟩
    cases hSame

/-
  After an upload that stores its metadata, its reply and any
  later `getMeta` show what was stored exactly if the key and
  the content type may stand between quotes.
-/
theorem metadata_round_trips_iff
    (s t : AssetSystem)
    (id : Nat)
    (filename : Key)
    (header : Bytes)
    (body : Option Bytes)
    (actions : List AssetAction)
    (reply : Reply)
    (hKeeps :
      assetMachine.Along (KeepsMetadata id filename) s
        (.call id (.upload filename header body) :: actions))
    (hRun :
      assetMachine.exec s
          (.call id (.upload filename header body) ::
            actions) =
        some t)
    (hReply : t.calls.lookup id = some (.done reply))
    (hStatus : reply.status = 201)
    (hLive :
      (t.store.redis.live t.store.clock
        (metaKey filename)).isSome = true) :
    ∃ m : AssetMeta,
      m.Of s t filename header body ∧
        m.ShownIff t reply
          (Literal m.key ∧ Literal m.contentType) := by
  rcases Machine.exec_cons.mp hRun with ⟨u, hCall, hRest⟩
  have hAlong := hKeeps.2 u hCall
  rcases uploadsMetadata_call hCall with hRefused | hAccepted
  · rcases hRefused with ⟨refusal, hDone, hNot⟩
    have hStays :=
      Machine.exec_invariant
        (I := fun v : AssetSystem =>
          v.calls.lookup id = some (.done refusal))
        (fun _ _ _ hInv hStep => done_of_step hInv hStep)
        hRest hDone
    rw [hReply] at hStays
    cases hStays
    exact absurd hStatus hNot
  · rcases hAccepted with ⟨sent, hBody, hStart⟩
    have hEnd :=
      Machine.exec_invariant_along
        (I :=
          UploadsMetadata s.store.clock id filename
            (uploadContentType header filename)
            (sent.take maxUpload))
        (fun _ _ _ hInv hOk hStep =>
          uploadsMetadata_step hInv hOk hStep)
        hAlong hRest hStart
    rcases hEnd with ⟨_, call, hLookup, hStage⟩
    rw [hReply] at hLookup
    cases hLookup
    cases hStage with
    | refused hNot => exact absurd hStatus hNot
    | stored hMeta =>
        rename_i now
        refine
          ⟨_,
            ⟨sent, now, hBody, hMeta.1, hMeta.2.1, rfl⟩,
            uploaded_shows_iff _ _ _, ?_⟩
        intro other order hGet
        rcases runGetMeta_of_describedSince hMeta hLive with
          ⟨hFound, hText⟩
        refine
          ⟨{ t with
              calls :=
                t.calls.insert other
                  (.done
                    (AssetCall.runGetMeta t.store filename
                      .none)) },
            _, ?_, AList.lookup_insert _, hFound, ?_⟩
        · simp only [assetMachine, AssetSystem.step, hGet,
            AssetCall.run, Option.map_some]
        · rw [hText]
          exact raw_shows_iff _ rfl

/- An upload that goes well, and then its metadata. -/
def uploadThenGetMeta
    (filename : Key)
    (header : Bytes) :
    List AssetAction :=
  [.call 0 (.upload filename header (some [8])), .proceed 0,
    .proceed 0, .proceed 0, .proceed 0, .proceed 0,
    .call 1 (.getMeta filename)]

theorem metadata_round_trips_letter :
    ∃ m : AssetMeta,
      m.Of noAssets
          ((assetMachine.exec noAssets
            (uploadThenGetMeta [97] [120])).get (by decide))
          [97] [120] (some [8]) ∧
        m.ShownIff
          ((assetMachine.exec noAssets
            (uploadThenGetMeta [97] [120])).get (by decide))
          (uploaded [97] 1 [120]) True := by
  rcases
      metadata_round_trips_iff noAssets
        ((assetMachine.exec noAssets
          (uploadThenGetMeta [97] [120])).get (by decide))
        0 [97] [120] (some [8])
        [.proceed 0, .proceed 0, .proceed 0, .proceed 0,
          .proceed 0, .call 1 (.getMeta [97])]
        (uploaded [97] 1 [120]) (by decide)
        (Machine.exec_get (by decide)) (by decide) rfl
        (by decide) with
    ⟨m, hOf, hShown⟩
  have hKey : Literal [97] := literal_of_ascii (by decide)
  have hType : Literal [120] := literal_of_ascii (by decide)
  have hLiteral : Literal m.key ∧ Literal m.contentType := by
    rcases hOf with ⟨_, _, _, _, _, rfl⟩
    exact ⟨hKey, hType⟩
  exact ⟨m, hOf, eq_true hLiteral ▸ hShown⟩

/- The content type has a parameter between quotes. -/
theorem metadata_round_trips_quoted :
    ¬ ∀ (s t : AssetSystem) (id : Nat) (filename : Key)
        (header : Bytes) (body : Option Bytes)
        (actions : List AssetAction) (reply : Reply),
        filename ≠ [] →
          10 ∉ header ∧ 13 ∉ header →
            assetMachine.Along (KeepsMetadata id filename) s
                (.call id (.upload filename header body) ::
                  actions) →
              assetMachine.exec s
                  (.call id (.upload filename header body) ::
                    actions) =
                some t →
              t.calls.lookup id = some (.done reply) →
                reply.status = 201 →
                  (t.store.redis.live t.store.clock
                    (metaKey filename)).isSome = true →
                    ∃ m : AssetMeta,
                      m.Of s t filename header body ∧
                        m.ShownIff t reply True := by
  intro h
  have hShown :=
    h noAssets
      ((assetMachine.exec noAssets
        (uploadThenGetMeta [97] (bytes "a; b=\"c\""))).get
        (by decide))
      0 [97] (bytes "a; b=\"c\"") (some [8])
      [.proceed 0, .proceed 0, .proceed 0, .proceed 0,
        .proceed 0, .call 1 (.getMeta [97])]
      (uploaded [97] 1 (bytes "a; b=\"c\"")) (by decide)
      (by decide) (by decide) (Machine.exec_get (by decide))
      (by decide) rfl (by decide)
  rcases hShown with ⟨m, ⟨sent, now, hSent, _, _, rfl⟩, hIff, _⟩
  cases hSent
  have hLiteral :=
    (uploaded_shows_iff [97] 1 (bytes "a; b=\"c\"")).mp
      (hIff.mpr trivial)
  have hPlain := hLiteral.2.2
  revert hPlain
  decide

end CacheServer
