import CacheServer.Assets.SerialRequests
import CacheServer.Lib.LossyCopy

/-
  What `serveAsset` replies, whatever the cache has evicted.

  Requests come one at a time and no backend call fails. The
  memory cache is a lossy copy of MinIO, and MinIO holds the
  last upload of each key that has not been deleted since.
  Both ways to serve an asset give that upload's body and
  content type, so that clients cannot tell them apart but
  for the cache status.

  Key definitions include:
    * `CacheServer.Uploads`
    * `CacheServer.servesObject`
    * `CacheServer.RepliesWithLastUpload`
    * `CacheServer.AssetPhase`

  Key theorems include:
    * `CacheServer.served_eq`
    * `CacheServer.assetPhase_accept`
    * `CacheServer.assetPhase_run`
    * `CacheServer.assetPhase_serves`
    * `CacheServer.memory_cache_transparent`
-/

------------------------------------------------------------
-- The Last Uploads
------------------------------------------------------------

namespace CacheServer

/- What was uploaded last, of keys not deleted since. -/
abbrev Uploads :=
  Key → Option StoredObject

/- Uploads and deletes, in the order in which they arrive. -/
def recordUpload
    (_ : AssetSystem)
    (a : AssetAction)
    (uploads : Uploads) :
    Uploads :=
  match a with
  | .call _ (.upload filename header (some sent)) =>
      Function.update uploads filename
        (some
          { data := sent
            contentType :=
              uploadContentType header filename })
  | .call _ (.deleteAsset key) =>
      Function.update uploads key none
  | _ => uploads

/- The reply that an object gets when it is served. -/
def servesObject
    (obj : StoredObject)
    (cacheStatus : Bytes) :
    Reply :=
  { status := 200
    headers :=
      [("Content-Type", obj.contentType),
        ("Content-Length", decimal obj.data.length),
        ("Cache-Control", bytes "public, max-age=86400"),
        ("X-Cache-Status", cacheStatus)]
    body := obj.data }

/- The path value and the body are what a handler accepts. -/
def AssetRequest.Acceptable :
    AssetRequest → Prop
| .upload filename _ body =>
    filename ≠ [] ∧
      ∃ sent, body = some sent ∧ sent.length ≤ maxUpload
| .serveAsset filename => filename ≠ []
| .deleteAsset key => key ≠ []
| .getMeta _ => True
| .listAssets => True

/-
  Requests arrive one at a time, on nonempty keys and with
  bodies within the limit, and no backend fails.
-/
def InOrder
    (s : AssetSystem × Uploads)
    (a : AssetAction) :
    Prop :=
  s.1.Serial a ∧
    match a with
    | .call _ request =>
        s.1.handler.ready = true ∧ request.Acceptable
    | .run _ fault _ => fault = .none
    | .tick _ => True

/-
  A reply of `serveAsset` is the last upload of the key, with
  either cache status, or that there is none.
-/
def RepliesWithLastUpload
    (s : AssetSystem × Uploads)
    (a : AssetAction) :
    Prop :=
  ∀ key reply,
    s.1.reply? a = some (.serveAsset key, reply) →
      match s.2 key with
      | some obj =>
          reply = servesObject obj (bytes "HIT") ∨
            reply = servesObject obj (bytes "MISS")
      | none => reply = notFound

instance
    (request : AssetRequest) :
    Decidable request.Acceptable := by
  cases request with
  | upload filename header body =>
      cases body with
      | none =>
          exact
            decidable_of_iff False
              (by simp [AssetRequest.Acceptable])
      | some sent =>
          exact
            decidable_of_iff
              (filename ≠ [] ∧ sent.length ≤ maxUpload)
              (by simp [AssetRequest.Acceptable])
  | serveAsset filename =>
      exact inferInstanceAs (Decidable (filename ≠ []))
  | deleteAsset key =>
      exact inferInstanceAs (Decidable (key ≠ []))
  | getMeta key => exact inferInstanceAs (Decidable True)
  | listAssets => exact inferInstanceAs (Decidable True)

instance
    (s : AssetSystem × Uploads)
    (a : AssetAction) :
    Decidable (InOrder s a) :=
  match a with
  | .call id request =>
      inferInstanceAs
        (Decidable
          (s.1.Serial (.call id request) ∧
            s.1.handler.ready = true ∧ request.Acceptable))
  | .run id fault order =>
      inferInstanceAs
        (Decidable
          (s.1.Serial (.run id fault order) ∧ fault = .none))
  | .tick elapsed =>
      inferInstanceAs
        (Decidable (s.1.Serial (.tick elapsed) ∧ True))

end CacheServer

------------------------------------------------------------
-- The Cache As A Copy Of Objects
------------------------------------------------------------

namespace CacheServer

/- The object that a cached asset is a copy of. -/
def CachedAsset.object
    (asset : CachedAsset) :
    StoredObject :=
  { data := asset.data, contentType := asset.contentType }

/- The recorded size is that of the data. -/
def CachedAsset.Sized
    (asset : CachedAsset) :
    Prop :=
  asset.size = asset.len

/- The cached record and the object give the same reply. -/
theorem served_eq
    {asset : CachedAsset}
    (cacheStatus : Bytes)
    (hSized : asset.Sized) :
    served asset cacheStatus =
      servesObject asset.object cacheStatus := by
  unfold served servesObject
  rw [hSized]
  rfl

namespace AssetCache

variable {c c' : AssetCache}
variable {order : MapOrder}
variable {key : Key}
variable {asset : CachedAsset}

/- The cached objects, by their keys. -/
def objects
    (c : AssetCache)
    (key : Key) :
    Option StoredObject :=
  (c.items.lookup key).map CachedAsset.object

theorem objects_eq_some
    {obj : StoredObject} :
    c.objects key = some obj ↔
      ∃ asset,
        c.items.lookup key = some asset ∧
          asset.object = obj :=
  Option.map_eq_some_iff

def Sized
    (c : AssetCache) :
    Prop :=
  ∀ key asset,
    c.items.lookup key = some asset → asset.Sized

theorem objects_of_items
    (h : c'.items = c.items) :
    c'.objects = c.objects := by
  funext key
  rw [objects, objects, h]

theorem sized_of_items
    (hSized : c.Sized)
    (h : c'.items = c.items) :
    c'.Sized := by
  intro key asset hLookup
  rw [h] at hLookup
  exact hSized key asset hLookup

/- A `set` caches one object and may evict others. -/
theorem set_stores
    (h : c.set order key asset = some c') :
    LossyCopy.Stores c.objects c'.objects key asset.object := by
  have hLookup := set_lookup h
  constructor
  · simp [objects, hLookup.1]
  · intro other hNe
    rcases hLookup.2 other hNe with hKeep | hGone
    · exact Or.inl (by simp [objects, hKeep])
    · exact Or.inr (by simp [objects, hGone])

theorem sized_set
    (hCache : c.Sized)
    (hAsset : asset.Sized)
    (h : c.set order key asset = some c') :
    c'.Sized := by
  have hLookup := set_lookup h
  intro other item hItem
  by_cases hEq : other = key
  · subst hEq
    rw [hLookup.1] at hItem
    cases hItem
    exact hAsset
  · rcases hLookup.2 other hEq with hKeep | hGone
    · rw [hKeep] at hItem
      exact hCache other item hItem
    · rw [hGone] at hItem
      cases hItem

/- A `remove` drops one object. -/
theorem remove_shrinks
    (c : AssetCache)
    (key : Key) :
    LossyCopy.Shrinks c.objects (c.remove key).objects := by
  intro other
  rcases c.drop_lookup key other with hKeep | hGone
  · exact Or.inl (by simp [objects, remove, hKeep])
  · exact Or.inr (by simp [objects, remove, hGone])

theorem remove_objects_self
    (c : AssetCache)
    (key : Key) :
    (c.remove key).objects key = none := by
  simp [objects, remove]

theorem sized_remove
    (hCache : c.Sized)
    (key : Key) :
    (c.remove key).Sized := by
  intro other item hItem
  have hDrop : (c.drop key).items.lookup other = some item :=
    hItem
  rcases c.drop_lookup key other with hKeep | hGone
  · rw [hKeep] at hDrop
    exact hCache other item hDrop
  · rw [hGone] at hDrop
    cases hDrop

end AssetCache

end CacheServer

------------------------------------------------------------
-- The Phases Of A Request
------------------------------------------------------------

namespace CacheServer

/-
  MinIO holds the last uploads, and the cache some of them.
-/
structure Mirrors
    (s : AssetStore)
    (uploads : Uploads) :
    Prop where
  minio : ∀ key, s.minio.lookup key = uploads key
  copy : LossyCopy s.cache.objects uploads
  sized : s.cache.Sized

/-
  The content of a key is being replaced: the cache may still
  have the old one, and so may MinIO as long as the command
  on its object is `pending`.
-/
structure Replaces
    (pending : Bool)
    (s : AssetStore)
    (uploads : Uploads)
    (key : Key)
    (content : Option StoredObject) :
    Prop where
  recorded : uploads key = content
  minio :
    ∀ other,
      (pending = true → other ≠ key) →
        s.minio.lookup other = uploads other
  copy : LossyCopy.ExceptAt s.cache.objects uploads key
  sized : s.cache.Sized

/- What holds at rest, and in the middle of a request. -/
def AssetPhase :
    Option AssetCall → AssetStore → Uploads → Prop
| some (.upload key contentType body .putObject), s, uploads =>
    Replaces true s uploads key
      (some { data := body, contentType := contentType })
| some (.upload key contentType body (.fill _ asset)), s,
    uploads =>
    Replaces false s uploads key
        (some { data := body, contentType := contentType }) ∧
      asset.object =
          { data := body, contentType := contentType } ∧
        asset.Sized
| some (.upload key contentType body _), s, uploads =>
    Replaces false s uploads key
      (some { data := body, contentType := contentType })
| some (.deleteAsset key .removeObject), s, uploads =>
    Replaces true s uploads key none
| some (.deleteAsset key _), s, uploads =>
    Replaces false s uploads key none
| some (.serveAsset key (.stamp obj)), s, uploads =>
    Mirrors s uploads ∧ uploads key = some obj
| some (.serveAsset key (.fill asset)), s, uploads =>
    Mirrors s uploads ∧ uploads key = some asset.object ∧
      asset.Sized
| _, s, uploads => Mirrors s uploads

section

variable {s s' : AssetStore}
variable {uploads : Uploads}
variable {key : Key}
variable {content : Option StoredObject}

/- Recording a new content makes its key the one replaced. -/
theorem replaces_of_mirrors
    (h : Mirrors s uploads) :
    Replaces true s (Function.update uploads key content) key
      content := by
  have hOther :
      ∀ other ≠ key,
        Function.update uploads key content other =
          uploads other :=
    fun _ hNe => Function.update_of_ne hNe _ _
  refine
    ⟨Function.update_self _ _ _, ?_,
      h.copy.exceptAt hOther, h.sized⟩
  intro other hNe
  rw [hOther other (hNe rfl)]
  exact h.minio other

/- The command on the object has been applied. -/
theorem Replaces.applied
    (h : Replaces true s uploads key content)
    (hSelf : s'.minio.lookup key = content)
    (hOthers :
      ∀ other ≠ key,
        s'.minio.lookup other = s.minio.lookup other)
    (hCache : s'.cache = s.cache) :
    Replaces false s' uploads key content := by
  refine ⟨h.recorded, ?_, ?_, ?_⟩
  · intro other _
    by_cases hEq : other = key
    · subst hEq
      rw [hSelf, h.recorded]
    · rw [hOthers other hEq]
      exact h.minio other (fun _ => hEq)
  · rw [hCache]
    exact h.copy
  · rw [hCache]
    exact h.sized

/- Steps that touch neither MinIO nor the cached entries. -/
theorem Replaces.congr
    {pending : Bool}
    (h : Replaces pending s uploads key content)
    (hMinio : s'.minio = s.minio)
    (hCache : s'.cache = s.cache) :
    Replaces pending s' uploads key content := by
  refine ⟨h.recorded, ?_, ?_, ?_⟩
  · rw [hMinio]
    exact h.minio
  · rw [hCache]
    exact h.copy
  · rw [hCache]
    exact h.sized

theorem Mirrors.congr
    (h : Mirrors s uploads)
    (hMinio : s'.minio = s.minio)
    (hItems : s'.cache.items = s.cache.items) :
    Mirrors s' uploads := by
  refine ⟨?_, ?_, ?_⟩
  · rw [hMinio]
    exact h.minio
  · rw [AssetCache.objects_of_items hItems]
    exact h.copy
  · exact AssetCache.sized_of_items h.sized hItems

end

end CacheServer

------------------------------------------------------------
-- Steps Keep The Phase
------------------------------------------------------------

namespace CacheServer

section

variable {s s' : AssetStore}
variable {uploads : Uploads}
variable {key : Key}
variable {order : MapOrder}
variable {asset : CachedAsset}
variable {cache : AssetCache}

/- Caching the object of its key keeps the cache a copy. -/
theorem Mirrors.filled
    (h : Mirrors s uploads)
    (hObject : uploads key = some asset.object)
    (hSized : asset.Sized)
    (hSet : s.cache.set order key asset = some cache) :
    Mirrors { s with cache := cache } uploads :=
  ⟨h.minio,
    h.copy.fill hObject (AssetCache.set_stores hSet),
    AssetCache.sized_set h.sized hSized hSet⟩

/- The replaced content reaches the cache. -/
theorem Replaces.filled
    (h :
      Replaces false s uploads key (some asset.object))
    (hSized : asset.Sized)
    (hSet : s.cache.set order key asset = some cache) :
    Mirrors { s with cache := cache } uploads := by
  refine ⟨?_, ?_, ?_⟩
  · intro other
    exact h.minio other (fun hFalse => by cases hFalse)
  · exact
      LossyCopy.ExceptAt.fill h.copy h.recorded
        (AssetCache.set_stores hSet)
  · exact AssetCache.sized_set h.sized hSized hSet

theorem Replaces.removed
    (h : Replaces false s uploads key none) :
    Mirrors { s with cache := s.cache.remove key }
      uploads := by
  refine ⟨?_, ?_, ?_⟩
  · intro other
    exact h.minio other (fun hFalse => by cases hFalse)
  · exact
      LossyCopy.ExceptAt.drop h.copy
        (s.cache.remove_shrinks key)
        (s.cache.remove_objects_self key)
  · exact AssetCache.sized_remove h.sized key

end

/- A request that arrives at rest begins its phase. -/
theorem assetPhase_accept
    {s : AssetSystem}
    {uploads : Uploads}
    {id : Nat}
    {request : AssetRequest}
    (h : Mirrors s.store uploads)
    (hReady : s.handler.ready = true)
    (hRequest : request.Acceptable) :
    AssetPhase (s.handler.accept request).inFlight s.store
      (recordUpload s (.call id request) uploads) := by
  cases request with
  | upload filename header body =>
      rcases hRequest with ⟨hKey, sent, rfl, hLimit⟩
      have hAccept :
          s.handler.accept
              (.upload filename header (some sent)) =
            .upload filename
              (uploadContentType header filename) sent
              .putObject := by
        simp [BinaryHandler.accept,
          BinaryHandler.acceptUpload, hReady, hKey,
          List.take_of_length_le hLimit]
      rw [hAccept]
      exact replaces_of_mirrors h
  | serveAsset filename =>
      have hKey : filename ≠ [] := hRequest
      have hAccept :
          s.handler.accept (.serveAsset filename) =
            .serveAsset filename .lookup := by
        simp [BinaryHandler.accept, hReady, hKey]
      rw [hAccept]
      exact h
  | deleteAsset key =>
      have hKey : key ≠ [] := hRequest
      have hAccept :
          s.handler.accept (.deleteAsset key) =
            .deleteAsset key .removeObject := by
        simp [BinaryHandler.accept, hReady, hKey]
      rw [hAccept]
      exact replaces_of_mirrors h
  | getMeta key =>
      have hCases := s.handler.accept_cases (.getMeta key)
      generalize s.handler.accept (.getMeta key) = call
        at hCases ⊢
      cases hCases with
      | getMeta _ _ => exact h
      | refused _ => exact h
  | listAssets =>
      have hCases := s.handler.accept_cases .listAssets
      generalize s.handler.accept .listAssets = call
        at hCases ⊢
      cases hCases with
      | listAssets _ => exact h
      | refused _ => exact h

section

variable {s s' : AssetStore}
variable {uploads : Uploads}
variable {key : Key}
variable {order : MapOrder}
variable {next : AssetCall}

theorem assetPhase_runUpload
    {contentType body : Bytes}
    {pc : UploadPc}
    (h :
      AssetPhase (some (.upload key contentType body pc)) s
        uploads)
    (hRun :
      AssetCall.runUpload s key contentType body .none order
          pc =
        some (s', next)) :
    AssetPhase next.inFlight s' uploads := by
  cases AssetCall.runUpload_step hRun with
  | stored _ =>
      exact
        Replaces.applied h (AList.lookup_insert _)
          (fun _ hNe => AList.lookup_insert_ne hNe) rfl
  | refused hFault => cases hFault
  | hset size => exact Replaces.congr h rfl rfl
  | sadd size => exact Replaces.congr h rfl rfl
  | stamped size => exact ⟨h, rfl, rfl⟩
  | filled hSet =>
      rcases h with ⟨hReplaces, hObject, hSized⟩
      rw [← hObject] at hReplaces
      exact hReplaces.filled hSized hSet

theorem assetPhase_runServe
    {pc : ServePc}
    (h : AssetPhase (some (.serveAsset key pc)) s uploads)
    (hRun :
      AssetCall.runServe s key .none order pc =
        some (s', next)) :
    AssetPhase next.inFlight s' uploads := by
  cases AssetCall.runServe_step hRun with
  | hit _ => exact Mirrors.congr h rfl (s.cache.get_items key)
  | miss _ => exact Mirrors.congr h rfl (s.cache.get_items key)
  | fetched hFound _ =>
      exact ⟨h, (Mirrors.minio h key).symm.trans hFound⟩
  | failed _ => exact h
  | stamped obj => exact ⟨h.1, h.2, rfl⟩
  | filled hSet =>
      rcases h with ⟨hMirrors, hObject, hSized⟩
      exact hMirrors.filled hObject hSized hSet

theorem assetPhase_runDelete
    {pc : DeletePc}
    (h : AssetPhase (some (.deleteAsset key pc)) s uploads) :
    AssetPhase (AssetCall.runDelete s key .none pc).2.inFlight
      (AssetCall.runDelete s key .none pc).1 uploads := by
  cases pc with
  | removeObject =>
      exact
        Replaces.applied h (AList.lookup_erase _ _)
          (fun _ hNe => AList.lookup_erase_ne hNe) rfl
  | del => exact Replaces.congr h rfl rfl
  | srem => exact Replaces.congr h rfl rfl
  | remove => exact Replaces.removed h

/- A step of the request in flight keeps its phase. -/
theorem assetPhase_run
    {call : AssetCall}
    (h : AssetPhase (some call) s uploads)
    (hRun : call.run s .none order = some (s', next)) :
    AssetPhase next.inFlight s' uploads := by
  cases call with
  | upload key contentType body pc =>
      exact assetPhase_runUpload h hRun
  | serveAsset key pc => exact assetPhase_runServe h hRun
  | deleteAsset key pc =>
      have hEq := Option.some.inj hRun
      have hPhase := assetPhase_runDelete h
      rw [hEq] at hPhase
      exact hPhase
  | getMeta key =>
      cases hRun
      exact h
  | listAssets =>
      cases hRun
      exact h
  | done reply => cases hRun

/- Time passing keeps the phase. -/
theorem assetPhase_tick
    {phase : Option AssetCall}
    (clock : Int)
    (h : AssetPhase phase s uploads) :
    AssetPhase phase { s with clock := clock } uploads := by
  cases phase with
  | none => exact Mirrors.congr h rfl rfl
  | some call =>
      cases call with
      | upload key contentType body pc =>
          cases pc with
          | putObject => exact Replaces.congr h rfl rfl
          | hset size => exact Replaces.congr h rfl rfl
          | sadd size => exact Replaces.congr h rfl rfl
          | stamp size => exact Replaces.congr h rfl rfl
          | fill size asset =>
              exact ⟨Replaces.congr h.1 rfl rfl, h.2⟩
      | serveAsset key pc =>
          cases pc with
          | lookup => exact Mirrors.congr h rfl rfl
          | fetch => exact Mirrors.congr h rfl rfl
          | stamp obj => exact ⟨Mirrors.congr h.1 rfl rfl, h.2⟩
          | fill asset =>
              exact ⟨Mirrors.congr h.1 rfl rfl, h.2⟩
      | deleteAsset key pc =>
          cases pc with
          | removeObject => exact Replaces.congr h rfl rfl
          | del => exact Replaces.congr h rfl rfl
          | srem => exact Replaces.congr h rfl rfl
          | remove => exact Replaces.congr h rfl rfl
      | getMeta key => exact Mirrors.congr h rfl rfl
      | listAssets => exact Mirrors.congr h rfl rfl
      | done reply => exact Mirrors.congr h rfl rfl

/- The reply of `serveAsset`, from the cache or from MinIO. -/
theorem assetPhase_serves
    {pc : ServePc}
    {reply : Reply}
    (h : AssetPhase (some (.serveAsset key pc)) s uploads)
    (hRun :
      AssetCall.runServe s key .none order pc =
        some (s', .done reply)) :
    match uploads key with
    | some obj =>
        reply = servesObject obj (bytes "HIT") ∨
          reply = servesObject obj (bytes "MISS")
    | none => reply = notFound := by
  cases pc with
  | lookup =>
      cases AssetCall.runServe_step hRun with
      | hit hFound =>
          rename_i asset
          have hMirrors : Mirrors s uploads := h
          have hObject : uploads key = some asset.object :=
            hMirrors.copy key asset.object
              (AssetCache.objects_eq_some.mpr
                ⟨asset, hFound, rfl⟩)
          rw [hObject]
          exact
            Or.inl
              (served_eq _ (hMirrors.sized key asset hFound))
  | fetch =>
      have hMirrors : Mirrors s uploads := h
      rw [← hMirrors.minio key]
      cases hObj : s.minio.lookup key with
      | none =>
          simp only [AssetCall.runServe, hObj] at hRun
          cases hRun
          rfl
      | some obj =>
          simp only [AssetCall.runServe, hObj] at hRun
          cases hRun
  | stamp obj => cases hRun
  | fill asset =>
      rcases h with ⟨_, hObject, hSized⟩
      cases AssetCall.runServe_step hRun with
      | filled hSet =>
          rw [hObject]
          exact Or.inr (served_eq _ hSized)

end

open AssetSystem

/- In its phase, a request is answered as it should be. -/
theorem repliesWithLastUpload_of_inPhase
    {s : AssetSystem × Uploads}
    {a : AssetAction}
    (hPhase : InPhase AssetPhase s)
    (hOk : InOrder s a) :
    RepliesWithLastUpload s a := by
  intro key reply hReply
  rcases reply_of_inPhase hPhase hReply with
    hRefused | hLast
  · rcases hRefused with ⟨id, request, rfl, hAsked, hDone, _⟩
    rcases hOk with ⟨_, hReady, hRequest⟩
    cases request with
    | serveAsset filename =>
        have hKey : filename ≠ [] := hRequest
        simp [BinaryHandler.accept, hReady, hKey] at hDone
    | _ => cases hAsked
  · rcases hLast with
      ⟨id, fault, order, call, store, rfl, _, hAsked, hRun,
        hMid⟩
    have hFault : fault = .none := hOk.2
    subst hFault
    cases call with
    | serveAsset filename pc =>
        cases hAsked
        exact assetPhase_serves hMid hRun
    | _ => cases hAsked

theorem assetPhase_step
    {s s' : AssetSystem × Uploads}
    {a : AssetAction}
    (hPhase : InPhase AssetPhase s)
    (hOk : InOrder s a)
    (h : (recordedMachine recordUpload).step s a = some s') :
    InPhase AssetPhase s' := by
  refine
    inPhase_step (P := InOrder) ?_ ?_ ?_ hPhase hOk.1 hOk h
  · intro t id request hRest hCall
    exact assetPhase_accept hRest hCall.2.1 hCall.2.2
  · intro t id fault order call store next hMid _ hRun hCall
    have hFault : fault = .none := hCall.2
    subst hFault
    exact assetPhase_run hMid hRun
  · intro t phase elapsed hMid
    exact assetPhase_tick _ hMid

end CacheServer

------------------------------------------------------------
-- Transparency
------------------------------------------------------------

namespace CacheServer

open AssetSystem

/-
  In every serial run from an empty MinIO, whatever the size
  of the cache and the order of evictions, `serveAsset`
  replies with the last upload, or that there is none; and
  every request gets its reply.
-/
theorem memory_cache_transparent
    (handler : BinaryHandler)
    (redis : Redis)
    (maxBytes : Int)
    (clock : Int)
    (actions : List AssetAction)
    (hOk :
      (recordedMachine recordUpload).Along InOrder
        (AssetSystem.new handler ∅ redis maxBytes clock,
          fun _ => none)
        actions) :
    (recordedMachine recordUpload).Along RepliesWithLastUpload
        (AssetSystem.new handler ∅ redis maxBytes clock,
          fun _ => none)
        actions ∧
      ∀ s id call,
        assetMachine.exec
              (AssetSystem.new handler ∅ redis maxBytes clock)
              actions =
            some s →
          s.calls.lookup id = some call → s.WillReply id := by
  have hStart :
      InPhase AssetPhase
        (AssetSystem.new handler ∅ redis maxBytes clock,
          (fun _ => none : Uploads)) := by
    apply inPhase_new
    refine ⟨fun _ => rfl, LossyCopy.empty _, ?_⟩
    intro key asset hLookup
    cases hLookup
  constructor
  · exact
      Machine.along_of_invariant
        (fun _ _ _ hPhase hA hStep =>
          assetPhase_step hPhase hA hStep)
        (fun _ _ hPhase hA =>
          repliesWithLastUpload_of_inPhase hPhase hA)
        hOk hStart
  · intro s id call hRun hLookup
    exact willReply_of_run hRun hLookup

/-
  An upload that evicts another asset, a serve of the evicted
  one, a delete, and a serve of the deleted one.
-/
theorem memory_cache_transparent_evicted :
    (recordedMachine recordUpload).Along RepliesWithLastUpload
        (AssetSystem.new bothClients ∅ ∅ 1 0, fun _ => none)
        [.call 0 (.upload [1] [9] (some [7])), .proceed 0,
          .proceed 0, .proceed 0, .proceed 0, .proceed 0,
          .tick 1, .call 1 (.upload [2] [9] (some [8])),
          .proceed 1, .proceed 1, .proceed 1, .proceed 1,
          .proceed 1, .call 2 (.serveAsset [1]), .proceed 2,
          .proceed 2, .proceed 2, .proceed 2,
          .call 3 (.deleteAsset [2]), .proceed 3, .proceed 3,
          .proceed 3, .proceed 3, .call 4 (.serveAsset [2]),
          .proceed 4, .proceed 4] :=
  (memory_cache_transparent bothClients ∅ 1 0 _
    (by decide)).1

end CacheServer
