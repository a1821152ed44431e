import CacheServer.Assets.AssetCache
import CacheServer.Redis
import CacheServer.Replies

/-
  The asset endpoints of `internal/binaryhandler/handler.go`.

  Any number of requests run at once. One step of a request
  is one MinIO or Redis command, one operation of the asset
  cache, or one look at the clock. A command's outcome comes
  with the step, as does the map order of an eviction.

  Key definitions include:
    * `CacheServer.AssetRequest`
    * `CacheServer.AssetCall`
    * `CacheServer.BinaryHandler.accept`
    * `CacheServer.AssetCall.run`
    * `CacheServer.assetMachine`

  Key theorems include:
    * `CacheServer.BinaryHandler.accept_cases`
    * `CacheServer.AssetCall.runUpload_step`
    * `CacheServer.AssetCall.runServe_step`
    * `CacheServer.AssetSystem.step_eq`
-/

------------------------------------------------------------
-- Replies
------------------------------------------------------------

namespace CacheServer

def storageUnavailable : Reply :=
  httpError
    (errorJson (bytes "binary storage backend unavailable"))
    503

def metadataUnavailable : Reply :=
  httpError
    (errorJson (bytes "metadata backend unavailable")) 503

def filenameRequired : Reply :=
  httpError (errorJson (bytes "filename required")) 400

def bodyUnreadable : Reply :=
  httpError (errorJson (bytes "failed to read body")) 400

def uploadFailed
    (text : Bytes) :
    Reply :=
  httpError
    (errorJson (bytes "storage upload failed: " ++ text)) 502

def notFound : Reply :=
  httpError (errorJson (bytes "not found")) 404

def readFailed : Reply :=
  httpError (errorJson (bytes "read failed")) 500

def listFailed : Reply :=
  httpError (errorJson (bytes "failed to list")) 500

def assetUrl
    (filename : Key) :
    Bytes :=
  bytes "/assets/" ++ filename

def uploaded
    (key : Key)
    (size : Int)
    (contentType : Bytes) :
    Reply :=
  jsonReply 201
    (bytes "\x7b\"status\":\"uploaded\",\"key\":\"" ++ key ++
      bytes "\",\"url\":\"" ++ assetUrl key ++
      bytes "\",\"size\":" ++ decimal size ++
      bytes ",\"content_type\":\"" ++ contentType ++
      bytes "\"\x7d")

def deleted
    (key : Key) :
    Reply :=
  jsonReply 200
    (bytes "\x7b\"status\":\"deleted\",\"key\":\"" ++ key ++
      bytes "\"\x7d")

/- An asset, from the memory cache or from MinIO. -/
def served
    (asset : CachedAsset)
    (cacheStatus : Bytes) :
    Reply :=
  { status := 200
    headers :=
      [("Content-Type", asset.contentType),
        ("Content-Length", decimal asset.size),
        ("Cache-Control", bytes "public, max-age=86400"),
        ("X-Cache-Status", cacheStatus)]
    body := asset.data }

/- A field of a hash; a missing one reads as the empty text. -/
def hashField
    (hash : Table Bytes Bytes)
    (name : String) :
    Bytes :=
  (hash.lookup (bytes name)).getD []

def metaFound
    (key : Key)
    (hash : Table Bytes Bytes) :
    Reply :=
  jsonReply 200
    (bytes "\x7b\"key\":\"" ++ key ++
      bytes "\",\"content_type\":\"" ++
      hashField hash "content_type" ++
      bytes "\",\"size\":" ++ hashField hash "size" ++
      bytes ",\"url\":\"" ++ hashField hash "url" ++
      bytes "\",\"uploaded_at\":" ++
      hashField hash "uploaded_at" ++ bytes "\x7d")

/- The keys in quotes, with commas in between. -/
def quotedKeys :
    List Key → Bytes
| [] => []
| [key] => bytes "\"" ++ key ++ bytes "\""
| key :: rest =>
    bytes "\"" ++ key ++ bytes "\"," ++ quotedKeys rest

def listed
    (keys : List Key) :
    Reply :=
  jsonReply 200
    (bytes "\x7b\"count\":" ++ decimal keys.length ++
      bytes ",\"assets\":[" ++ quotedKeys keys ++
      bytes "]\x7d")

end CacheServer

------------------------------------------------------------
-- Content Types
------------------------------------------------------------

namespace CacheServer

/-
  `filepath.Ext`: the suffix from the last dot of the last
  path element on. The scan goes from the end to the front.
-/
def filepathExtFrom :
    List UInt8 → Bytes → Bytes
| [], _ => []
| b :: rest, suffix =>
    if b = 47 then
      []
    else if b = 46 then
      b :: suffix
    else
      filepathExtFrom rest (b :: suffix)

def filepathExt
    (path : Bytes) :
    Bytes :=
  filepathExtFrom path.reverse []

/-
  `strings.ToLower`, as far as it yields ASCII letters: two
  characters beyond ASCII have one as their lower case,
  U+0130 and U+212A. Other characters stay as they are here,
  since the result is compared with ASCII texts only.
-/
def toLower :
    Bytes → Bytes
| 0xC4 :: 0xB0 :: rest => 105 :: toLower rest
| 0xE2 :: 0x84 :: 0xAA :: rest => 107 :: toLower rest
| b :: rest =>
    (if 65 ≤ b ∧ b ≤ 90 then b + 32 else b) :: toLower rest
| [] => []

/- The types that `detectContentType` knows. -/
def knownTypes : List (String × String) :=
  [(".png", "image/png"),
    (".jpg", "image/jpeg"),
    (".jpeg", "image/jpeg"),
    (".gif", "image/gif"),
    (".webp", "image/webp"),
    (".svg", "image/svg+xml"),
    (".mp4", "video/mp4"),
    (".ts", "video/mp2t"),
    (".m3u8", "application/vnd.apple.mpegurl"),
    (".webm", "video/webm"),
    (".mov", "video/quicktime"),
    (".avif", "image/avif"),
    (".ico", "image/x-icon"),
    (".woff2", "font/woff2"),
    (".woff", "font/woff"),
    (".ttf", "font/ttf"),
    (".css", "text/css"),
    (".js", "application/javascript")]

def octetStream : Bytes :=
  bytes "application/octet-stream"

def detectContentType
    (filename : Bytes) :
    Bytes :=
  let ext := toLower (filepathExt filename)
  match knownTypes.find? (fun t => bytes t.1 = ext) with
  | some t => bytes t.2
  | none => octetStream

/- The content type that `upload` goes by. -/
def uploadContentType
    (header : Bytes)
    (filename : Bytes) :
    Bytes :=
  if header = [] ∨ header = octetStream then
    detectContentType filename
  else
    header

end CacheServer

------------------------------------------------------------
-- Requests In Progress
------------------------------------------------------------

namespace CacheServer

/- An object as MinIO stores it. -/
structure StoredObject where
  data : Bytes
  contentType : Bytes
deriving DecidableEq, Repr

/- What all requests share. -/
structure AssetStore where
  clock : Int
  minio : Table Key StoredObject
  redis : Redis
  cache : AssetCache

/- Which clients `New` was able to make. -/
structure BinaryHandler where
  hasMinio : Bool
  hasRedis : Bool
deriving DecidableEq

/-
  The requests, with the path value, the header and the body
  a handler reads. A body that cannot be read is `none`.
-/
inductive AssetRequest
| upload (filename : Key) (header : Bytes)
    (body : Option Bytes)
| serveAsset (filename : Key)
| deleteAsset (key : Key)
| getMeta (key : Key)
| listAssets
deriving DecidableEq

/- Where an upload stands once its body is read. -/
inductive UploadPc
| putObject
| hset (size : Int)
| sadd (size : Int)
| stamp (size : Int)
| fill (size : Int) (asset : CachedAsset)
deriving DecidableEq

inductive ServePc
| lookup
| fetch
| stamp (obj : StoredObject)
| fill (asset : CachedAsset)
deriving DecidableEq

inductive DeletePc
| removeObject
| del
| srem
| remove
deriving DecidableEq

/- A request in progress, or its reply. -/
inductive AssetCall
| upload (key : Key) (contentType : Bytes) (body : Bytes)
    (pc : UploadPc)
| serveAsset (key : Key) (pc : ServePc)
| deleteAsset (key : Key) (pc : DeletePc)
| getMeta (key : Key)
| listAssets
| done (reply : Reply)
deriving DecidableEq

end CacheServer

------------------------------------------------------------
-- Handlers
------------------------------------------------------------

namespace CacheServer

/- The limit of the reader that `upload` reads through. -/
def maxUpload : Nat :=
  100 * 1024 * 1024

namespace BinaryHandler

def ready
    (h : BinaryHandler) :
    Bool :=
  h.hasMinio && h.hasRedis

/- `upload` up to the point where its body is read. -/
def acceptUpload
    (h : BinaryHandler)
    (filename : Key)
    (header : Bytes)
    (body : Option Bytes) :
    AssetCall :=
  if !h.ready then
    .done storageUnavailable
  else if filename = [] then
    .done filenameRequired
  else
    match body with
    | none => .done bodyUnreadable
    | some sent =>
        .upload filename (uploadContentType header filename)
          (sent.take maxUpload) .putObject

/- What a handler checks before its first command. -/
def accept
    (h : BinaryHandler) :
    AssetRequest → AssetCall
| .upload filename header body =>
    h.acceptUpload filename header body
| .serveAsset filename =>
    if !h.ready then
      .done storageUnavailable
    else if filename = [] then
      .done filenameRequired
    else
      .serveAsset filename .lookup
| .deleteAsset key =>
    if !h.ready then
      .done storageUnavailable
    else if key = [] then
      .done keyRequired
    else
      .deleteAsset key .removeObject
| .getMeta key =>
    if !h.hasRedis then
      .done metadataUnavailable
    else if key = [] then
      .done keyRequired
    else
      .getMeta key
| .listAssets =>
    if !h.hasRedis then
      .done metadataUnavailable
    else
      .listAssets

end BinaryHandler

/- The Redis key of an asset's metadata. -/
def metaKey
    (key : Key) :
    Key :=
  bytes "asset:" ++ key

/- The Redis key of the set of all asset keys. -/
def indexKey : Key :=
  bytes "assets:index"

theorem metaKey_ne_indexKey
    (asset : Key) :
    metaKey asset ≠ indexKey := by
  intro hEq
  cases hEq

theorem metaKey_ne
    {key other : Key}
    (hNe : key ≠ other) :
    metaKey key ≠ metaKey other := by
  intro hEq
  exact hNe (List.append_cancel_left hEq)

/- The fields `upload` stores about an asset. -/
def metaFields
    (key : Key)
    (contentType : Bytes)
    (size : Int)
    (now : Int) :
    List (Bytes × Bytes) :=
  [(bytes "content_type", contentType),
    (bytes "size", decimal size),
    (bytes "url", assetUrl key),
    (bytes "uploaded_at", decimal (now / 1000000000))]

namespace AssetCall

/- A step of `upload`; failed Redis commands are logged. -/
def runUpload
    (s : AssetStore)
    (key : Key)
    (contentType : Bytes)
    (body : Bytes)
    (fault : Fault)
    (order : MapOrder) :
    UploadPc → Option (AssetStore × AssetCall)
| .putObject =>
    let stored :=
      { s with
        minio :=
          fault.apply s.minio
            (s.minio.insert key
              { data := body, contentType := contentType }) }
    match fault with
    | .none =>
        some
          (stored,
            .upload key contentType body (.hset body.length))
    | .error _ text => some (stored, .done (uploadFailed text))
| .hset size =>
    let fields := metaFields key contentType size s.clock
    some
      ({ s with
          redis :=
            fault.apply s.redis
              ((s.redis.hset s.clock (metaKey key)
                fields).getD s.redis) },
        .upload key contentType body (.sadd size))
| .sadd size =>
    some
      ({ s with
          redis :=
            fault.apply s.redis
              ((s.redis.sadd s.clock indexKey key).getD
                s.redis) },
        .upload key contentType body (.stamp size))
| .stamp size =>
    some
      (s,
        .upload key contentType body
          (.fill size
            { data := body
              contentType := contentType
              size := body.length
              cachedAt := s.clock }))
| .fill size asset =>
    (s.cache.set order key asset).map
      (fun cache =>
        ({ s with cache := cache },
          .done (uploaded key size contentType)))

/-
  A step of `serveAsset`. The object is fetched in one step;
  an error that comes after `Stat` is one of the read.
-/
def runServe
    (s : AssetStore)
    (key : Key)
    (fault : Fault)
    (order : MapOrder) :
    ServePc → Option (AssetStore × AssetCall)
| .lookup =>
    let (found, cache) := s.cache.get key
    match found with
    | some cached =>
        some
          ({ s with cache := cache },
            .done (served cached (bytes "HIT")))
    | none =>
        some ({ s with cache := cache }, .serveAsset key .fetch)
| .fetch =>
    match s.minio.lookup key, fault with
    | some obj, .none => some (s, .serveAsset key (.stamp obj))
    | some _, .error true _ => some (s, .done readFailed)
    | _, _ => some (s, .done notFound)
| .stamp obj =>
    some
      (s,
        .serveAsset key
          (.fill
            { data := obj.data
              contentType := obj.contentType
              size := obj.data.length
              cachedAt := s.clock }))
| .fill asset =>
    (s.cache.set order key asset).map
      (fun cache =>
        ({ s with cache := cache },
          .done (served asset (bytes "MISS"))))

/- A step of `deleteAsset`; failed commands are logged. -/
def runDelete
    (s : AssetStore)
    (key : Key)
    (fault : Fault) :
    DeletePc → AssetStore × AssetCall
| .removeObject =>
    ({ s with
        minio := fault.apply s.minio (s.minio.erase key) },
      .deleteAsset key .del)
| .del =>
    ({ s with
        redis :=
          fault.apply s.redis (s.redis.del (metaKey key)) },
      .deleteAsset key .srem)
| .srem =>
    ({ s with
        redis :=
          fault.apply s.redis
            ((s.redis.srem s.clock indexKey key).getD
              s.redis) },
      .deleteAsset key .remove)
| .remove =>
    ({ s with cache := s.cache.remove key },
      .done (deleted key))

/- The only command of `getMeta`. -/
def runGetMeta
    (s : AssetStore)
    (key : Key)
    (fault : Fault) :
    Reply :=
  match s.redis.hgetall s.clock (metaKey key), fault with
  | some hash, .none =>
      if hash.len = 0 then notFound else metaFound key hash
  | _, _ => notFound

/- The only command of `listAssets`. -/
def runListAssets
    (s : AssetStore)
    (fault : Fault) :
    Reply :=
  match s.redis.smembers s.clock indexKey, fault with
  | some keys, .none => listed keys
  | _, _ => listFailed

def run
    (s : AssetStore)
    (fault : Fault)
    (order : MapOrder) :
    AssetCall → Option (AssetStore × AssetCall)
| .upload key contentType body pc =>
    runUpload s key contentType body fault order pc
| .serveAsset key pc => runServe s key fault order pc
| .deleteAsset key pc => some (runDelete s key fault pc)
| .getMeta key => some (s, .done (runGetMeta s key fault))
| .listAssets => some (s, .done (runListAssets s fault))
| .done _ => none

end AssetCall

end CacheServer

------------------------------------------------------------
-- The Machine
------------------------------------------------------------

namespace CacheServer

/- The shared stores and every request received so far. -/
structure AssetSystem where
  handler : BinaryHandler
  store : AssetStore
  calls : Table Nat AssetCall

/-
  A request arrives under a new number, takes a step, or
  time passes.
-/
inductive AssetAction
| call (id : Nat) (request : AssetRequest)
| run (id : Nat) (fault : Fault) (order : MapOrder)
| tick (elapsed : Nat)

namespace AssetSystem

/- A handler just started on stores that may hold data. -/
def new
    (handler : BinaryHandler)
    (minio : Table Key StoredObject)
    (redis : Redis)
    (maxBytes : Int)
    (clock : Int) :
    AssetSystem :=
  { handler := handler
    store :=
      { clock := clock
        minio := minio
        redis := redis
        cache := newAssetCache maxBytes }
    calls := ∅ }

def step
    (s : AssetSystem) :
    AssetAction → Option AssetSystem
| .call id request =>
    if id ∈ s.calls then
      none
    else
      some
        { s with
          calls :=
            s.calls.insert id (s.handler.accept request) }
| .run id fault order =>
    match s.calls.lookup id with
    | none => none
    | some call =>
        (call.run s.store fault order).map
          (fun r =>
            { s with
              store := r.1
              calls := s.calls.insert id r.2 })
| .tick elapsed =>
    some
      { s with
        store :=
          { s.store with clock := s.store.clock + elapsed } }

end AssetSystem

/- Interleavings of asset requests are this machine's runs. -/
def assetMachine : Machine AssetSystem AssetAction :=
  { step := AssetSystem.step }

end CacheServer

------------------------------------------------------------
-- What One Step Does
------------------------------------------------------------

namespace CacheServer

namespace BinaryHandler

/- A request is refused, or goes on to its first command. -/
inductive Accepts
    (h : BinaryHandler) :
    AssetRequest → AssetCall → Prop
| upload
    {filename : Key}
    {header sent : Bytes}
    (hReady : h.ready = true)
    (hKey : filename ≠ []) :
    Accepts h (.upload filename header (some sent))
      (.upload filename (uploadContentType header filename)
        (sent.take maxUpload) .putObject)
| serveAsset
    {filename : Key}
    (hReady : h.ready = true)
    (hKey : filename ≠ []) :
    Accepts h (.serveAsset filename)
      (.serveAsset filename .lookup)
| deleteAsset
    {key : Key}
    (hReady : h.ready = true)
    (hKey : key ≠ []) :
    Accepts h (.deleteAsset key)
      (.deleteAsset key .removeObject)
| getMeta
    {key : Key}
    (hRedis : h.hasRedis = true)
    (hKey : key ≠ []) :
    Accepts h (.getMeta key) (.getMeta key)
| listAssets
    (hRedis : h.hasRedis = true) :
    Accepts h .listAssets .listAssets
| refused
    {request : AssetRequest}
    {reply : Reply}
    (hStatus : 400 ≤ reply.status) :
    Accepts h request (.done reply)

theorem accept_cases
    (h : BinaryHandler)
    (request : AssetRequest) :
    h.Accepts request (h.accept request) := by
  cases request with
  | upload filename header body =>
      simp only [accept, acceptUpload]
      split_ifs with hReady hKey
      · exact .refused (by decide)
      · exact .refused (by decide)
      · cases body with
        | none => exact .refused (by decide)
        | some sent => exact .upload (by simpa using hReady) hKey
  | serveAsset filename =>
      simp only [accept]
      split_ifs with hReady hKey
      · exact .refused (by decide)
      · exact .refused (by decide)
      · exact .serveAsset (by simpa using hReady) hKey
  | deleteAsset key =>
      simp only [accept]
      split_ifs with hReady hKey
      · exact .refused (by decide)
      · exact .refused (by decide)
      · exact .deleteAsset (by simpa using hReady) hKey
  | getMeta key =>
      simp only [accept]
      split_ifs with hRedis hKey
      · exact .refused (by decide)
      · exact .refused (by decide)
      · exact .getMeta (by simpa using hRedis) hKey
  | listAssets =>
      simp only [accept]
      split_ifs with hRedis
      · exact .refused (by decide)
      · exact .listAssets (by simpa using hRedis)

end BinaryHandler

namespace AssetCall

/- The steps of `upload`, one by one. -/
inductive UploadStep
    (s : AssetStore)
    (key : Key)
    (contentType : Bytes)
    (body : Bytes)
    (fault : Fault)
    (order : MapOrder) :
    UploadPc → AssetStore → AssetCall → Prop
| stored
    (hFault : fault = .none) :
    UploadStep s key contentType body fault order .putObject
      { s with
        minio :=
          s.minio.insert key
            { data := body, contentType := contentType } }
      (.upload key contentType body (.hset body.length))
| refused
    {applied : Bool}
    {text : Bytes}
    (hFault : fault = .error applied text) :
    UploadStep s key contentType body fault order .putObject
      { s with
        minio :=
          fault.apply s.minio
            (s.minio.insert key
              { data := body, contentType := contentType }) }
      (.done (uploadFailed text))
| hset
    (size : Int) :
    UploadStep s key contentType body fault order (.hset size)
      { s with
        redis :=
          fault.apply s.redis
            ((s.redis.hset s.clock (metaKey key)
              (metaFields key contentType size
                s.clock)).getD s.redis) }
      (.upload key contentType body (.sadd size))
| sadd
    (size : Int) :
    UploadStep s key contentType body fault order (.sadd size)
      { s with
        redis :=
          fault.apply s.redis
            ((s.redis.sadd s.clock indexKey key).getD
              s.redis) }
      (.upload key contentType body (.stamp size))
| stamped
    (size : Int) :
    UploadStep s key contentType body fault order
      (.stamp size) s
      (.upload key contentType body
        (.fill size
          { data := body
            contentType := contentType
            size := body.length
            cachedAt := s.clock }))
| filled
    {size : Int}
    {asset : CachedAsset}
    {cache : AssetCache}
    (hSet : s.cache.set order key asset = some cache) :
    UploadStep s key contentType body fault order
      (.fill size asset) { s with cache := cache }
      (.done (uploaded key size contentType))

/- `upload` takes no other steps. -/
theorem runUpload_step
    {s s' : AssetStore}
    {key : Key}
    {contentType body : Bytes}
    {fault : Fault}
    {order : MapOrder}
    {pc : UploadPc}
    {next : AssetCall}
    (h :
      runUpload s key contentType body fault order pc =
        some (s', next)) :
    UploadStep s key contentType body fault order pc s'
      next := by
  cases pc with
  | putObject =>
      cases fault with
      | none =>
          cases h
          exact .stored rfl
      | error applied text =>
          cases h
          exact .refused rfl
  | hset size =>
      cases h
      exact .hset size
  | sadd size =>
      cases h
      exact .sadd size
  | stamp size =>
      cases h
      exact .stamped size
  | fill size asset =>
      rcases Option.map_eq_some_iff.mp h with
        ⟨cache, hSet, hEq⟩
      cases hEq
      exact .filled hSet

/- The steps of `serveAsset`, one by one. -/
inductive ServeStep
    (s : AssetStore)
    (key : Key)
    (fault : Fault)
    (order : MapOrder) :
    ServePc → AssetStore → AssetCall → Prop
| hit
    {asset : CachedAsset}
    (hFound : s.cache.items.lookup key = some asset) :
    ServeStep s key fault order .lookup
      { s with cache := (s.cache.get key).2 }
      (.done (served asset (bytes "HIT")))
| miss
    (hNone : s.cache.items.lookup key = none) :
    ServeStep s key fault order .lookup
      { s with cache := (s.cache.get key).2 }
      (.serveAsset key .fetch)
| fetched
    {obj : StoredObject}
    (hFound : s.minio.lookup key = some obj)
    (hFault : fault = .none) :
    ServeStep s key fault order .fetch s
      (.serveAsset key (.stamp obj))
| failed
    (reply : Reply) :
    ServeStep s key fault order .fetch s (.done reply)
| stamped
    (obj : StoredObject) :
    ServeStep s key fault order (.stamp obj) s
      (.serveAsset key
        (.fill
          { data := obj.data
            contentType := obj.contentType
            size := obj.data.length
            cachedAt := s.clock }))
| filled
    {asset : CachedAsset}
    {cache : AssetCache}
    (hSet : s.cache.set order key asset = some cache) :
    ServeStep s key fault order (.fill asset)
      { s with cache := cache }
      (.done (served asset (bytes "MISS")))

/- `serveAsset` takes no other steps. -/
theorem runServe_step
    {s s' : AssetStore}
    {key : Key}
    {fault : Fault}
    {order : MapOrder}
    {pc : ServePc}
    {next : AssetCall}
    (h : runServe s key fault order pc = some (s', next)) :
    ServeStep s key fault order pc s' next := by
  cases pc with
  | lookup =>
      cases hFound : s.cache.items.lookup key with
      | none =>
          have hEq :
              runServe s key fault order .lookup =
                some
                  ({ s with cache := (s.cache.get key).2 },
                    .serveAsset key .fetch) := by
            simp [runServe, AssetCache.get, hFound]
          rw [hEq] at h
          cases h
          exact .miss hFound
      | some asset =>
          have hEq :
              runServe s key fault order .lookup =
                some
                  ({ s with cache := (s.cache.get key).2 },
                    .done (served asset (bytes "HIT"))) := by
            simp [runServe, AssetCache.get, hFound]
          rw [hEq] at h
          cases h
          exact .hit hFound
  | fetch =>
      simp only [runServe] at h
      split at h
      · rename_i obj hFound
        cases h
        exact .fetched hFound rfl
      · cases h
        exact .failed readFailed
      · cases h
        exact .failed notFound
  | stamp obj =>
      cases h
      exact .stamped obj
  | fill asset =>
      rcases Option.map_eq_some_iff.mp h with
        ⟨cache, hSet, hEq⟩
      cases hEq
      exact .filled hSet

end AssetCall

namespace AssetSystem

/- A step starts a request, runs one, or lets time pass. -/
theorem step_eq
    {s s' : AssetSystem}
    {a : AssetAction}
    (h : s.step a = some s') :
    (∃ id request,
      a = .call id request ∧ id ∉ s.calls ∧
        s' =
          { s with
            calls :=
              s.calls.insert id
                (s.handler.accept request) }) ∨
      (∃ id fault order call store next,
        a = .run id fault order ∧
          s.calls.lookup id = some call ∧
          call.run s.store fault order = some (store, next) ∧
          s' =
            { s with
              store := store
              calls := s.calls.insert id next }) ∨
      (∃ elapsed : Nat,
        a = .tick elapsed ∧
          s' =
            { s with
              store :=
                { s.store with
                  clock := s.store.clock + elapsed } }) := by
  cases a with
  | call id request =>
      by_cases hMem : id ∈ s.calls
      · simp [step, hMem] at h
      · simp only [step, hMem, if_false,
          Option.some.injEq] at h
        exact Or.inl ⟨id, request, rfl, hMem, h.symm⟩
  | run id fault order =>
      cases hCall : s.calls.lookup id with
      | none =>
          simp [step, hCall] at h
      | some call =>
          cases hRun : call.run s.store fault order with
          | none =>
              simp [step, hCall, hRun] at h
          | some r =>
              simp only [step, hCall, hRun, Option.map_some,
                Option.some.injEq] at h
              exact
                Or.inr (Or.inl
                  ⟨id, fault, order, call, r.1, r.2, rfl,
                    hCall, hRun, h.symm⟩)
  | tick elapsed =>
      simp only [step, Option.some.injEq] at h
      exact Or.inr (Or.inr ⟨elapsed, rfl, h.symm⟩)

end AssetSystem

end CacheServer
