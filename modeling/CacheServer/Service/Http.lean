import CacheServer.Replies
import CacheServer.Service.Calls
import CacheServer.Lib.JsonEncode

/-
  The HTTP handlers of `internal/handler/handler.go`.

  A request body is given as what it is decoded to; none is
  one that cannot be decoded. Decoded strings are text. Bytes
  do not tell a nil slice from an empty one, so `batchGet` is
  told for which keys an empty value is a nil slice.

  Key definitions include:
    * `CacheServer.HttpReply`
    * `CacheServer.Http.getCache`
    * `CacheServer.Http.putCache`
    * `CacheServer.Http.deleteCache`
    * `CacheServer.Http.batchGet`
    * `CacheServer.Http.getStats`
-/

------------------------------------------------------------
-- Replies
------------------------------------------------------------

namespace CacheServer

/-
  What a handler writes. Statistics are kept as they are
  before they are encoded.
-/
inductive HttpReply
| written (reply : Reply)
| stats (stats : Stats)

namespace Http

def internalError : Reply :=
  httpError (errorJson (bytes "internal error")) 500

def invalidBody : Reply :=
  httpError (errorJson (bytes "invalid body")) 400

/- A JSON object whose only member is the status. -/
def statusJson
    (text : Bytes) :
    Bytes :=
  bytes "\x7b\"status\":\"" ++ text ++ bytes "\"\x7d"

end Http

end CacheServer

------------------------------------------------------------
-- Single Keys
------------------------------------------------------------

namespace CacheServer

namespace Http

/- A value is written as it is. -/
def getCache
    (key : Key) :
    ServiceProgram HttpReply :=
  if key = [] then
    .ret (.written keyRequired)
  else do
    let result ← Program.perform (ServiceCall.get key)
    match result with
    | .originFailed _ _ => return .written internalError
    | .ok value => return .written (jsonReply 200 value)

/- The body is the text of its value. -/
def putCache
    (key : Key)
    (body : Option String) :
    ServiceProgram HttpReply :=
  if key = [] then
    .ret (.written keyRequired)
  else
    match body with
    | none => .ret (.written invalidBody)
    | some value => do
        let error ←
          Program.perform (ServiceCall.set key (bytes value))
        match error with
        | some _ => return .written internalError
        | none =>
            return .written
              (jsonReply 201 (statusJson (bytes "ok")))

def deleteCache
    (key : Key) :
    ServiceProgram HttpReply :=
  if key = [] then
    .ret (.written keyRequired)
  else do
    let error ← Program.perform (ServiceCall.invalidate key)
    match error with
    | some _ => return .written internalError
    | none =>
        return .written
          (jsonReply 200 (statusJson (bytes "invalidated")))

end Http

end CacheServer

------------------------------------------------------------
-- Batches And Statistics
------------------------------------------------------------

namespace CacheServer

namespace Http

def fetchFailed : Bytes :=
  errorJson (bytes "fetch failed")

/- A result as `json.RawMessage`; a nil slice is none. -/
def rawMessage
    (isNil : Bool) :
    GetResult → Option Bytes
| .originFailed _ _ => some fetchFailed
| .ok value => if value = [] ∧ isNil then none else some value

/- One round of the loop of `batchGet`. -/
def getMessage
    (isNil : String → Bool)
    (results : Table String (Option Bytes))
    (key : String) :
    ServiceProgram (Table String (Option Bytes)) := do
  let result ← Program.perform (ServiceCall.get (bytes key))
  return results.insert key (rawMessage (isNil key) result)

def messages
    (results : Table String (Option Bytes)) :
    Json.Messages :=
  results.entries.map (fun e => (e.1.toList, e.2))

/-
  The error of the encoder is dropped, and nothing has been
  written then. Its scanner nests up to 10000 containers.
-/
def encoded
    (results : Table String (Option Bytes)) :
    Reply :=
  jsonReply 200
    ((Json.encodeMap (some 10000) (messages results)).getD [])

/- The body is the list of its keys. -/
def batchGet
    (isNil : String → Bool)
    (body : Option (List String)) :
    ServiceProgram HttpReply :=
  match body with
  | none => .ret (.written invalidBody)
  | some keys =>
      (Program.loop (getMessage isNil) ∅ keys).bind
        (fun results => .ret (.written (encoded results)))

def getStats : ServiceProgram HttpReply := do
  let stats ← CacheServer.stats
  return .stats stats

def health : ServiceProgram HttpReply :=
  .ret
    (.written
      (jsonReply 200
        (bytes
          ("\x7b\"status\":\"healthy\"," ++
            "\"service\":\"cache-server\"\x7d"))))

end Http

end CacheServer
