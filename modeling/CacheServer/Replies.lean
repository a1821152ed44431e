import CacheServer.Basic

/-
  Replies of the HTTP handlers.

  Both handler packages write their replies with `http.Error`
  or with a JSON body of their own.

  Key definitions include:
    * `CacheServer.Reply`
    * `CacheServer.httpError`
    * `CacheServer.jsonReply`
-/

------------------------------------------------------------
-- Replies
------------------------------------------------------------

namespace CacheServer

/- A reply: the headers are those that the handler sets. -/
structure Reply where
  status : Nat
  headers : List (String × Bytes)
  body : Bytes
deriving DecidableEq, Repr

/- `http.Error`. -/
def httpError
    (text : Bytes)
    (status : Nat) :
    Reply :=
  { status := status
    headers :=
      [("Content-Type", bytes "text/plain; charset=utf-8"),
        ("X-Content-Type-Options", bytes "nosniff")]
    body := text ++ bytes "\n" }

/- A JSON object whose only member is the error text. -/
def errorJson
    (text : Bytes) :
    Bytes :=
  bytes "\x7b\"error\":\"" ++ text ++ bytes "\"\x7d"

def keyRequired : Reply :=
  httpError (errorJson (bytes "key required")) 400

def jsonReply
    (status : Nat)
    (body : Bytes) :
    Reply :=
  { status := status
    headers := [("Content-Type", bytes "application/json")]
    body := body }

end CacheServer
