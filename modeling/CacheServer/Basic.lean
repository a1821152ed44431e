import CacheServer.Lib.Table

/-
  Values shared by every component of the server.

  Go strings and byte slices are byte sequences. Readings of
  the clock and durations are integers: nanoseconds.

  Key definitions include:
    * `CacheServer.Bytes`
    * `CacheServer.bytes`
    * `CacheServer.decimal`
-/

------------------------------------------------------------
-- Bytes
------------------------------------------------------------

namespace CacheServer

/- A Go string or byte slice. -/
abbrev Bytes :=
  List UInt8

/- Cache keys are Go strings, values are byte slices. -/
abbrev Key := Bytes

abbrev Value := Bytes

/- The UTF-8 bytes of a text. -/
def bytes
    (text : String) :
    Bytes :=
  text.toList.flatMap String.utf8EncodeChar

/- A number as `%d` prints it. -/
def decimal
    (n : Int) :
    Bytes :=
  bytes (toString n)

end CacheServer
