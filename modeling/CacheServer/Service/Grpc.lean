import CacheServer.Service.Calls

/-
  The gRPC methods of `internal/grpcserver/server.go`.

  The messages are those of `api/cachepb/cache.go`. A list of
  entries may have nil elements, since the codec is JSON.

  Key definitions include:
    * `CacheServer.KeyValue`
    * `CacheServer.BatchGetResponse`
    * `CacheServer.Grpc.get`
    * `CacheServer.Grpc.set`
    * `CacheServer.Grpc.batchGet`
    * `CacheServer.Grpc.batchSet`
-/

------------------------------------------------------------
-- Messages
------------------------------------------------------------

namespace CacheServer

inductive CacheHitSource
| unspecified
| l1
| l2
| origin
deriving DecidableEq, Repr

structure GetResponse where
  value : Value
  source : CacheHitSource
  latencyNs : Int
deriving DecidableEq, Repr

structure SetResponse where
  success : Bool
deriving DecidableEq, Repr

structure DeleteResponse where
  success : Bool
deriving DecidableEq, Repr

structure CacheEntry where
  value : Value
  source : CacheHitSource
  found : Bool
deriving DecidableEq, Repr

structure BatchGetResponse where
  entries : Table Key CacheEntry
  hits : Int32
  misses : Int32

structure KeyValue where
  key : Key
  value : Value
deriving DecidableEq, Repr

structure BatchSetResponse where
  successCount : Int32
  errorCount : Int32
deriving DecidableEq, Repr

structure StatsResponse where
  l1Hits : Int
  l1Misses : Int
  l1HitRate : ℚ
  l2Hits : Int
  l2Misses : Int
  l2HitRate : ℚ
  originCalls : Int
  originErrors : Int
  coalescedCalls : Int
  totalRequests : Int
  avgLatencyUs : ℚ
  overallHitRate : ℚ
  l1Size : Int32
  l2PoolActiveConns : UInt32

structure HealthResponse where
  status : Bytes
  redisConnected : Bool
  uptimeSeconds : Int
deriving DecidableEq, Repr

/-
  Why a method fails: `key is required`; `cache get failed`
  with the error of `Manager.Get`; or the error of a write.
-/
inductive GrpcError
| keyRequired
| getFailed (key : Key) (cause : OriginError)
| writeFailed (text : Bytes)
deriving DecidableEq, Repr

/- What a method returns; a response may come with an error. -/
structure Returned (α : Type) where
  response : Option α
  error : Option GrpcError
deriving DecidableEq

/- A method that fails before it has a response. -/
def Returned.failed
    {α : Type}
    (error : GrpcError) :
    Returned α :=
  { response := none, error := some error }

def Returned.ok
    {α : Type}
    (response : α) :
    Returned α :=
  { response := some response, error := none }

end CacheServer

------------------------------------------------------------
-- Methods
------------------------------------------------------------

namespace CacheServer

namespace Grpc

/- Every hit is reported as one of L1. -/
def get
    (key : Key) :
    ServiceProgram (Returned GetResponse) :=
  if key = [] then
    .ret (.failed .keyRequired)
  else do
    let start ← Program.perform ServiceCall.now
    let result ← Program.perform (ServiceCall.get key)
    let stop ← Program.perform ServiceCall.now
    match result with
    | .originFailed failed cause =>
        return .failed (.getFailed failed cause)
    | .ok value =>
        return .ok {
          value := value
          source := .l1
          latencyNs := stop - start }

/- The error of a write goes with the response. -/
def written
    (error : Option Bytes) :
    Returned SetResponse :=
  { response := some { success := error.isNone }
    error := error.map .writeFailed }

def set
    (key : Key)
    (value : Value) :
    ServiceProgram (Returned SetResponse) :=
  if key = [] then
    .ret (.failed .keyRequired)
  else do
    let error ← Program.perform (ServiceCall.set key value)
    return written error

def delete
    (key : Key) :
    ServiceProgram (Returned DeleteResponse) :=
  if key = [] then
    .ret (.failed .keyRequired)
  else do
    let error ← Program.perform (ServiceCall.invalidate key)
    return {
      response := some { success := error.isNone }
      error := error.map .writeFailed }

/- The entry for a key, and the count of hits or misses. -/
def record
    (batch : BatchGetResponse)
    (key : Key) :
    GetResult → BatchGetResponse
| .originFailed _ _ =>
    { batch with
      entries :=
        batch.entries.insert key
          { value := []
            source := .unspecified
            found := false }
      misses := batch.misses + 1 }
| .ok value =>
    { batch with
      entries :=
        batch.entries.insert key
          { value := value
            source := .unspecified
            found := true }
      hits := batch.hits + 1 }

/- One round of the loop of `BatchGet`. -/
def getEntry
    (batch : BatchGetResponse)
    (key : Key) :
    ServiceProgram BatchGetResponse := do
  let result ← Program.perform (ServiceCall.get key)
  return record batch key result

def emptyBatch : BatchGetResponse :=
  { entries := ∅, hits := 0, misses := 0 }

/- A key that comes again replaces its entry. -/
def batchGet
    (keys : List Key) :
    ServiceProgram (Returned BatchGetResponse) :=
  (Program.loop getEntry emptyBatch keys).bind
    (fun batch => .ret (.ok batch))

/- The count of the errors, or of the writes without one. -/
def tally
    (counts : BatchSetResponse) :
    Option Bytes → BatchSetResponse
| some _ => { counts with errorCount := counts.errorCount + 1 }
| none =>
    { counts with successCount := counts.successCount + 1 }

/- One round of `BatchSet`; a nil entry is dereferenced. -/
def setEntry
    (counts : BatchSetResponse) :
    Option KeyValue → ServiceProgram BatchSetResponse
| none => .crash
| some e => do
    let error ←
      Program.perform (ServiceCall.set e.key e.value)
    return tally counts error

def noCounts : BatchSetResponse :=
  { successCount := 0, errorCount := 0 }

def batchSet
    (entries : List (Option KeyValue)) :
    ServiceProgram (Returned BatchSetResponse) :=
  (Program.loop setEntry noCounts entries).bind
    (fun counts => .ret (.ok counts))

def stats : ServiceProgram (Returned StatsResponse) := do
  let st ← CacheServer.stats
  return .ok {
    l1Hits := st.metrics.l1Hits
    l1Misses := st.metrics.l1Misses
    l1HitRate := st.metrics.l1HitRate
    l2Hits := st.metrics.l2Hits
    l2Misses := st.metrics.l2Misses
    l2HitRate := st.metrics.l2HitRate
    originCalls := st.metrics.originCalls
    originErrors := st.metrics.originErrors
    coalescedCalls := st.metrics.coalescedCalls
    totalRequests := st.metrics.totalRequests
    avgLatencyUs := st.metrics.avgLatencyUs
    overallHitRate := st.metrics.overallHitRate
    l1Size := Int32.ofNat st.l1Size
    l2PoolActiveConns := st.l2Conns }

/- The server never looks at Redis for this. -/
def health
    (startTime : Int) :
    ServiceProgram (Returned HealthResponse) := do
  let now ← Program.perform ServiceCall.now
  return .ok {
    status := bytes "healthy"
    redisConnected := true
    uptimeSeconds := (now - startTime).tdiv 1000000000 }

end Grpc

end CacheServer
