import CacheServer.Service.HttpBatches

/-
  The simulated origin, and the latency it is configured for.

  `NewSimulated` takes a quarter of the latency as the jitter,
  and `Fetch` draws a number below it. What is configured is
  not checked in between.

  Key definitions include:
    * `CacheServer.SimulatedOrigin`
    * `CacheServer.SimulatedOrigin.fetch`
    * `CacheServer.envDuration`
    * `CacheServer.SimulatedOrigin.Safe`

  Key theorems include:
    * `CacheServer.SimulatedOrigin.fetch_error`
    * `CacheServer.SimulatedOrigin.safe_iff`
    * `CacheServer.SimulatedOrigin.Safe.answers`
    * `CacheServer.origin_latency_safe_iff`
-/

------------------------------------------------------------
-- The Simulated Origin
------------------------------------------------------------

namespace CacheServer

/- A source of random numbers, each below its bound. -/
structure Rand where
  draw : Int64 → Int64
  draw_nonneg : ∀ n, 0 < n → 0 ≤ draw n
  draw_lt : ∀ n, 0 < n → draw n < n

namespace Rand

/- `rand.Int63n` panics if its argument is not positive. -/
def int63n
    (rand : Rand)
    (n : Int64) :
    Option Int64 :=
  if 0 < n then some (rand.draw n) else none

theorem toInt_pred
    {n : Int64}
    (hPos : 0 < n) :
    (n - 1).toInt = n.toInt - 1 := by
  have hInt := Int64.lt_iff_toInt_lt.mp hPos
  rw [Int64.toInt_zero] at hInt
  have hLt := n.toInt_lt
  rw [Int64.toInt_sub, Int64.toInt_one, Int.bmod_eq_of_le]
  · omega
  · omega

/- The source that always draws the largest number. -/
def largest : Rand where
  draw := fun n => n - 1
  draw_nonneg := by
    intro n hPos
    have hInt := Int64.lt_iff_toInt_lt.mp hPos
    rw [Int64.le_iff_toInt_le, toInt_pred hPos]
    rw [Int64.toInt_zero] at hInt ⊢
    omega
  draw_lt := by
    intro n hPos
    rw [Int64.lt_iff_toInt_lt, toInt_pred hPos]
    omega

end Rand

/- Durations are in nanoseconds. -/
structure SimulatedOrigin where
  baseLatency : Int64
  jitter : Int64
deriving DecidableEq

/- `NewSimulated`. The quotient is cut off towards zero. -/
def newSimulated
    (baseLatency : Int64) :
    SimulatedOrigin :=
  { baseLatency := baseLatency
    jitter := baseLatency / 4 }

/-
  What a `Fetch` meets: the nanoseconds until its context is
  done, if it ever is; whether `select` takes the timer when
  both are ready; and what goes into the payload.
-/
structure FetchInput where
  done : Option Nat
  timer : Bool
  random : Fin 1000000
  millis : Int

namespace SimulatedOrigin

/- The latency of one call, if the draw does not panic. -/
def delay
    (o : SimulatedOrigin)
    (rand : Rand) :
    Option Int64 :=
  (rand.int63n o.jitter).map (fun n => o.baseLatency + n)

/- The timer fires no later than the context is done. -/
def fires
    (delay : Int64)
    (input : FetchInput) :
    Bool :=
  match input.done with
  | none => true
  | some done =>
      delay.toInt.toNat < done ||
        (delay.toInt.toNat = done && input.timer)

/- `Fetch`, where `none` is a panic. -/
def fetch
    (o : SimulatedOrigin)
    (rand : Rand)
    (key : Key)
    (input : FetchInput) :
    Option OriginReply :=
  (o.delay rand).map
    (fun delay =>
      if fires delay input then
        .value (simulatedPayload key input.random input.millis)
      else
        .error .cancelled)

end SimulatedOrigin

end CacheServer

------------------------------------------------------------
-- Configuration
------------------------------------------------------------

namespace CacheServer

/-
  A duration from the environment. `os.Getenv` is empty for a
  variable that is not set, and `time.ParseDuration` may take
  or refuse any text.
-/
def envDuration
    (getenv : String → String)
    (parseDuration : String → Option Int64)
    (key : String)
    (fallback : Int64) :
    Int64 :=
  if getenv key ≠ "" then
    (parseDuration (getenv key)).getD fallback
  else
    fallback

/- `Config.OriginLatency`, by default ten milliseconds. -/
def originLatency
    (getenv : String → String)
    (parseDuration : String → Option Int64) :
    Int64 :=
  envDuration getenv parseDuration "ORIGIN_LATENCY" 10000000

/- The origin that the server is started with. -/
def serverOrigin
    (getenv : String → String)
    (parseDuration : String → Option Int64) :
    SimulatedOrigin :=
  newSimulated (originLatency getenv parseDuration)

end CacheServer

------------------------------------------------------------
-- Latencies That Are Safe
------------------------------------------------------------

namespace CacheServer

namespace SimulatedOrigin

variable {o : SimulatedOrigin}
variable {rand : Rand}

/- The delay is the sum it is meant to be. -/
def Exact
    (o : SimulatedOrigin)
    (rand : Rand) :
    Prop :=
  ∀ delay,
    o.delay rand = some delay →
      delay.toInt =
        o.baseLatency.toInt + (rand.draw o.jitter).toInt

/- No `Fetch` panics or computes its delay wrongly. -/
def Safe
    (o : SimulatedOrigin) :
    Prop :=
  ∀ rand key input,
    (o.fetch rand key input).isSome = true ∧ o.Exact rand

/- Only a context that is done lets a `Fetch` fail. -/
theorem fetch_error
    {key : Key}
    {input : FetchInput}
    {cause : OriginError}
    (h : o.fetch rand key input = some (.error cause)) :
    cause = .cancelled ∧ input.done.isSome = true := by
  rcases Option.map_eq_some_iff.mp h with ⟨delay, _, hReply⟩
  cases hDone : input.done with
  | none =>
      simp [fires, hDone] at hReply
  | some done =>
      split at hReply
      · cases hReply
      · cases hReply
        exact ⟨rfl, rfl⟩

theorem fetch_isSome_iff
    (key : Key)
    (input : FetchInput) :
    (o.fetch rand key input).isSome = true ↔ 0 < o.jitter := by
  simp only [fetch, delay, Rand.int63n, Option.isSome_map]
  split
  · rename_i hPos
    exact iff_of_true rfl hPos
  · rename_i hPos
    exact iff_of_false (by simp) hPos

/- Adding a small draw is exact below the largest number. -/
theorem exact_of_le
    (hPos : 0 < o.jitter)
    (hMax :
      o.baseLatency.toInt + o.jitter.toInt ≤ 2 ^ 63)
    (hBase : 0 ≤ o.baseLatency.toInt) :
    o.Exact rand := by
  intro d hDelay
  have hLow :=
    Int64.le_iff_toInt_le.mp (rand.draw_nonneg o.jitter hPos)
  have hHigh :=
    Int64.lt_iff_toInt_lt.mp (rand.draw_lt o.jitter hPos)
  rw [Int64.toInt_zero] at hLow
  simp only [delay, Rand.int63n, hPos, if_true,
    Option.map_some, Option.some.injEq] at hDelay
  rw [← hDelay, Int64.toInt_add, Int.bmod_eq_of_le]
  · omega
  · omega

/- The largest draw shows how far the latency may go. -/
theorem le_of_exact
    (hPos : 0 < o.jitter)
    (hExact : o.Exact Rand.largest) :
    o.baseLatency.toInt + o.jitter.toInt ≤ 2 ^ 63 := by
  have hDraw :
      (Rand.largest.draw o.jitter).toInt =
        o.jitter.toInt - 1 :=
    Rand.toInt_pred hPos
  have hSum :=
    hExact (o.baseLatency + Rand.largest.draw o.jitter)
      (by simp [delay, Rand.int63n, hPos])
  have hLt :=
    (o.baseLatency + Rand.largest.draw o.jitter).toInt_lt
  rw [hSum, hDraw] at hLt
  omega

theorem jitter_toInt
    (latency : Int64) :
    (newSimulated latency).jitter.toInt =
      latency.toInt.tdiv 4 := by
  have hNe : (4 : Int64) ≠ -1 := by decide
  exact Int64.toInt_div_of_ne_right latency 4 hNe

theorem jitter_pos_iff
    (latency : Int64) :
    0 < (newSimulated latency).jitter ↔
      4 ≤ latency.toInt := by
  rw [Int64.lt_iff_toInt_lt, jitter_toInt, Int64.toInt_zero]
  constructor
  · intro hPos
    by_contra hLess
    have hZero : latency.toInt.tdiv 4 ≤ (3 : Int).tdiv 4 :=
      Int.tdiv_le_tdiv (by omega) (by omega)
    exact absurd (lt_of_lt_of_le hPos hZero) (by decide)
  · intro hLarge
    have hOne : 1 ≤ latency.toInt.tdiv 4 :=
      Int.le_tdiv_of_mul_le (by omega) (by omega)
    omega

/- A latency is safe from four nanoseconds to 233 years. -/
theorem safe_iff
    (latency : Int64) :
    (newSimulated latency).Safe ↔
      4 ≤ latency.toInt ∧
        latency.toInt + latency.toInt / 4 ≤ 2 ^ 63 := by
  have hQuarter :
      4 ≤ latency.toInt →
        (newSimulated latency).jitter.toInt =
          latency.toInt / 4 := by
    intro hLarge
    rw [jitter_toInt]
    exact Int.tdiv_eq_ediv_of_nonneg (by omega)
  constructor
  · intro hSafe
    have hOne :=
      hSafe Rand.largest []
        { done := none, timer := true, random := 0
          millis := 0 }
    have hPos := (fetch_isSome_iff _ _).mp hOne.1
    have hLarge := (jitter_pos_iff latency).mp hPos
    have hMax := le_of_exact hPos hOne.2
    rw [hQuarter hLarge] at hMax
    exact ⟨hLarge, hMax⟩
  · intro hRange rand key input
    have hPos := (jitter_pos_iff latency).mpr hRange.1
    refine ⟨(fetch_isSome_iff key input).mpr hPos, ?_⟩
    refine exact_of_le hPos ?_ ?_
    · rw [hQuarter hRange.1]
      exact hRange.2
    · exact le_trans (by decide) hRange.1

/- A `Get` that waits for a safe origin is answered. -/
theorem Safe.answers
    (hSafe : o.Safe)
    (cfg : ManagerConfig)
    (s : Shared)
    (c : Caller)
    (fault : Fault)
    (rand : Rand)
    (input : FetchInput)
    (hDone :
      input.done.isSome = true → c.cancelled = true) :
    ∃ reply t pc,
      o.fetch rand c.key input = some reply ∧
        GetPc.originCall.run cfg s c fault reply =
          some (t, pc) := by
  rcases Option.isSome_iff_exists.mp
      (hSafe rand c.key input).1 with ⟨reply, hFetch⟩
  refine ⟨reply, ?_⟩
  cases reply with
  | value value => exact ⟨_, _, hFetch, rfl⟩
  | error cause =>
      rcases fetch_error hFetch with ⟨rfl, hSome⟩
      exact
        ⟨s, .countOriginErr .cancelled, hFetch,
          by simp [GetPc.run, hDone hSome]⟩

end SimulatedOrigin

/-
  Whatever the environment holds and however durations are
  read, the origin of the server is safe exactly for a
  latency in these bounds.
-/
theorem origin_latency_safe_iff
    (getenv : String → String)
    (parseDuration : String → Option Int64) :
    (serverOrigin getenv parseDuration).Safe ↔
      4 ≤ (originLatency getenv parseDuration).toInt ∧
        (originLatency getenv parseDuration).toInt +
            (originLatency getenv parseDuration).toInt / 4 ≤
          2 ^ 63 :=
  SimulatedOrigin.safe_iff _

/- `ORIGIN_LATENCY=0` lets every `Fetch` panic. -/
theorem origin_latency_zero_panics :
    ¬ ∀ (getenv : String → String)
        (parseDuration : String → Option Int64),
      (serverOrigin getenv parseDuration).Safe := by
  intro h
  have hZero :=
    (h (fun _ => "0")
      (fun text => if text = "0" then some 0 else none)
      Rand.largest []
      { done := none, timer := true, random := 0
        millis := 0 }).1
  exact absurd hZero (by decide)

end CacheServer
