import CacheServer.Lib.Json

/-
  The first value of a stream.

  A decoder reads until a value is complete and leaves what
  follows. A number is complete only with the next byte.

  Key definitions include:
    * `Json.ended`
    * `Json.readFirst`

  Key theorems include:
    * `Json.readFirst_prefix`
    * `Json.readFirst_of_read`
    * `Json.decode_readFirst_iff`
-/

------------------------------------------------------------
-- Reading One Value
------------------------------------------------------------

namespace Json

/- A value is complete, and this byte is not part of it. -/
def ended
    (s : State)
    (b : UInt8) :
    Bool :=
  match s.mode with
  | .done _ => true
  | .num pc _ => s.stack.isEmpty && (numNext pc b).isNone
  | _ => false

def firstFrom
    (limit : Option Nat) :
    State → List UInt8 → Option Json
| s, [] => finish s
| s, b :: rest =>
    if ended s b then
      finish s
    else
      match step limit s b with
      | none => none
      | some t => firstFrom limit t rest

/- `Decoder.Decode`, up to the value that is decoded. -/
def readFirst
    (limit : Option Nat)
    (stream : List UInt8) :
    Option Json :=
  firstFrom limit start stream

end Json

------------------------------------------------------------
-- Streams And Texts
------------------------------------------------------------

namespace Json

variable {limit : Option Nat}
variable {s t : State}
variable {v : Json}

theorem firstFrom_prefix
    {stream : List UInt8}
    (h : firstFrom limit s stream = some v) :
    ∃ text rest u,
      stream = text ++ rest ∧
        (reader limit).exec s text = some u ∧
          finish u = some v := by
  induction stream generalizing s with
  | nil => exact ⟨[], [], s, rfl, rfl, h⟩
  | cons b stream ih =>
      rw [firstFrom] at h
      by_cases hEnded : ended s b = true
      · rw [if_pos hEnded] at h
        exact ⟨[], b :: stream, s, rfl, rfl, h⟩
      · rw [if_neg hEnded] at h
        cases hStep : step limit s b with
        | none =>
            rw [hStep] at h
            cases h
        | some t =>
            rw [hStep] at h
            rcases ih h with ⟨text, rest, u, rfl, hExec, hEnd⟩
            exact
              ⟨b :: text, rest, u, rfl,
                Machine.exec_cons.mpr ⟨t, hStep, hExec⟩, hEnd⟩

/- The value that is read is that of a text in front. -/
theorem readFirst_prefix
    {stream : List UInt8}
    (h : readFirst limit stream = some v) :
    ∃ text rest,
      stream = text ++ rest ∧ read limit text = some v := by
  rcases firstFrom_prefix h with
    ⟨text, rest, u, hSplit, hExec, hEnd⟩
  refine ⟨text, rest, hSplit, ?_⟩
  rw [read, hExec]
  exact hEnd

/- Whitespace after a value changes nothing. -/
theorem exec_done
    {text : List UInt8}
    (hDone : s.mode = .done v)
    (h : (reader limit).exec s text = some t) :
    t = s := by
  induction text with
  | nil => exact (Option.some.inj h).symm
  | cons b text ih =>
      rcases Machine.exec_cons.mp h with ⟨u, hStep, hRest⟩
      have hSame : u = s := by
        have hEnd : endValue s b = some u := by
          simpa [reader, step, hDone] using hStep
        unfold endValue at hEnd
        rw [hDone] at hEnd
        simp only at hEnd
        split_ifs at hEnd with hSpace
        exact (Option.some.inj hEnd).symm
      subst hSame
      exact ih hRest

theorem done_of_finish
    (hOther : ∀ lexeme, v ≠ .num lexeme)
    (hEnd : finish s = some v) :
    s.mode = .done v := by
  unfold finish at hEnd
  split_ifs at hEnd
  cases hMode : s.mode with
  | done w =>
      rw [hMode] at hEnd
      exact congrArg Mode.done (Option.some.inj hEnd)
  | num pc lexeme =>
      rw [hMode] at hEnd
      simp only at hEnd
      split_ifs at hEnd
      exact absurd (Option.some.inj hEnd).symm (hOther lexeme)
  | _ =>
      rw [hMode] at hEnd
      cases hEnd

/- A value that has ended is the one that is read. -/
theorem finish_of_ended
    {b : UInt8}
    {text : List UInt8}
    (hOther : ∀ lexeme, v ≠ .num lexeme)
    (hEnded : ended s b = true)
    (h : (reader limit).exec s (b :: text) = some t)
    (hEnd : finish t = some v) :
    finish s = some v := by
  cases hMode : s.mode with
  | done w => exact exec_done hMode h ▸ hEnd
  | num pc lexeme =>
      simp only [ended, hMode, Bool.and_eq_true,
        List.isEmpty_iff, Option.isNone_iff_eq_none] at hEnded
      rcases Machine.exec_cons.mp h with ⟨u, hStep, hRest⟩
      simp only [reader, step, hMode, hEnded.1, hEnded.2,
        deliver, endValue] at hStep
      split_ifs at hStep with hFinal hSpace
      have hDone : u.mode = .done (.num lexeme) := by
        rw [← Option.some.inj hStep]
      have hSame : t = u := exec_done hDone hRest
      have hValue := done_of_finish hOther (hSame ▸ hEnd)
      rw [hDone] at hValue
      exact absurd (Mode.done.inj hValue).symm (hOther lexeme)
  | _ =>
      rw [ended, hMode] at hEnded
      cases hEnded

theorem firstFrom_of_exec
    {text : List UInt8}
    (rest : List UInt8)
    (hOther : ∀ lexeme, v ≠ .num lexeme)
    (h : (reader limit).exec s text = some t)
    (hEnd : finish t = some v) :
    firstFrom limit s (text ++ rest) = some v := by
  induction text generalizing s with
  | nil =>
      have hSame : s = t := Option.some.inj h
      subst hSame
      cases rest with
      | nil => exact hEnd
      | cons b rest =>
          have hEnded : ended s b = true := by
            rw [ended, done_of_finish hOther hEnd]
          rw [List.nil_append, firstFrom, if_pos hEnded]
          exact hEnd
  | cons b text ih =>
      rw [List.cons_append, firstFrom]
      by_cases hEnded : ended s b = true
      · rw [if_pos hEnded]
        exact finish_of_ended hOther hEnded h hEnd
      · rcases Machine.exec_cons.mp h with ⟨u, hStep, hRest⟩
        have hSame : step limit s b = some u := hStep
        rw [if_neg hEnded, hSame]
        exact ih hRest

/- A text that is no number may be followed by anything. -/
theorem readFirst_of_read
    {text : List UInt8}
    (rest : List UInt8)
    (hOther : ∀ lexeme, v ≠ .num lexeme)
    (h : read limit text = some v) :
    readFirst limit (text ++ rest) = some v := by
  rcases Option.bind_eq_some_iff.mp h with ⟨t, hExec, hEnd⟩
  exact firstFrom_of_exec rest hOther hExec hEnd

/-
  A decoder that takes no number takes exactly the streams
  that begin with a text that it takes.
-/
theorem decode_readFirst_iff
    {σ : Type}
    {decode : Json → Option σ}
    (hNumbers : ∀ lexeme, decode (.num lexeme) = none)
    {stream : List UInt8}
    {x : σ} :
    (readFirst limit stream).bind decode = some x ↔
      ∃ text rest,
        stream = text ++ rest ∧
          (read limit text).bind decode = some x := by
  constructor
  · intro h
    rcases Option.bind_eq_some_iff.mp h with ⟨v, hRead, hTake⟩
    rcases readFirst_prefix hRead with
      ⟨text, rest, hSplit, hText⟩
    refine ⟨text, rest, hSplit, ?_⟩
    rw [hText]
    exact hTake
  · intro h
    rcases h with ⟨text, rest, rfl, hDecode⟩
    rcases Option.bind_eq_some_iff.mp hDecode with
      ⟨v, hText, hTake⟩
    have hOther : ∀ lexeme, v ≠ .num lexeme := by
      intro lexeme hEq
      rw [hEq, hNumbers] at hTake
      cases hTake
    rw [readFirst_of_read rest hOther hText]
    exact hTake

end Json
