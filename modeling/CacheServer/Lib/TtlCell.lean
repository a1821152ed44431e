import Mathlib.Order.Basic
import Mathlib.Algebra.Order.Group.Int

/-
  A key of an abstract store with one lifetime.

  A cell remembers the last write of a key. A value is
  answered for as long as its lifetime; it may be answered
  for a further while, the lag, by copies of it that were
  made in time; after that it is not answered again.

  Key definitions include:
    * `TtlCell`
    * `TtlCell.MayAnswer`

  Key theorems include:
    * `TtlCell.answer_of_alive`
    * `TtlCell.answer_of_over`
-/

------------------------------------------------------------
-- Cells And Their Answers
------------------------------------------------------------

/- The last write of a key, if it is known. -/
inductive TtlCell (V : Type)
| unknown
| absent
| stored (value : V) (writtenAt : Int)
deriving DecidableEq

namespace TtlCell

variable {V : Type}

/-
  What a read at `now` may find for a cell, given how long a
  write lives and how far its copies may lag behind.
-/
def MayAnswer
    (life : Int)
    (lag : Int)
    (now : Int) :
    TtlCell V → Option V → Prop
| .unknown, _ => True
| .absent, answer => answer = none
| .stored _ writtenAt, none => writtenAt + life < now
| .stored value writtenAt, some found =>
    found = value ∧ now ≤ writtenAt + life + lag

/- Within its lifetime a value is answered. -/
theorem answer_of_alive
    {life lag now writtenAt : Int}
    {value : V}
    {answer : Option V}
    (h :
      (stored value writtenAt).MayAnswer life lag now answer)
    (hAlive : now ≤ writtenAt + life) :
    answer = some value := by
  cases answer with
  | none =>
      have hOver : writtenAt + life < now := h
      omega
  | some found => rw [h.1]

/- After lifetime and lag a value is not answered. -/
theorem answer_of_over
    {life lag now writtenAt : Int}
    {value : V}
    {answer : Option V}
    (h :
      (stored value writtenAt).MayAnswer life lag now answer)
    (hOver : writtenAt + life + lag < now) :
    answer = none := by
  cases answer with
  | none => rfl
  | some found =>
      have hWithin := h.2
      omega

end TtlCell
