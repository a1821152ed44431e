import Mathlib.Logic.Function.Basic
import Mathlib.Algebra.Order.Group.Int

/-
  Weights of a numbered population.

  Members are numbered from zero on, in the order in which
  they join, and none leaves. A weight of the members, summed
  over the population, changes with the member that changes,
  or with the one that joins.

  Key definitions include:
    * `Population.total`

  Key theorems include:
    * `Population.total_update`
    * `Population.total_put`
    * `Population.total_join`
    * `Population.total_eq_zero`
    * `Population.total_lt`
-/

------------------------------------------------------------
-- Totals
------------------------------------------------------------

namespace Population

variable {P : Type}
variable {members : Nat → Option P}
variable {w v : P → Int}

/- The weight of the members numbered below `n`. -/
def total
    (w : P → Int)
    (members : Nat → Option P) :
    Nat → Int
| 0 => 0
| n + 1 => total w members n + (members n).elim 0 w

/- A member that has not joined yet weighs nothing. -/
theorem total_update_ge
    {n i : Nat}
    (next : Option P)
    (hLe : n ≤ i) :
    total w (Function.update members i next) n =
      total w members n := by
  induction n with
  | zero => rfl
  | succ n ih =>
      have hNe : n ≠ i := by omega
      simp only [total]
      rw [ih (by omega), Function.update_of_ne hNe]

/- A member that changes changes the total by as much. -/
theorem total_update
    {n i : Nat}
    {p : P}
    (next : P)
    (hLt : i < n)
    (hMember : members i = some p) :
    total w (Function.update members i (some next)) n + w p =
      total w members n + w next := by
  induction n with
  | zero => omega
  | succ n ih =>
      simp only [total]
      by_cases hEq : n = i
      · subst hEq
        rw [total_update_ge _ (le_refl n),
          Function.update_self, hMember]
        simp only [Option.elim]
        omega
      · have hRest := ih (by omega)
        rw [Function.update_of_ne hEq]
        omega

/- A place that is filled or left empty. -/
theorem total_put
    {n i : Nat}
    (next : Option P)
    (hLt : i < n) :
    total w (Function.update members i next) n +
        (members i).elim 0 w =
      total w members n + next.elim 0 w := by
  induction n with
  | zero => omega
  | succ n ih =>
      simp only [total]
      by_cases hEq : n = i
      · subst hEq
        rw [total_update_ge _ (le_refl n),
          Function.update_self]
        omega
      · have hRest := ih (by omega)
        rw [Function.update_of_ne hEq]
        omega

/- Fewer or lighter members weigh no more. -/
theorem total_le_total
    {members' : Nat → Option P}
    (n : Nat)
    (hWeight : ∀ p, 0 ≤ w p)
    (hLess :
      ∀ i p,
        members' i = some p →
          ∃ q, members i = some q ∧ w p ≤ w q) :
    total w members' n ≤ total w members n := by
  induction n with
  | zero => exact le_refl _
  | succ n ih =>
      have hLast :
          (members' n).elim 0 w ≤ (members n).elim 0 w := by
        cases hNew : members' n with
        | none =>
            cases members n with
            | none => exact le_refl _
            | some q => exact hWeight q
        | some p =>
            rcases hLess n p hNew with ⟨q, hOld, hLe⟩
            rw [hOld]
            exact hLe
      simp only [total]
      omega

/- A member that joins adds its weight. -/
theorem total_join
    (members : Nat → Option P)
    (n : Nat)
    (next : P) :
    total w (Function.update members n (some next)) (n + 1) =
      total w members n + w next := by
  simp only [total]
  rw [total_update_ge _ (le_refl n), Function.update_self]
  rfl

theorem total_mono
    {n n' : Nat}
    (hLe : n ≤ n')
    (hWeight : ∀ p, 0 ≤ w p) :
    total w members n ≤ total w members n' := by
  induction n', hLe using Nat.le_induction with
  | base => exact le_refl _
  | succ n' _ ih =>
      have hLast : 0 ≤ (members n').elim 0 w := by
        cases members n' with
        | none => exact le_refl _
        | some p => exact hWeight p
      simp only [total]
      omega

theorem total_nonneg
    (n : Nat)
    (hWeight : ∀ p, 0 ≤ w p) :
    0 ≤ total w members n :=
  total_mono (Nat.zero_le n) hWeight

/- Later members without weight do not show. -/
theorem total_eq_of_le
    {n n' : Nat}
    (hLe : n ≤ n')
    (hWeight :
      ∀ i p, n ≤ i → members i = some p → w p = 0) :
    total w members n' = total w members n := by
  induction n', hLe using Nat.le_induction with
  | base => rfl
  | succ n' hStart ih =>
      have hLast : (members n').elim 0 w = 0 := by
        cases hMember : members n' with
        | none => rfl
        | some p => exact hWeight n' p hStart hMember
      simp only [total]
      omega

/- Members without weight have no weight together. -/
theorem total_eq_zero
    (n : Nat)
    (hWeight : ∀ i p, members i = some p → w p = 0) :
    total w members n = 0 :=
  total_eq_of_le (Nat.zero_le n)
    (fun i p _ hMember => hWeight i p hMember)

/- A later member with a weight shows in the total. -/
theorem total_lt
    {n n' i : Nat}
    {p : P}
    (hWeight : ∀ p, 0 ≤ w p)
    (hLe : n ≤ i)
    (hLt : i < n')
    (hMember : members i = some p)
    (hPos : 0 < w p) :
    total w members n < total w members n' := by
  have hBefore : total w members n ≤ total w members i :=
    total_mono hLe hWeight
  have hAfter :
      total w members (i + 1) ≤ total w members n' :=
    total_mono hLt hWeight
  simp only [total, hMember, Option.elim] at hAfter
  omega

/- Weights that agree on the members have one total. -/
theorem total_congr
    (n : Nat)
    (hSame : ∀ i p, members i = some p → w p = v p) :
    total w members n = total v members n := by
  induction n with
  | zero => rfl
  | succ n ih =>
      have hLast :
          (members n).elim 0 w = (members n).elim 0 v := by
        cases hMember : members n with
        | none => rfl
        | some p => exact hSame n p hMember
      simp only [total]
      omega

theorem total_neg
    (n : Nat) :
    total (fun p => - w p) members n =
      - total w members n := by
  induction n with
  | zero => rfl
  | succ n ih =>
      simp only [total, ih]
      cases members n with
      | none => simp
      | some p =>
          simp only [Option.elim]
          omega

theorem total_add
    (n : Nat) :
    total (fun p => w p + v p) members n =
      total w members n + total v members n := by
  induction n with
  | zero => rfl
  | succ n ih =>
      simp only [total, ih]
      cases members n with
      | none => simp
      | some p =>
          simp only [Option.elim]
          omega

end Population
