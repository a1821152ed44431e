import Mathlib.Logic.Function.Basic

/-
  Copies of a map that may lose entries.

  A lossy copy answers a key as the map does, or not at all.
  It stays one when it loses entries, when it is filled from
  the map, and when a write goes to both; a removal from the
  map has to reach the copy.

  Key definitions include:
    * `LossyCopy`
    * `LossyCopy.Shrinks`
    * `LossyCopy.Stores`
    * `LossyCopy.ExceptAt`

  Key theorems include:
    * `LossyCopy.ExceptAt.fill`
    * `LossyCopy.ExceptAt.drop`
    * `LossyCopy.shrink`
    * `LossyCopy.fill`
    * `LossyCopy.put`
    * `LossyCopy.drop`
-/

------------------------------------------------------------
-- Copies And Their Changes
------------------------------------------------------------

/- The copy holds nothing that the original does not. -/
def LossyCopy
    {K V : Type}
    (copy original : K → Option V) :
    Prop :=
  ∀ k v, copy k = some v → original k = some v

namespace LossyCopy

variable {K V : Type}
variable {copy copy' original : K → Option V}
variable {k : K}
variable {v : V}

/- Each key keeps its entry or loses it. -/
def Shrinks
    (copy copy' : K → Option V) :
    Prop :=
  ∀ k, copy' k = copy k ∨ copy' k = none

/- One key gets a value, others keep theirs or lose it. -/
def Stores
    (copy copy' : K → Option V)
    (k : K)
    (v : V) :
    Prop :=
  copy' k = some v ∧
    ∀ k' ≠ k, copy' k' = copy k' ∨ copy' k' = none

/- A copy of the map, except perhaps under one key. -/
def ExceptAt
    (copy original : K → Option V)
    (k : K) :
    Prop :=
  ∀ k' ≠ k, ∀ v, copy k' = some v → original k' = some v

theorem Shrinks.refl
    (copy : K → Option V) :
    Shrinks copy copy :=
  fun _ => Or.inl rfl

/- A copy that holds nothing is a copy of any map. -/
theorem empty
    (original : K → Option V) :
    LossyCopy (fun _ => none) original :=
  fun _ _ h => nomatch h

/- Losing entries is always safe. -/
theorem shrink
    (hCopy : LossyCopy copy original)
    (hShrink : Shrinks copy copy') :
    LossyCopy copy' original := by
  intro k v h
  rcases hShrink k with hSame | hNone
  · rw [hSame] at h
    exact hCopy k v h
  · rw [hNone] at h
    cases h

/- A key that changes is one the copy may be wrong under. -/
theorem exceptAt
    {original' : K → Option V}
    (hCopy : LossyCopy copy original)
    (hSame : ∀ k' ≠ k, original' k' = original k') :
    ExceptAt copy original' k := by
  intro k' hNe v h
  rw [hSame k' hNe]
  exact hCopy k' v h

/- Filling the key from the map makes the copy right. -/
theorem ExceptAt.fill
    (hCopy : ExceptAt copy original k)
    (hOriginal : original k = some v)
    (hStore : Stores copy copy' k v) :
    LossyCopy copy' original := by
  intro k' v' h
  by_cases hEq : k' = k
  · subst hEq
    rw [hStore.1] at h
    rw [hOriginal, h]
  · rcases hStore.2 k' hEq with hSame | hNone
    · rw [hSame] at h
      exact hCopy k' hEq v' h
    · rw [hNone] at h
      cases h

/- So does dropping the key from the copy. -/
theorem ExceptAt.drop
    (hCopy : ExceptAt copy original k)
    (hShrink : Shrinks copy copy')
    (hGone : copy' k = none) :
    LossyCopy copy' original := by
  intro k' v' h
  by_cases hEq : k' = k
  · subst hEq
    rw [hGone] at h
    cases h
  · rcases hShrink k' with hSame | hNone
    · rw [hSame] at h
      exact hCopy k' hEq v' h
    · rw [hNone] at h
      cases h

/- A copy may be filled with what the map holds. -/
theorem fill
    (hCopy : LossyCopy copy original)
    (hOriginal : original k = some v)
    (hStore : Stores copy copy' k v) :
    LossyCopy copy' original :=
  (hCopy.exceptAt (fun _ _ => rfl)).fill hOriginal hStore

/- A value may be stored in the map and then in the copy. -/
theorem put
    [DecidableEq K]
    (hCopy : LossyCopy copy original)
    (hStore : Stores copy copy' k v) :
    LossyCopy copy'
      (Function.update original k (some v)) := by
  have hOther :
      ∀ k' ≠ k,
        Function.update original k (some v) k' =
          original k' :=
    fun _ hNe => Function.update_of_ne hNe _ _
  exact
    (hCopy.exceptAt hOther).fill
      (Function.update_self _ _ _) hStore

/- A key that leaves the map has to leave the copy. -/
theorem drop
    [DecidableEq K]
    (hCopy : LossyCopy copy original)
    (hShrink : Shrinks copy copy')
    (hGone : copy' k = none) :
    LossyCopy copy' (Function.update original k none) := by
  have hOther :
      ∀ k' ≠ k,
        Function.update original k none k' = original k' :=
    fun _ hNe => Function.update_of_ne hNe _ _
  exact (hCopy.exceptAt hOther).drop hShrink hGone

end LossyCopy
