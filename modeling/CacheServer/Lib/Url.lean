import CacheServer.Lib.Json
import Mathlib.Data.List.TakeWhile

/-
  Paths of URLs, and their escapes.

  A byte of a path may be escaped as a percent sign and two
  hexadecimal digits. A URL is read into the path without its
  escapes; the path as it was written is kept if it is valid,
  and is else written anew.

  Key definitions include:
    * `Url.unescape`
    * `Url.escape`
    * `Url.escapedPath`
    * `Url.requestPath`
    * `Url.escapeAll`

  Key theorems include:
    * `Url.unescape_escapeWith`
    * `Url.unescape_eq_self_iff`
    * `Url.requestPath_escaped`
    * `Url.escapedPath_append`
-/

------------------------------------------------------------
-- Escapes
------------------------------------------------------------

namespace Url

/- A hexadecimal digit in upper case. -/
def upperHex
    (n : Nat) :
    UInt8 :=
  if n < 10 then UInt8.ofNat (48 + n) else UInt8.ofNat (55 + n)

/- `url.PathUnescape`; none stands for an invalid escape. -/
def unescape :
    List UInt8 → Option (List UInt8)
| [] => some []
| b :: rest =>
    if b = 37 then
      match rest with
      | high :: low :: rest =>
          match Json.hexDigit high, Json.hexDigit low with
          | some h, some l =>
              (unescape rest).map
                (fun s => UInt8.ofNat (16 * h + l) :: s)
          | _, _ => none
      | _ => none
    else
      (unescape rest).map (fun s => b :: s)

/- Escape all but some bytes. -/
def escapeWith
    (keep : UInt8 → Bool)
    (s : List UInt8) :
    List UInt8 :=
  s.flatMap
    (fun b =>
      if keep b then
        [b]
      else
        [37, upperHex (b.toNat / 16), upperHex (b.toNat % 16)])

@[simp] theorem unescape_nil :
    unescape [] = some [] := rfl

theorem unescape_cons
    {b : UInt8}
    (rest : List UInt8)
    (hPlain : b ≠ 37) :
    unescape (b :: rest) =
      (unescape rest).map (fun s => b :: s) := by
  rw [unescape.eq_def]
  simp [hPlain]

theorem unescape_percent
    {high low : UInt8}
    {h l : Nat}
    (rest : List UInt8)
    (hHigh : Json.hexDigit high = some h)
    (hLow : Json.hexDigit low = some l) :
    unescape (37 :: high :: low :: rest) =
      (unescape rest).map
        (fun s => UInt8.ofNat (16 * h + l) :: s) := by
  simp [unescape, hHigh, hLow]

theorem hexDigit_upperHex
    {n : Nat}
    (hLt : n < 16) :
    Json.hexDigit (upperHex n) = some n := by
  have hAll :
      ∀ m < 16, Json.hexDigit (upperHex m) = some m := by
    decide
  exact hAll n hLt

/- What has been escaped is read back. -/
theorem unescape_escapeWith
    {keep : UInt8 → Bool}
    (hPercent : keep 37 = false)
    (s : List UInt8) :
    unescape (escapeWith keep s) = some s := by
  induction s with
  | nil => rfl
  | cons b s ih =>
      have hSplit :
          escapeWith keep (b :: s) =
            (if keep b then
                [b]
              else
                [37, upperHex (b.toNat / 16),
                  upperHex (b.toNat % 16)]) ++
              escapeWith keep s := rfl
      rw [hSplit]
      cases hKeep : keep b with
      | true =>
          have hNe : b ≠ 37 := by
            intro hEq
            rw [hEq, hPercent] at hKeep
            cases hKeep
          rw [if_pos rfl, List.singleton_append,
            unescape_cons _ hNe, ih]
          rfl
      | false =>
          have hByte : b.toNat < 256 := b.toNat_lt
          have hHigh :=
            hexDigit_upperHex
              (n := b.toNat / 16) (by omega)
          have hLow :=
            hexDigit_upperHex
              (n := b.toNat % 16) (by omega)
          have hValue :
              16 * (b.toNat / 16) + b.toNat % 16 = b.toNat :=
            Nat.div_add_mod b.toNat 16
          rw [if_neg (by simp)]
          simp only [List.cons_append, List.nil_append]
          rw [unescape_percent _ hHigh hLow, ih, hValue]
          simp

/- A text without the sign is read as it is. -/
theorem unescape_of_notMem
    {s : List UInt8}
    (hFree : 37 ∉ s) :
    unescape s = some s := by
  induction s with
  | nil => rfl
  | cons b s ih =>
      have hNe : b ≠ 37 := by
        intro hEq
        exact hFree (hEq ▸ List.mem_cons_self)
      have hRest : 37 ∉ s :=
        fun hMem => hFree (List.mem_cons_of_mem b hMem)
      rw [unescape_cons s hNe, ih hRest]
      rfl

/- Only the empty text is read as empty. -/
theorem unescape_eq_nil_iff
    {s : List UInt8} :
    unescape s = some [] ↔ s = [] := by
  constructor
  · intro h
    cases s with
    | nil => rfl
    | cons b rest =>
        rw [unescape.eq_def] at h
        dsimp only at h
        split_ifs at h
        · split at h
          · split at h
            · simp at h
            · cases h
          · cases h
        · simp at h
  · intro hNil
    rw [hNil]
    rfl

/- Escapes of two texts in a row. -/
theorem unescape_append
    {s t : List UInt8}
    (hFree : 37 ∉ s) :
    unescape (s ++ t) = (unescape t).map (fun u => s ++ u) := by
  induction s with
  | nil => simp
  | cons b s ih =>
      have hNe : b ≠ 37 := by
        intro hEq
        exact hFree (hEq ▸ List.mem_cons_self)
      have hRest : 37 ∉ s :=
        fun hMem => hFree (List.mem_cons_of_mem b hMem)
      rw [List.cons_append, unescape_cons _ hNe, ih hRest,
        Option.map_map]
      rfl

end Url

------------------------------------------------------------
-- Paths As They Are Written
------------------------------------------------------------

namespace Url

def alphanumeric
    (b : UInt8) :
    Bool :=
  (97 ≤ b && b ≤ 122) || (65 ≤ b && b ≤ 90) ||
    (48 ≤ b && b ≤ 57)

/- `shouldEscape` for a path: what needs no escape. -/
def plain
    (b : UInt8) :
    Bool :=
  alphanumeric b ||
    -- hyphen, underscore, dot and tilde
    [45, 95, 46, 126].contains b ||
    -- dollar, ampersand, plus, comma, slash, colon,
    -- semicolon, equals and at
    [36, 38, 43, 44, 47, 58, 59, 61, 64].contains b

/- The escapes that `url.URL` writes by itself. -/
def escape
    (path : List UInt8) :
    List UInt8 :=
  escapeWith plain path

/- `validEncoded` also takes quotes, brackets and the sign. -/
def validEncoded
    (s : List UInt8) :
    Bool :=
  s.all
    (fun b =>
      plain b || [33, 39, 40, 41, 42, 91, 93, 37].contains b)

/- A plain byte may stand in the target of a request. -/
theorem printable_of_plain
    {b : UInt8}
    (hPlain : plain b = true) :
    32 < b ∧ b ≠ 127 ∧ b ≠ 63 ∧ b ≠ 37 := by
  simp only [plain, alphanumeric, List.contains_cons,
    List.contains_nil, Bool.or_eq_true, Bool.and_eq_true,
    decide_eq_true_eq, beq_iff_eq, Bool.false_eq_true,
    or_false, UInt8.le_iff_toNat_le, ← UInt8.toNat_inj,
    UInt8.reduceToNat] at hPlain
  simp only [ne_eq, UInt8.lt_iff_toNat_lt, ← UInt8.toNat_inj,
    UInt8.reduceToNat]
  omega

theorem plain_upperHex
    {n : Nat}
    (hLt : n < 16) :
    plain (upperHex n) = true := by
  have hAll : ∀ m < 16, plain (upperHex m) = true := by
    decide
  exact hAll n hLt

theorem upperHex_ne_slash
    {n : Nat}
    (hLt : n < 16) :
    upperHex n ≠ 47 := by
  have hAll : ∀ m < 16, upperHex m ≠ 47 := by
    decide
  exact hAll n hLt

/- Escapes are written with plain bytes and the sign. -/
theorem mem_escapeWith
    {keep : UInt8 → Bool}
    (hKeep : ∀ b, keep b = true → plain b = true)
    {s : List UInt8}
    {b : UInt8}
    (hMem : b ∈ escapeWith keep s) :
    plain b = true ∨ b = 37 := by
  rcases List.mem_flatMap.mp hMem with ⟨c, _, hIn⟩
  have hByte : c.toNat < 256 := c.toNat_lt
  cases hCase : keep c with
  | true =>
      rw [hCase, if_pos rfl, List.mem_singleton] at hIn
      exact Or.inl (hIn ▸ hKeep c hCase)
  | false =>
      rw [hCase, if_neg (by simp)] at hIn
      simp only [List.mem_cons, List.not_mem_nil, or_false]
        at hIn
      rcases hIn with hSign | hHigh | hLow
      · exact Or.inr hSign
      · exact Or.inl (hHigh ▸ plain_upperHex (by omega))
      · exact Or.inl (hLow ▸ plain_upperHex (by omega))

/- `URL.EscapedPath` of a path that has been read. -/
def escapedPath
    (raw : List UInt8) :
    Option (List UInt8) :=
  (unescape raw).map
    (fun path => if validEncoded raw then raw else escape path)

theorem unescape_escape
    (path : List UInt8) :
    unescape (escape path) = some path :=
  unescape_escapeWith (by decide) path

/-
  The path of a request's target, as it is written. A target
  is printable, and the path ends before the question mark.
-/
def requestPath
    (target : List UInt8) :
    Option (List UInt8) :=
  if target.head? = some 47 ∧
      ∀ b ∈ target, 32 < b ∧ b ≠ 127 then
    escapedPath (target.takeWhile (fun b => b ≠ 63))
  else
    none

/- A path that needs no other escapes is sent as it is. -/
theorem requestPath_escaped
    {path : List UInt8}
    (hRooted : path.head? = some 47)
    (hPath : ∀ b ∈ path, plain b = true ∨ b = 37)
    (hRead : (unescape path).isSome = true) :
    requestPath path = some path := by
  have hPrintable :
      ∀ b ∈ path, 32 < b ∧ b ≠ 127 ∧ b ≠ 63 := by
    intro b hMem
    rcases hPath b hMem with hPlain | rfl
    · have hBounds := printable_of_plain hPlain
      exact ⟨hBounds.1, hBounds.2.1, hBounds.2.2.1⟩
    · decide
  have hValid : validEncoded path = true := by
    rw [validEncoded, List.all_eq_true]
    intro b hMem
    rcases hPath b hMem with hPlain | rfl
    · rw [hPlain, Bool.true_or]
    · decide
  have hTake : path.takeWhile (fun b => b ≠ 63) = path := by
    rw [List.takeWhile_eq_self_iff]
    exact fun b hMem => decide_eq_true (hPrintable b hMem).2.2
  rcases Option.isSome_iff_exists.mp hRead with ⟨s, hSome⟩
  rw [requestPath, if_pos, hTake, escapedPath, hSome,
    Option.map_some, if_pos hValid]
  refine ⟨hRooted, fun b hMem => ?_⟩
  exact ⟨(hPrintable b hMem).1, (hPrintable b hMem).2.1⟩

theorem escape_of_plain
    {s : List UInt8}
    (hPlain : ∀ b ∈ s, plain b = true) :
    escape s = s := by
  induction s with
  | nil => rfl
  | cons b s ih =>
      have hRest :=
        ih (fun c hMem => hPlain c (List.mem_cons_of_mem b hMem))
      have hFirst := hPlain b List.mem_cons_self
      rw [escape, escapeWith] at hRest ⊢
      rw [List.flatMap_cons, hRest, if_pos hFirst]
      rfl

/- A plain beginning is written as it is. -/
theorem escapedPath_append
    {s t written : List UInt8}
    (hPlain : ∀ b ∈ s, plain b = true)
    (h : escapedPath (s ++ t) = some written) :
    ∃ u path,
      written = s ++ u ∧ unescape t = some path ∧
        unescape u = some path ∧ (u = t ∨ u = escape path) := by
  have hFree : 37 ∉ s := by
    intro hMem
    exact (printable_of_plain (hPlain 37 hMem)).2.2.2 rfl
  rcases Option.map_eq_some_iff.mp h with ⟨whole, hRead, hEq⟩
  rw [unescape_append hFree] at hRead
  rcases Option.map_eq_some_iff.mp hRead with
    ⟨path, hPath, rfl⟩
  cases hValid : validEncoded (s ++ t) with
  | true =>
      rw [if_pos hValid] at hEq
      exact ⟨t, path, hEq.symm, hPath, hPath, Or.inl rfl⟩
  | false =>
      rw [if_neg (by simp [hValid])] at hEq
      refine
        ⟨escape path, path, ?_, hPath, unescape_escape path,
          Or.inr rfl⟩
      rw [← hEq, escape, escapeWith, List.flatMap_append]
      exact congrArg (· ++ _) (escape_of_plain hPlain)

/- The path as it is written begins with a slash too. -/
theorem requestPath_rooted
    {target written : List UInt8}
    (h : requestPath target = some written) :
    written.head? = some 47 := by
  unfold requestPath at h
  split_ifs at h with hTarget
  cases target with
  | nil => cases hTarget.1
  | cons b rest =>
      have hSlash : b = 47 := Option.some.inj hTarget.1
      subst hSlash
      rcases
        escapedPath_append (s := [47])
          (by decide) h with
        ⟨u, path, rfl, _⟩
      rfl

end Url

------------------------------------------------------------
-- Texts That Are Escaped Throughout
------------------------------------------------------------

namespace Url

/- Not one byte stays as it is. -/
def escapeAll
    (s : List UInt8) :
    List UInt8 :=
  escapeWith (fun _ => false) s

theorem unescape_escapeAll
    (s : List UInt8) :
    unescape (escapeAll s) = some s :=
  unescape_escapeWith rfl s

theorem mem_escapeAll
    {s : List UInt8}
    {b : UInt8}
    (hMem : b ∈ escapeAll s) :
    (plain b = true ∨ b = 37) ∧ b ≠ 47 := by
  have hKeep :
      ∀ c : UInt8, (fun _ => false) c = true →
        plain c = true := by
    intro c hKept
    cases hKept
  refine ⟨mem_escapeWith hKeep hMem, ?_⟩
  rcases List.mem_flatMap.mp hMem with ⟨c, _, hIn⟩
  have hByte : c.toNat < 256 := c.toNat_lt
  rw [if_neg (by simp)] at hIn
  simp only [List.mem_cons, List.not_mem_nil, or_false] at hIn
  rcases hIn with rfl | rfl | rfl
  · decide
  · exact upperHex_ne_slash (by omega)
  · exact upperHex_ne_slash (by omega)

/- The text is empty, or the sign comes first. -/
theorem head_escapeAll
    {s : List UInt8}
    (hNe : s ≠ []) :
    (escapeAll s).head? = some 37 := by
  cases s with
  | nil => exact absurd rfl hNe
  | cons b s => rfl

end Url
