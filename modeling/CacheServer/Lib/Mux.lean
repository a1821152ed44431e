import CacheServer.Lib.Url
import CacheServer.Lib.Fields
import Mathlib.Data.List.Dedup

/-
  The request multiplexer of `net/http`.

  A path is the list of its parts, those between slashes. It
  is cleaned, as `path.Clean` does it, and then matched part
  by part against the patterns that are registered: a literal
  goes before a wildcard, and that before the rest.

  Key definitions include:
    * `Mux.cleanPath`
    * `Mux.Tidy`
    * `Mux.Matches`
    * `Mux.find`
    * `Mux.dispatch`

  Key theorems include:
    * `Mux.cleanPath_eq_self_iff`
    * `Mux.find_sound`
    * `Mux.find_complete`
    * `Mux.find_eq_some_iff`
    * `Mux.lookup_eq_some_iff`
    * `Mux.dispatch_eq_handler_iff`
-/

------------------------------------------------------------
-- Parts Of A Path
------------------------------------------------------------

namespace Mux

/- The parts of a path after its first slash. -/
def parts
    (path : List UInt8) :
    List (List UInt8) :=
  path.tail.splitOn 47

/- The path with these parts. -/
def joined
    (ps : List (List UInt8)) :
    List UInt8 :=
  47 :: [47].intercalate ps

theorem parts_ne_nil
    (path : List UInt8) :
    parts path ≠ [] :=
  List.splitOn_ne_nil 47 path.tail

theorem notMem_of_mem_splitOn
    {xs part : List UInt8}
    (hMem : part ∈ xs.splitOn 47) :
    47 ∉ part := by
  induction xs using Fields.split_induction (47 : UInt8) with
  | free xs hFree =>
      rw [List.splitOn_eq_singleton hFree,
        List.mem_singleton] at hMem
      exact hMem ▸ hFree
  | cut xs ys hFree ih =>
      rw [List.splitOn_append_cons_self_of_not_mem hFree,
        List.mem_cons] at hMem
      rcases hMem with rfl | hRest
      · exact hFree
      · exact ih hRest

theorem notMem_of_mem_parts
    {path part : List UInt8}
    (hMem : part ∈ parts path) :
    47 ∉ part :=
  notMem_of_mem_splitOn hMem

theorem parts_joined
    {ps : List (List UInt8)}
    (hNe : ps ≠ [])
    (hFree : ∀ part ∈ ps, 47 ∉ part) :
    parts (joined ps) = ps :=
  List.splitOn_intercalate 47 hFree hNe

theorem joined_parts
    {path : List UInt8}
    (hRooted : path.head? = some 47) :
    joined (parts path) = path := by
  cases path with
  | nil => cases hRooted
  | cons b rest =>
      cases hRooted
      exact congrArg _ (List.intercalate_splitOn 47)

theorem joined_inj
    {ps qs : List (List UInt8)}
    (hPs : ps ≠ [])
    (hQs : qs ≠ [])
    (hFreePs : ∀ part ∈ ps, 47 ∉ part)
    (hFreeQs : ∀ part ∈ qs, 47 ∉ part)
    (hEq : joined ps = joined qs) :
    ps = qs := by
  rw [← parts_joined hPs hFreePs, hEq,
    parts_joined hQs hFreeQs]

end Mux

------------------------------------------------------------
-- Clean Paths
------------------------------------------------------------

namespace Mux

/- Parts that stand for this directory and the one above. -/
def dot : List UInt8 := [46]

def dotDot : List UInt8 := [46, 46]

/- One part of `path.Clean`, after the elements so far. -/
def cleanPart
    (elements : List (List UInt8))
    (part : List UInt8) :
    List (List UInt8) :=
  if part = [] ∨ part = dot then elements
  else if part = dotDot then elements.dropLast
  else elements ++ [part]

/- The elements of a rooted path that `path.Clean` leaves. -/
def elements
    (ps : List (List UInt8)) :
    List (List UInt8) :=
  ps.foldl cleanPart []

/- A slash at the end is put back. -/
def cleanParts
    (ps : List (List UInt8)) :
    List (List UInt8) :=
  if elements ps = [] then [[]]
  else if ps.getLast? = some [] then elements ps ++ [[]]
  else elements ps

/- `cleanPath` of a path that begins with a slash. -/
def cleanPath
    (path : List UInt8) :
    List UInt8 :=
  joined (cleanParts (parts path))

/- An element that stays where it is. -/
def Proper
    (part : List UInt8) :
    Prop :=
  part ≠ [] ∧ part ≠ dot ∧ part ≠ dotDot

instance (part : List UInt8) :
    Decidable (Proper part) :=
  inferInstanceAs (Decidable (_ ∧ _ ∧ _))

/- Elements that stay, and perhaps a slash at the end. -/
def Tidy
    (ps : List (List UInt8)) :
    Prop :=
  ∃ init last,
    ps = init ++ [last] ∧
      (∀ part ∈ init, Proper part) ∧
        (last = [] ∨ Proper last)

/- A proper part in front of a tidy path. -/
theorem tidy_cons_iff
    {part : List UInt8}
    {ps : List (List UInt8)}
    (hProper : Proper part)
    (hNe : ps ≠ []) :
    Tidy (part :: ps) ↔ Tidy ps := by
  constructor
  · intro hTidy
    rcases hTidy with ⟨init, last, hEq, hInit, hLast⟩
    cases init with
    | nil =>
        cases hEq
        exact absurd rfl hNe
    | cons first init =>
        cases hEq
        refine ⟨init, last, rfl, ?_, hLast⟩
        exact fun other hMem =>
          hInit other (List.mem_cons_of_mem _ hMem)
  · intro hTidy
    rcases hTidy with ⟨init, last, rfl, hInit, hLast⟩
    refine ⟨part :: init, last, rfl, ?_, hLast⟩
    intro other hMem
    rcases List.mem_cons.mp hMem with rfl | hOld
    · exact hProper
    · exact hInit other hOld

theorem tidy_of_proper
    {ps : List (List UInt8)}
    (hNe : ps ≠ [])
    (hProper : ∀ part ∈ ps, Proper part) :
    Tidy ps := by
  refine
    ⟨ps.dropLast, ps.getLast hNe,
      (List.dropLast_append_getLast hNe).symm, ?_, Or.inr ?_⟩
  · intro part hMem
    exact hProper part (List.dropLast_subset ps hMem)
  · exact hProper _ (List.getLast_mem hNe)

theorem tidy_singleton_iff
    {part : List UInt8} :
    Tidy [part] ↔ part = [] ∨ Proper part := by
  constructor
  · intro hTidy
    rcases hTidy with ⟨init, last, hEq, _, hLast⟩
    cases init with
    | nil =>
        cases hEq
        exact hLast
    | cons first init => simp at hEq
  · intro hLast
    exact ⟨[], part, rfl, (fun _ h => nomatch h), hLast⟩

theorem cleanPart_of_proper
    {part : List UInt8}
    (hProper : Proper part)
    (es : List (List UInt8)) :
    cleanPart es part = es ++ [part] := by
  rw [cleanPart, if_neg, if_neg hProper.2.2]
  intro h
  rcases h with hNil | hDot
  · exact hProper.1 hNil
  · exact hProper.2.1 hDot

/- Proper parts are the elements that they are. -/
theorem elements_of_proper
    {ps : List (List UInt8)}
    (hProper : ∀ part ∈ ps, Proper part) :
    elements ps = ps := by
  have hAll :
      ∀ es, ps.foldl cleanPart es = es ++ ps := by
    induction ps with
    | nil => exact fun es => (List.append_nil es).symm
    | cons part ps ih =>
        intro es
        rw [List.foldl_cons,
          cleanPart_of_proper
            (hProper part List.mem_cons_self),
          ih (fun other hMem =>
            hProper other (List.mem_cons_of_mem part hMem)),
          List.append_assoc, List.singleton_append]
  exact hAll []

/- What is left are proper parts of those that there were. -/
theorem mem_elements
    {ps : List (List UInt8)}
    {part : List UInt8}
    (hMem : part ∈ elements ps) :
    Proper part ∧ part ∈ ps := by
  have hAll :
      ∀ es,
        part ∈ ps.foldl cleanPart es →
          part ∈ es ∨ (Proper part ∧ part ∈ ps) := by
    clear hMem
    induction ps with
    | nil => exact fun es hMem => Or.inl hMem
    | cons first ps ih =>
        intro es hMem
        rcases ih _ hMem with hNow | ⟨hProper, hLater⟩
        · by_cases hSkip : first = [] ∨ first = dot
          · rw [cleanPart, if_pos hSkip] at hNow
            exact Or.inl hNow
          · by_cases hUp : first = dotDot
            · rw [cleanPart, if_neg hSkip, if_pos hUp] at hNow
              exact Or.inl (List.dropLast_subset es hNow)
            · rw [cleanPart, if_neg hSkip, if_neg hUp,
                List.mem_append, List.mem_singleton] at hNow
              rcases hNow with hOld | rfl
              · exact Or.inl hOld
              · exact
                  Or.inr
                    ⟨⟨fun h => hSkip (Or.inl h),
                        fun h => hSkip (Or.inr h), hUp⟩,
                      List.mem_cons_self⟩
        · exact
            Or.inr
              ⟨hProper, List.mem_cons_of_mem first hLater⟩
  rcases hAll [] hMem with hNone | hFound
  · cases hNone
  · exact hFound

/- A path that is cleaned is tidy. -/
theorem tidy_cleanParts
    (ps : List (List UInt8)) :
    Tidy (cleanParts ps) := by
  have hProper :
      ∀ part ∈ elements ps, Proper part :=
    fun part hMem => (mem_elements hMem).1
  unfold cleanParts
  split_ifs with hNone hSlash
  · exact
      ⟨[], [], rfl, (fun _ hMem => nomatch hMem), Or.inl rfl⟩
  · exact ⟨elements ps, [], rfl, hProper, Or.inl rfl⟩
  · exact tidy_of_proper hNone hProper

/- A tidy path stays as it is. -/
theorem cleanParts_of_tidy
    {ps : List (List UInt8)}
    (hTidy : Tidy ps) :
    cleanParts ps = ps := by
  rcases hTidy with ⟨init, last, rfl, hInit, hLast⟩
  rcases hLast with rfl | hProper
  · have hElements : elements (init ++ [[]]) = init := by
      have hInitEq : init.foldl cleanPart [] = init :=
        elements_of_proper hInit
      rw [elements, List.foldl_append, hInitEq]
      rfl
    unfold cleanParts
    rw [hElements]
    by_cases hNil : init = []
    · rw [if_pos hNil, hNil]
      rfl
    · rw [if_neg hNil, if_pos (by simp)]
  · have hElements :
        elements (init ++ [last]) = init ++ [last] := by
      apply elements_of_proper
      intro part hMem
      rcases List.mem_append.mp hMem with hOld | hNew
      · exact hInit part hOld
      · exact List.mem_singleton.mp hNew ▸ hProper
    unfold cleanParts
    rw [hElements, if_neg (by simp), if_neg]
    intro hSlash
    simp only [List.getLast?_append, List.getLast?_singleton,
      Option.some_or, Option.some.injEq] at hSlash
    exact hProper.1 hSlash

theorem notMem_cleanParts
    {ps : List (List UInt8)}
    (hFree : ∀ part ∈ ps, 47 ∉ part) :
    ∀ part ∈ cleanParts ps, 47 ∉ part := by
  intro part hMem
  have hElement :
      part ∈ elements ps → 47 ∉ part :=
    fun h => hFree part (mem_elements h).2
  have hNil : part ∈ [([] : List UInt8)] → 47 ∉ part := by
    intro h
    rw [List.mem_singleton.mp h]
    exact List.not_mem_nil
  unfold cleanParts at hMem
  split_ifs at hMem
  · exact hNil hMem
  · rcases List.mem_append.mp hMem with hOld | hNew
    · exact hElement hOld
    · exact hNil hNew
  · exact hElement hMem

theorem cleanParts_ne_nil
    (ps : List (List UInt8)) :
    cleanParts ps ≠ [] := by
  rcases tidy_cleanParts ps with ⟨init, last, hEq, _⟩
  rw [hEq]
  simp

/- Exactly the tidy paths are not redirected. -/
theorem cleanPath_eq_self_iff
    {path : List UInt8}
    (hRooted : path.head? = some 47) :
    cleanPath path = path ↔ Tidy (parts path) := by
  have hFree : ∀ part ∈ parts path, 47 ∉ part :=
    fun _ hMem => notMem_of_mem_parts hMem
  constructor
  · intro hEq
    have hParts : cleanParts (parts path) = parts path := by
      refine
        joined_inj (cleanParts_ne_nil _) (parts_ne_nil path)
          (notMem_cleanParts hFree) hFree ?_
      rw [joined_parts hRooted]
      exact hEq
    rw [← hParts]
    exact tidy_cleanParts _
  · intro hTidy
    rw [cleanPath, cleanParts_of_tidy hTidy,
      joined_parts hRooted]

end Mux

------------------------------------------------------------
-- Patterns
------------------------------------------------------------

namespace Mux

/- A segment of a pattern. -/
inductive Seg
-- this text
| lit (text : List UInt8)
-- any one segment
| wild
-- all that is left
| rest
deriving DecidableEq, Repr

/- A literal that is written as it is. -/
def Seg.Plain :
    Seg → Prop
| .lit text =>
    Proper text ∧ ∀ b ∈ text, Url.plain b = true ∧ b ≠ 47
| .wild => True
| .rest => True

instance (seg : Seg) :
    Decidable seg.Plain :=
  match seg with
  | .lit _ => inferInstanceAs (Decidable (_ ∧ _))
  | .wild => .isTrue trivial
  | .rest => .isTrue trivial

/- A segment is unescaped if it can be. -/
def pathUnescape
    (s : List UInt8) :
    List UInt8 :=
  (Url.unescape s).getD s

/-
  The first segment of a path. A slash at the end is itself a
  segment.
-/
def segment
    (part : List UInt8)
    (ps : List (List UInt8)) :
    List UInt8 :=
  if part = [] ∧ ps = [] then [47] else pathUnescape part

/- What is left of a path, as one text. -/
def restOf
    (ps : List (List UInt8)) :
    List UInt8 :=
  pathUnescape ([47].intercalate ps)

/- A pattern matches a path, with values for its wildcards. -/
inductive Matches :
    List Seg → List (List UInt8) → List (List UInt8) → Prop
| done : Matches [] [] []
| lit
    {text part : List UInt8}
    {segs : List Seg}
    {ps values : List (List UInt8)}
    (hText : segment part ps = text)
    (hRest : Matches segs ps values) :
    Matches (.lit text :: segs) (part :: ps) values
| wild
    {part : List UInt8}
    {segs : List Seg}
    {ps values : List (List UInt8)}
    (hSlash : segment part ps ≠ [47])
    (hRest : Matches segs ps values) :
    Matches (.wild :: segs) (part :: ps)
      (segment part ps :: values)
| rest
    {part : List UInt8}
    {ps : List (List UInt8)} :
    Matches [.rest] (part :: ps) [restOf (part :: ps)]

/- The values that a pattern matches with are determined. -/
theorem Matches.values_eq
    {segs : List Seg}
    {ps vs ws : List (List UInt8)}
    (h : Matches segs ps vs)
    (h' : Matches segs ps ws) :
    vs = ws := by
  induction h generalizing ws with
  | done =>
      cases h'
      rfl
  | lit hText hRest ih =>
      cases h' with
      | lit _ hOther => exact ih hOther
  | wild hSlash hRest ih =>
      cases h' with
      | wild _ hOther => rw [ih hOther]
  | rest =>
      cases h'
      rfl

end Mux

------------------------------------------------------------
-- The Search For A Pattern
------------------------------------------------------------

namespace Mux

variable {H : Type}

/- A child of a node: the patterns that go on from it. -/
def under
    (seg : Seg)
    (routes : List (List Seg × H)) :
    List (List Seg × H) :=
  routes.filterMap
    (fun r =>
      match r.1 with
      | [] => none
      | first :: segs =>
          if first = seg then some (segs, r.2) else none)

/- The pattern that ends at a node. -/
def leaf
    (routes : List (List Seg × H)) :
    Option H :=
  (routes.find? (fun r => r.1 = [])).map Prod.snd

/- `matchPath`: a literal, a wildcard, and then the rest. -/
def find :
    List (List Seg × H) → List (List UInt8) →
      Option (H × List (List UInt8))
| routes, [] => (leaf routes).map (fun h => (h, []))
| routes, part :: ps =>
    let seg := segment part ps
    ((find (under (.lit seg) routes) ps).or
      (if seg = [47] then
        none
      else
        (find (under .wild routes) ps).map
          (fun r => (r.1, seg :: r.2)))).or
      ((leaf (under .rest routes)).map
        (fun h => (h, [restOf (part :: ps)])))

theorem mem_under
    {seg : Seg}
    {routes : List (List Seg × H)}
    {segs : List Seg}
    {h : H} :
    (segs, h) ∈ under seg routes ↔
      (seg :: segs, h) ∈ routes := by
  constructor
  · intro hMem
    rcases List.mem_filterMap.mp hMem with
      ⟨⟨pattern, h'⟩, hRoute, hEq⟩
    cases pattern with
    | nil => cases hEq
    | cons first rest =>
        simp only at hEq
        split_ifs at hEq with hSame
        cases hEq
        exact hSame ▸ hRoute
  · intro hMem
    exact
      List.mem_filterMap.mpr
        ⟨(seg :: segs, h), hMem, by simp⟩

theorem mem_of_leaf
    {routes : List (List Seg × H)}
    {h : H}
    (hLeaf : leaf routes = some h) :
    ([], h) ∈ routes := by
  rcases Option.map_eq_some_iff.mp hLeaf with
    ⟨⟨pattern, h'⟩, hFind, rfl⟩
  have hNil := List.find?_some hFind
  have hMem := List.mem_of_find?_eq_some hFind
  simp only [decide_eq_true_eq] at hNil
  exact hNil ▸ hMem

theorem leaf_isSome
    {routes : List (List Seg × H)}
    {h : H}
    (hMem : ([], h) ∈ routes) :
    ∃ h', leaf routes = some h' := by
  have hSome :
      (routes.find? (fun r => r.1 = [])).isSome = true :=
    List.find?_isSome.mpr ⟨([], h), hMem, by simp⟩
  rcases Option.isSome_iff_exists.mp hSome with ⟨r, hFind⟩
  exact ⟨r.2, by rw [leaf, hFind]; rfl⟩

/- What is found is registered, and matches. -/
theorem find_sound
    {routes : List (List Seg × H)}
    {ps values : List (List UInt8)}
    {h : H}
    (hFind : find routes ps = some (h, values)) :
    ∃ segs, (segs, h) ∈ routes ∧ Matches segs ps values := by
  induction ps generalizing routes values h with
  | nil =>
      rcases Option.map_eq_some_iff.mp hFind with
        ⟨h', hLeaf, hEq⟩
      cases hEq
      exact ⟨[], mem_of_leaf hLeaf, .done⟩
  | cons part ps ih =>
      rw [find] at hFind
      rcases Option.or_eq_some_iff.mp hFind with
        hNamed | ⟨_, hRest⟩
      · rcases Option.or_eq_some_iff.mp hNamed with
          hLit | ⟨_, hWild⟩
        · rcases ih hLit with ⟨segs, hMem, hMatch⟩
          exact ⟨_, mem_under.mp hMem, .lit rfl hMatch⟩
        · split_ifs at hWild with hSlash
          rcases Option.map_eq_some_iff.mp hWild with
            ⟨⟨h', vs⟩, hFound, hEq⟩
          cases hEq
          rcases ih hFound with ⟨segs, hMem, hMatch⟩
          exact
            ⟨_, mem_under.mp hMem, .wild hSlash hMatch⟩
      · rcases Option.map_eq_some_iff.mp hRest with
          ⟨h', hLeaf, hEq⟩
        cases hEq
        exact ⟨_, mem_under.mp (mem_of_leaf hLeaf), .rest⟩

/- If a registered pattern matches, one is found. -/
theorem find_complete
    {routes : List (List Seg × H)}
    {segs : List Seg}
    {ps values : List (List UInt8)}
    {h : H}
    (hMem : (segs, h) ∈ routes)
    (hMatch : Matches segs ps values) :
    (find routes ps).isSome = true := by
  induction hMatch generalizing routes with
  | done =>
      rcases leaf_isSome hMem with ⟨h', hLeaf⟩
      simp [find, hLeaf]
  | @lit text part segs ps values hText hRest ih =>
      have hFound :=
        ih (mem_under.mpr (hText.symm ▸ hMem))
      simp [find, Option.isSome_or, hFound]
  | @wild part segs ps values hSlash hRest ih =>
      have hFound := ih (mem_under.mpr hMem)
      simp [find, Option.isSome_or, hSlash, hFound]
  | @rest part ps =>
      rcases leaf_isSome (mem_under.mpr hMem) with
        ⟨h', hLeaf⟩
      simp [find, hLeaf]

/- No two of the patterns match one path. -/
def Exclusive
    (routes : List (List Seg × H)) :
    Prop :=
  ∀ r ∈ routes, ∀ r' ∈ routes, ∀ ps vs ws,
    Matches r.1 ps vs → Matches r'.1 ps ws → r = r'

/-
  Among patterns that exclude each other, the one that
  matches is found, in whatever order they are registered.
-/
theorem find_eq_some_iff
    {routes : List (List Seg × H)}
    (hExclusive : Exclusive routes)
    {ps values : List (List UInt8)}
    {h : H} :
    find routes ps = some (h, values) ↔
      ∃ segs, (segs, h) ∈ routes ∧ Matches segs ps values := by
  constructor
  · exact find_sound
  · intro hSome
    rcases hSome with ⟨segs, hMem, hMatch⟩
    rcases
      Option.isSome_iff_exists.mp (find_complete hMem hMatch)
      with ⟨⟨h', vs⟩, hFind⟩
    rcases find_sound hFind with ⟨segs', hMem', hMatch'⟩
    have hSame :=
      hExclusive _ hMem _ hMem' ps values vs hMatch hMatch'
    cases hSame
    rw [hFind, hMatch.values_eq hMatch']

/- Patterns that begin with different literals. -/
theorem exclusive_of_heads
    {routes : List (List Seg × H)}
    (hHeads :
      ∀ r ∈ routes, ∃ text segs, r.1 = .lit text :: segs)
    (hNodup : (routes.map (fun r => r.1.head?)).Nodup) :
    Exclusive routes := by
  intro r hMem r' hMem' ps vs ws hMatch hMatch'
  refine List.inj_on_of_nodup_map hNodup hMem hMem' ?_
  rcases hHeads r hMem with ⟨text, segs, hText⟩
  rcases hHeads r' hMem' with ⟨text', segs', hText'⟩
  rw [hText] at hMatch
  rw [hText'] at hMatch'
  rw [hText, hText']
  cases hMatch with
  | lit hFirst _ =>
      cases hMatch' with
      | lit hSecond _ => simp [← hFirst, ← hSecond]

end Mux

------------------------------------------------------------
-- Requests
------------------------------------------------------------

namespace Mux

variable {H : Type}

/- A registered pattern, as `METHOD /segments`. -/
structure Route (H : Type) where
  method : String
  segs : List Seg
  handler : H
deriving DecidableEq, Repr

/- Where a request goes. -/
inductive Outcome (H : Type)
| handler (handler : H) (values : List (List UInt8))
-- 301, to a path
| moved (path : List UInt8)
-- 405, with the methods that are allowed
| notAllowed (allow : List String)
-- 404
| notFound
deriving DecidableEq, Repr

/- The patterns of one method; they go with their routes. -/
def ofMethod
    (routes : List (Route H))
    (method : String) :
    List (List Seg × Route H) :=
  (routes.filter (fun r => r.method = method)).map
    (fun r => (r.segs, r))

/- `matchMethodAndPath`: the patterns of GET match HEAD too. -/
def lookup
    (routes : List (Route H))
    (method : String)
    (ps : List (List UInt8)) :
    Option (Route H × List (List UInt8)) :=
  (find (ofMethod routes method) ps).or
    (if method = "HEAD" then
      find (ofMethod routes "GET") ps
    else
      none)

/- `exactMatch`: nothing is left for the rest to match. -/
def exactMatch
    (ps : List (List UInt8)) :
    Option (Route H × List (List UInt8)) → Bool
| none => false
| some (r, _) =>
    r.segs.getLast? ≠ some .rest ||
      (ps.getLast? = some [] && r.segs.length = ps.length)

/- A slash at the end is missing. -/
def lacksSlash
    (routes : List (Route H))
    (method : String)
    (ps : List (List UInt8)) :
    Bool :=
  !exactMatch ps (lookup routes method ps) &&
    ps.getLast? ≠ some [] &&
      exactMatch (ps ++ [[]])
        (lookup routes method (ps ++ [[]]))

/- `matchingMethods`: those with a pattern for the path. -/
def allowed
    (routes : List (Route H))
    (ps : List (List UInt8)) :
    List String :=
  let methods :=
    (routes.map Route.method).filter
      (fun method =>
        (find (ofMethod routes method) ps).isSome ||
          (ps.getLast? ≠ some [] &&
            (find (ofMethod routes method)
              (ps ++ [[]])).isSome))
  let all :=
    if "GET" ∈ methods then "HEAD" :: methods else methods
  all.dedup.mergeSort (fun a b => a ≤ b)

/- `findHandler`, of a path as it is written. -/
def dispatch
    (routes : List (Route H))
    (method : String)
    (written : List UInt8) :
    Outcome H :=
  let path :=
    if method = "CONNECT" then written else cleanPath written
  let ps := parts path
  if lacksSlash routes method ps then
    .moved (path ++ [47])
  else if path ≠ written then
    .moved path
  else
    match lookup routes method ps with
    | some (r, values) => .handler r.handler values
    | none =>
        if allowed routes ps = [] then
          .notFound
        else
          .notAllowed (allowed routes ps)

theorem mem_ofMethod
    {routes : List (Route H)}
    {method : String}
    {segs : List Seg}
    {r : Route H} :
    (segs, r) ∈ ofMethod routes method ↔
      r ∈ routes ∧ r.method = method ∧ r.segs = segs := by
  constructor
  · intro hMem
    rcases List.mem_map.mp hMem with ⟨r', hKept, hEq⟩
    cases hEq
    rcases List.mem_filter.mp hKept with ⟨hIn, hMethod⟩
    exact ⟨hIn, of_decide_eq_true hMethod, rfl⟩
  · intro h
    refine
      List.mem_map.mpr
        ⟨r,
          List.mem_filter.mpr ⟨h.1, decide_eq_true h.2.1⟩, ?_⟩
    rw [h.2.2]

/- Each method has a literal to itself for each pattern. -/
structure Apart
    (routes : List (Route H)) :
    Prop where
  heads : ∀ r ∈ routes, ∃ text segs, r.segs = .lit text :: segs
  nodup :
    (routes.map (fun r => (r.method, r.segs.head?))).Nodup

theorem Apart.exclusive
    {routes : List (Route H)}
    (hApart : Apart routes)
    (method : String) :
    Exclusive (ofMethod routes method) := by
  apply exclusive_of_heads
  · intro r hMem
    rcases mem_ofMethod.mp hMem with ⟨hIn, _, hSegs⟩
    rcases hApart.heads r.2 hIn with ⟨text, segs, hEq⟩
    exact ⟨text, segs, hSegs ▸ hEq⟩
  · rw [ofMethod, List.map_map]
    refine List.Nodup.map_on ?_ ?_
    · intro r hMem r' hMem' hEq
      rcases List.mem_filter.mp hMem with ⟨hIn, hMethod⟩
      rcases List.mem_filter.mp hMem' with ⟨hIn', hMethod'⟩
      refine
        List.inj_on_of_nodup_map hApart.nodup hIn hIn' ?_
      have hSame : r.method = r'.method :=
        (of_decide_eq_true hMethod).trans
          (of_decide_eq_true hMethod').symm
      have hHead : r.segs.head? = r'.segs.head? := hEq
      rw [hSame, hHead]
    · exact (List.Nodup.of_map _ hApart.nodup).filter _

/- The methods that a route answers to. -/
def Route.Takes
    (r : Route H)
    (method : String) :
    Prop :=
  r.method = method ∨ (method = "HEAD" ∧ r.method = "GET")

/- The route that takes the method and matches is found. -/
theorem lookup_eq_some_iff
    {routes : List (Route H)}
    (hApart : Apart routes)
    (hHead : ∀ r ∈ routes, r.method ≠ "HEAD")
    {method : String}
    {ps values : List (List UInt8)}
    {r : Route H} :
    lookup routes method ps = some (r, values) ↔
      r ∈ routes ∧ r.Takes method ∧
        Matches r.segs ps values := by
  have hFound :
      ∀ m,
        find (ofMethod routes m) ps = some (r, values) ↔
          r ∈ routes ∧ r.method = m ∧
            Matches r.segs ps values := by
    intro m
    rw [find_eq_some_iff (hApart.exclusive m)]
    constructor
    · intro h
      rcases h with ⟨segs, hMem, hMatch⟩
      rcases mem_ofMethod.mp hMem with ⟨hIn, hMethod, hSegs⟩
      exact ⟨hIn, hMethod, hSegs ▸ hMatch⟩
    · intro h
      exact
        ⟨r.segs, mem_ofMethod.mpr ⟨h.1, h.2.1, rfl⟩, h.2.2⟩
  by_cases hIs : method = "HEAD"
  · subst hIs
    have hNone : ofMethod routes "HEAD" = [] := by
      rw [ofMethod, List.filter_eq_nil_iff.mpr]
      · rfl
      · intro r' hMem hMethod
        exact hHead r' hMem (of_decide_eq_true hMethod)
    have hFind :
        find (ofMethod routes "HEAD") ps = none := by
      cases hCase : find (ofMethod routes "HEAD") ps with
      | none => rfl
      | some found =>
          rcases find_sound hCase with ⟨segs, hMem, _⟩
          rw [hNone] at hMem
          cases hMem
    rw [lookup, hFind, if_pos rfl, Option.none_or,
      hFound "GET"]
    constructor
    · intro h
      exact ⟨h.1, Or.inr ⟨rfl, h.2.1⟩, h.2.2⟩
    · intro h
      rcases h.2.1 with hSame | hGet
      · exact absurd hSame (hHead r h.1)
      · exact ⟨h.1, hGet.2, h.2.2⟩
  · rw [lookup, if_neg hIs, Option.or_none, hFound method]
    constructor
    · intro h
      exact ⟨h.1, Or.inl h.2.1, h.2.2⟩
    · intro h
      rcases h.2.1 with hSame | hGet
      · exact ⟨h.1, hSame, h.2.2⟩
      · exact absurd hGet.1 hIs

/- A method that no route takes gets no handler. -/
theorem dispatch_ne_handler
    {routes : List (Route H)}
    (hApart : Apart routes)
    (hHead : ∀ r ∈ routes, r.method ≠ "HEAD")
    {method : String}
    (hNone : ∀ r ∈ routes, ¬ r.Takes method)
    (written : List UInt8)
    (h : H)
    (values : List (List UInt8)) :
    dispatch routes method written ≠ .handler h values := by
  intro hSent
  have hLookup :
      ∀ ps, lookup routes method ps = none := by
    intro ps
    cases hCase : lookup routes method ps with
    | none => rfl
    | some found =>
        rcases (lookup_eq_some_iff hApart hHead).mp hCase with
          ⟨hMem, hTakes, _⟩
        exact absurd hTakes (hNone found.1 hMem)
  unfold dispatch at hSent
  simp only [hLookup] at hSent
  split_ifs at hSent

/- What is neither moved nor refused goes to its route. -/
theorem dispatch_eq_handler_iff_lookup
    {routes : List (Route H)}
    {method : String}
    {written : List UInt8}
    {h : H}
    {values : List (List UInt8)}
    (hRooted : written.head? = some 47)
    (hMethod : method ≠ "CONNECT") :
    dispatch routes method written = .handler h values ↔
      Tidy (parts written) ∧
        lacksSlash routes method (parts written) = false ∧
          ∃ r,
            lookup routes method (parts written) =
                some (r, values) ∧
              r.handler = h := by
  rw [← cleanPath_eq_self_iff hRooted, dispatch,
    if_neg hMethod]
  by_cases hClean : cleanPath written = written
  · rw [hClean]
    cases hSlash : lacksSlash routes method (parts written) with
    | true => simp
    | false =>
        cases lookup routes method (parts written) with
        | none =>
            by_cases hNone : allowed routes (parts written) = []
            · simp [hNone]
            · simp [hNone]
        | some found => simp [Prod.ext_iff, and_comm]
  · by_cases hSlash :
        lacksSlash routes method (parts (cleanPath written)) =
          true
    · simp [hClean, hSlash]
    · simp [hClean, hSlash]

/- The rest matches one part at least. -/
theorem Matches.length_le
    {segs : List Seg}
    {ps values : List (List UInt8)}
    (h : Matches segs ps values) :
    segs.length ≤ ps.length := by
  induction h with
  | done => exact Nat.le_refl _
  | lit hText hRest ih => exact Nat.succ_le_succ ih
  | wild hSlash hRest ih => exact Nat.succ_le_succ ih
  | rest =>
      simp only [List.length_cons, List.length_nil]
      omega

theorem segment_of_ne_nil
    {ps : List (List UInt8)}
    (part : List UInt8)
    (hNe : ps ≠ []) :
    segment part ps = pathUnescape part := by
  rw [segment, if_neg]
  exact fun h => hNe h.2

/- No segment is read as empty. -/
theorem segment_ne_nil
    (part : List UInt8) :
    segment part [] ≠ [] := by
  unfold segment
  by_cases hNil : part = []
  · rw [if_pos ⟨hNil, rfl⟩]
    exact List.cons_ne_nil 47 []
  · rw [if_neg (fun h => hNil h.1), pathUnescape]
    cases hRead : Url.unescape part with
    | none => exact hNil
    | some s =>
        intro hEmpty
        have hSame : s = [] := hEmpty
        subst hSame
        exact hNil (Url.unescape_eq_nil_iff.mp hRead)

/- A literal matches itself. -/
theorem segment_of_plain
    {text : List UInt8}
    (hPlain : Seg.Plain (.lit text))
    (ps : List (List UInt8)) :
    segment text ps = text := by
  have hFree : 37 ∉ text := by
    intro hMem
    have hBounds := Url.printable_of_plain (hPlain.2 37 hMem).1
    exact hBounds.2.2.2 rfl
  rw [segment, if_neg (fun h => hPlain.1.1 h.1), pathUnescape,
    Url.unescape_of_notMem hFree]
  rfl

/- A segment before others does not depend on the last. -/
theorem Matches.segment_append
    {seg : Seg}
    {segs : List Seg}
    {ps values : List (List UInt8)}
    (part : List UInt8)
    (h : Matches (seg :: segs) ps values) :
    segment part (ps ++ [[]]) = segment part ps := by
  have hNe : ps ≠ [] := by
    intro hNil
    subst hNil
    cases h
  rw [segment_of_ne_nil part hNe,
    segment_of_ne_nil part (by simp)]

/- The rest matches a slash at the end too. -/
theorem Matches.append_slash
    {segs : List Seg}
    {ps values : List (List UInt8)}
    (h : Matches segs ps values)
    (hLast : segs.getLast? = some .rest) :
    ∃ vs, Matches segs (ps ++ [[]]) vs := by
  induction h with
  | done => cases hLast
  | @lit text part segs ps values hText hRest ih =>
      cases segs with
      | nil => cases hLast
      | cons seg segs =>
          rcases ih hLast with ⟨vs, hMore⟩
          refine ⟨vs, .lit ?_ hMore⟩
          exact (hRest.segment_append part).trans hText
  | @wild part segs ps values hSlash hRest ih =>
      cases segs with
      | nil => cases hLast
      | cons seg segs =>
          rcases ih hLast with ⟨vs, hMore⟩
          refine ⟨_, .wild ?_ hMore⟩
          intro hEq
          exact
            hSlash ((hRest.segment_append part).symm.trans hEq)
  | rest => exact ⟨_, .rest⟩

/- A path that has a route is not lacking a slash. -/
theorem lacksSlash_of_lookup
    {routes : List (Route H)}
    (hApart : Apart routes)
    (hHead : ∀ r ∈ routes, r.method ≠ "HEAD")
    {method : String}
    {ps values : List (List UInt8)}
    {r : Route H}
    (hLookup : lookup routes method ps = some (r, values)) :
    lacksSlash routes method ps = false := by
  by_cases hRest : r.segs.getLast? = some .rest
  · rcases (lookup_eq_some_iff hApart hHead).mp hLookup with
      ⟨hMem, hTakes, hMatch⟩
    rcases hMatch.append_slash hRest with ⟨vs, hMore⟩
    have hAgain :
        lookup routes method (ps ++ [[]]) = some (r, vs) :=
      (lookup_eq_some_iff hApart hHead).mpr
        ⟨hMem, hTakes, hMore⟩
    have hLen := hMatch.length_le
    have hNe : r.segs.length ≠ ps.length + 1 := by omega
    simp [lacksSlash, exactMatch, hAgain, hRest, hNe]
  · simp [lacksSlash, exactMatch, hLookup, hRest]

/-
  A request goes to the handler whose route takes its method
  and matches its path, if the path is clean.
-/
theorem dispatch_eq_handler_iff
    {routes : List (Route H)}
    (hApart : Apart routes)
    (hHead : ∀ r ∈ routes, r.method ≠ "HEAD")
    {method : String}
    {written : List UInt8}
    {h : H}
    {values : List (List UInt8)}
    (hRooted : written.head? = some 47)
    (hMethod : method ≠ "CONNECT") :
    dispatch routes method written = .handler h values ↔
      Tidy (parts written) ∧
        ∃ r ∈ routes,
          r.handler = h ∧ r.Takes method ∧
            Matches r.segs (parts written) values := by
  rw [dispatch_eq_handler_iff_lookup hRooted hMethod]
  constructor
  · intro hSent
    rcases hSent with ⟨hTidy, _, r, hLookup, hSame⟩
    rcases (lookup_eq_some_iff hApart hHead).mp hLookup with
      ⟨hMem, hTakes, hMatch⟩
    exact ⟨hTidy, r, hMem, hSame, hTakes, hMatch⟩
  · intro hSent
    rcases hSent with ⟨hTidy, r, hMem, hSame, hTakes, hMatch⟩
    have hLookup :=
      (lookup_eq_some_iff hApart hHead).mpr
        ⟨hMem, hTakes, hMatch⟩
    exact
      ⟨hTidy, lacksSlash_of_lookup hApart hHead hLookup, r,
        hLookup, hSame⟩

end Mux
