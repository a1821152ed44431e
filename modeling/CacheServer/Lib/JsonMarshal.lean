import CacheServer.Lib.JsonDepth
import CacheServer.Lib.JsonEncode

/-
  JSON texts of values.

  The texts have no whitespace. What is no character in a
  string is written as an escaped replacement character, so
  that a text denotes its value with all strings repaired.

  Key definitions include:
    * `Json.marshal`
    * `Json.clean`

  Key theorems include:
    * `Json.read_marshal`
    * `Json.read_marshal_limit`
-/

------------------------------------------------------------
-- Texts
------------------------------------------------------------

namespace Json

/-
  The rest of a string between quotes, but for `skip` bytes
  of a character that has been written.
-/
def quoteFrom :
    Nat → List UInt8 → List UInt8
| _, [] => []
| skip + 1, _ :: bs => quoteFrom skip bs
| 0, b :: bs =>
    match Utf8.decodeChar? (b :: bs) with
    | some c => quoteChar c ++ quoteFrom (c.utf8Size - 1) bs
    | none => unicodeEscape 0xFFFD ++ quoteFrom 0 bs

def quoteBytes
    (bs : List UInt8) :
    List UInt8 :=
  34 :: (quoteFrom 0 bs ++ [34])

mutual

def marshal :
    Json → List UInt8
| .null => [110, 117, 108, 108]
| .bool true => [116, 114, 117, 101]
| .bool false => [102, 97, 108, 115, 101]
| .num lexeme => lexeme
| .str text => quoteBytes text
| .arr [] => [91, 93]
| .arr (v :: rest) =>
    91 :: (v.marshal ++ (itemsMarshal rest ++ [93]))
| .obj [] => [123, 125]
| .obj ((name, v) :: rest) =>
    123 ::
      (quoteBytes name ++ 58 ::
        (v.marshal ++ (membersMarshal rest ++ [125])))

/- Items, each with the comma before it. -/
def itemsMarshal :
    List Json → List UInt8
| [] => []
| v :: rest => 44 :: (v.marshal ++ itemsMarshal rest)

def membersMarshal :
    List (List UInt8 × Json) → List UInt8
| [] => []
| (name, v) :: rest =>
    44 ::
      (quoteBytes name ++ 58 ::
        (v.marshal ++ membersMarshal rest))

end

mutual

/- The value with every string repaired. -/
def clean :
    Json → Json
| .null => .null
| .bool b => .bool b
| .num lexeme => .num lexeme
| .str text => .str (Utf8.repair text)
| .arr items => .arr (itemsClean items)
| .obj members => .obj (membersClean members)

def itemsClean :
    List Json → List Json
| [] => []
| v :: rest => v.clean :: itemsClean rest

def membersClean :
    List (List UInt8 × Json) → List (List UInt8 × Json)
| [] => []
| (name, v) :: rest =>
    (Utf8.repair name, v.clean) :: membersClean rest

end

end Json

------------------------------------------------------------
-- Strings
------------------------------------------------------------

namespace Json

variable {owner : Option Members}
variable {text : List UInt8}
variable {stack : List Frame}

/- The escaped replacement character is read as itself. -/
theorem exec_replacement :
    (reader none).exec
        { mode := .str owner text (.plain none)
          stack := stack } (unicodeEscape 0xFFFD) =
      some
        { mode :=
            .str owner
              (text ++ String.utf8EncodeChar '\uFFFD')
              (.plain none)
          stack := stack } := by
  refine exec_byte rfl (exec_byte rfl ?_)
  refine exec_byte (step_hexByte (by decide)) ?_
  refine exec_byte (step_hexByte (by decide)) ?_
  refine exec_byte (step_hexByte (by decide)) ?_
  refine exec_byte (step_hexByte (by decide)) ?_
  rfl

/- What is between quotes is read as the characters it has. -/
theorem exec_quoteFrom
    (skip : Nat)
    (bs : List UInt8) :
    (reader none).exec
        { mode := .str owner text (.plain none)
          stack := stack } (quoteFrom skip bs) =
      some
        { mode :=
            .str owner
              (text ++ Utf8.encode (Utf8.runesFrom skip bs))
              (.plain none)
          stack := stack } := by
  induction skip, bs using quoteFrom.induct generalizing text
    with
  | case1 skip => simp [quoteFrom, Utf8.runesFrom]
  | case2 skip b bs ih => exact ih
  | case3 b bs c hChar ih =>
      have hFirst :
          (reader none).exec
              { mode := .str owner text (.plain none)
                stack := stack } (quoteChar c) =
            some _ :=
        exec_quoteChar c
      simp only [quoteFrom, Utf8.runesFrom, hChar,
        Utf8.encode_cons]
      rw [← List.append_assoc]
      exact exec_then hFirst ih
  | case4 b bs hChar ih =>
      have hFirst :
          (reader none).exec
              { mode := .str owner text (.plain none)
                stack := stack } (unicodeEscape 0xFFFD) =
            some _ :=
        exec_replacement
      simp only [quoteFrom, Utf8.runesFrom, hChar,
        Utf8.encode_cons]
      rw [← List.append_assoc]
      exact exec_then hFirst ih

/- A string after its first quote, up to the second one. -/
theorem exec_quoteBytes
    (bs : List UInt8) :
    (reader none).exec
        { mode := .str owner [] (.plain none), stack := stack }
        (quoteFrom 0 bs ++ [34]) =
      some (closeString (Utf8.repair bs) stack owner) := by
  have hText :
      (reader none).exec
          { mode := .str owner [] (.plain none)
            stack := stack } (quoteFrom 0 bs) =
        some _ :=
    exec_quoteFrom 0 bs
  exact exec_then hText (exec_byte (step_close none) rfl)

/- The name of a member after its first quote. -/
theorem exec_nameBytes
    (members : Members)
    (name : List UInt8) :
    (reader none).exec
        { mode := .str (some members) [] (.plain none)
          stack := stack }
        ((quoteFrom 0 name ++ [34]) ++ [58]) =
      some
        { mode := .value
          stack :=
            .member members (Utf8.repair name) :: stack } :=
  exec_then (exec_quoteBytes name) (exec_byte rfl rfl)

end Json

------------------------------------------------------------
-- Containers
------------------------------------------------------------

namespace Json

variable {stack : List Frame}

/- A value whose text is read back. -/
def ReadsBack
    (v : Json) :
    Prop :=
  read none v.marshal = some v.clean

theorem marshal_head
    {v : Json}
    (hNumbers : ∀ x ∈ v.lexemes, Number x) :
    ∃ b rest,
      v.marshal = b :: rest ∧ space b = false ∧ b ≠ 93 := by
  cases v with
  | num lexeme => exact raw_head hNumbers
  | null => exact ⟨_, _, rfl, by decide, by decide⟩
  | bool value =>
      cases value with
      | true => exact ⟨_, _, rfl, by decide, by decide⟩
      | false => exact ⟨_, _, rfl, by decide, by decide⟩
  | str text => exact ⟨_, _, rfl, by decide, by decide⟩
  | arr items =>
      cases items with
      | nil => exact ⟨_, _, rfl, by decide, by decide⟩
      | cons v rest => exact ⟨_, _, rfl, by decide, by decide⟩
  | obj members =>
      cases members with
      | nil => exact ⟨_, _, rfl, by decide, by decide⟩
      | cons member rest =>
          exact ⟨_, _, rfl, by decide, by decide⟩

/- The items from one on, with the closing bracket. -/
theorem exec_itemsMarshal
    (v : Json)
    (rest : List Json)
    (items : List Json)
    (hFirst : ReadsBack v)
    (hRest : ∀ w ∈ rest, ReadsBack w) :
    (reader none).exec
        { mode := .value, stack := .item items :: stack }
        (v.marshal ++ (itemsMarshal rest ++ [93])) =
      some
        (deliver (.arr (items ++ itemsClean (v :: rest)))
          stack) := by
  induction rest generalizing v items with
  | nil => exact exec_value hFirst ends_bracket rfl
  | cons w more ih =>
      have hNext :=
        ih w (items ++ [v.clean]) (hRest w (by simp))
          (fun x hMem => hRest x (by simp [hMem]))
      have hValue :
          (reader none).exec
              { mode := .value, stack := .item items :: stack }
              (v.marshal ++ [44]) =
            some _ :=
        exec_value hFirst ends_comma rfl
      have hSplit :
          v.marshal ++ (itemsMarshal (w :: more) ++ [93]) =
            (v.marshal ++ [44]) ++
              (w.marshal ++ (itemsMarshal more ++ [93])) := by
        simp [itemsMarshal]
      have hJoin :
          items ++ itemsClean (v :: w :: more) =
            items ++ [v.clean] ++ itemsClean (w :: more) := by
        simp [itemsClean]
      rw [hSplit, hJoin]
      exact exec_then hValue hNext

/- The members from a name on, with the closing brace. -/
theorem exec_membersMarshal
    (name : List UInt8)
    (v : Json)
    (rest : Members)
    (members : Members)
    (hFirst : ReadsBack v)
    (hRest : ∀ m ∈ rest, ReadsBack m.2) :
    (reader none).exec
        { mode := .str (some members) [] (.plain none)
          stack := stack }
        (quoteFrom 0 name ++ 34 :: 58 ::
          (v.marshal ++ (membersMarshal rest ++ [125]))) =
      some
        (deliver
          (.obj (members ++ membersClean ((name, v) :: rest)))
          stack) := by
  induction rest generalizing name v members with
  | nil =>
      have hValue :
          (reader none).exec
              { mode := .value
                stack :=
                  .member members (Utf8.repair name) :: stack }
              (v.marshal ++ [125]) =
            some
              (deliver
                (.obj
                  (members ++ membersClean [(name, v)]))
                stack) :=
        exec_value hFirst ends_brace rfl
      have hSplit :
          quoteFrom 0 name ++ 34 :: 58 ::
              (v.marshal ++ (membersMarshal [] ++ [125])) =
            ((quoteFrom 0 name ++ [34]) ++ [58]) ++
              (v.marshal ++ [125]) := by
        simp [membersMarshal]
      rw [hSplit]
      exact exec_then (exec_nameBytes members name) hValue
  | cons member more ih =>
      rcases member with ⟨next, w⟩
      have hNext :=
        ih next w (members ++ [(Utf8.repair name, v.clean)])
          (hRest (next, w) (by simp))
          (fun x hMem => hRest x (by simp [hMem]))
      have hValue :
          (reader none).exec
              { mode := .value
                stack :=
                  .member members (Utf8.repair name) :: stack }
              (v.marshal ++ [44]) =
            some
              { mode :=
                  .name
                    (members ++ [(Utf8.repair name, v.clean)])
                stack := stack } :=
        exec_value hFirst ends_comma rfl
      have hSplit :
          quoteFrom 0 name ++ 34 :: 58 ::
              (v.marshal ++
                (membersMarshal ((next, w) :: more) ++
                  [125])) =
            ((quoteFrom 0 name ++ [34]) ++ [58]) ++
              ((v.marshal ++ [44]) ++
                34 ::
                  (quoteFrom 0 next ++ 34 :: 58 ::
                    (w.marshal ++
                      (membersMarshal more ++ [125])))) := by
        simp [membersMarshal, quoteBytes]
      have hJoin :
          members ++ membersClean ((name, v) :: (next, w) :: more) =
            members ++ [(Utf8.repair name, v.clean)] ++
              membersClean ((next, w) :: more) := by
        simp [membersClean]
      rw [hSplit, hJoin]
      exact
        exec_then (exec_nameBytes members name)
          (exec_then hValue (exec_byte rfl hNext))

/- A text that ends by itself is read as its value. -/
theorem read_of_exec
    {text : List UInt8}
    {v : Json}
    (h :
      (reader none).exec start text = some (deliver v [])) :
    read none text = some v :=
  Option.bind_eq_some_iff.mpr ⟨_, h, rfl⟩

end Json

------------------------------------------------------------
-- Whole Values
------------------------------------------------------------

namespace Json

theorem mem_itemsLexemes
    {v : Json}
    {items : List Json}
    {lexeme : List UInt8}
    (hMem : v ∈ items)
    (hLexeme : lexeme ∈ v.lexemes) :
    lexeme ∈ itemsLexemes items := by
  induction items with
  | nil => cases hMem
  | cons w items ih =>
      rw [itemsLexemes, List.mem_append]
      rcases List.mem_cons.mp hMem with rfl | hRest
      · exact Or.inl hLexeme
      · exact Or.inr (ih hRest)

theorem mem_membersLexemes
    {m : List UInt8 × Json}
    {members : Members}
    {lexeme : List UInt8}
    (hMem : m ∈ members)
    (hLexeme : lexeme ∈ m.2.lexemes) :
    lexeme ∈ membersLexemes members := by
  induction members with
  | nil => cases hMem
  | cons member members ih =>
      rcases member with ⟨name, w⟩
      rw [membersLexemes, List.mem_append]
      rcases List.mem_cons.mp hMem with rfl | hRest
      · exact Or.inl hLexeme
      · exact Or.inr (ih hRest)

/- The text of a value denotes it with its strings repaired. -/
theorem read_marshal
    (v : Json)
    (hNumbers : ∀ x ∈ v.lexemes, Number x) :
    read none v.marshal = some v.clean := by
  match v with
  | .null => rfl
  | .bool true => rfl
  | .bool false => rfl
  | .num lexeme =>
      exact (hNumbers lexeme (by simp [lexemes])).read
  | .str text =>
      exact
        read_of_exec (exec_byte rfl (exec_quoteBytes text))
  | .arr [] => rfl
  | .arr (w :: rest) =>
      have hEach : ∀ x ∈ w :: rest, ReadsBack x :=
        fun x hMem =>
          read_marshal x
            (fun l hLexeme =>
              hNumbers l (mem_itemsLexemes hMem hLexeme))
      have hItems :
          (reader none).exec
              { mode := .value, stack := [.item []] }
              (w.marshal ++ (itemsMarshal rest ++ [93])) =
            some _ :=
        exec_itemsMarshal w rest []
          (hEach w List.mem_cons_self)
          (fun x hMem => hEach x (List.mem_cons_of_mem w hMem))
      have hHead :=
        @marshal_head w
          (fun l hLexeme =>
            hNumbers l
              (mem_itemsLexemes List.mem_cons_self hLexeme))
      rcases hHead with ⟨c, more, hText, hSpace, hNot⟩
      refine read_of_exec (exec_byte rfl ?_)
      rw [hText] at hItems ⊢
      exact exec_firstItem hSpace hNot hItems
  | .obj [] => rfl
  | .obj ((name, w) :: rest) =>
      have hEach : ∀ m ∈ (name, w) :: rest, ReadsBack m.2 :=
        fun m hMem =>
          read_marshal m.2
            (fun l hLexeme =>
              hNumbers l (mem_membersLexemes hMem hLexeme))
      have hMembers :
          (reader none).exec
              { mode := .str (some []) [] (.plain none)
                stack := [] }
              (quoteFrom 0 name ++ 34 :: 58 ::
                (w.marshal ++ (membersMarshal rest ++ [125]))) =
            some _ :=
        exec_membersMarshal name w rest []
          (hEach (name, w) List.mem_cons_self)
          (fun m hMem => hEach m (List.mem_cons_of_mem _ hMem))
      have hSplit :
          Json.marshal (.obj ((name, w) :: rest)) =
            123 :: 34 ::
              (quoteFrom 0 name ++ 34 :: 58 ::
                (w.marshal ++
                  (membersMarshal rest ++ [125]))) := by
        simp [marshal, quoteBytes]
      rw [hSplit]
      exact read_of_exec (exec_byte rfl (exec_byte rfl hMembers))
termination_by sizeOf v
decreasing_by
  · have hLt := List.sizeOf_lt_of_mem hMem
    simp only [arr.sizeOf_spec]
    omega
  · have hLt := List.sizeOf_lt_of_mem hMem
    rcases m with ⟨label, x⟩
    simp only [obj.sizeOf_spec, Prod.mk.sizeOf_spec] at hLt ⊢
    omega

end Json

------------------------------------------------------------
-- Depths And Repairs
------------------------------------------------------------

namespace Json

mutual

theorem depth_clean :
    (v : Json) → v.clean.depth = v.depth
| .null => rfl
| .bool _ => rfl
| .num _ => rfl
| .str _ => rfl
| .arr items => by
    rw [clean, depth, depth, itemsDepth_clean items]
| .obj members => by
    rw [clean, depth, depth, membersDepth_clean members]

theorem itemsDepth_clean :
    (items : List Json) →
      itemsDepth (itemsClean items) = itemsDepth items
| [] => rfl
| v :: rest => by
    rw [itemsClean, itemsDepth, itemsDepth, depth_clean v,
      itemsDepth_clean rest]

theorem membersDepth_clean :
    (members : List (List UInt8 × Json)) →
      membersDepth (membersClean members) =
        membersDepth members
| [] => rfl
| (_, v) :: rest => by
    rw [membersClean, membersDepth, membersDepth,
      depth_clean v, membersDepth_clean rest]

end

/- A reader with a limit reads values that are no deeper. -/
theorem read_marshal_limit
    {n : Nat}
    {v : Json}
    (hNumbers : ∀ x ∈ v.lexemes, Number x) :
    read (some n) v.marshal = some v.clean ↔ v.depth ≤ n := by
  rw [read_limit_iff, depth_clean]
  exact and_iff_right (read_marshal v hNumbers)

end Json
