import Hinting.Json.Parser
import Hinting.Proofs.Json.Token

/-!
Documents that are read from what they are written as.

The tokens of a document stand between the two: every layout writes them with blanks in between,
and the document is read from them whatever follows.
-/

namespace Hinting.Json

/-! ## Tokens -/

mutual

def tokens : Json → List Token
  | null => [.null]
  | bool truth => [.bool truth]
  | integer number => [.integer number]
  | real written => [.real written]
  | text content => [.text content]
  | array [] => [.beginArray, .endArray]
  | array (element :: elements) => .beginArray :: (element.tokens ++ elementTokens elements)
  | object [] => [.beginObject, .endObject]
  | object ((name, value) :: members) =>
      .beginObject :: .text name :: .colon :: (value.tokens ++ memberTokens members)

def elementTokens : List Json → List Token
  | [] => [.endArray]
  | element :: elements => .comma :: (element.tokens ++ elementTokens elements)

def memberTokens : List (Option String × Json) → List Token
  | [] => [.endObject]
  | (name, value) :: members =>
      .comma :: .text name :: .colon :: (value.tokens ++ memberTokens members)

end

theorem tokens_eq_cons (document : Json) :
    ∃ first more, document.tokens = first :: more ∧ first ≠ .endArray := by
  cases document with
  | array elements =>
      cases elements <;> exact ⟨.beginArray, _, by rw [tokens], by decide⟩
  | object members =>
      rcases members with _ | ⟨⟨name, value⟩, members⟩ <;>
        exact ⟨.beginObject, _, by rw [tokens], by decide⟩
  | null | bool | integer | real | text =>
      rw [tokens]
      exact ⟨_, [], rfl, nofun⟩

theorem length_tokens_pos (document : Json) : 0 < document.tokens.length := by
  rcases document.tokens_eq_cons with ⟨first, more, equal, _⟩
  rw [equal]
  exact Nat.zero_lt_succ _

/-! ## Reading -/

section

variable {limit : Nat} {tokens more rest : List Token} {element value : Json} {name : Option String}
  {elements : List Json} {members : List (Option String × Json)}

theorem value?_beginArray {first : Token} (notEnd : first ≠ .endArray)
    (read : elements? limit (first :: more) = some (elements, rest)) :
    value? (limit + 1) (.beginArray :: first :: more) = some (array elements, rest) := by
  rw [value?, read]
  · rfl
  · intro behind same
    exact notEnd (List.cons.inj same).1

theorem value?_beginObject
    (read : members? limit (.text name :: more) = some (members, rest)) :
    value? (limit + 1) (.beginObject :: .text name :: more) = some (object members, rest) := by
  rw [value?, read]
  · rfl
  · exact nofun

theorem elements?_last (last : value? limit tokens = some (element, .endArray :: rest)) :
    elements? (limit + 1) tokens = some ([element], rest) := by
  rw [elements?, last]
  rfl

theorem elements?_comma (first : value? limit tokens = some (element, .comma :: more))
    (others : elements? limit more = some (elements, rest)) :
    elements? (limit + 1) tokens = some (element :: elements, rest) := by
  simp [elements?, first, others]

theorem members?_last (last : value? limit tokens = some (value, .endObject :: rest)) :
    members? (limit + 1) (.text name :: .colon :: tokens) = some ([(name, value)], rest) := by
  rw [members?, last]
  rfl

theorem members?_comma (first : value? limit tokens = some (value, .comma :: more))
    (others : members? limit more = some (members, rest)) :
    members? (limit + 1) (.text name :: .colon :: tokens) =
      some ((name, value) :: members, rest) := by
  simp [members?, first, others]

end

/-- Within the limit, everything is read from its tokens, whatever follows them. -/
structure ReadsTokens (limit : Nat) : Prop where
  document : ∀ document rest, document.tokens.length ≤ limit →
    value? limit (document.tokens ++ rest) = some (document, rest)
  elements : ∀ element elements rest,
    (element.tokens ++ elementTokens elements).length ≤ limit →
      elements? limit (element.tokens ++ elementTokens elements ++ rest) =
        some (element :: elements, rest)
  members : ∀ name value members rest,
    (value.tokens ++ memberTokens members).length ≤ limit →
      members? limit (.text name :: .colon :: (value.tokens ++ memberTokens members ++ rest)) =
        some ((name, value) :: members, rest)

namespace ReadsTokens

theorem zero : ReadsTokens 0 where
  document document rest enough :=
    absurd enough (Nat.not_le_of_lt document.length_tokens_pos)
  elements element elements rest enough := by
    have positive := element.length_tokens_pos
    rw [List.length_append] at enough
    omega
  members name value members rest enough := by
    have positive := value.length_tokens_pos
    rw [List.length_append] at enough
    omega

variable {limit : Nat}

theorem document_succ (reads : ReadsTokens limit) (document : Json) (rest : List Token)
    (enough : document.tokens.length ≤ limit + 1) :
    value? (limit + 1) (document.tokens ++ rest) = some (document, rest) := by
  match document with
  | null | bool _ | integer _ | real _ | text _ | array [] | object [] => simp [tokens, value?]
  | array (element :: elements) =>
      rw [tokens, List.length_cons] at enough
      have read := reads.elements element elements rest (Nat.le_of_succ_le_succ enough)
      rcases element.tokens_eq_cons with ⟨first, more, equal, notEnd⟩
      rw [tokens, List.cons_append]
      rw [equal] at read ⊢
      exact value?_beginArray notEnd read
  | object ((name, value) :: members) =>
      rw [tokens, List.length_cons, List.length_cons, List.length_cons] at enough
      rw [tokens]
      exact value?_beginObject (reads.members name value members rest (by omega))

theorem elements_succ (reads : ReadsTokens limit) (element : Json) (elements : List Json)
    (rest : List Token) (enough : (element.tokens ++ elementTokens elements).length ≤ limit + 1) :
    elements? (limit + 1) (element.tokens ++ elementTokens elements ++ rest) =
      some (element :: elements, rest) := by
  have positive := element.length_tokens_pos
  rw [List.length_append] at enough
  rw [List.append_assoc]
  cases elements with
  | nil =>
      rw [elementTokens] at enough ⊢
      exact elements?_last (reads.document element _ (Nat.le_of_succ_le_succ enough))
  | cons next elements =>
      rw [elementTokens, List.length_cons] at enough
      rw [elementTokens]
      exact elements?_comma (reads.document element _ (by omega))
        (reads.elements next elements rest (by omega))

theorem members_succ (reads : ReadsTokens limit) (name : Option String) (value : Json)
    (members : List (Option String × Json)) (rest : List Token)
    (enough : (value.tokens ++ memberTokens members).length ≤ limit + 1) :
    members? (limit + 1)
        (.text name :: .colon :: (value.tokens ++ memberTokens members ++ rest)) =
      some ((name, value) :: members, rest) := by
  have positive := value.length_tokens_pos
  rw [List.length_append] at enough
  rw [List.append_assoc]
  cases members with
  | nil =>
      rw [memberTokens] at enough ⊢
      exact members?_last (reads.document value _ (Nat.le_of_succ_le_succ enough))
  | cons next members =>
      rw [memberTokens, List.length_cons, List.length_cons, List.length_cons] at enough
      rw [memberTokens]
      exact members?_comma (reads.document value _ (by omega))
        (reads.members next.1 next.2 members rest (by omega))

end ReadsTokens

theorem readsTokens (limit : Nat) : ReadsTokens limit := by
  induction limit with
  | zero => exact .zero
  | succ limit reads => exact ⟨reads.document_succ, reads.elements_succ, reads.members_succ⟩

/-! ## Writing -/

/-- Nothing stands between tokens but blanks. -/
structure Layout.Blank (layout : Layout) : Prop where
  lineBreak : ∀ level, ∀ character ∈ layout.lineBreak level, Token.isBlank character = true
  colon : ∃ blanks, layout.colon = ':' :: blanks ∧
    ∀ character ∈ blanks, Token.isBlank character = true

theorem Layout.pretty_blank : pretty.Blank where
  lineBreak level character member := by
    rcases List.mem_cons.mp member with rfl | space
    · rfl
    · rw [List.eq_of_mem_replicate space]
      rfl
  colon := ⟨[' '], rfl, List.forall_mem_singleton.mpr rfl⟩

/-- Nothing is lost when the document is written: its texts are sequences of characters, and its
numbers are numbers. -/
inductive Writable : Json → Prop
  | null : Writable .null
  | bool (truth : Bool) : Writable (.bool truth)
  | integer (number : Int) : Writable (.integer number)
  | real {written : String} :
      (∀ character ∈ written.toList, Token.isNumberCharacter character = true) →
      Token.ofNumber? written.toList = some (.real written) → Writable (.real written)
  | text (content : String) : Writable (.text (some content))
  | array {elements : List Json} : (∀ element ∈ elements, Writable element) →
      Writable (.array elements)
  | object {members : List (Option String × Json)} :
      (∀ member ∈ members, member.1.isSome = true) → (∀ member ∈ members, Writable member.2) →
      Writable (.object members)

theorem writable_ofMembers {members : List (String × Json)}
    (writable : ∀ member ∈ members, Writable member.2) : Writable (ofMembers members) := by
  apply Writable.object
  · intro _ member
    rcases List.mem_map.mp member with ⟨_, _, rfl⟩
    rfl
  · intro _ member
    rcases List.mem_map.mp member with ⟨original, listed, rfl⟩
    exact writable original listed

/-- The document is written as its tokens, unless a number goes on behind it. -/
def WritesTokens (layout : Layout) (document : Json) : Prop :=
  ∀ level rest tokens, Token.Ends rest → Token.Lexes rest tokens →
    Token.Lexes (document.render layout level ++ rest) (document.tokens ++ tokens)

section

variable {layout : Layout} {level : Nat} {rest : List Char} {tokens : List Token}

theorem ends_renderElements (blank : layout.Blank) (elements : List Json) :
    Token.Ends (renderElements layout level elements ++ rest) := by
  cases elements with
  | nil =>
      rw [renderElements, List.append_assoc]
      exact .blanks (blank.lineBreak level) (.cons rfl)
  | cons element elements =>
      rw [renderElements]
      exact .cons rfl

theorem lexes_renderElements (blank : layout.Blank) {elements : List Json}
    (write : ∀ element ∈ elements, WritesTokens layout element) (lexes : Token.Lexes rest tokens) :
    Token.Lexes (renderElements layout level elements ++ rest)
      (elementTokens elements ++ tokens) := by
  induction elements with
  | nil =>
      rw [renderElements, elementTokens, List.append_assoc]
      exact .blanks (blank.lineBreak level) (.mark rfl rfl lexes)
  | cons element elements induction =>
      rcases List.forall_mem_cons.mp write with ⟨first, others⟩
      have written := first (level + 1) _ _ (ends_renderElements blank elements) (induction others)
      simp only [renderElements, elementTokens, List.cons_append, List.append_assoc]
      exact .mark rfl rfl (.blanks (blank.lineBreak (level + 1)) written)

theorem ends_renderMembers (blank : layout.Blank) (members : List (Option String × Json)) :
    Token.Ends (renderMembers layout level members ++ rest) := by
  cases members with
  | nil =>
      rw [renderMembers, List.append_assoc]
      exact .blanks (blank.lineBreak level) (.cons rfl)
  | cons member members =>
      rw [renderMembers]
      exact .cons rfl

theorem lexes_member (blank : layout.Blank) {name : Option String} {value : Json}
    (named : name.isSome = true) (lexes : Token.Lexes (value.render layout level ++ rest) tokens) :
    Token.Lexes (quote name ++ (layout.colon ++ (value.render layout level ++ rest)))
      (.text name :: .colon :: tokens) := by
  rcases Option.isSome_iff_exists.mp named with ⟨name, rfl⟩
  rcases blank.colon with ⟨blanks, colon, allBlank⟩
  rw [colon]
  exact .quote name (.mark rfl rfl (.blanks allBlank lexes))

theorem lexes_renderMembers (blank : layout.Blank) {members : List (Option String × Json)}
    (named : ∀ member ∈ members, member.1.isSome = true)
    (write : ∀ member ∈ members, WritesTokens layout member.2) (lexes : Token.Lexes rest tokens) :
    Token.Lexes (renderMembers layout level members ++ rest) (memberTokens members ++ tokens) := by
  induction members with
  | nil =>
      rw [renderMembers, memberTokens, List.append_assoc]
      exact .blanks (blank.lineBreak level) (.mark rfl rfl lexes)
  | cons member members induction =>
      rcases List.forall_mem_cons.mp named with ⟨firstNamed, othersNamed⟩
      rcases List.forall_mem_cons.mp write with ⟨first, others⟩
      have written := first (level + 1) _ _ (ends_renderMembers blank members)
        (induction othersNamed others)
      simp only [renderMembers, memberTokens, List.cons_append, List.append_assoc]
      exact .mark rfl rfl
        (.blanks (blank.lineBreak (level + 1)) (lexes_member blank firstNamed written))

end

theorem Writable.writesTokens {layout : Layout} (blank : layout.Blank) {document : Json}
    (writable : Writable document) : WritesTokens layout document := by
  induction writable with
  | null => exact fun _ rest _ _ lexes => .token rfl rfl (List.suffix_append _ rest) lexes
  | bool truth =>
      cases truth
      · exact fun _ rest _ _ lexes => .token rfl rfl (List.suffix_append _ rest) lexes
      · exact fun _ rest _ _ lexes => .token rfl rfl (List.suffix_append _ rest) lexes
  | integer number =>
      exact fun _ _ _ ends lexes => .number (Token.isNumberCharacter_toString number)
        (Token.ofNumber?_toString number) ends lexes
  | real characters number => exact fun _ _ _ ends lexes => .number characters number ends lexes
  | text content => exact fun _ _ _ _ lexes => .quote content lexes
  | @array elements _ write =>
      intro level rest tokens _ lexes
      cases elements with
      | nil => exact .mark rfl rfl (.mark rfl rfl lexes)
      | cons element elements =>
          rcases List.forall_mem_cons.mp write with ⟨first, others⟩
          have behind : Token.Lexes (renderElements layout level elements ++ rest) _ :=
            lexes_renderElements blank others lexes
          have written := first (level + 1) _ _ (ends_renderElements blank elements) behind
          simp only [render, Json.tokens, List.cons_append, List.append_assoc]
          exact .mark rfl rfl (.blanks (blank.lineBreak (level + 1)) written)
  | @object members named _ write =>
      intro level rest tokens _ lexes
      cases members with
      | nil => exact .mark rfl rfl (.mark rfl rfl lexes)
      | cons member members =>
          rcases List.forall_mem_cons.mp named with ⟨firstNamed, othersNamed⟩
          rcases List.forall_mem_cons.mp write with ⟨first, others⟩
          have behind : Token.Lexes (renderMembers layout level members ++ rest) _ :=
            lexes_renderMembers blank othersNamed others lexes
          have written := first (level + 1) _ _ (ends_renderMembers blank members) behind
          simp only [render, Json.tokens, List.cons_append, List.append_assoc]
          exact .mark rfl rfl
            (.blanks (blank.lineBreak (level + 1)) (lexes_member blank firstNamed written))

theorem parse?_render {layout : Layout} (blank : layout.Blank) (level : Nat) {document : Json}
    (writable : Writable document) :
    parse? (.ofList (document.render layout level)) = some document := by
  have lexes := writable.writesTokens blank level [] [] nofun .nil
  have read := (readsTokens (2 * document.tokens.length + 1)).document document [] (by omega)
  rw [List.append_nil, List.append_nil] at lexes
  rw [List.append_nil] at read
  rw [parse?, lexes.ofText?_eq]
  simp [read]

theorem parse?_pretty {document : Json} (writable : Writable document) :
    parse? document.pretty = some document :=
  parse?_render Layout.pretty_blank 0 writable

end Hinting.Json
