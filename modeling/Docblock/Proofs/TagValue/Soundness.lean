import Docblock.Proofs.TagValue.Parts
import Docblock.Proofs.TagValue.Rules
import Docblock.Proofs.TypeExpr.RoundTrip
import Docblock.TagValue.Print

/-!
# What the values of tags are made of

The value of a tag that was read from a text has parts that can be read again: its types are
spelled by words of the text, and its names and default values are such words.  Nothing is said
here about the order of the parts or about what stands between them, because printing a value
decides that anew.
-/

namespace Docblock

open Docblock.Parser

/-- The name is that of a variable, which is a word behind a dollar sign. -/
def IsVariableName (name : String) : Prop := IsLexeme .namedVariable ("$" ++ name).toList

/-- The name is a word that is an identifier. -/
def IsName (name : String) : Prop := IsLexeme .identifier name.toList

namespace TagValue

/-- Whether the value has parts, and is not a mere text. -/
def isStructured : TagValue → Bool
  | deprecated _ => false
  | generic _ => false
  | invalid _ => false
  | _ => true

/-- The text behind the other parts of the value, if there is a place for it. -/
def description : TagValue → String
  | var value => value.description
  | param value => value.description
  | typed _ value => value.description
  | property value => value.description
  | method value => value.description
  | template value => value.description
  | _ => ""

/-- The type expressions in the value. -/
def types : TagValue → List TypeExpr
  | var value => [value.type]
  | param value => [value.type]
  | typed _ value => [value.type]
  | property value => [value.type]
  | method value => value.returnType.toList ++ value.parameters.filterMap MethodParameter.type
  | template value => value.bound.toList ++ value.default.toList
  | typeAlias value => [value.type]
  | imported value => [value.source]
  | _ => []

/-- The rule that describes the value, if one does. -/
def rule? : TagValue → Option TagRule
  | var _ => some .var
  | param _ => some .param
  | typed role _ => some (.typed role)
  | deprecated _ => some .deprecated
  | property _ => some .property
  | method _ => some .method
  | template _ => some .template
  | typeAlias _ => some .typeAlias
  | imported _ => some .imported
  | generic _ => none
  | invalid _ => none

/-- A word of this kind with this text is not taken for a part that the value does not have. -/
def Leaves (value : TagValue) (kind : TokenKind) (text : String) : Prop :=
  match value with
  | var tag => tag.variableName = none → kind ≠ .namedVariable
  | template tag =>
      tag.default = none → kind ≠ .equal ∧ (tag.bound = none → text ≠ "of" ∧ text ≠ "as")
  | _ => True

end TagValue

/-- The constant expression can be read again from its printed form. -/
def ConstExpr.Reprints (expr : ConstExpr) : Prop :=
  Rescans Delimited expr.print (ConstPhrase.expr expr).Spelled

/-- The parts of the parameter can be read again from their printed forms. -/
structure MethodParameter.Reprints (parameter : MethodParameter) : Prop where
  type : ∀ type ∈ parameter.type, type.Reprints
  name : IsVariableName parameter.name
  default : ∀ expr ∈ parameter.default, expr.Reprints

/-- The parts of the method can be read again from their printed forms.  The word for a static
method is read as such only in front of a return type. -/
structure MethodTag.Reprints (tag : MethodTag) : Prop where
  returnType : ∀ type ∈ tag.returnType, type.Reprints
  name : IsName tag.name
  parameters : ∀ parameter ∈ tag.parameters, parameter.Reprints
  static : tag.isStatic = true → tag.returnType.isSome = true

/-- Whether a type in this role must be a generic one. -/
def TypedRole.isInherited : TypedRole → Bool
  | .parent | .interface | .trait => true
  | .returned | .thrown | .mixin => false

/-- Whether the type is a generic one. -/
def TypeExpr.isGeneric (type : TypeExpr) : Bool :=
  match type.form with
  | .generic _ _ => true
  | _ => false

/-- The type is a generic one, and its name and its arguments can be read again from their
printed forms. -/
def TypeExpr.ReprintsGeneric (type : TypeExpr) : Prop :=
  ∃ name inner arguments outer, type = ⟨.generic ⟨.identifier name, inner⟩ arguments, outer⟩ ∧
    IsName name ∧ arguments ≠ [] ∧ ∀ argument ∈ arguments, argument.Reprints

/-- The parts of the value can be read again from their printed forms. -/
def TagValue.Reprints : TagValue → Prop
  | var value => value.type.Reprints ∧ ∀ name ∈ value.variableName, IsVariableName name
  | param value => value.type.Reprints ∧ IsVariableName value.name
  | typed role value =>
      if role.isInherited then value.type.ReprintsGeneric else value.type.Reprints
  | property value => value.type.Reprints ∧ IsVariableName value.name
  | method value => value.Reprints
  | template value => IsName value.name ∧ (∀ bound ∈ value.bound, bound.Reprints) ∧
      ∀ type ∈ value.default, type.Reprints
  | typeAlias value => IsName value.name ∧ value.type.Reprints
  | imported value => IsName value.name ∧
      (∃ name attributes, value.source = ⟨.identifier name, attributes⟩ ∧ IsName name) ∧
      ∀ name ∈ value.localName, IsName name
  | _ => True

/-- The words of a text whose numbers are well formed, up to the end of the text. -/
structure Legible (words : List Word) : Prop where
  ends : Sealed words
  lexical : ∀ word ∈ words, word.Lexical
  solid : ∀ word ∈ words, word.kind ≠ .blank

namespace Legible

variable {words front rest : List Word} {word : Word}

theorem of_suffix (legible : Legible (front ++ rest)) (ends : Sealed rest) : Legible rest where
  ends := ends
  lexical word isMember := legible.lexical word (List.mem_append_right front isMember)
  solid word isMember := legible.solid word (List.mem_append_right front isMember)

theorem behind (legible : Legible words) (consumes : Consumes words front rest) :
    Legible rest := by
  obtain ⟨⟨raw, rfl, -⟩, ends⟩ := consumes
  exact legible.of_suffix ends

theorem lexical_of_consumes (legible : Legible words) (consumes : Consumes words front rest) :
    ∀ word ∈ front, word.Lexical :=
  fun word isUsed => legible.lexical word (consumes.mem isUsed)

theorem tail (legible : Legible (word :: rest)) (ends : Sealed rest) : Legible rest :=
  of_suffix (show Legible ([word] ++ rest) from legible) ends

end Legible

/-- At the last word the cursor stays where it is. -/
theorem Cursor.words_advance_last {cursor : Cursor} {word : Word} (seen : cursor.words = [word]) :
    cursor.advance.words = [word] := by
  have inside := inside_of_words seen
  by_cases last : cursor.tokens.size ≤ cursor.index + 1
  · rw [advance, if_pos last]
    exact seen
  · rw [words, cursor.tokensFrom_of_lt inside, cursor.tokensFrom_of_lt (by omega), wordsOf] at seen
    have noMore := (List.cons.inj seen).2
    split at noMore
    · next passed =>
        obtain ⟨next, others, eq⟩ := List.exists_cons_of_ne_nil passed.2
        rw [eq] at noMore
        exact absurd noMore (wordsOf_cons_ne_nil _ _ _)
    · exact absurd noMore (wordsOf_cons_ne_nil _ _ _)

/-- Of any parser it can be said that it succeeds or fails. -/
theorem Parser.Meets.any {α : Type} {parser : Parser α} {words : List Word} :
    parser.Meets words (fun _ _ => True) True := by
  intro tracking cursor _
  split <;> trivial

theorem Parser.Meets.and {α : Type} {parser : Parser α} {words : List Word}
    {good good' : α → List Word → Prop} {bad : Prop} (first : parser.Meets words good bad)
    (second : parser.Meets words good' bad) :
    parser.Meets words (fun value rest => good value rest ∧ good' value rest) bad := by
  intro tracking cursor seen
  have firstReply := first tracking cursor seen
  have secondReply := second tracking cursor seen
  cases replied : parser tracking cursor with
  | ok value next =>
      rw [replied] at firstReply secondReply
      exact ⟨firstReply, secondReply⟩
  | failed failure next =>
      rw [replied] at firstReply
      exact firstReply

section Steps

variable {words : List Word} {kind : TokenKind} {bad : Prop}

theorem Parser.Meets.acceptValue_legible (legible : Legible words) (value : String) :
    (Parser.acceptValue value).Meets words (fun taken rest => Legible rest ∧
      (taken = false → rest = words ∧ ∀ word ∈ words.head?, word.text ≠ value)) bad := by
  obtain ⟨word, rest, rfl⟩ := legible.ends.exists_cons
  by_cases isValue : word.text = value
  · cases rest with
    | nil =>
        intro tracking cursor seen
        have at_value : cursor.isAtValue value = true := by
          rw [Cursor.isAtValue, Cursor.value_of_words seen, decide_eq_true isValue]
        simp only [Parser.acceptValue, Parser.step, Cursor.acceptValue, at_value, if_true]
        rw [Cursor.words_advance_last seen]
        exact ⟨legible, by simp⟩
    | cons next others =>
        have ends : Sealed (next :: others) :=
          Sealed.of_append (show Sealed ([word] ++ next :: others) from legible.ends) (by simp)
        refine (Returns.acceptValue_yes isValue ends.ne_nil).mono ?_ False.elim
        rintro _ _ ⟨rfl, rfl⟩
        exact ⟨legible.tail ends, by simp⟩
  · refine (Returns.acceptValue_no isValue).mono ?_ False.elim
    rintro _ _ ⟨rfl, rfl⟩
    exact ⟨legible, fun _ => ⟨rfl, by simpa using isValue⟩⟩

theorem Parser.Meets.acceptWord_legible (legible : Legible words) (value : String) :
    (Parser.acceptWord kind value).Meets words (fun _ rest => Legible rest) bad := by
  obtain ⟨word, rest, rfl⟩ := legible.ends.exists_cons
  refine (Returns.isAt kind).bind ?_
  split
  · exact (Meets.acceptValue_legible legible value).mono (fun _ _ found => found.1) id
  · exact .pure legible

theorem Parser.Meets.consumeValue_legible (legible : Legible words) (value : String)
    (notFinish : kind ≠ .finish) :
    (Parser.consumeValue kind value).Meets words (fun _ rest => Legible rest) True := by
  obtain ⟨word, rest, rfl⟩ := legible.ends.exists_cons
  by_cases isWord : word.kind = kind ∧ word.text = value
  · have ends : Sealed rest := legible.ends.tail (by rw [isWord.1]; exact notFinish)
    refine (Returns.consumeValue isWord.1 isWord.2 ends.ne_nil).mono ?_ False.elim
    rintro _ _ ⟨-, rfl⟩
    exact legible.tail ends
  · exact (Rejects.consumeValue isWord).meets

theorem Parser.Meets.accept_legible (legible : Legible words) (notFinish : kind ≠ .finish) :
    (Parser.accept kind).Meets words (fun taken rest => Legible rest ∧
      (taken = false → rest = words ∧ ∀ word ∈ words.head?, word.kind ≠ kind)) bad := by
  refine (Meets.accept legible.ends notFinish).mono ?_ id
  rintro _ rest (⟨rfl, ends, word, -, rfl⟩ | ⟨rfl, rfl, differs⟩)
  · exact ⟨legible.tail ends, by simp⟩
  · exact ⟨legible, fun _ => ⟨rfl, differs⟩⟩

theorem Parser.Meets.consume_legible (legible : Legible words) (notFinish : kind ≠ .finish) :
    (Parser.consume kind).Meets words
      (fun text rest => Legible rest ∧ ∃ word : Word, word.kind = kind ∧ word.text = text ∧
        word.Lexical) True := by
  refine (Meets.consume legible.ends notFinish).mono ?_ id
  rintro _ rest ⟨ends, word, isKind, isText, rfl⟩
  exact ⟨legible.tail ends, word, isKind, isText, legible.lexical word List.mem_cons_self⟩

theorem Parser.Meets.consume_name (legible : Legible words) :
    (Parser.consume .identifier).Meets words (fun name rest => Legible rest ∧ IsName name)
      True := by
  refine (Meets.consume_legible legible (by decide)).mono ?_ id
  rintro _ rest ⟨legible, word, isKind, rfl, lexical⟩
  exact ⟨legible, lexical.identifier isKind⟩

end Steps

/-- The type expression that a part of one stands for, if it stands for one. -/
def TypePhrase.type? : TypePhrase → Option TypeExpr
  | .chain _ type => some type
  | .operand type => some type
  | .atomic type => some type
  | .primary type => some type
  | .enclosed type => some type
  | .subject type => some type
  | .condition _ type => some type
  | .parameter _ => none
  | .item _ => none

/-- Array brackets make an array of a name. -/
theorem Suffixes.identifierName? {type outer : TypeExpr} {ending final : Ending}
    {brackets : List Word} {name : String} (suffixes : Suffixes type ending outer brackets final)
    (isName : outer.identifierName? = some name) : type.identifierName? = some name := by
  induction suffixes with
  | done => exact isName
  | more _ _ _ induction => cases induction isName

/-- A tree that is nothing but a name has the word of the name in its spelling. -/
theorem TypePhrase.Spelled.exists_identifier {phrase : TypePhrase} {words : List Word}
    {ending : Ending} {name : String} (isSpelled : phrase.Spelled words ending)
    (isName : phrase.type?.bind TypeExpr.identifierName? = some name) :
    ∃ word ∈ words, word.kind = .identifier ∧ word.text = name := by
  -- The cases whose trees have another form contradict `isName`.
  induction isSpelled with
  | @single level _ _ _ _ induction => cases level <;> exact induction isName
  | @joined level => cases level <;> cases isName
  | nullable => cases isName
  | plain _ induction => exact induction isName
  | suffixed _ suffixes induction =>
      obtain ⟨word, isMember, isWord⟩ := induction (suffixes.identifierName? isName)
      exact ⟨word, List.mem_append_left _ isMember, isWord⟩
  | callable => cases isName
  | parenthesized _ _ _ induction =>
      obtain ⟨word, isMember, isWord⟩ := induction isName
      exact ⟨word, by simp [isMember], isWord⟩
  | this => cases isName
  | @name word _ isKind =>
      cases isName
      exact ⟨word, List.mem_singleton_self word, isKind, rfl⟩
  | generic => cases isName
  | shape => cases isName
  | constant => cases isName
  | aboutParameter _ _ induction =>
      obtain ⟨word, isMember, isWord⟩ := induction isName
      exact ⟨word, List.mem_cons_of_mem _ isMember, isWord⟩
  | aboutType _ induction => exact induction isName
  | unconditional _ induction => exact induction isName
  | conditional _ _ _ _ induction =>
      obtain ⟨word, isMember, isWord⟩ := induction isName
      exact ⟨word, List.mem_append_right _ isMember, isWord⟩
  | condition => cases isName
  | parameter => cases isName
  | value => cases isName
  | entry => cases isName

/-- The type can be read again from its printed form, if its parts can be told from theirs, and
it is a word if it is nothing but a name. -/
structure TypeExpr.Sourced (type : TypeExpr) : Prop where
  reprints : type.Faithful → type.Reprints
  name : ∀ name, type.identifierName? = some name → IsName name

theorem TypePhrase.Spelled.sourced {type : TypeExpr} {words : List Word} {ending : Ending}
    (isSpelled : (TypePhrase.chain .union type).Spelled words ending)
    (lexical : ∀ word ∈ words, word.Lexical) : type.Sourced where
  reprints := isSpelled.reprints lexical
  name := by
    intro name isName
    obtain ⟨word, isMember, isKind, rfl⟩ := isSpelled.exists_identifier isName
    exact (lexical word isMember).identifier isKind

-- Parsers are taken apart with the rules for `Meets`, never by running them.
attribute [local irreducible] Parser.Meets

section Types

variable {words : List Word}

theorem TypeExpr.parser_sourced (legible : Legible words) :
    TypeExpr.parser.Meets words (fun type rest => Legible rest ∧ type.Sourced) True := by
  refine (parser_sound legible.ends).mono ?_ id
  rintro type rest ⟨used, ending, consumes, isSpelled, -⟩
  exact ⟨legible.behind consumes, isSpelled.sourced (legible.lexical_of_consumes consumes)⟩

theorem TypeExpr.goal_grounded : Grounded goal where
  built := goal_built
  rejects := by
    intro multiline word more isBreak
    refine Meets.bind .remaining ?_
    rintro bound _ ⟨-, rfl⟩
    exact (goalWithin_grounded _).rejects multiline word more isBreak
  union := by
    intro multiline words ends
    refine .bind .remaining ?_
    rintro bound _ ⟨-, rfl⟩
    exact (goalWithin_grounded _).union multiline _ ends
  operand := by
    intro words ends
    refine .bind .remaining ?_
    rintro bound _ ⟨-, rfl⟩
    exact (goalWithin_grounded _).operand _ ends
  condition := by
    intro subject start words ends
    refine .bind .remaining ?_
    rintro bound _ ⟨-, rfl⟩
    exact (goalWithin_grounded _).condition subject start _ ends

theorem TypeExpr.genericParser_isGeneric :
    TypeExpr.genericParser.Meets words (fun type _ => type.isGeneric = true) True := by
  refine .bind .any fun start _ _ => ?_
  refine .bind .any fun name _ _ => ?_
  refine .bind .any fun base _ _ => ?_
  refine .bind .any fun opened _ _ => ?_
  refine .bind .any fun skipped _ _ => ?_
  refine .bind .any fun arguments _ _ => ?_
  refine .bind .any fun closed _ _ => ?_
  exact node_meets start fun _ => rfl

/-- What starts with an identifier and is a generic type has arguments. -/
theorem TypePhrase.Spelled.reprintsGeneric {type : TypeExpr} {word : Word} {more : List Word}
    {ending : Ending} (isSpelled : (TypePhrase.primary type).Spelled (word :: more) ending)
    (isName : word.kind = .identifier) (isGeneric : type.isGeneric = true)
    (lexical : ∀ other ∈ word :: more, other.Lexical) (faithful : type.Faithful) :
    type.ReprintsGeneric := by
  cases isSpelled with
  | parenthesized isOpen =>
      rw [isName] at isOpen
      cases isOpen
  | @generic _ _ slots list inner outer _ _ some each listed =>
      have slotsLexical := listed.forall_slots fun other isMember =>
        lexical other (by simp [isMember])
      refine ⟨word.text, inner, slots.map Slot.value, outer, rfl,
        (lexical word List.mem_cons_self).identifier isName, by simpa using some, ?_⟩
      intro argument isArgument
      obtain ⟨slot, isSlot, rfl⟩ := List.mem_map.mp isArgument
      refine (each slot isSlot).reprints (slotsLexical slot isSlot) (faithful.part ?_)
      exact List.mem_cons_of_mem _ isArgument
  | _ => cases isGeneric

theorem TypeExpr.genericParser_sourced (legible : Legible words) :
    TypeExpr.genericParser.Meets words (fun type rest => Legible rest ∧
      (type.isGeneric = true → type.Faithful → type.ReprintsGeneric)) True := by
  refine .bind .mark ?_
  rintro start _ rfl
  refine .bind (Meets.consume legible.ends (by decide)) ?_
  rintro _ rest ⟨ends, word, isName, rfl, rfl⟩
  refine .bind (node_gives start) ?_
  rintro _ _ ⟨rfl, attributes, rfl⟩
  obtain ⟨angle, more, rfl⟩ := ends.exists_cons
  by_cases isOpen : angle.kind = .openAngle
  · refine (readGeneric_meets goal_grounded isName isOpen start ends).mono ?_ id
    rintro type rest ⟨used, consumes, isSpelled⟩
    refine ⟨(legible.tail ends).behind consumes, fun isGeneric => ?_⟩
    exact isSpelled.reprintsGeneric isName isGeneric
      (legible.lexical_of_consumes (.cons (by rw [isName]; decide) ends consumes))
  · exact (Rejects.consume isOpen).bind trivial

end Types

/-- A loop ends as its final round does. -/
theorem Parser.Rounds.final {α β σ : Type} {step : σ → α → σ → Prop} {last : β → σ → Prop}
    {state rest : σ} {values : List α} {result : β}
    (rounds : Rounds step (fun _ result rest => last result rest) state values result rest) :
    last result rest := by
  induction rounds with
  | done final => exact final
  | item _ _ induction => exact induction

/-- The items of a loop have a property that each round gives to its item. -/
theorem Parser.Rounds.forall_mem {α β σ : Type} {holds : α → Prop} {last : σ → β → σ → Prop}
    {state rest : σ} {values : List α} {result : β}
    (rounds : Rounds (fun _ value _ => holds value) last state values result rest) :
    ∀ value ∈ values, holds value := by
  induction rounds with
  | done => simp
  | item first _ induction => simpa using ⟨first, induction⟩

/-- The parts of the parameter can be read again, if its type can be told from its printed
form. -/
def MethodParameter.Sourced (parameter : MethodParameter) : Prop :=
  (∀ type ∈ parameter.type, type.Faithful) → parameter.Reprints

namespace TagValue

variable {words : List Word}

/-- The parts of the value can be read again, if its types can be told from their printed
forms. -/
def Sourced (value : TagValue) : Prop :=
  (∀ type ∈ value.types, type.Faithful) → value.Reprints

theorem readVariableName_sourced (legible : Legible words) :
    readVariableName.Meets words (fun name rest => Legible rest ∧ IsVariableName name) True := by
  refine .bind (.consume_legible legible (by decide)) ?_
  rintro _ rest ⟨legible, word, isKind, rfl, lexical⟩
  exact .pure ⟨legible, lexical.variableName isKind⟩

theorem readVariableName?_sourced (legible : Legible words) :
    TypeExpr.readVariableName?.Meets words (fun name rest => Legible rest ∧
      (∀ text ∈ name, IsVariableName text) ∧
        (name = none → ∀ word ∈ rest.head?, word.kind ≠ .namedVariable)) True := by
  obtain ⟨word, rest, rfl⟩ := legible.ends.exists_cons
  by_cases isVariable : word.kind = .namedVariable
  · refine (Returns.isAt_yes isVariable).bind ?_
    rw [if_pos rfl]
    refine .bind (.consume_legible legible (by decide)) ?_
    rintro _ rest ⟨legible, word, isKind, rfl, lexical⟩
    have named : IsVariableName (TypeExpr.variableName word.text) := lexical.variableName isKind
    exact .pure ⟨legible, by simpa using named, nofun⟩
  · refine (Returns.isAt_no isVariable).bind ?_
    rw [if_neg (by decide)]
    exact .pure ⟨legible, by simp, fun _ => by simpa using isVariable⟩

theorem readRoleType_sourced (role : TypedRole) (legible : Legible words) :
    (readRoleType role).Meets words (fun type rest => Legible rest ∧ (type.Faithful →
      if role.isInherited then type.ReprintsGeneric else type.Reprints)) True := by
  have plain : TypeExpr.parser.Meets words
      (fun type rest => Legible rest ∧ (type.Faithful → type.Reprints)) True :=
    (TypeExpr.parser_sourced legible).mono (fun _ _ found => ⟨found.1, found.2.reprints⟩) id
  have generic : TypeExpr.genericParser.Meets words
      (fun type rest => Legible rest ∧ (type.Faithful → type.ReprintsGeneric)) True :=
    (TypeExpr.genericParser_isGeneric.and (TypeExpr.genericParser_sourced legible)).mono
      (fun _ _ found => ⟨found.2.1, found.2.2 found.1⟩) id
  cases role with
  | returned => exact plain
  | thrown => exact plain
  | mixin => exact plain
  | parent => exact generic
  | interface => exact generic
  | trait => exact generic

theorem readParameterType?_sourced (legible : Legible words) :
    readParameterType?.Meets words
      (fun found rest => Legible rest ∧ ∀ type ∈ found, type.Sourced) True := by
  obtain ⟨word, rest, rfl⟩ := legible.ends.exists_cons
  refine (Returns.isAtAny untypedStarts).bind ?_
  split
  · exact .pure ⟨legible, by simp⟩
  · refine .bind (TypeExpr.parser_sourced legible) ?_
    rintro type _ ⟨legible, ofType⟩
    exact .pure ⟨legible, by simpa using ofType⟩

theorem readDefaultValue?_sourced (legible : Legible words) :
    readDefaultValue?.Meets words
      (fun found rest => Legible rest ∧ ∀ expr ∈ found, expr.Reprints) True := by
  refine .bind (.accept_legible legible (by decide)) fun taken _ ⟨legible, _⟩ => ?_
  split
  · refine .bind (ConstExpr.parser_sound _ legible.ends) ?_
    rintro expr _ ⟨used, ending, consumes, isSpelled, -⟩
    have ofExpr : expr.Reprints := isSpelled.rescans (legible.lexical_of_consumes consumes)
    exact .pure ⟨legible.behind consumes, by simpa using ofExpr⟩
  · exact .pure ⟨legible, by simp⟩

theorem readMethodParameter_sourced (legible : Legible words) :
    readMethodParameter.Meets words
      (fun parameter rest => Legible rest ∧ parameter.Sourced) True := by
  refine .bind .mark ?_
  rintro start _ rfl
  refine .bind (readParameterType?_sourced legible) ?_
  rintro type _ ⟨legible, ofType⟩
  refine .bind (.accept_legible legible (by decide)) fun isReference _ ⟨legible, _⟩ => ?_
  refine .bind (.accept_legible legible (by decide)) fun isVariadic _ ⟨legible, _⟩ => ?_
  refine .bind (readVariableName_sourced legible) ?_
  rintro name _ ⟨legible, named⟩
  refine .bind (readDefaultValue?_sourced legible) ?_
  rintro default _ ⟨legible, ofDefault⟩
  refine .bind (.positionsSince start) ?_
  rintro attributes _ rfl
  refine .pure ⟨legible, fun faithful => ⟨?_, named, ofDefault⟩⟩
  intro found isType
  exact (ofType found isType).reprints (faithful found isType)

theorem nextParameter_sourced (legible : Legible words) :
    nextParameter.Meets words (fun found rest => Legible rest ∧
      ∀ parameter ∈ found, parameter.Sourced) True := by
  refine .bind (.accept_legible legible (by decide)) ?_
  rintro taken _ ⟨legible, -⟩
  split
  · refine .bind (readMethodParameter_sourced legible) ?_
    rintro next _ ⟨legible, ofNext⟩
    exact .pure ⟨legible, by simpa using ofNext⟩
  · exact .pure ⟨legible, by simp⟩

theorem readMethodParameterList_sourced (legible : Legible words) :
    readMethodParameterList.Meets words (fun parameters rest => Legible rest ∧
      ∀ parameter ∈ parameters, parameter.Sourced) True := by
  obtain ⟨word, rest, rfl⟩ := legible.ends.exists_cons
  refine (Returns.isAt .closeParen).bind ?_
  split
  · exact .pure ⟨legible, by simp⟩
  · refine .bind (readMethodParameter_sourced legible) ?_
    rintro first _ ⟨legible, ofFirst⟩
    refine .bind (Meets.many (fun _ parameter _ => parameter.Sourced) (fun _ rest => Legible rest)
      Legible legible fun words legible => (nextParameter_sourced legible).mono ?_ id) ?_
    · rintro (- | next) rest ⟨legible, ofNext⟩
      · exact legible
      · exact ⟨ofNext next rfl, legible⟩
    · intro others _ rounds
      exact .pure ⟨rounds.final, by simpa using ⟨ofFirst, rounds.forall_mem⟩⟩

theorem readMethodParameters_sourced (legible : Legible words) :
    readMethodParameters.Meets words (fun parameters rest => Legible rest ∧
      ∀ parameter ∈ parameters, parameter.Sourced) True := by
  refine .bind (.consume_legible legible (by decide)) ?_
  rintro _ _ ⟨legible, -⟩
  refine .bind (readMethodParameterList_sourced legible) ?_
  rintro parameters _ ⟨legible, areSourced⟩
  refine .bind (.consume_legible legible (by decide)) ?_
  rintro _ _ ⟨legible, -⟩
  exact .pure ⟨legible, areSourced⟩

theorem isName_static : IsName "static" :=
  Lexeme.isLexeme_identifier
    (show Lexeme.rule? 's' ['t', 'a', 't', 'i', 'c'] = some ⟨.identifier, 5⟩ from rfl)

theorem readStatic?_sourced (legible : Legible words) :
    readStatic?.Meets words
      (fun found rest => Legible rest ∧ ∀ type ∈ found, type.Reprints) True := by
  refine .bind .mark ?_
  rintro start _ rfl
  refine .bind (.acceptWord_legible legible "static") fun taken _ legible => ?_
  split
  · refine .bind (TypeExpr.node_gives start) ?_
    rintro _ _ ⟨rfl, attributes, rfl⟩
    exact .pure ⟨legible, by simpa using TypeExpr.reprints_name attributes isName_static⟩
  · exact .pure ⟨legible, by simp⟩

theorem readMethodHead_sourced (legible : Legible words) :
    readMethodHead.Meets words
      (fun head rest => Legible rest ∧
        (∀ type ∈ head.2.1, type.Faithful → type.Reprints) ∧ IsName head.2.2 ∧
        (head.1 = true → head.2.1.isSome = true)) True := by
  refine .bind (readStatic?_sourced legible) ?_
  rintro static _ ⟨legible, ofStatic⟩
  refine .bind (TypeExpr.parser_sourced legible) ?_
  rintro type rest ⟨legible, ofType⟩
  obtain ⟨word, more, rfl⟩ := legible.ends.exists_cons
  refine (Returns.isAt .identifier).bind ?_
  split
  · refine .bind (.consume_name legible) ?_
    rintro name _ ⟨legible, named⟩
    exact .pure ⟨legible, by simpa using ofType.reprints, named, fun _ => rfl⟩
  · split
    · next name isName =>
        refine .pure ⟨legible, ?_, ofType.name name isName, nofun⟩
        exact fun type isStatic _ => ofStatic type isStatic
    · exact Rejects.expecting.meets

theorem readDefaultType?_sourced (legible : Legible words) :
    readDefaultType?.Meets words (fun found rest => Legible rest ∧
      (∀ type ∈ found, type.Sourced) ∧
        (found = none → rest = words ∧ ∀ word ∈ words.head?, word.kind ≠ .equal)) True := by
  refine .bind (.accept_legible legible (by decide)) ?_
  rintro taken _ ⟨legible, untaken⟩
  cases taken with
  | true =>
      refine .bind (TypeExpr.parser_sourced legible) ?_
      rintro type _ ⟨legible, ofType⟩
      exact .pure ⟨legible, by simpa using ofType, nofun⟩
  | false => exact .pure ⟨legible, by simp, fun _ => untaken rfl⟩

theorem readBound_sourced (legible : Legible words) :
    readBound.Meets words (fun found rest => Legible rest ∧ (∀ type ∈ found, type.Sourced) ∧
      (found = none → ∀ word ∈ rest.head?, word.text ≠ "of" ∧ word.text ≠ "as")) True := by
  have bound {words : List Word} (legible : Legible words) :
      (TypeExpr.parser >>= fun type => pure (some type)).Meets words
        (fun found rest => Legible rest ∧ (∀ type ∈ found, type.Sourced) ∧
          (found = none → ∀ word ∈ rest.head?, word.text ≠ "of" ∧ word.text ≠ "as")) True := by
    refine .bind (TypeExpr.parser_sourced legible) ?_
    rintro type _ ⟨legible, ofType⟩
    exact .pure ⟨legible, by simpa using ofType, nofun⟩
  refine .bind (.acceptValue_legible legible "of") ?_
  rintro taken rest ⟨legible, notOf⟩
  cases taken with
  | true => exact bound legible
  | false =>
      obtain ⟨rfl, notOf⟩ := notOf rfl
      refine .bind (.acceptValue_legible legible "as") ?_
      rintro taken rest ⟨legible, notAs⟩
      cases taken with
      | true => exact bound legible
      | false =>
          obtain ⟨rfl, notAs⟩ := notAs rfl
          exact .pure ⟨legible, by simp,
            fun _ word isHead => ⟨notOf word isHead, notAs word isHead⟩⟩

theorem readAlias_sourced (legible : Legible words) :
    readAlias.Meets words (fun tag rest => Legible rest ∧ (typeAlias tag).Sourced) True := by
  refine .bind (.consume_name legible) ?_
  rintro name _ ⟨legible, named⟩
  refine .bind (.accept_legible legible (by decide)) fun _ _ ⟨legible, _⟩ => ?_
  refine .bind (TypeExpr.parser_sourced legible) ?_
  rintro type _ ⟨legible, ofType⟩
  exact .pure ⟨legible, fun faithful =>
    ⟨named, ofType.reprints (faithful type (by simp [types]))⟩⟩

theorem readLocalName?_sourced (legible : Legible words) :
    readLocalName?.Meets words
      (fun found rest => Legible rest ∧ ∀ name ∈ found, IsName name) True := by
  refine .bind (.acceptWord_legible legible "as") fun taken _ legible => ?_
  split
  · refine .bind (.consume_name legible) ?_
    rintro name _ ⟨legible, named⟩
    exact .pure ⟨legible, by simpa using named⟩
  · exact .pure ⟨legible, by simp⟩

theorem readImport_sourced (legible : Legible words) :
    readImport.Meets words (fun tag rest => Legible rest ∧ (imported tag).Sourced) True := by
  refine .bind (.consume_name legible) ?_
  rintro name _ ⟨legible, named⟩
  refine .bind (.consumeValue_legible legible "from" (by decide)) fun _ _ legible => ?_
  refine .bind .mark ?_
  rintro start _ rfl
  refine .bind (.consume_name legible) ?_
  rintro className _ ⟨legible, classNamed⟩
  refine .bind (TypeExpr.node_gives start) ?_
  rintro _ _ ⟨rfl, attributes, rfl⟩
  refine .bind (readLocalName?_sourced legible) ?_
  rintro localName _ ⟨legible, ofLocal⟩
  exact .pure ⟨legible, fun _ => ⟨named, ⟨className, attributes, rfl, classNamed⟩, ofLocal⟩⟩

/-- The parts that a rule describes can be read again, and what follows them is not taken for
another one. -/
theorem readParts_sourced (rule : TagRule) (legible : Legible words) :
    (readParts rule).Meets words (fun value rest => Legible rest ∧ value.rule? = some rule ∧
      value.Sourced ∧ ∀ word ∈ rest.head?, value.Leaves word.kind word.text) True := by
  cases rule with
  | var =>
      refine .bind (TypeExpr.parser_sourced legible) ?_
      rintro type _ ⟨legible, ofType⟩
      refine .bind (readVariableName?_sourced legible) ?_
      rintro name _ ⟨legible, named, unnamed⟩
      exact .pure ⟨legible, rfl,
        fun faithful => ⟨ofType.reprints (faithful type (by simp [types])), named⟩,
        fun word isHead isNone => unnamed isNone word isHead⟩
  | param =>
      refine .bind (TypeExpr.parser_sourced legible) ?_
      rintro type _ ⟨legible, ofType⟩
      refine .bind (.accept_legible legible (by decide)) fun isReference _ ⟨legible, _⟩ => ?_
      refine .bind (.accept_legible legible (by decide)) fun isVariadic _ ⟨legible, _⟩ => ?_
      refine .bind (readVariableName_sourced legible) ?_
      rintro name _ ⟨legible, named⟩
      exact .pure ⟨legible, rfl,
        fun faithful => ⟨ofType.reprints (faithful type (by simp [types])), named⟩,
        fun _ _ => trivial⟩
  | typed role =>
      refine .bind (readRoleType_sourced role legible) ?_
      rintro type _ ⟨legible, ofType⟩
      exact .pure ⟨legible, rfl, fun faithful => ofType (faithful type (by simp [types])),
        fun _ _ => trivial⟩
  | deprecated => exact .pure ⟨legible, rfl, fun _ => trivial, fun _ _ => trivial⟩
  | property =>
      refine .bind (TypeExpr.parser_sourced legible) ?_
      rintro type _ ⟨legible, ofType⟩
      refine .bind (readVariableName_sourced legible) ?_
      rintro name _ ⟨legible, named⟩
      exact .pure ⟨legible, rfl,
        fun faithful => ⟨ofType.reprints (faithful type (by simp [types])), named⟩,
        fun _ _ => trivial⟩
  | method =>
      refine .bind (readMethodHead_sourced legible) ?_
      rintro ⟨isStatic, returnType, name⟩ _ ⟨legible, ofReturnType, named, static⟩
      refine .bind (readMethodParameters_sourced legible) ?_
      rintro parameters _ ⟨legible, ofParameters⟩
      refine .pure ⟨legible, rfl, fun faithful => ⟨?_, named, ?_, static⟩, fun _ _ => trivial⟩
      · intro type isType
        exact ofReturnType type isType (faithful type (by
          simp only [types, List.mem_append, Option.mem_toList]
          exact .inl isType))
      · intro parameter isParameter
        refine ofParameters parameter isParameter fun type isType => faithful type ?_
        simp only [types, List.mem_append, List.mem_filterMap]
        exact .inr ⟨parameter, isParameter, isType⟩
  | template =>
      refine .bind (.consume_name legible) ?_
      rintro name _ ⟨legible, named⟩
      refine .bind (readBound_sourced legible) ?_
      rintro bound _ ⟨legible, ofBound, unbound⟩
      refine .bind (readDefaultType?_sourced legible) ?_
      rintro default _ ⟨legible, ofDefault, noDefault⟩
      refine .pure ⟨legible, rfl, fun faithful => ⟨named, ?_, ?_⟩, fun word isHead isNone => ?_⟩
      · intro type isBound
        exact (ofBound type isBound).reprints (faithful type (by
          simp only [types, List.mem_append, Option.mem_toList]
          exact .inl isBound))
      · intro type isDefault
        exact (ofDefault type isDefault).reprints (faithful type (by
          simp only [types, List.mem_append, Option.mem_toList]
          exact .inr isDefault))
      · obtain ⟨rfl, noEqual⟩ := noDefault isNone
        exact ⟨noEqual word isHead, fun isNone => unbound isNone word isHead⟩
  | typeAlias =>
      refine .bind (readAlias_sourced legible) ?_
      rintro tag _ ⟨legible, sourced⟩
      exact .pure ⟨legible, rfl, sourced, fun _ _ => trivial⟩
  | imported =>
      refine .bind (readImport_sourced legible) ?_
      rintro tag _ ⟨legible, sourced⟩
      exact .pure ⟨legible, rfl, sourced, fun _ _ => trivial⟩

theorem rule?_describe (text : String) (value : TagValue) :
    (value.describe text).rule? = value.rule? := by
  cases value <;> rfl

theorem sourced_describe (text : String) {value : TagValue} (sourced : value.Sourced) :
    (value.describe text).Sourced := by
  cases value with
  | method value =>
      intro faithful
      obtain ⟨returnType, name, parameters, static⟩ := sourced faithful
      exact ⟨returnType, name, parameters, static⟩
  | _ => exact sourced

/-- What a rule describes has parts that can be read again. -/
theorem readRule_sourced (rule : TagRule) (legible : Legible words) :
    (readRule rule).Meets words
      (fun value _ => value.rule? = some rule ∧ value.Sourced) True := by
  rw [readRule_eq]
  refine .bind (readParts_sourced rule legible) ?_
  rintro parts _ ⟨-, isRule, sourced, -⟩
  rw [readDescription]
  split
  · refine .bind .any fun text _ _ => .pure ⟨?_, sourced_describe text sourced⟩
    rw [rule?_describe, isRule]
  · exact .pure ⟨isRule, sourced⟩

theorem rule?_withAttributes (attributes : Attributes) (value : TagValue) :
    (value.withAttributes attributes).rule? = value.rule? := by
  cases value <;> rfl

theorem sourced_withAttributes (attributes : Attributes) {value : TagValue}
    (sourced : value.Sourced) : (value.withAttributes attributes).Sourced := by
  cases value with
  | method value =>
      intro faithful
      obtain ⟨returnType, name, parameters, static⟩ := sourced faithful
      exact ⟨returnType, name, parameters, static⟩
  | _ => exact sourced

/-- The value of a tag that was read from a text has parts that can be read again, and it was
read with the rule for its name. -/
theorem parser_sourced (name : String) (legible : Legible words) :
    (TagValue.parser name).Meets words
      (fun value _ => value.isStructured = true →
        TagRule.ofName? name = value.rule? ∧ value.Sourced) True := by
  refine .bind .mark ?_
  rintro start words rfl
  split
  · exact .bind .any fun _ _ _ => .bind .any fun _ _ _ => .pure nofun
  · next rule isRule =>
      have whole : (readWholeRule rule).Meets words
          (fun value _ => value.rule? = some rule ∧ value.Sourced) True := by
        refine .bind (readRule_sourced rule legible) fun value _ found => ?_
        refine .bind .any fun atEnd _ _ => ?_
        split
        · exact .pure found
        · exact Rejects.expecting.meets
      refine .bind ((Meets.attempt_either (readWholeRule_built rule).steady whole).mono
        (fun _ _ found => found) False.elim) ?_
      rintro (error | value) _ found
      · exact .bind .any fun _ _ _ => .bind .any fun _ _ _ => .pure nofun
      · refine .bind .any fun attributes _ _ => .pure fun _ => ?_
        rw [rule?_withAttributes, isRule, found.1]
        exact ⟨rfl, sourced_withAttributes attributes found.2⟩

end TagValue

end Docblock
