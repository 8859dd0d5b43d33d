import Docblock.Proofs.ConstExpr.Spelling

/-!
# How type expressions are spelled

A type expression is related to the words that spell it, line breaks aside.  The
rules follow the grammar, with three choices made once and for all: brackets
behind a callable type belong to its return type, a condition is negated whenever
the word that negates it is there, and the name of a class constant is as long as
it can be.
-/

namespace Docblock

open Docblock.Parser

/-- The operators that join operands, from the one that binds loosest on. -/
inductive Level
  | union
  | intersection

namespace Level

/-- The kind of the words between operands. -/
def operator : Level → TokenKind
  | union => .union
  | intersection => .intersection

/-- The form of joined operands. -/
def combine : Level → List TypeExpr → TypeForm
  | union => .union
  | intersection => .intersection

end Level

/-- The parts of type expressions. -/
inductive TypePhrase
  /-- Operands with an operator between them, or a single operand. -/
  | chain (level : Level) (type : TypeExpr)
  | operand (type : TypeExpr)
  /-- A type that no operator divides. -/
  | atomic (type : TypeExpr)
  /-- A type that no operator divides, without array brackets, and not a callable. -/
  | primary (type : TypeExpr)
  /-- What stands in parentheses. -/
  | enclosed (type : TypeExpr)
  /-- A type, or a conditional type that starts with one. -/
  | subject (type : TypeExpr)
  /-- The rest of a conditional type behind its subject. -/
  | condition (subject : ConditionalSubject) (type : TypeExpr)
  | parameter (parameter : CallableParameter)
  | item (item : ShapeItem)

/-- The operands of an operator. -/
def Level.below : Level → TypeExpr → TypePhrase
  | union => .chain .intersection
  | intersection => .operand

/-- Further operands, each behind an operator. -/
inductive Links (operator : TokenKind) : List (List Word) → List Word → Prop
  | done : Links operator [] []
  | more {part : List Word} {parts : List (List Word)} {word : Word} {words : List Word}
      (isOperator : word.kind = operator) (others : Links operator parts words) :
      Links operator (part :: parts) (word :: part ++ words)

/-- Pairs of array brackets behind a type, and the array type that they make of it. -/
inductive Suffixes : TypeExpr → Ending → TypeExpr → List Word → Ending → Prop
  | done {type : TypeExpr} {ending : Ending} : Suffixes type ending type [] ending
  | more {type outer : TypeExpr} {ending final : Ending} {open_ close : Word}
      {words : List Word} {attributes : Attributes} (isOpen : open_.kind = .openSquare)
      (isClose : close.kind = .closeSquare)
      (others : Suffixes ⟨.array type, attributes⟩ .closed outer words final) :
      Suffixes type ending outer (open_ :: close :: words) final

/-- A word that may be absent. -/
inductive Mark (kind : TokenKind) : Bool → List Word → Prop
  | absent : Mark kind false []
  | present {word : Word} (isKind : word.kind = kind) : Mark kind true [word]

/-- The name of a parameter, which may be absent. -/
inductive NameMark : Option String → List Word → Prop
  | absent : NameMark none []
  | present {word : Word} (isVariable : word.kind = .namedVariable) :
      NameMark (some (TypeExpr.variableName word.text)) [word]

/-- The word that negates a condition. -/
def Word.negates (word : Word) : Prop := word.kind = .identifier ∧ word.text = "not"

/-- The negation in front of the target of a condition. -/
inductive Negation : Bool → List Word → List Word → Prop
  | absent {target : List Word} (unnegated : ∀ word ∈ target.head?, ¬word.negates) :
      Negation false [] target
  | present {word : Word} {target : List Word} (negates : word.negates) :
      Negation true [word] target

/-- A word that is a key of a shape. -/
inductive KeyWord : ShapeKey → Word → Prop
  | name {word : Word} (isName : word.kind = .identifier) : KeyWord (.name word.text) word
  | integer {word : Word} {attributes : Attributes} (isInteger : word.kind = .integer) :
      KeyWord (.constant ⟨.literal .integer word.text, attributes⟩) word
  | string {word : Word} {attributes : Attributes}
      (isQuoted : word.kind = .singleQuoted ∨ word.kind = .doubleQuoted) :
      KeyWord (.constant ⟨.literal .string word.text, attributes⟩) word

/-- The end of a shape in the place of an item; the flag tells whether the shape is
closed. -/
inductive ShapeEnd : Bool → List Word → Prop
  | closed {word : Word} (isClose : word.kind = .closeCurly) : ShapeEnd true [word]
  | unclosed {dots word : Word} {comma : Bool} {marks : List Word}
      (isDots : dots.kind = .variadic) (mark : Mark .comma comma marks)
      (isClose : word.kind = .closeCurly) : ShapeEnd false (dots :: marks ++ [word])

/-- The rest of a shape behind an item. -/
inductive ShapeTail : Bool → List (List Word) → List Word → Prop
  | close {word : Word} (isClose : word.kind = .closeCurly) : ShapeTail true [] [word]
  | last {closed : Bool} {comma : Word} {words : List Word} (isComma : comma.kind = .comma)
      (final : ShapeEnd closed words) : ShapeTail closed [] (comma :: words)
  | more {closed : Bool} {part : List Word} {parts : List (List Word)} {comma : Word}
      {words : List Word} (isComma : comma.kind = .comma)
      (others : ShapeTail closed parts words) :
      ShapeTail closed (part :: parts) (comma :: part ++ words)

/-- The items of a shape and its end. -/
inductive ShapeBody : Bool → List (List Word) → List Word → Prop
  | empty {closed : Bool} {words : List Word} (final : ShapeEnd closed words) :
      ShapeBody closed [] words
  | items {closed : Bool} {part : List Word} {parts : List (List Word)} {words : List Word}
      (others : ShapeTail closed parts words) : ShapeBody closed (part :: parts) (part ++ words)

/-- The words can start a constant in the place of a type. -/
inductive StartsConstant : List Word → Prop
  | literal {word : Word} {rest : List Word}
      (isLiteral : word.kind ∈ [.integer, .float, .singleQuoted, .doubleQuoted, .minus]) :
      StartsConstant (word :: rest)
  | named {word colons : Word} {rest : List Word} (isName : word.kind = .identifier)
      (isColons : colons.kind = .doubleColon) : StartsConstant (word :: colons :: rest)

/-- The words that spell a part of a type expression. -/
inductive TypePhrase.Spelled : TypePhrase → List Word → Ending → Prop
  | single {level : Level} {type : TypeExpr} {words : List Word} {ending : Ending}
      (inner : Spelled (level.below type) words ending) :
      Spelled (.chain level type) words ending
  | joined {level : Level} {first : TypeExpr} {slots : List (Slot TypeExpr)}
      {firstWords words : List Word} {ending : Ending} {attributes : Attributes}
      (several : slots ≠ []) (inner : Spelled (level.below first) firstWords ending)
      (each : ∀ slot ∈ slots, Spelled (level.below slot.value) slot.words slot.ending)
      (links : Links level.operator (slots.map Slot.words) words) :
      Spelled (.chain level ⟨level.combine (first :: slots.map Slot.value), attributes⟩)
        (firstWords ++ words) (Slot.lastEnding ending slots)
  | nullable {word : Word} {type : TypeExpr} {words : List Word} {ending : Ending}
      {attributes : Attributes} (isMark : word.kind = .nullable)
      (inner : Spelled (.atomic type) words ending) :
      Spelled (.operand ⟨.nullable type, attributes⟩) (word :: words) ending
  | plain {type : TypeExpr} {words : List Word} {ending : Ending}
      (inner : Spelled (.atomic type) words ending) : Spelled (.operand type) words ending
  | suffixed {type outer : TypeExpr} {words brackets : List Word} {ending final : Ending}
      (inner : Spelled (.primary type) words ending)
      (suffixes : Suffixes type ending outer brackets final) :
      Spelled (.atomic outer) (words ++ brackets) final
  | callable {name paren colon : Word} {slots : List (Slot CallableParameter)}
      {list : List Word} {returnType : TypeExpr} {words : List Word} {ending : Ending}
      {inner outer : Attributes} (isName : name.kind = .identifier)
      (isOpen : paren.kind = .openParen)
      (each : ∀ slot ∈ slots, Spelled (.parameter slot.value) slot.words slot.ending)
      (listed : Listed .closeParen (slots.map Slot.words) list)
      (isColon : colon.kind = .colon) (result : Spelled (.operand returnType) words ending) :
      Spelled (.atomic ⟨.callable ⟨.identifier name.text, inner⟩ (slots.map Slot.value)
        returnType, outer⟩) (name :: paren :: list ++ colon :: words) ending
  | parenthesized {paren close : Word} {type : TypeExpr} {words : List Word} {ending : Ending}
      (isOpen : paren.kind = .openParen) (inner : Spelled (.enclosed type) words ending)
      (isClose : close.kind = .closeParen) :
      Spelled (.primary type) (paren :: words ++ [close]) .closed
  | this {word : Word} {attributes : Attributes} (isThis : word.kind = .thisVariable) :
      Spelled (.primary ⟨.this, attributes⟩) [word] .closed
  | name {word : Word} {attributes : Attributes} (isName : word.kind = .identifier) :
      Spelled (.primary ⟨.identifier word.text, attributes⟩) [word] (.name word.text)
  | generic {name angle : Word} {slots : List (Slot TypeExpr)} {list : List Word}
      {inner outer : Attributes} (isName : name.kind = .identifier)
      (isOpen : angle.kind = .openAngle) (some : slots ≠ [])
      (each : ∀ slot ∈ slots, Spelled (.chain .union slot.value) slot.words slot.ending)
      (listed : Listed .closeAngle (slots.map Slot.words) list) :
      Spelled (.primary ⟨.generic ⟨.identifier name.text, inner⟩ (slots.map Slot.value), outer⟩)
        (name :: angle :: list) .closed
  | shape {name curly : Word} {kind : ShapeKind} {closed : Bool} {slots : List (Slot ShapeItem)}
      {body : List Word} {attributes : Attributes} (isName : name.kind = .identifier)
      (opens : ShapeKind.ofWord? name.text = some kind) (isOpen : curly.kind = .openCurly)
      (glued : curly.gap = false)
      (each : ∀ slot ∈ slots, Spelled (.item slot.value) slot.words slot.ending)
      (items : ShapeBody closed (slots.map Slot.words) body) :
      Spelled (.primary ⟨.shape kind (slots.map Slot.value) closed, attributes⟩)
        (name :: curly :: body) .closed
  | constant {expr : ConstExpr} {words : List Word} {ending : Ending} {attributes : Attributes}
      (start : StartsConstant words) (inner : (ConstPhrase.expr expr).Spelled words ending) :
      Spelled (.primary ⟨.constant expr, attributes⟩) words ending
  | aboutParameter {word : Word} {type : TypeExpr} {words : List Word} {ending : Ending}
      (isVariable : word.kind = .namedVariable)
      (rest : Spelled (.condition (.parameter (TypeExpr.variableName word.text)) type)
        words ending) : Spelled (.enclosed type) (word :: words) ending
  | aboutType {type : TypeExpr} {words : List Word} {ending : Ending}
      (inner : Spelled (.subject type) words ending) : Spelled (.enclosed type) words ending
  | unconditional {type : TypeExpr} {words : List Word} {ending : Ending}
      (inner : Spelled (.chain .union type) words ending) : Spelled (.subject type) words ending
  | conditional {subject type : TypeExpr} {words rest : List Word} {ending final : Ending}
      (inner : Spelled (.chain .union subject) words ending)
      (condition : Spelled (.condition (.type subject) type) rest final)
      (apart : ending.Apart rest) : Spelled (.subject type) (words ++ rest) final
  | condition {subject : ConditionalSubject} {negated : Bool} {is question colon : Word}
      {target ifType elseType : TypeExpr} {marks targetWords ifWords elseWords : List Word}
      {targetEnding ifEnding ending : Ending} {attributes : Attributes}
      (isCondition : is.kind = .identifier ∧ is.text = "is")
      (negation : Negation negated marks targetWords)
      (ofTarget : Spelled (.chain .union target) targetWords targetEnding)
      (isQuestion : question.kind = .nullable)
      (ofIf : Spelled (.chain .union ifType) ifWords ifEnding) (isColon : colon.kind = .colon)
      (ofElse : Spelled (.subject elseType) elseWords ending) :
      Spelled (.condition subject
          ⟨.conditional subject negated target ifType elseType, attributes⟩)
        (is :: marks ++ targetWords ++ question :: ifWords ++ colon :: elseWords) ending
  | parameter {type : TypeExpr} {isReference isVariadic isOptional : Bool}
      {name : Option String} {words reference dots variable_ equal : List Word}
      {ending : Ending} {attributes : Attributes}
      (inner : Spelled (.chain .union type) words ending)
      (referenceMark : Mark .reference isReference reference)
      (variadicMark : Mark .variadic isVariadic dots) (nameMark : NameMark name variable_)
      (optionalMark : Mark .equal isOptional equal) :
      Spelled (.parameter ⟨type, isReference, isVariadic, name, isOptional, attributes⟩)
        (words ++ (reference ++ (dots ++ (variable_ ++ equal)))) .closed
  | value {type : TypeExpr} {words : List Word} {ending : Ending} {attributes : Attributes}
      (inner : Spelled (.chain .union type) words ending) :
      Spelled (.item ⟨none, false, type, attributes⟩) words .closed
  | entry {key : ShapeKey} {isOptional : Bool} {word colon : Word} {marks words : List Word}
      {type : TypeExpr} {ending : Ending} {attributes : Attributes} (isKey : KeyWord key word)
      (mark : Mark .nullable isOptional marks) (isColon : colon.kind = .colon)
      (inner : Spelled (.chain .union type) words ending) :
      Spelled (.item ⟨some key, isOptional, type, attributes⟩)
        (word :: marks ++ colon :: words) .closed

theorem Suffixes.concat {type outer : TypeExpr} {ending final : Ending} {brackets : List Word}
    {bracket close : Word} (suffixes : Suffixes type ending outer brackets final)
    (attributes : Attributes) (isOpen : bracket.kind = .openSquare)
    (isClose : close.kind = .closeSquare) :
    Suffixes type ending ⟨.array outer, attributes⟩ (brackets ++ [bracket, close]) .closed := by
  induction suffixes with
  | done => exact .more isOpen isClose .done
  | more isFirst isLast _ induction => exact .more isFirst isLast induction

theorem TypePhrase.Spelled.atomic {type : TypeExpr} {words : List Word} {ending : Ending}
    (isSpelled : (TypePhrase.primary type).Spelled words ending) :
    (TypePhrase.atomic type).Spelled words ending := by
  have suffixed := TypePhrase.Spelled.suffixed isSpelled .done
  rwa [List.append_nil] at suffixed

/-- The kinds of words with which a type that no operator divides starts. -/
def TypeExpr.startsAtomic (kind : TokenKind) : Bool :=
  [.openParen, .thisVariable, .identifier, .integer, .float, .singleQuoted, .doubleQuoted,
    .minus].contains kind

/-- The kinds of words with which a type expression starts. -/
def TypeExpr.starts (kind : TokenKind) : Bool := kind = .nullable || TypeExpr.startsAtomic kind

theorem TypeExpr.starts_of_startsAtomic {kind : TokenKind}
    (isStart : TypeExpr.startsAtomic kind = true) : TypeExpr.starts kind = true := by
  rw [TypeExpr.starts, isStart, Bool.or_true]

/-- The kinds of words with which a part of a type expression starts. -/
def TypePhrase.StartsWith : TypePhrase → TokenKind → Prop
  | .enclosed _, kind => TypeExpr.starts kind = true ∨ kind = .namedVariable
  | .atomic _, kind => TypeExpr.startsAtomic kind = true
  | .primary _, kind => TypeExpr.startsAtomic kind = true
  | _, kind => TypeExpr.starts kind = true

theorem StartsConstant.starts {words : List Word} (start : StartsConstant words) :
    ∃ word more, words = word :: more ∧ TypeExpr.startsAtomic word.kind = true := by
  cases start with
  | literal isLiteral =>
      refine ⟨_, _, rfl, ?_⟩
      simp only [List.mem_cons, List.not_mem_nil, or_false] at isLiteral
      rcases isLiteral with isKind | isKind | isKind | isKind | isKind <;> rw [isKind] <;> rfl
  | named isName isColons => exact ⟨_, _, rfl, by rw [isName]; rfl⟩

theorem KeyWord.starts {key : ShapeKey} {word : Word} (isKey : KeyWord key word) :
    TypeExpr.starts word.kind = true := by
  cases isKey with
  | name isName => rw [isName]; rfl
  | integer isInteger => rw [isInteger]; rfl
  | string isQuoted => rcases isQuoted with isKind | isKind <;> rw [isKind] <;> rfl

theorem TypePhrase.Spelled.starts {phrase : TypePhrase} {words : List Word} {ending : Ending}
    (isSpelled : phrase.Spelled words ending) :
    ∃ word more, words = word :: more ∧ phrase.StartsWith word.kind := by
  induction isSpelled with
  | @single level _ _ _ _ induction => cases level <;> exact induction
  | @joined level _ _ _ _ _ _ _ _ _ _ induction =>
      obtain ⟨word, more, rfl, isStart⟩ := induction
      exact ⟨word, _, rfl, by cases level <;> exact isStart⟩
  | nullable isMark => exact ⟨_, _, rfl, by rw [isMark]; rfl⟩
  | plain _ induction =>
      obtain ⟨word, more, rfl, isStart⟩ := induction
      exact ⟨word, more, rfl, TypeExpr.starts_of_startsAtomic isStart⟩
  | suffixed _ _ induction =>
      obtain ⟨word, more, rfl, isStart⟩ := induction
      exact ⟨word, _, rfl, isStart⟩
  | callable isName => exact ⟨_, _, rfl, by rw [isName]; rfl⟩
  | parenthesized isOpen => exact ⟨_, _, rfl, by rw [isOpen]; rfl⟩
  | this isThis => exact ⟨_, _, rfl, by rw [isThis]; rfl⟩
  | name isName => exact ⟨_, _, rfl, by rw [isName]; rfl⟩
  | generic isName => exact ⟨_, _, rfl, by rw [isName]; rfl⟩
  | shape isName => exact ⟨_, _, rfl, by rw [isName]; rfl⟩
  | constant start => exact start.starts
  | aboutParameter isVariable => exact ⟨_, _, rfl, .inr isVariable⟩
  | aboutType _ induction =>
      obtain ⟨word, more, rfl, isStart⟩ := induction
      exact ⟨word, more, rfl, .inl isStart⟩
  | unconditional _ induction => exact induction
  | conditional _ _ _ induction =>
      obtain ⟨word, more, rfl, isStart⟩ := induction
      exact ⟨word, _, rfl, isStart⟩
  | condition isCondition => exact ⟨_, _, rfl, by rw [isCondition.1]; rfl⟩
  | parameter _ _ _ _ _ induction =>
      obtain ⟨word, more, rfl, isStart⟩ := induction
      exact ⟨word, _, rfl, isStart⟩
  | value _ induction => exact induction
  | entry isKey => exact ⟨_, _, rfl, isKey.starts⟩

end Docblock
