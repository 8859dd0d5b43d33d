import Docblock.Proofs.TypeExpr.Rules
import Docblock.Proofs.TypeExpr.Spelling

/-!
# What is read as a type expression spells it

Every rule of the grammar reads a spelling of the tree that it gives.  The rules
that read nested goals are shown to do so for any parser of nested goals that does,
so an induction on the depth of nesting gives the result for all goals.
-/

namespace Docblock.TypeExpr

open Docblock.Parser

-- Parsers are taken apart with the rules for `Meets`, never by running them.
attribute [local irreducible] Parser.Meets

variable {words : List Word} {nested : Goal → Parser TypeExpr}

/-- No pair of array brackets comes next. -/
def NoSuffix : List Word → Prop
  | first :: second :: _ => ¬(first.kind = .openSquare ∧ second.kind = .closeSquare)
  | _ => True

theorem node_meets {form : TypeForm} {good : TypeExpr → List Word → Prop} {bad : Prop}
    (start : Nat) (holds : ∀ attributes, good ⟨form, attributes⟩ words) :
    (node form start).Meets words good bad := by
  refine .bind (.positionsSince start) ?_
  rintro attributes _ rfl
  exact .pure (holds attributes)

theorem node_gives {form : TypeForm} {bad : Prop} (start : Nat) :
    (node form start).Meets words
      (fun type rest => rest = words ∧ ∃ attributes, type = ⟨form, attributes⟩) bad :=
  node_meets start fun attributes => ⟨rfl, attributes, rfl⟩

/-- Looking for an operator passes over line breaks only if there is one behind them. -/
theorem isAtOperator_meets (operator : TokenKind) (multiline : Bool) (ends : Sealed words) :
    (isAtOperator operator multiline).Meets words
      (fun found rest =>
        (found = true ∧ Consumes words [] rest ∧
          ∃ word more, rest = word :: more ∧ word.kind = operator) ∨
        (found = false ∧ rest = words)) True := by
  obtain ⟨word, more, rfl⟩ := ends.exists_cons
  refine (Returns.isAt operator).bind ?_
  by_cases isOperator : word.kind = operator
  · rw [if_pos (decide_eq_true isOperator)]
    exact .pure (.inl ⟨rfl, .refl ends, word, more, rfl, isOperator⟩)
  rw [if_neg (by simpa using isOperator)]
  split
  · exact .pure (.inr ⟨rfl, rfl⟩)
  refine (Returns.isAt _).bind ?_
  split
  · exact .pure (.inr ⟨rfl, rfl⟩)
  refine .push_bind (Holds.bind .skipLineBreaks (.skipLineBreaks ends) ?_)
  rintro _ rest breaks
  obtain ⟨next, others, rfl⟩ := breaks.ends.exists_cons
  refine (Returns.isAt operator).bind_holds (.look _) ?_
  by_cases isNext : next.kind = operator
  · rw [if_pos (decide_eq_true isNext)]
    exact .drop_bind (.pure (.inl ⟨rfl, breaks, next, others, rfl, isNext⟩))
  · rw [if_neg (by simpa using isNext)]
    exact .rollback_bind (.pure (.inr ⟨rfl, rfl⟩))

theorem skipLineBreaksIf_meets (multiline : Bool) (ends : Sealed words) :
    (skipLineBreaksIf multiline).Meets words (fun _ rest => Consumes words [] rest) True := by
  unfold skipLineBreaksIf
  split
  · exact .skipLineBreaks ends
  · exact .pure (.refl ends)

/-- A round of a chain took an operator and the operand behind it. -/
def TookOperand (level : Level) (words : List Word) (type : TypeExpr) (rest : List Word) : Prop :=
  ∃ operator used ending, operator.kind = level.operator ∧
    Consumes words (operator :: used) rest ∧ (level.below type).Spelled used ending ∧
    ending.Apart rest

/-- The operands that the rounds of a chain took, and how the last one ends. -/
theorem links_of_rounds {level : Level} {rest : List Word} {types : List TypeExpr}
    {result : Unit}
    (rounds : Rounds (TookOperand level) (fun words (_ : Unit) rest => rest = words) words types
      result rest)
    (ends : Sealed words) :
    ∃ (slots : List (Slot TypeExpr)) (tail : List Word), slots.map Slot.value = types ∧
      (∀ slot ∈ slots, (level.below slot.value).Spelled slot.words slot.ending) ∧
      Consumes words tail rest ∧ Links level.operator (slots.map Slot.words) tail ∧
      ∀ first : Ending, first.Apart words → (Slot.lastEnding first slots).Apart rest := by
  induction rounds with
  | done final =>
      subst final
      exact ⟨[], [], rfl, by simp, .refl ends, .done, fun _ apart => apart⟩
  | item first others induction =>
      obtain ⟨operator, used, ending, isOperator, consumes, isSpelled, apart⟩ := first
      obtain ⟨slots, tail, rfl, areSpelled, consumesTail, links, lastApart⟩ :=
        induction consumes.ends
      refine ⟨⟨_, used, ending⟩ :: slots, operator :: used ++ tail, rfl, ?_,
        consumes.trans consumesTail, .more isOperator links, fun _ _ => lastApart ending apart⟩
      simpa using ⟨isSpelled, areSpelled⟩

theorem nextOperand_meets (level : Level) (multiline : Bool) {operand : Parser TypeExpr}
    (sound : ∀ words, Sealed words → operand.Meets words
      (fun type rest => Took (level.below type).Spelled words rest) True)
    (ends : Sealed words) :
    (nextOperand level.operator multiline operand).Meets words
      (fun found rest =>
        match found with
        | some type => TookOperand level words type rest ∧ Sealed rest
        | none => rest = words) True := by
  refine .bind (isAtOperator_meets _ multiline ends) ?_
  rintro _ _ (⟨rfl, breaks, word, more, rfl, isOperator⟩ | ⟨rfl, rfl⟩)
  · rw [if_pos rfl]
    have isSolid : word.kind.IsSolid := by
      rw [isOperator]
      cases level <;> decide
    have moreEnds : Sealed more := breaks.ends.tail isSolid.1
    refine (Returns.advance moreEnds.ne_nil).bind ?_
    refine .bind (skipLineBreaksIf_meets multiline moreEnds) ?_
    rintro _ start moreBreaks
    refine .bind (sound _ moreBreaks.ends) ?_
    rintro type rest ⟨used, ending, consumes, isSpelled, apart⟩
    exact .pure ⟨⟨word, used, ending, isOperator,
      breaks.trans (.cons isSolid.2 moreEnds (moreBreaks.trans consumes)), isSpelled, apart⟩,
      consumes.ends⟩
  · rw [if_neg (by decide)]
    exact .pure rfl

theorem chain_meets (level : Level) (multiline : Bool) {operand : Parser TypeExpr}
    (sound : ∀ words, Sealed words → operand.Meets words
      (fun type rest => Took (level.below type).Spelled words rest) True)
    (ends : Sealed words) :
    (chain level.operator level.combine multiline operand).Meets words
      (fun type rest => Took (TypePhrase.chain level type).Spelled words rest) True := by
  refine .bind .mark ?_
  rintro start _ rfl
  refine .bind (sound _ ends) ?_
  rintro first middle ⟨used, ending, consumes, isSpelled, apart⟩
  refine .bind (Meets.many (TookOperand level) (fun words rest => rest = words) Sealed
    consumes.ends fun words ends => (nextOperand_meets level multiline sound ends).mono ?_ id) ?_
  · rintro (- | type) rest took <;> exact took
  · intro types rest rounds
    obtain ⟨slots, tail, rfl, areSpelled, consumesTail, links, lastApart⟩ :=
      links_of_rounds rounds consumes.ends
    cases slots with
    | nil =>
        cases links
        refine .pure ⟨used, ending, ?_, .single isSpelled, lastApart ending apart⟩
        simpa using consumes.trans consumesTail
    | cons slot slots =>
        refine node_meets start fun attributes => ?_
        exact ⟨_, _, consumes.trans consumesTail,
          .joined (List.cons_ne_nil slot slots) isSpelled areSpelled links, lastApart ending apart⟩

theorem nextSeparated_meets {α : Type} (spelled : α → List Word → Ending → Prop)
    {item : Parser α} (close : TokenKind)
    (sound : ∀ words, Sealed words → item.Meets words
      (fun value rest => ∃ used ending, Consumes words used rest ∧ spelled value used ending) True)
    (ends : Sealed words) :
    (nextSeparated item close).Meets words
      (fun found rest =>
        match found with
        | some value => TookNext spelled (fun word => word.kind = .comma) words value rest
        | none => TookLast (fun _ => Further []) words () rest) True := by
  refine .bind (.takeIf ends (by decide)) ?_
  rintro _ _ (⟨rfl, comma, isComma, takesComma⟩ | ⟨rfl, rfl⟩)
  · rw [if_pos rfl]
    refine .bind (.skipLineBreaks takesComma.ends) ?_
    rintro _ _ breaks
    obtain ⟨word, more, rfl⟩ := breaks.ends.exists_cons
    refine (Returns.isAt close).bind ?_
    split
    · exact .pure ⟨_, takesComma.trans breaks, .comma isComma⟩
    · refine .bind (sound _ breaks.ends) ?_
      rintro value rest ⟨used, ending, consumes, isSpelled⟩
      refine .bind (.skipLineBreaks consumes.ends) ?_
      rintro _ after moreBreaks
      refine .pure ⟨comma, used, ending, isComma, ?_, isSpelled⟩
      simpa using (takesComma.trans breaks).trans (consumes.trans moreBreaks)
  · rw [if_neg (by decide)]
    exact .pure ⟨[], .refl ends, .done⟩

theorem commaSeparated_meets {α : Type} (spelled : α → List Word → Ending → Prop)
    {item : Parser α} (close : TokenKind)
    (sound : ∀ words, Sealed words → item.Meets words
      (fun value rest => ∃ used ending, Consumes words used rest ∧ spelled value used ending) True)
    (ends : Sealed words) :
    (commaSeparated item close).Meets words
      (fun values rest => ∃ (slots : List (Slot α)) (body : List Word),
        slots.map Slot.value = values ∧ slots ≠ [] ∧
        (∀ slot ∈ slots, spelled slot.value slot.words slot.ending) ∧
        Consumes words body rest ∧
        ∀ word : Word, word.kind = close → Listed close (slots.map Slot.words) (body ++ [word]))
      True := by
  refine .bind (sound _ ends) ?_
  rintro first middle ⟨used, ending, consumes, isSpelled⟩
  refine .bind (.skipLineBreaks consumes.ends) ?_
  rintro _ start breaks
  refine .bind (Meets.many_slots spelled (fun word => word.kind = .comma) (Further []) Further
    breaks.ends (fun words ends => (nextSeparated_meets spelled close sound ends).mono ?_ id)
    (fun _ final => final) (fun _ _ _ _ isComma others => .more isComma others)) ?_
  · rintro (- | value) rest took <;> exact took
  · rintro _ rest ⟨slots, tail, rfl, areSpelled, consumesTail, further⟩
    refine .pure ⟨⟨first, used, ending⟩ :: slots, used ++ tail, rfl, by simp, ?_, ?_, ?_⟩
    · simpa using ⟨isSpelled, areSpelled⟩
    · simpa using (consumes.trans breaks).trans consumesTail
    · intro word isClose
      exact .some further isClose

theorem readVariableName?_meets (ends : Sealed words) :
    readVariableName?.Meets words
      (fun name rest => ∃ marks, NameMark name marks ∧ Consumes words marks rest) True := by
  obtain ⟨word, more, rfl⟩ := ends.exists_cons
  refine (Returns.isAt _).bind ?_
  split
  · refine .bind (.take ends (by decide)) ?_
    rintro _ rest ⟨variable_, isVariable, rfl, takes⟩
    exact .pure ⟨_, .present isVariable, takes⟩
  · exact .pure ⟨[], .absent, .refl ends⟩

theorem accept_mark {kind : TokenKind} (isSolid : kind.IsSolid) (ends : Sealed words) :
    (accept kind).Meets words
      (fun taken rest => ∃ marks, Mark kind taken marks ∧ Consumes words marks rest) True := by
  refine (Meets.takeIf ends isSolid).mono ?_ id
  rintro _ _ (⟨rfl, word, isKind, takes⟩ | ⟨rfl, rfl⟩)
  · exact ⟨_, .present isKind, takes⟩
  · exact ⟨[], .absent, .refl ends⟩

/-- The words of a key, its mark and the colon. -/
def TookLabel (words : List Word) (label : ShapeKey × Bool) (rest : List Word) : Prop :=
  ∃ word marks colon, KeyWord label.1 word ∧ Mark .nullable label.2 marks ∧
    colon.kind = .colon ∧ Consumes words (word :: marks ++ [colon]) rest

theorem readShapeKey_meets (ends : Sealed words) :
    readShapeKey.Meets words
      (fun key rest => ∃ word, KeyWord key word ∧ Consumes words [word] rest) True := by
  obtain ⟨word, rest, rfl⟩ := ends.exists_cons
  have takes {kind : TokenKind} (isKind : word.kind = kind) (isSolid : kind.IsSolid) :
      Consumes (word :: rest) [word] rest :=
    .single (by rw [isKind]; exact isSolid.2) (ends.tail (by rw [isKind]; exact isSolid.1))
  refine .bind .mark ?_
  rintro start _ rfl
  refine .bind .current ?_
  rintro token _ ⟨sameKind, sameText, rfl⟩
  rw [sameKind, sameText]
  split
  · next isKind =>
      have consumes := takes isKind (by decide)
      refine (Returns.advance consumes.ends.ne_nil).bind ?_
      refine .bind (.positionsSince start) ?_
      rintro attributes _ rfl
      exact .pure ⟨word, .integer isKind, consumes⟩
  · next isKind =>
      have consumes := takes isKind (by decide)
      refine (Returns.advance consumes.ends.ne_nil).bind ?_
      refine .bind (.positionsSince start) ?_
      rintro attributes _ rfl
      exact .pure ⟨word, .string (.inl isKind), consumes⟩
  · next isKind =>
      have consumes := takes isKind (by decide)
      refine (Returns.advance consumes.ends.ne_nil).bind ?_
      refine .bind (.positionsSince start) ?_
      rintro attributes _ rfl
      exact .pure ⟨word, .string (.inr isKind), consumes⟩
  · next isKind =>
      have consumes := takes isKind (by decide)
      refine (Returns.advance consumes.ends.ne_nil).bind ?_
      exact .pure ⟨word, .name isKind, consumes⟩
  · exact Rejects.expecting.meets

theorem readShapeLabel_meets (ends : Sealed words) :
    readShapeLabel.Meets words (fun label rest => TookLabel words label rest) True := by
  refine .bind (readShapeKey_meets ends) ?_
  rintro key _ ⟨word, isKey, takesKey⟩
  refine .bind (accept_mark (by decide) takesKey.ends) ?_
  rintro isOptional _ ⟨marks, mark, takesMarks⟩
  refine .bind (.take takesMarks.ends (by decide)) ?_
  rintro _ rest ⟨colon, isColon, -, takesColon⟩
  exact .pure ⟨word, marks, colon, isKey, mark, isColon,
    (takesKey.trans takesMarks).trans takesColon⟩

theorem readConstant_literal {word : Word} {more : List Word}
    (isLiteral : word.kind ∈ [.integer, .float, .singleQuoted, .doubleQuoted, .minus])
    (ends : Sealed (word :: more)) :
    readConstant.Meets (word :: more)
      (fun type rest => Took (TypePhrase.primary type).Spelled (word :: more) rest) True := by
  have isSolid : word.kind ≠ .lineBreak := by
    intro isBreak
    rw [isBreak] at isLiteral
    exact absurd isLiteral (by decide)
  refine (Returns.isAtAny _).bind ?_
  split
  · refine .bind .mark ?_
    rintro start _ rfl
    refine .bind (ConstExpr.parser_sound _ ends) ?_
    rintro expr rest ⟨used, ending, consumes, isSpelled, apart⟩
    obtain ⟨first, others, rfl, -⟩ := ConstExpr.starts_of_spelled isSpelled
    obtain ⟨_, eq⟩ := consumes.head isSolid (by simp)
    obtain ⟨rfl, -⟩ := List.cons.inj eq
    exact node_meets start fun attributes => ⟨_, ending, consumes,
      .constant (.literal isLiteral) isSpelled, apart⟩
  · exact Rejects.expecting.meets

theorem readConstant_named {word colons : Word} {more : List Word}
    (isName : word.kind = .identifier) (isColons : colons.kind = .doubleColon)
    (ends : Sealed (word :: colons :: more)) :
    readConstant.Meets (word :: colons :: more)
      (fun type rest => Took (TypePhrase.primary type).Spelled (word :: colons :: more) rest)
      True := by
  refine (Returns.isAtAny _).bind ?_
  split
  · refine .bind .mark ?_
    rintro start _ rfl
    refine .bind (ConstExpr.parser_classConstant isName isColons ends) ?_
    rintro expr rest ⟨used, ending, consumes, isSpelled, apart⟩
    exact node_meets start fun attributes => ⟨_, ending, consumes,
      .constant (.named isName isColons) isSpelled, apart⟩
  · exact Rejects.expecting.meets

/-- From `words` up to `rest` stands a pair of array brackets. -/
def TookBrackets (words rest : List Word) : Prop :=
  ∃ open_ close : Word, open_.kind = .openSquare ∧ close.kind = .closeSquare ∧
    words = open_ :: close :: rest ∧ Sealed rest

/-- The brackets that the rounds of a loop took, and the array type that they make. -/
theorem suffixes_of_rounds {rest : List Word} {attributes : List Attributes} {result : Unit}
    (rounds : Rounds
      (fun words (_ : Attributes) rest => TookBrackets words rest)
      (fun words (_ : Unit) rest => rest = words ∧ NoSuffix words) words attributes result rest)
    (ends : Sealed words) (type : TypeExpr) (ending : Ending) (apart : ending.Apart words) :
    NoSuffix rest ∧ ∃ brackets final, Consumes words brackets rest ∧ final.Apart rest ∧
      Suffixes type ending
        (attributes.foldl (fun inner attributes => ⟨.array inner, attributes⟩) type)
        brackets final := by
  induction rounds generalizing type ending with
  | done final =>
      obtain ⟨rfl, noSuffix⟩ := final
      exact ⟨noSuffix, [], ending, .refl ends, apart, .done⟩
  | @item words middle rest value values result first others induction =>
      obtain ⟨open_, close, isOpen, isClose, rfl, middleEnds⟩ := first
      obtain ⟨noSuffix, brackets, final, consumes, apart, suffixes⟩ :=
        induction middleEnds ⟨.array type, value⟩ .closed trivial
      refine ⟨noSuffix, open_ :: close :: brackets, final, ?_, apart,
        .more isOpen isClose suffixes⟩
      exact .cons (by rw [isOpen]; decide) (middleEnds.cons close)
        (.cons (by rw [isClose]; decide) middleEnds consumes)

theorem readArraySuffix_meets (start : Nat) (ends : Sealed words) :
    (readArraySuffix start).Meets words
      (fun found rest =>
        match found with
        | some _ => TookBrackets words rest
        | none => rest = words ∧ NoSuffix words) True := by
  obtain ⟨word, more, rfl⟩ := ends.exists_cons
  refine (Returns.isAt _).bind ?_
  by_cases isOpen : word.kind = .openSquare
  · rw [if_pos (decide_eq_true isOpen)]
    have moreEnds : Sealed more := ends.tail (by rw [isOpen]; decide)
    refine .push_bind ((Returns.advance moreEnds.ne_nil).bind_holds .advance ?_)
    obtain ⟨next, others, rfl⟩ := moreEnds.exists_cons
    by_cases isClose : next.kind = .closeSquare
    · have othersEnds : Sealed others := moreEnds.tail (by rw [isClose]; decide)
      refine (Returns.accept_yes isClose othersEnds.ne_nil).bind_holds (.accept _) ?_
      rw [if_pos rfl]
      refine .drop_bind (.bind (.positionsSince start) ?_)
      rintro attributes _ rfl
      exact .pure ⟨word, next, isOpen, isClose, rfl, othersEnds⟩
    · refine (Returns.accept_no isClose).bind_holds (.accept _) ?_
      rw [if_neg (by decide)]
      exact .rollback_bind (.pure ⟨rfl, fun isSuffix => isClose isSuffix.2⟩)
  · rw [if_neg (by simpa using isOpen)]
    refine .pure ⟨rfl, ?_⟩
    cases more with
    | nil => trivial
    | cons next others => exact fun isSuffix => isOpen isSuffix.1

/-- A type without array brackets was read, or a callable type whose return type has
all of them. -/
def TookPrimary (type : TypeExpr) (words rest : List Word) : Prop :=
  Took (TypePhrase.primary type).Spelled words rest ∨
    (Took (TypePhrase.atomic type).Spelled words rest ∧ NoSuffix rest)

/-- No type starts with a line break. -/
theorem readGoal_union_rejects (multiline : Bool) {word : Word} {more : List Word}
    (isBreak : word.kind = .lineBreak) :
    (readGoal nested (.union multiline)).Rejects (word :: more) := by
  have operand : (readOperand nested).Rejects (word :: more) := by
    refine Meets.bind .mark ?_
    rintro start _ rfl
    refine (Returns.accept_no (by rw [isBreak]; decide)).bind ?_
    rw [if_neg (by decide)]
    refine Meets.bind .mark ?_
    rintro start _ rfl
    refine Rejects.bind (Meets.bind .current ?_) trivial
    rintro token _ ⟨sameKind, -, rfl⟩
    rw [sameKind, isBreak]
    refine (Returns.isAtAny _).bind ?_
    rw [if_neg (by rw [isBreak]; decide)]
    exact Rejects.expecting
  refine Meets.bind .mark ?_
  rintro start _ rfl
  refine Rejects.bind (Meets.bind .mark ?_) trivial
  rintro start _ rfl
  exact operand.bind trivial

/-- The parser of nested goals reads spellings only. -/
structure Grounded (nested : Goal → Parser TypeExpr) : Prop where
  built : GoalsBuilt nested
  rejects : ∀ multiline word more, word.kind = .lineBreak →
    (nested (.union multiline)).Rejects (word :: more)
  union : ∀ multiline words, Sealed words → (nested (.union multiline)).Meets words
    (fun type rest => Took (TypePhrase.chain .union type).Spelled words rest) True
  operand : ∀ words, Sealed words → (nested .operand).Meets words
    (fun type rest => Took (TypePhrase.operand type).Spelled words rest ∧ NoSuffix rest) True
  condition : ∀ subject start words, Sealed words →
    (nested (.condition subject start)).Meets words
      (fun type rest => Took (TypePhrase.condition subject type).Spelled words rest) True

section Nested

variable (grounded : Grounded nested)
include grounded

theorem readGeneric_meets {name angle : Word} {more : List Word} {attributes : Attributes}
    (isName : name.kind = .identifier) (isOpen : angle.kind = .openAngle) (start : Nat)
    (ends : Sealed (angle :: more)) :
    (readGeneric nested ⟨.identifier name.text, attributes⟩ start).Meets (angle :: more)
      (fun type rest => ∃ used, Consumes (angle :: more) used rest ∧
        (TypePhrase.primary type).Spelled (name :: used) .closed) True := by
  have moreEnds : Sealed more := ends.tail (by rw [isOpen]; decide)
  refine (Returns.consume isOpen moreEnds.ne_nil).bind ?_
  refine .bind (.skipLineBreaks moreEnds) ?_
  rintro _ _ breaks
  refine .bind (commaSeparated_meets (fun type => (TypePhrase.chain .union type).Spelled)
    .closeAngle (fun words ends => ?each) breaks.ends) ?_
  case each =>
    refine (grounded.union false words ends).mono ?_ id
    rintro type rest ⟨used, ending, consumes, isSpelled, -⟩
    exact ⟨used, ending, consumes, isSpelled⟩
  rintro _ middle ⟨slots, body, rfl, some, areSpelled, consumes, listed⟩
  refine .bind (.take consumes.ends (by decide)) ?_
  rintro _ rest ⟨close, isClose, -, takesClose⟩
  refine node_meets start fun attributes => ⟨angle :: (body ++ [close]), ?_,
    .generic isName isOpen some areSpelled (listed close isClose)⟩
  exact .cons (by rw [isOpen]; decide) moreEnds (breaks.trans (consumes.trans takesClose))

theorem readParameter_meets (ends : Sealed words) :
    (readParameter nested).Meets words
      (fun parameter rest => ∃ used ending, Consumes words used rest ∧
        (TypePhrase.parameter parameter).Spelled used ending) True := by
  refine .bind .mark ?_
  rintro start _ rfl
  refine .bind (grounded.union false _ ends) ?_
  rintro type rest ⟨used, ending, consumes, isSpelled, -⟩
  refine .bind (accept_mark (by decide) consumes.ends) ?_
  rintro isReference _ ⟨reference, referenceMark, takesReference⟩
  refine .bind (accept_mark (by decide) takesReference.ends) ?_
  rintro isVariadic _ ⟨dots, variadicMark, takesDots⟩
  refine .bind (readVariableName?_meets takesDots.ends) ?_
  rintro name _ ⟨variable_, nameMark, takesName⟩
  refine .bind (accept_mark (by decide) takesName.ends) ?_
  rintro isOptional after ⟨equal, optionalMark, takesEqual⟩
  refine .bind (.positionsSince start) ?_
  rintro attributes _ rfl
  exact .pure ⟨_, _, consumes.trans (takesReference.trans (takesDots.trans
    (takesName.trans takesEqual))),
    .parameter isSpelled referenceMark variadicMark nameMark optionalMark⟩

theorem readCallable_meets {name paren : Word} {more : List Word} {attributes : Attributes}
    (isName : name.kind = .identifier) (isOpen : paren.kind = .openParen) (start : Nat)
    (ends : Sealed (paren :: more)) :
    (readCallable nested ⟨.identifier name.text, attributes⟩ start).Meets (paren :: more)
      (fun type rest => NoSuffix rest ∧ ∃ used ending, Consumes (paren :: more) used rest ∧
        (TypePhrase.atomic type).Spelled (name :: used) ending ∧ ending.Apart rest) True := by
  have moreEnds : Sealed more := ends.tail (by rw [isOpen]; decide)
  refine (Returns.consume isOpen moreEnds.ne_nil).bind ?_
  refine .bind (.skipLineBreaks moreEnds) ?_
  rintro _ inside breaks
  have parameters : (readParameters nested).Meets inside
      (fun parameters rest => ∃ (slots : List (Slot CallableParameter)) (body : List Word),
        slots.map Slot.value = parameters ∧
        (∀ slot ∈ slots, (TypePhrase.parameter slot.value).Spelled slot.words slot.ending) ∧
        Consumes inside body rest ∧ ∀ word : Word, word.kind = .closeParen →
          Listed .closeParen (slots.map Slot.words) (body ++ [word])) True := by
    obtain ⟨word, others, rfl⟩ := breaks.ends.exists_cons
    refine (Returns.isAt _).bind ?_
    split
    · exact .pure ⟨[], [], rfl, by simp, .refl breaks.ends, fun _ isClose => .none isClose⟩
    · refine (commaSeparated_meets (fun parameter => (TypePhrase.parameter parameter).Spelled)
        .closeParen (fun words ends => readParameter_meets grounded ends) breaks.ends).mono ?_ id
      rintro _ rest ⟨slots, body, rfl, -, areSpelled, consumes, listed⟩
      exact ⟨slots, body, rfl, areSpelled, consumes, listed⟩
  refine .bind parameters ?_
  rintro _ middle ⟨slots, body, rfl, areSpelled, consumes, listed⟩
  refine .bind (.take consumes.ends (by decide)) ?_
  rintro _ behind ⟨close, isClose, -, takesClose⟩
  refine .bind (.take takesClose.ends (by decide)) ?_
  rintro _ result ⟨colon, isColon, -, takesColon⟩
  refine .bind (grounded.operand _ takesColon.ends) ?_
  rintro returnType rest ⟨⟨used, ending, consumesResult, isSpelled, apart⟩, noSuffix⟩
  refine node_meets start fun attributes => ⟨noSuffix,
    paren :: (body ++ [close]) ++ colon :: used, ending, ?_,
    .callable isName isOpen areSpelled (listed close isClose) isColon isSpelled, apart⟩
  exact .cons (by rw [isOpen]; decide) moreEnds (breaks.trans ((consumes.trans takesClose).trans
    (takesColon.trans consumesResult)))

theorem readShapeItem_meets (ends : Sealed words) :
    (readShapeItem nested).Meets words
      (fun item rest => ∃ used ending, Consumes words used rest ∧
        (TypePhrase.item item).Spelled used ending) True := by
  refine .bind .mark ?_
  rintro start _ rfl
  refine .bind ((Meets.attempt_either readShapeLabel_built.steady (readShapeLabel_meets ends)).mono
    (fun _ _ outcome => outcome) False.elim) ?_
  rintro (error | ⟨key, isOptional⟩) rest outcome
  · obtain rfl : rest = _ := outcome
    refine .bind (grounded.union false _ ends) ?_
    rintro type rest ⟨used, ending, consumes, isSpelled, -⟩
    refine .bind (.positionsSince start) ?_
    rintro attributes _ rfl
    exact .pure ⟨used, .closed, consumes, .value isSpelled⟩
  · obtain ⟨word, marks, colon, isKey, mark, isColon, takesLabel⟩ := outcome
    refine .bind (grounded.union false _ takesLabel.ends) ?_
    rintro type rest ⟨used, ending, consumes, isSpelled, -⟩
    refine .bind (.positionsSince start) ?_
    rintro attributes _ rfl
    refine .pure ⟨_, .closed, ?_, .entry isKey mark isColon isSpelled⟩
    simpa using takesLabel.trans consumes

theorem readShapeEntry_meets (ends : Sealed words) :
    (readShapeEntry nested).Meets words
      (fun outcome rest =>
        match outcome with
        | .item item => ∃ used ending, Consumes words used rest ∧
            (TypePhrase.item item).Spelled used ending
        | .done closed => ∃ used, Consumes words used rest ∧ ShapeEnd closed used) True := by
  refine .bind (.skipLineBreaks ends) ?_
  rintro _ _ breaks
  refine .bind (.takeIf breaks.ends (by decide)) ?_
  rintro _ _ (⟨rfl, close, isClose, takesClose⟩ | ⟨rfl, rfl⟩)
  · rw [if_pos rfl]
    exact .pure ⟨_, breaks.trans takesClose, .closed isClose⟩
  rw [if_neg (by decide)]
  refine .bind (.takeIf breaks.ends (by decide)) ?_
  rintro _ _ (⟨rfl, dots, isDots, takesDots⟩ | ⟨rfl, rfl⟩)
  · rw [if_pos rfl]
    refine .bind (.skipLineBreaks takesDots.ends) ?_
    rintro _ _ breaksDots
    refine .bind (accept_mark (by decide) breaksDots.ends) ?_
    rintro comma _ ⟨marks, mark, takesMarks⟩
    refine .bind (.skipLineBreaks takesMarks.ends) ?_
    rintro _ _ breaksMarks
    refine .bind (.take breaksMarks.ends (by decide)) ?_
    rintro _ rest ⟨close, isClose, -, takesClose⟩
    refine .pure ⟨dots :: marks ++ [close], ?_, .unclosed isDots mark isClose⟩
    simpa using (breaks.trans (takesDots.trans breaksDots)).trans
      (takesMarks.trans (breaksMarks.trans takesClose))
  · rw [if_neg (by decide)]
    refine .bind (readShapeItem_meets grounded breaks.ends) ?_
    rintro item rest ⟨used, ending, consumes, isSpelled⟩
    exact .pure ⟨used, ending, breaks.trans consumes, isSpelled⟩

theorem nextEntry_meets (ends : Sealed words) :
    (nextEntry nested).Meets words
      (fun outcome rest =>
        match outcome with
        | .item item => TookNext (fun item => (TypePhrase.item item).Spelled)
            (fun word => word.kind = .comma) words item rest
        | .done closed => TookLast (fun closed => ShapeTail closed []) words closed rest)
      True := by
  refine .bind (.skipLineBreaks ends) ?_
  rintro _ _ breaks
  refine .bind (.takeIf breaks.ends (by decide)) ?_
  rintro _ _ (⟨rfl, comma, isComma, takesComma⟩ | ⟨rfl, rfl⟩)
  · rw [if_pos rfl]
    refine (readShapeEntry_meets grounded takesComma.ends).mono ?_ id
    rintro (item | closed) rest outcome
    · obtain ⟨used, ending, consumes, isSpelled⟩ := outcome
      exact ⟨comma, used, ending, isComma, (breaks.trans takesComma).trans consumes, isSpelled⟩
    · obtain ⟨used, consumes, final⟩ := outcome
      exact ⟨_, (breaks.trans takesComma).trans consumes, .last isComma final⟩
  · rw [if_neg (by decide)]
    refine .bind (.take breaks.ends (by decide)) ?_
    rintro _ rest ⟨close, isClose, -, takesClose⟩
    exact .pure ⟨_, breaks.trans takesClose, .close isClose⟩

theorem readShape_meets {name curly : Word} {more : List Word} {kind : ShapeKind}
    (isName : name.kind = .identifier) (opens : ShapeKind.ofWord? name.text = some kind)
    (isOpen : curly.kind = .openCurly) (glued : curly.gap = false) (start : Nat)
    (ends : Sealed (curly :: more)) :
    (readShape nested kind start).Meets (curly :: more)
      (fun type rest => ∃ used, Consumes (curly :: more) used rest ∧
        (TypePhrase.primary type).Spelled (name :: used) .closed) True := by
  have moreEnds : Sealed more := ends.tail (by rw [isOpen]; decide)
  have isSolid : curly.kind ≠ .lineBreak := by rw [isOpen]; decide
  refine (Returns.consume isOpen moreEnds.ne_nil).bind ?_
  refine .bind (readShapeEntry_meets grounded moreEnds) ?_
  rintro (first | closed) middle outcome
  · obtain ⟨used, ending, consumes, isSpelled⟩ := outcome
    refine .bind (Meets.gather_slots (fun item => (TypePhrase.item item).Spelled)
      (fun word => word.kind = .comma) (fun closed => ShapeTail closed []) ShapeTail
      consumes.ends (fun words ends => (nextEntry_meets grounded ends).mono ?_ id)
      (fun _ _ final => final) (fun _ _ _ _ _ isComma others => .more isComma others)) ?_
    · rintro (item | closed) rest took <;> exact took
    · rintro ⟨items, closed⟩ rest ⟨slots, tail, rfl, areSpelled, consumesTail, isTail⟩
      have spelledAll : ∀ slot ∈ (⟨first, used, ending⟩ :: slots : List (Slot ShapeItem)),
          (TypePhrase.item slot.value).Spelled slot.words slot.ending := by
        simpa using ⟨isSpelled, areSpelled⟩
      refine node_meets start fun attributes => ⟨curly :: (used ++ tail), ?_,
        .shape isName opens isOpen glued spelledAll (.items isTail)⟩
      exact .cons isSolid moreEnds (consumes.trans consumesTail)
  · obtain ⟨used, consumes, final⟩ := outcome
    have spelledNone : ∀ slot ∈ ([] : List (Slot ShapeItem)),
        (TypePhrase.item slot.value).Spelled slot.words slot.ending := by simp
    exact node_meets start fun attributes => ⟨curly :: used, .cons isSolid moreEnds consumes,
      .shape isName opens isOpen glued spelledNone (.empty final)⟩

theorem readIdentifier_meets {word : Word} {more : List Word} (isName : word.kind = .identifier)
    (ends : Sealed (word :: more)) :
    (readIdentifier nested).Meets (word :: more)
      (fun type rest => TookPrimary type (word :: more) rest) True := by
  have isSolid : word.kind ≠ .lineBreak := by rw [isName]; decide
  have moreEnds : Sealed more := ends.tail (by rw [isName]; decide)
  obtain ⟨next, others, rfl⟩ := moreEnds.exists_cons
  -- The identifier alone, and with what follows it.
  have alone (attributes : Attributes) :
      TookPrimary ⟨.identifier word.text, attributes⟩ (word :: next :: others)
        (next :: others) :=
    .inl ⟨[word], _, .single isSolid moreEnds, .name isName, trivial⟩
  have closed {type : TypeExpr} {rest : List Word}
      (took : ∃ used, Consumes (next :: others) used rest ∧
        (TypePhrase.primary type).Spelled (word :: used) .closed) :
      TookPrimary type (word :: next :: others) rest := by
    obtain ⟨used, consumes, isSpelled⟩ := took
    exact .inl ⟨_, .closed, .cons isSolid moreEnds consumes, isSpelled, trivial⟩
  refine .bind .mark ?_
  rintro start _ rfl
  refine .push_bind (Holds.bind (.look _) .current ?_)
  rintro token _ ⟨-, sameText, rfl⟩
  refine (Returns.advance moreEnds.ne_nil).bind_holds .advance ?_
  refine (Returns.isAt _).bind_holds (.look _) ?_
  by_cases isColons : next.kind = .doubleColon
  · rw [if_pos (decide_eq_true isColons)]
    exact .rollback_bind ((readConstant_named isName isColons ends).mono
      (fun _ _ took => .inl took) id)
  rw [if_neg (by simpa using isColons), sameText]
  refine .drop_bind (.bind (node_gives start) ?_)
  rintro _ _ ⟨rfl, attributes, rfl⟩
  refine (Returns.isAt _).bind ?_
  by_cases isAngle : next.kind = .openAngle
  · rw [if_pos (decide_eq_true isAngle)]
    exact (readGeneric_meets grounded isName isAngle start moreEnds).mono
      (fun _ _ took => closed took) id
  rw [if_neg (by simpa using isAngle)]
  refine (Returns.isAt _).bind ?_
  by_cases isParen : next.kind = .openParen
  · rw [if_pos (decide_eq_true isParen)]
    refine .bind ((Meets.attempt_either (readCallable_built grounded.built rfl start).steady
      (readCallable_meets grounded isName isParen start moreEnds)).mono
      (fun _ _ outcome => outcome) False.elim) ?_
    rintro (error | callable) rest outcome
    · obtain rfl : rest = _ := outcome
      exact .pure (alone attributes)
    · obtain ⟨noSuffix, used, ending, consumes, isSpelled, apart⟩ := outcome
      exact .pure (.inr ⟨⟨_, ending, .cons isSolid moreEnds consumes, isSpelled, apart⟩, noSuffix⟩)
  rw [if_neg (by simpa using isParen)]
  split
  · exact .pure (alone attributes)
  · next kind opens =>
      refine (Returns.isAt _).bind ?_
      by_cases isCurly : next.kind = .openCurly
      · rw [if_pos (decide_eq_true isCurly)]
        refine Returns.isAfterBlank.bind ?_
        by_cases gap : next.gap = true
        · rw [if_pos gap]
          exact .pure (alone attributes)
        · rw [if_neg gap]
          exact (readShape_meets grounded isName opens isCurly (by simpa using gap) start
            moreEnds).mono (fun _ _ took => closed took) id
      · rw [if_neg (by simpa using isCurly)]
        exact .pure (alone attributes)

theorem readSubject_meets (ends : Sealed words) :
    (readSubject nested).Meets words
      (fun type rest => Took (TypePhrase.subject type).Spelled words rest) True := by
  refine .bind .mark ?_
  rintro start _ rfl
  refine .bind (grounded.union true _ ends) ?_
  rintro subject middle ⟨used, ending, consumes, isSpelled, apart⟩
  obtain ⟨word, more, rfl⟩ := consumes.ends.exists_cons
  refine (Returns.isAtWord _ _).bind ?_
  split
  · next isCondition =>
    have isSolid : word.kind ≠ .lineBreak := by
      rw [(of_decide_eq_true isCondition).1]
      decide
    refine (grounded.condition _ start _ consumes.ends).mono ?_ id
    rintro type rest ⟨used', ending', consumes', isSpelled', apart'⟩
    have apartUsed : ending.Apart used' := by
      obtain ⟨first, others, rfl, -⟩ := isSpelled'.starts
      obtain ⟨_, eq⟩ := consumes'.head isSolid (by simp)
      rw [eq]
      exact apart.of_head?_eq rfl
    exact ⟨_, ending', consumes.trans consumes', .conditional isSpelled isSpelled' apartUsed,
      apart'⟩
  · exact .pure ⟨used, ending, consumes, .unconditional isSpelled, apart⟩

theorem readCondition_meets (subject : ConditionalSubject) (start : Nat) (ends : Sealed words) :
    (readCondition nested subject start).Meets words
      (fun type rest => Took (TypePhrase.condition subject type).Spelled words rest) True := by
  obtain ⟨is, more, rfl⟩ := ends.exists_cons
  by_cases isCondition : is.kind = .identifier ∧ is.text = "is"
  case neg => exact (Rejects.consumeValue isCondition).bind trivial
  have moreEnds : Sealed more := ends.tail (by rw [isCondition.1]; decide)
  have takesIs : Consumes (is :: more) [is] more :=
    .single (by rw [isCondition.1]; decide) moreEnds
  refine (Returns.consumeValue isCondition.1 isCondition.2 moreEnds.ne_nil).bind ?_
  have negation : (acceptWord .identifier "not").Meets more
      (fun negated rest => ∃ marks, Consumes more marks rest ∧
        ∀ target, target.head? = rest.head? → Negation negated marks target) True := by
    obtain ⟨word, others, rfl⟩ := moreEnds.exists_cons
    by_cases negates : word.negates
    · have othersEnds : Sealed others := moreEnds.tail (by rw [negates.1]; decide)
      refine (Returns.acceptWord_yes negates.1 negates.2 othersEnds.ne_nil).mono ?_ False.elim
      rintro _ _ ⟨rfl, rfl⟩
      exact ⟨[word], .single (by rw [negates.1]; decide) othersEnds,
        fun target _ => .present negates⟩
    · refine (Returns.acceptWord_no negates).mono ?_ False.elim
      rintro _ _ ⟨rfl, rfl⟩
      refine ⟨[], .refl moreEnds, fun target sameHead => .absent ?_⟩
      rw [sameHead]
      simpa using negates
  refine .bind negation ?_
  rintro negated rest ⟨marks, takesMarks, isNegation⟩
  obtain ⟨word, others, rfl⟩ := takesMarks.ends.exists_cons
  -- A line break in front of the target would hide a negation behind it.
  by_cases isBreak : word.kind = .lineBreak
  · exact (grounded.rejects true word others isBreak).bind trivial
  refine .bind (grounded.union true _ takesMarks.ends) ?_
  rintro target _ ⟨targetWords, targetEnding, takesTarget, ofTarget, -⟩
  have sameHead : targetWords.head? = (word :: others).head? := by
    obtain ⟨first, later, rfl, -⟩ := ofTarget.starts
    obtain ⟨_, eq⟩ := takesTarget.head isBreak (by simp)
    rw [eq]
    rfl
  refine .bind (.skipLineBreaks takesTarget.ends) ?_
  rintro _ _ breaks₁
  refine .bind (.take breaks₁.ends (by decide)) ?_
  rintro _ _ ⟨question, isQuestion, -, takesQuestion⟩
  refine .bind (.skipLineBreaks takesQuestion.ends) ?_
  rintro _ _ breaks₂
  refine .bind (grounded.union true _ breaks₂.ends) ?_
  rintro ifType _ ⟨ifWords, ifEnding, takesIf, ofIf, -⟩
  refine .bind (.skipLineBreaks takesIf.ends) ?_
  rintro _ _ breaks₃
  refine .bind (.take breaks₃.ends (by decide)) ?_
  rintro _ _ ⟨colon, isColon, -, takesColon⟩
  refine .bind (.skipLineBreaks takesColon.ends) ?_
  rintro _ _ breaks₄
  refine .bind (readSubject_meets grounded breaks₄.ends) ?_
  rintro elseType rest ⟨elseWords, ending, takesElse, ofElse, apart⟩
  refine node_meets start fun attributes => ⟨_, ending, ?_,
    .condition isCondition (isNegation targetWords sameHead) ofTarget isQuestion ofIf isColon
      ofElse,
    apart⟩
  have toTarget := (takesIs.trans takesMarks).trans takesTarget
  have toIf := (breaks₁.trans takesQuestion).trans (breaks₂.trans takesIf)
  have toElse := (breaks₃.trans takesColon).trans (breaks₄.trans takesElse)
  simpa using toTarget.trans (toIf.trans toElse)

theorem readEnclosed_meets (ends : Sealed words) :
    (readEnclosed nested).Meets words
      (fun type rest => Took (TypePhrase.enclosed type).Spelled words rest) True := by
  obtain ⟨word, more, rfl⟩ := ends.exists_cons
  refine (Returns.isAt _).bind ?_
  by_cases isVariable : word.kind = .namedVariable
  · rw [if_pos (decide_eq_true isVariable)]
    have moreEnds : Sealed more := ends.tail (by rw [isVariable]; decide)
    refine .bind .mark ?_
    rintro start _ rfl
    refine (Returns.consume isVariable moreEnds.ne_nil).bind ?_
    refine (grounded.condition _ start _ moreEnds).mono ?_ id
    rintro type rest ⟨used, ending, consumes, isSpelled, apart⟩
    exact ⟨word :: used, ending, .cons (by rw [isVariable]; decide) moreEnds consumes,
      .aboutParameter isVariable isSpelled, apart⟩
  · rw [if_neg (by simpa using isVariable)]
    refine (readSubject_meets grounded ends).mono ?_ id
    rintro type rest ⟨used, ending, consumes, isSpelled, apart⟩
    exact ⟨used, ending, consumes, .aboutType isSpelled, apart⟩

theorem readParenthesized_meets {paren : Word} {more : List Word}
    (isOpen : paren.kind = .openParen) (ends : Sealed (paren :: more)) :
    (readParenthesized nested).Meets (paren :: more)
      (fun type rest => Took (TypePhrase.primary type).Spelled (paren :: more) rest) True := by
  have moreEnds : Sealed more := ends.tail (by rw [isOpen]; decide)
  refine (Returns.consume isOpen moreEnds.ne_nil).bind ?_
  refine .bind (.skipLineBreaks moreEnds) ?_
  rintro _ _ breaks
  refine .bind (readEnclosed_meets grounded breaks.ends) ?_
  rintro type _ ⟨used, ending, consumes, isSpelled, -⟩
  refine .bind (.skipLineBreaks consumes.ends) ?_
  rintro _ _ breaksBehind
  refine .bind (.take breaksBehind.ends (by decide)) ?_
  rintro _ rest ⟨close, isClose, -, takesClose⟩
  refine .pure ⟨paren :: used ++ [close], .closed, ?_, .parenthesized isOpen isSpelled isClose,
    trivial⟩
  exact .cons (by rw [isOpen]; decide) moreEnds
    ((breaks.trans consumes).trans (breaksBehind.trans takesClose))

theorem readPrimary_meets (ends : Sealed words) :
    (readPrimary nested).Meets words (fun type rest => TookPrimary type words rest) True := by
  obtain ⟨word, more, rfl⟩ := ends.exists_cons
  refine .bind .current ?_
  rintro token _ ⟨sameKind, -, rfl⟩
  rw [sameKind]
  unfold readPrimaryAt
  split
  · next isOpen =>
      exact (readParenthesized_meets grounded isOpen ends).mono (fun _ _ took => .inl took) id
  · next isThis =>
      have moreEnds : Sealed more := ends.tail (by rw [isThis]; decide)
      refine .bind .mark ?_
      rintro start _ rfl
      refine (Returns.advance moreEnds.ne_nil).bind ?_
      exact node_meets start fun attributes => .inl ⟨[word], .closed,
        .single (by rw [isThis]; decide) moreEnds, .this isThis, trivial⟩
  · next isName => exact readIdentifier_meets grounded isName ends
  · next notParen notThis notName =>
      by_cases isLiteral : word.kind ∈ [.integer, .float, .singleQuoted, .doubleQuoted, .minus]
      · exact (readConstant_literal isLiteral ends).mono (fun _ _ took => .inl took) id
      · refine (Returns.isAtAny _).bind ?_
        rw [if_neg]
        · exact Rejects.expecting.meets
        · rw [constantStarts, KindSet.contains_ofList]
          simp_all

theorem readAtomic_meets (ends : Sealed words) :
    (readAtomic nested).Meets words
      (fun type rest => Took (TypePhrase.atomic type).Spelled words rest ∧ NoSuffix rest)
      True := by
  refine .bind .mark ?_
  rintro start _ rfl
  refine .bind (readPrimary_meets grounded ends) ?_
  rintro primary middle took
  have middleEnds : Sealed middle := by
    rcases took with ⟨_, _, consumes, -⟩ | ⟨⟨_, _, consumes, -⟩, -⟩ <;> exact consumes.ends
  refine .bind (Meets.many
    (fun words (_ : Attributes) rest => TookBrackets words rest)
    (fun words rest => rest = words ∧ NoSuffix words) Sealed middleEnds
    (fun words ends => (readArraySuffix_meets start ends).mono ?each id)) ?_
  case each =>
    rintro (_ | attributes) rest found
    · exact found
    · obtain ⟨open_, close, isOpen, isClose, eq, restEnds⟩ := found
      exact ⟨⟨open_, close, isOpen, isClose, eq, restEnds⟩, restEnds⟩
  intro suffixes rest rounds
  rcases took with ⟨used, ending, consumes, isSpelled, apart⟩ | ⟨⟨used, ending, consumes,
    isSpelled, apart⟩, noSuffix⟩
  · obtain ⟨noSuffix, brackets, final, consumesMore, finalApart, isSuffixed⟩ :=
      suffixes_of_rounds rounds middleEnds primary ending apart
    exact .pure ⟨⟨_, final, consumes.trans consumesMore, .suffixed isSpelled isSuffixed,
      finalApart⟩, noSuffix⟩
  · -- The return type of a callable has left no brackets.
    cases rounds with
    | done final =>
        obtain ⟨rfl, -⟩ := final
        exact .pure ⟨⟨used, ending, consumes, isSpelled, apart⟩, noSuffix⟩
    | item first others =>
        obtain ⟨open_, close, isOpen, isClose, rfl, -⟩ := first
        exact absurd ⟨isOpen, isClose⟩ noSuffix

theorem readOperand_meets (ends : Sealed words) :
    (readOperand nested).Meets words
      (fun type rest => Took (TypePhrase.operand type).Spelled words rest ∧ NoSuffix rest)
      True := by
  refine .bind .mark ?_
  rintro start _ rfl
  refine .bind (.takeIf ends (by decide)) ?_
  rintro _ _ (⟨rfl, word, isMark, takesMark⟩ | ⟨rfl, rfl⟩)
  · rw [if_pos rfl]
    refine .bind (readAtomic_meets grounded takesMark.ends) ?_
    rintro inner rest ⟨⟨used, ending, consumes, isSpelled, apart⟩, noSuffix⟩
    exact node_meets start fun attributes => ⟨⟨_, ending, takesMark.trans consumes,
      .nullable isMark isSpelled, apart⟩, noSuffix⟩
  · rw [if_neg (by decide)]
    refine (readAtomic_meets grounded ends).mono ?_ id
    rintro type rest ⟨⟨used, ending, consumes, isSpelled, apart⟩, noSuffix⟩
    exact ⟨⟨used, ending, consumes, .plain isSpelled, apart⟩, noSuffix⟩

theorem readGoal_grounded : Grounded (readGoal nested) where
  built := readGoal_built grounded.built
  rejects := fun multiline _ _ isBreak => readGoal_union_rejects multiline isBreak
  union := by
    intro multiline words ends
    refine chain_meets .union multiline (fun words ends => ?_) ends
    refine chain_meets .intersection multiline (fun words ends => ?_) ends
    exact (readOperand_meets grounded ends).mono (fun _ _ took => took.1) id
  operand := fun words ends => readOperand_meets grounded ends
  condition := fun subject start words ends => readCondition_meets grounded subject start ends

end Nested

/-- Whatever is read as a goal is a spelling of it. -/
theorem goalWithin_grounded (depth : Nat) : Grounded (goalWithin depth) := by
  induction depth with
  | zero =>
      refine ⟨goalWithin_built 0, fun _ _ _ _ => Rejects.expecting, ?_, ?_, ?_⟩
      · exact fun _ _ _ => Rejects.expecting.meets
      · exact fun _ _ => Rejects.expecting.meets
      · exact fun _ _ _ _ => Rejects.expecting.meets
  | succ depth induction => exact readGoal_grounded induction

theorem parser_sound (ends : Sealed words) :
    parser.Meets words
      (fun type rest => Took (TypePhrase.chain .union type).Spelled words rest) True := by
  refine .bind .remaining ?_
  rintro bound _ ⟨-, rfl⟩
  exact (goalWithin_grounded _).union false _ ends


end Docblock.TypeExpr
