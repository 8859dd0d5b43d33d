import Docblock.ConstExpr.Grammar
import Docblock.Proofs.Spelling

/-!
# How constant expressions are spelled

A constant expression is related to the words that spell it, and the grammar is
shown to accept exactly these: whatever it reads it reads from a spelling, and a
spelling is read back as long as what follows does not continue it.
-/

namespace Docblock

open Docblock.Parser

/-- Further parts of the name of a class constant.  Identifiers and wildcards
alternate; the flags tell whether the part in front of them and the last part are
wildcards. -/
inductive NameTail : Bool → List Word → Bool → Prop
  | nil {wild : Bool} : NameTail wild [] wild
  | cons {wild final : Bool} {word : Word} {rest : List Word}
      (isPart : word.kind = partKind (!wild)) (glued : word.gap = false)
      (others : NameTail (!wild) rest final) : NameTail wild (word :: rest) final

/-- What a part adds to the name of a class constant. -/
def Word.partText (word : Word) : String :=
  if word.kind = .identifier then word.text else "*"

/-- The name that the parts make up. -/
def nameText : List Word → String
  | [] => ""
  | word :: rest => word.partText ++ nameText rest

/-- The literal that a word is, whatever its letter case. -/
def keyword? (name : String) : Option LiteralKind :=
  if Text.lowercase name = "true" then some .trueWord
  else if Text.lowercase name = "false" then some .falseWord
  else if Text.lowercase name = "null" then some .nullWord
  else none

/-- The parts of constant expressions. -/
inductive ConstPhrase
  | expr (expr : ConstExpr)
  | item (item : ConstItem)

/-- The words that spell a part of a constant expression. -/
inductive ConstPhrase.Spelled : ConstPhrase → List Word → Ending → Prop
  | integer {word : Word} {attributes : Attributes} (isInteger : word.kind = .integer) :
      Spelled (.expr ⟨.literal .integer word.text, attributes⟩) [word] .closed
  | float {word : Word} {attributes : Attributes} (isFloat : word.kind = .float) :
      Spelled (.expr ⟨.literal .float word.text, attributes⟩) [word] .closed
  | string {word : Word} {attributes : Attributes}
      (isQuoted : word.kind = .singleQuoted ∨ word.kind = .doubleQuoted) :
      Spelled (.expr ⟨.literal .string word.text, attributes⟩) [word] .closed
  | keyword {word : Word} {kind : LiteralKind} {attributes : Attributes}
      (isName : word.kind = .identifier) (isKeyword : keyword? word.text = some kind) :
      Spelled (.expr ⟨.literal kind word.text, attributes⟩) [word] (.constant word.text)
  | constant {word : Word} {attributes : Attributes}
      (isName : word.kind = .identifier) (noKeyword : keyword? word.text = none) :
      Spelled (.expr ⟨.fetch none word.text, attributes⟩) [word] (.constant word.text)
  | classConstant {word colons first : Word} {parts : List Word} {wild final : Bool}
      {attributes : Attributes} (isName : word.kind = .identifier)
      (isColons : colons.kind = .doubleColon) (isPart : first.kind = partKind wild)
      (others : NameTail wild parts final) :
      Spelled (.expr ⟨.fetch (some word.text) (nameText (first :: parts)), attributes⟩)
        (word :: colons :: first :: parts) (.part final)
  | minus {word : Word} {operand : ConstExpr} {words : List Word} {ending : Ending}
      {attributes : Attributes} (isMinus : word.kind = .minus)
      (inner : Spelled (.expr operand) words ending) :
      Spelled (.expr ⟨.minus operand, attributes⟩) (word :: words) ending
  | bracketed {word : Word} {slots : List (Slot ConstItem)} {words : List Word}
      {attributes : Attributes} (isOpen : word.kind = .openSquare)
      (each : ∀ slot ∈ slots, Spelled (.item slot.value) slot.words slot.ending)
      (listed : Listed .closeSquare (slots.map Slot.words) words) :
      Spelled (.expr ⟨.array (slots.map Slot.value) false, attributes⟩) (word :: words) .closed
  | longArray {word paren : Word} {slots : List (Slot ConstItem)} {words : List Word}
      {attributes : Attributes} (isName : word.kind = .identifier)
      (isArray : Text.lowercase word.text = "array") (isOpen : paren.kind = .openParen)
      (each : ∀ slot ∈ slots, Spelled (.item slot.value) slot.words slot.ending)
      (listed : Listed .closeParen (slots.map Slot.words) words) :
      Spelled (.expr ⟨.array (slots.map Slot.value) true, attributes⟩)
        (word :: paren :: words) .closed
  | value {expr : ConstExpr} {words : List Word} {ending : Ending} {attributes : Attributes}
      (inner : Spelled (.expr expr) words ending) :
      Spelled (.item ⟨none, expr, attributes⟩) words ending
  | entry {key expr : ConstExpr} {keyWords words : List Word} {keyEnding ending : Ending}
      {arrow : Word} {attributes : Attributes} (left : Spelled (.expr key) keyWords keyEnding)
      (isArrow : arrow.kind = .doubleArrow) (right : Spelled (.expr expr) words ending) :
      Spelled (.item ⟨some key, expr, attributes⟩) (keyWords ++ arrow :: words) ending

namespace ConstExpr

/-- The kinds of words with which a constant expression starts. -/
def starts (kind : TokenKind) : Bool :=
  [.integer, .float, .singleQuoted, .doubleQuoted, .minus, .openSquare, .identifier].contains kind

theorem starts_of_spelled {phrase : ConstPhrase} {used : List Word} {ending : Ending}
    (isSpelled : phrase.Spelled used ending) :
    ∃ word more, used = word :: more ∧ starts word.kind = true := by
  induction isSpelled with
  | integer isKind => exact ⟨_, _, rfl, by rw [isKind]; rfl⟩
  | float isKind => exact ⟨_, _, rfl, by rw [isKind]; rfl⟩
  | string isQuoted =>
      refine ⟨_, _, rfl, ?_⟩
      rcases isQuoted with isKind | isKind <;> rw [isKind] <;> rfl
  | keyword isKind _ => exact ⟨_, _, rfl, by rw [isKind]; rfl⟩
  | constant isKind _ => exact ⟨_, _, rfl, by rw [isKind]; rfl⟩
  | classConstant isKind _ _ _ => exact ⟨_, _, rfl, by rw [isKind]; rfl⟩
  | minus isKind _ _ => exact ⟨_, _, rfl, by rw [isKind]; rfl⟩
  | bracketed isKind _ _ => exact ⟨_, _, rfl, by rw [isKind]; rfl⟩
  | longArray isKind _ _ _ _ => exact ⟨_, _, rfl, by rw [isKind]; rfl⟩
  | value _ induction => exact induction
  | entry _ _ _ induction _ =>
      obtain ⟨word, more, rfl, isStart⟩ := induction
      exact ⟨word, _, rfl, isStart⟩

theorem nextNamePart_found {next : TokenKind} {word : Word} {rest : List Word}
    (isPart : word.kind = next) (glued : word.gap = false) (more : rest ≠ []) :
    (nextNamePart next).Returns (word :: rest) (some word.partText) rest := by
  refine Returns.isAfterBlank.bind ?_
  rw [if_neg (by simp [glued])]
  refine (Returns.isAt _).bind ?_
  rw [if_pos (decide_eq_true isPart)]
  refine (Returns.consume isPart more).bind ?_
  rw [Word.partText, isPart]
  exact .pure ⟨rfl, rfl⟩

theorem nextNamePart_missing {next : TokenKind} {word : Word} {rest : List Word}
    (noPart : word.kind = next → word.gap = true) :
    (nextNamePart next).Returns (word :: rest) none (word :: rest) := by
  refine Returns.isAfterBlank.bind ?_
  split
  · exact .pure ⟨rfl, rfl⟩
  · next glued =>
      refine (Returns.isAt _).bind ?_
      rw [if_neg]
      · exact .pure ⟨rfl, rfl⟩
      · intro isPart
        exact glued (noPart (of_decide_eq_true isPart))

/-- The two kinds of parts take turns. -/
theorem partKind_turn (wild : Bool) :
    (if partKind wild = .identifier then TokenKind.wildcard else .identifier) =
      partKind (!wild) := by
  cases wild <;> rfl

/-- Reading the further parts of a name goes as far as it can. -/
theorem readNameParts_meets (fuel : Nat) (wild : Bool) (words : List Word)
    (ends : Sealed words) (enough : words.length ≤ fuel) :
    (readNameParts fuel (partKind (!wild))).Meets words
      (fun text rest => ∃ used final, Consumes words used rest ∧ NameTail wild used final ∧
        text = nameText used ∧ (Ending.part final).Apart rest) True := by
  induction fuel generalizing wild words with
  | zero => exact absurd (List.eq_nil_of_length_eq_zero (by omega)) ends.ne_nil
  | succ fuel induction =>
      obtain ⟨word, rest, rfl⟩ := ends.exists_cons
      by_cases isNext : word.kind = partKind (!wild) ∧ word.gap = false
      · obtain ⟨isPart, glued⟩ := isNext
        have isSolid : word.kind ≠ .lineBreak := by
          rw [isPart]
          cases wild <;> decide
        have restEnds : Sealed rest := ends.tail (by rw [isPart]; cases wild <;> decide)
        refine (nextNamePart_found isPart glued restEnds.ne_nil).bind ?_
        rw [partKind_turn]
        refine .bind (induction (!wild) rest restEnds (by simpa using enough)) ?_
        rintro _ after ⟨used, final, consumes, others, rfl, stopped⟩
        exact .pure ⟨word :: used, final, .cons isSolid restEnds consumes,
          .cons isPart glued others, rfl, stopped⟩
      · have noPart : word.kind = partKind (!wild) → word.gap = true := by
          intro isPart
          by_contra glued
          exact isNext ⟨isPart, by simpa using glued⟩
        refine (nextNamePart_missing noPart).bind ?_
        refine .pure ⟨[], wild, .refl ends, .nil, rfl, ?_⟩
        rintro _ ⟨⟩ isPart
        exact noPart isPart

theorem readConstantName_meets (words : List Word) (ends : Sealed words) :
    readConstantName.Meets words
      (fun text rest => ∃ first parts wild final, Consumes words (first :: parts) rest ∧
        first.kind = partKind wild ∧ NameTail wild parts final ∧
        text = nameText (first :: parts) ∧ (Ending.part final).Apart rest) True := by
  refine .bind .remaining ?_
  rintro bound _ ⟨enough, rfl⟩
  obtain ⟨word, rest, rfl⟩ := ends.exists_cons
  refine (Returns.isAt _).bind ?_
  by_cases isName : word.kind = .identifier
  · have restEnds : Sealed rest := ends.tail (by rw [isName]; decide)
    rw [if_pos (decide_eq_true isName)]
    refine (Returns.consume isName restEnds.ne_nil).bind ?_
    refine .bind (readNameParts_meets bound false rest restEnds
      (by simp only [List.length_cons] at enough; omega)) ?_
    rintro _ after ⟨used, final, consumes, others, rfl, stopped⟩
    refine .pure ⟨word, used, false, final, .cons (by rw [isName]; decide) restEnds consumes,
      isName, others, ?_, stopped⟩
    rw [nameText, Word.partText, if_pos isName]
  · rw [if_neg (by simpa using isName)]
    refine .bind (Meets.accept ends (by decide)) ?_
    rintro _ _ (⟨rfl, restEnds, _, isWild, eq⟩ | ⟨rfl, rfl, -⟩)
    · obtain ⟨rfl, rfl⟩ := List.cons.inj eq
      rw [if_pos rfl]
      refine .bind (readNameParts_meets bound true rest restEnds
        (by simp only [List.length_cons] at enough; omega)) ?_
      rintro _ after ⟨used, final, consumes, others, rfl, stopped⟩
      refine .pure ⟨word, used, true, final, .cons (by rw [isWild]; decide) restEnds consumes,
        isWild, others, ?_, stopped⟩
      rw [nameText, Word.partText, if_neg isName]
    · rw [if_neg (by decide)]
      exact Rejects.expecting.meets

/-- A parser that reads spellings of constant expressions only. -/
def Sound (nested : Parser ConstExpr) : Prop :=
  ∀ words, Sealed words →
    nested.Meets words (fun expr rest => Took (ConstPhrase.expr expr).Spelled words rest) True

theorem readItem_meets {nested : Parser ConstExpr} (sound : Sound nested) (words : List Word)
    (ends : Sealed words) :
    (readItem nested).Meets words
      (fun item rest => Took (ConstPhrase.item item).Spelled words rest) True := by
  refine .bind .mark ?_
  rintro start _ rfl
  refine .bind (sound _ ends) ?_
  rintro first rest ⟨used, ending, consumes, isSpelled, apart⟩
  refine .bind (Meets.accept consumes.ends (by decide)) ?_
  rintro _ _ (⟨rfl, afterEnds, arrow, isArrow, rfl⟩ | ⟨rfl, rfl, -⟩)
  · rw [if_pos rfl]
    refine .bind (sound _ afterEnds) ?_
    rintro value after ⟨used', ending', consumes', isSpelled', apart'⟩
    refine .bind (.positionsSince start) ?_
    rintro attributes _ rfl
    refine .pure ⟨_, ending', consumes.trans (.cons ?_ afterEnds consumes'),
      .entry isSpelled isArrow isSpelled', apart'⟩
    rw [isArrow]
    decide
  · rw [if_neg (by decide)]
    refine .bind (.positionsSince start) ?_
    rintro attributes _ rfl
    exact .pure ⟨used, ending, consumes, .value isSpelled, apart⟩

/-- Further entries of an array and the bracket behind them. -/
def TailListed (close : TokenKind) (parts : List (List Word)) (words : List Word) : Prop :=
  ∃ body word, words = body ++ [word] ∧ Further parts body ∧ word.kind = close

/-- A round takes a comma and an item, or the bracket with or without a comma. -/
theorem nextItem_meets {nested : Parser ConstExpr} (sound : Sound nested) {close : TokenKind}
    (isBracket : close ≠ .finish ∧ close ≠ .lineBreak) (ends : Sealed words) :
    (nextItem nested close).Meets words
      (fun found rest =>
        match found with
        | some item => TookNext (fun item => (ConstPhrase.item item).Spelled)
            (fun word => word.kind = .comma) words item rest
        | none => TookLast (fun _ => TailListed close []) words () rest) True := by
  have notBreak : ∀ {word : Word}, word.kind = close → word.kind ≠ .lineBreak := by
    rintro word rfl
    exact isBracket.2
  have notBreakComma : ∀ {word : Word}, word.kind = .comma → word.kind ≠ .lineBreak := by
    intro word isComma
    rw [isComma]
    decide
  refine .bind (Meets.accept ends (by decide)) ?_
  rintro _ _ (⟨rfl, afterEnds, comma, isComma, rfl⟩ | ⟨rfl, rfl, -⟩)
  · rw [if_pos rfl]
    refine .bind (Meets.accept afterEnds isBracket.1) ?_
    rintro _ rest (⟨rfl, restEnds, word, isClose, rfl⟩ | ⟨rfl, rfl, -⟩)
    · rw [if_pos rfl]
      exact .pure ⟨_, .cons (notBreakComma isComma) afterEnds
        (.single (notBreak isClose) restEnds), [comma], word, rfl, .comma isComma, isClose⟩
    · rw [if_neg (by decide)]
      refine .bind (readItem_meets sound _ afterEnds) ?_
      rintro item rest ⟨used, ending, consumes, isSpelled, -⟩
      exact .pure ⟨comma, used, ending, isComma,
        .cons (notBreakComma isComma) afterEnds consumes, isSpelled⟩
  · rw [if_neg (by decide)]
    refine .bind (Meets.consume ends isBracket.1) ?_
    rintro text rest ⟨restEnds, word, isClose, -, rfl⟩
    exact .pure ⟨[word], .single (notBreak isClose) restEnds, [], word, rfl, .done, isClose⟩

theorem readItems_meets {nested : Parser ConstExpr} (sound : Sound nested) {close : TokenKind}
    (isBracket : close ≠ .finish ∧ close ≠ .lineBreak) (words : List Word)
    (ends : Sealed words) :
    (readItems nested close).Meets words
      (fun items rest => ∃ (slots : List (Slot ConstItem)) (used : List Word),
        slots.map Slot.value = items ∧
        (∀ slot ∈ slots, (ConstPhrase.item slot.value).Spelled slot.words slot.ending) ∧
        Listed close (slots.map Slot.words) used ∧ Consumes words used rest) True := by
  refine .bind (Meets.accept ends isBracket.1) ?_
  rintro _ rest (⟨rfl, restEnds, word, isClose, rfl⟩ | ⟨rfl, rfl, -⟩)
  · rw [if_pos rfl]
    have notBreak : word.kind ≠ .lineBreak := by
      rw [isClose]
      exact isBracket.2
    exact .pure ⟨[], [word], rfl, by simp, .none isClose, .single notBreak restEnds⟩
  · rw [if_neg (by decide)]
    refine .bind (readItem_meets sound _ ends) ?_
    rintro first middle ⟨used, ending, consumes, isSpelled, -⟩
    refine .bind (Meets.many_slots (fun item => (ConstPhrase.item item).Spelled)
      (fun word => word.kind = .comma) (TailListed close []) (TailListed close) consumes.ends
      (fun words ends => (nextItem_meets sound isBracket ends).mono ?_ id)
      (fun tail isTail => isTail) ?_) ?_
    · rintro (- | item) rest took <;> exact took
    · rintro part parts comma _ isComma ⟨body, word, rfl, further, isClose⟩
      exact ⟨comma :: part ++ body, word, by simp, .more isComma further, isClose⟩
    · rintro _ rest ⟨slots, _, rfl, areSpelled, consumesTail, body, word, rfl, further, isClose⟩
      refine .pure ⟨⟨first, used, ending⟩ :: slots, used ++ body ++ [word], rfl, ?_,
        .some further isClose, ?_⟩
      · simpa using ⟨isSpelled, areSpelled⟩
      · rw [List.append_assoc]
        exact consumes.trans consumesTail

/-- Whatever its attributes will be, the form is spelled from `words` up to `rest`. -/
def TookForm (form : ConstForm) : List Word → List Word → Prop :=
  Took fun used ending => ∀ attributes, (ConstPhrase.expr ⟨form, attributes⟩).Spelled used ending

theorem tookForm_single {form : ConstForm} {word : Word} {rest : List Word} {ending : Ending}
    (isSolid : word.kind ≠ .lineBreak) (restEnds : Sealed rest)
    (isSpelled : ∀ attributes, (ConstPhrase.expr ⟨form, attributes⟩).Spelled [word] ending)
    (apart : ending.Apart rest) :
    TookForm form (word :: rest) rest :=
  ⟨[word], ending, .single isSolid restEnds, isSpelled, apart⟩

theorem readNamed_meets {nested : Parser ConstExpr} (sound : Sound nested) {word : Word}
    {rest : List Word} (isName : word.kind = .identifier) (ends : Sealed (word :: rest)) :
    (readNamed nested).Meets (word :: rest)
      (fun form after => TookForm form (word :: rest) after) True := by
  have restEnds : Sealed rest := ends.tail (by rw [isName]; decide)
  have isSolid : word.kind ≠ .lineBreak := by rw [isName]; decide
  have single {kind : LiteralKind} (isKeyword : keyword? word.text = some kind) :
      TookForm (.literal kind word.text) (word :: rest) rest :=
    tookForm_single isSolid restEnds (fun _ => .keyword isName isKeyword) trivial
  refine (Returns.consume isName restEnds.ne_nil).bind ?_
  refine .bind (Meets.accept restEnds (by decide)) ?_
  rintro _ rest (⟨rfl, afterEnds, colons, isColons, rfl⟩ | ⟨rfl, rfl, -⟩)
  · rw [if_pos rfl]
    refine .bind (readConstantName_meets _ afterEnds) ?_
    rintro _ after ⟨first, parts, wild, final, consumes, isPart, others, rfl, apart⟩
    refine .pure ⟨_, .part final, .cons isSolid restEnds (.cons ?_ afterEnds consumes),
      fun _ => .classConstant isName isColons isPart others, apart⟩
    rw [isColons]
    decide
  · simp only [Bool.false_eq_true, if_false]
    split
    · next isTrue => exact .pure (single (by rw [keyword?, if_pos isTrue]))
    split
    · next notTrue isFalse =>
        exact .pure (single (by rw [keyword?, if_neg notTrue, if_pos isFalse]))
    split
    · next notTrue notFalse isNull =>
        exact .pure (single (by rw [keyword?, if_neg notTrue, if_neg notFalse, if_pos isNull]))
    next notTrue notFalse notNull =>
    have constant : TookForm (.fetch none word.text) (word :: rest) rest :=
      tookForm_single isSolid restEnds (fun _ => .constant isName
        (by rw [keyword?, if_neg notTrue, if_neg notFalse, if_neg notNull])) trivial
    split
    · next isArray =>
        refine .bind (Meets.accept restEnds (by decide)) ?_
        rintro _ _ (⟨rfl, afterEnds, paren, isOpen, rfl⟩ | ⟨rfl, rfl, -⟩)
        · rw [if_pos rfl]
          refine .bind (readItems_meets sound (by decide) _ afterEnds) ?_
          rintro _ after ⟨slots, used, rfl, areSpelled, listed, consumes⟩
          refine .pure ⟨_, .closed, .cons isSolid restEnds (.cons ?_ afterEnds consumes),
            fun _ => .longArray isName isArray isOpen areSpelled listed, trivial⟩
          rw [isOpen]
          decide
        · rw [if_neg (by decide)]
          exact .pure constant
    · exact .pure constant

theorem readForm_meets {nested : Parser ConstExpr} (sound : Sound nested) (words : List Word)
    (ends : Sealed words) :
    (readForm nested).Meets words (fun form rest => TookForm form words rest) True := by
  obtain ⟨word, rest, rfl⟩ := ends.exists_cons
  have literal {kind : TokenKind} (isKind : word.kind = kind) (solidKind : kind ≠ .finish ∧
      kind ≠ .lineBreak) {literalKind : LiteralKind}
      (isSpelled : ∀ attributes, (ConstPhrase.expr
        ⟨.literal literalKind word.text, attributes⟩).Spelled [word] .closed) :
      (consume kind >>= fun lexeme => pure (ConstForm.literal literalKind lexeme)).Meets
        (word :: rest) (fun form after => TookForm form (word :: rest) after) True := by
    have restEnds : Sealed rest := ends.tail (by rw [isKind]; exact solidKind.1)
    refine (Returns.consume isKind restEnds.ne_nil).bind ?_
    exact .pure (tookForm_single (by rw [isKind]; exact solidKind.2) restEnds isSpelled trivial)
  refine .bind .current ?_
  rintro token _ ⟨sameKind, -, rfl⟩
  rw [sameKind]
  unfold readFormAt
  split
  · next isKind => exact literal isKind (by decide) fun _ => .integer isKind
  · next isKind => exact literal isKind (by decide) fun _ => .float isKind
  · next isKind => exact literal isKind (by decide) fun _ => .string (.inl isKind)
  · next isKind => exact literal isKind (by decide) fun _ => .string (.inr isKind)
  · next isMinus =>
      have restEnds : Sealed rest := ends.tail (by rw [isMinus]; decide)
      refine (Returns.advance restEnds.ne_nil).bind ?_
      refine .bind (sound _ restEnds) ?_
      rintro operand after ⟨used, ending, consumes, isSpelled, apart⟩
      refine .pure ⟨_, ending, .cons ?_ restEnds consumes, fun _ => .minus isMinus isSpelled,
        apart⟩
      rw [isMinus]
      decide
  · next isOpen =>
      have restEnds : Sealed rest := ends.tail (by rw [isOpen]; decide)
      refine (Returns.advance restEnds.ne_nil).bind ?_
      refine .bind (readItems_meets sound (by decide) _ restEnds) ?_
      rintro _ after ⟨slots, used, rfl, areSpelled, listed, consumes⟩
      refine .pure ⟨_, .closed, .cons ?_ restEnds consumes,
        fun _ => .bracketed isOpen areSpelled listed, trivial⟩
      rw [isOpen]
      decide
  · next isName => exact readNamed_meets sound isName ends
  · exact Rejects.expecting.meets

/-- Whatever is read as a constant expression is a spelling of it. -/
theorem parserWithin_sound (depth : Nat) : Sound (parserWithin depth) := by
  induction depth with
  | zero => exact fun _ _ => Rejects.expecting.meets
  | succ depth induction =>
      intro words ends
      refine .bind .mark ?_
      rintro start _ rfl
      refine .bind (readForm_meets induction _ ends) ?_
      rintro form rest ⟨used, ending, consumes, isSpelled, apart⟩
      refine .bind (.positionsSince start) ?_
      rintro attributes _ rfl
      exact .pure ⟨used, ending, consumes, isSpelled attributes, apart⟩

theorem parser_sound : Sound parser := by
  intro words ends
  refine .bind .remaining ?_
  rintro bound _ ⟨-, rfl⟩
  exact parserWithin_sound _ _ ends

/-- In front of a double colon an identifier is the class of a constant. -/
theorem parser_classConstant {word colons : Word} {rest : List Word}
    (isName : word.kind = .identifier) (isColons : colons.kind = .doubleColon)
    (ends : Sealed (word :: colons :: rest)) :
    parser.Meets (word :: colons :: rest)
      (fun expr after => ∃ used ending, Consumes (word :: colons :: rest)
        (word :: colons :: used) after ∧
        (ConstPhrase.expr expr).Spelled (word :: colons :: used) ending ∧
        ending.Apart after) True := by
  have colonsEnds : Sealed (colons :: rest) := ends.tail (by rw [isName]; decide)
  have restEnds : Sealed rest := colonsEnds.tail (by rw [isColons]; decide)
  refine .bind .remaining ?_
  rintro bound _ ⟨-, rfl⟩
  refine .bind .mark ?_
  rintro start _ rfl
  refine .bind (.bind .current ?_ : (readForm _).Meets _ (fun form after =>
    ∃ used ending, Consumes (word :: colons :: rest) (word :: colons :: used) after ∧
      (∀ attributes, (ConstPhrase.expr ⟨form, attributes⟩).Spelled
        (word :: colons :: used) ending) ∧ ending.Apart after) True) ?_
  · rintro token _ ⟨sameKind, -, rfl⟩
    rw [sameKind, isName]
    refine (Returns.consume isName colonsEnds.ne_nil).bind ?_
    refine (Returns.accept_yes isColons restEnds.ne_nil).bind ?_
    rw [if_pos rfl]
    refine .bind (readConstantName_meets _ restEnds) ?_
    rintro _ after ⟨first, parts, wild, final, consumes, isPart, others, rfl, apart⟩
    refine .pure ⟨first :: parts, .part final, .cons (by rw [isName]; decide) colonsEnds
      (.cons (by rw [isColons]; decide) restEnds consumes),
      fun _ => .classConstant isName isColons isPart others, apart⟩
  · rintro form after ⟨used, ending, consumes, isSpelled, apart⟩
    refine .bind (.positionsSince start) ?_
    rintro attributes _ rfl
    exact .pure ⟨used, ending, consumes, isSpelled attributes, apart⟩

end ConstExpr

end Docblock
