import Docblock.Proofs.ConstExpr.Spelling
import Docblock.Proofs.Scanning

/-!
# Printed constant expressions

The printed form of a constant expression is cut into words that spell the
expression, wherever it stands.
-/

namespace Docblock

open Text

/-- The printed form of a part of a constant expression. -/
def ConstPhrase.print : ConstPhrase → String
  | .expr value => value.print
  | .item entry => entry.print

theorem ConstItem.printAll_eq_map (items : List ConstItem) :
    ConstItem.printAll items = items.map ConstItem.print := by
  induction items with
  | nil => rw [ConstItem.printAll, List.map_nil]
  | cons item items induction => rw [ConstItem.printAll, induction, List.map_cons]

theorem Delimited.nil : Delimited [] := by simp [Delimited]

/-- The first lexeme of a text whose first word does not follow a blank. -/
theorem Cut.first {follows : List Char → Prop} {text : List Char} {kind : TokenKind}
    {value : String} {more : List Word}
    (cut : Cut follows false text (⟨false, kind, value⟩ :: more)) (ended : follows []) :
    ∃ char chars, text = char :: chars ∧ ∀ after rest, follows after →
      Scanned false after rest → ∃ extra, Lexeme.first char (chars ++ after) = ⟨kind, extra⟩ := by
  cases text with
  | nil => cases cut [] [] ended .done
  | cons char chars =>
      refine ⟨char, chars, rfl, ?_⟩
      intro after rest following others
      obtain ⟨-, extra, isFirst, -⟩ := (cut after rest following others).first_eq
      exact ⟨extra, isFirst⟩

namespace Lexeme

/-- The kinds of lexemes with which neither a number nor an ellipsis starts. -/
def startsOtherwise (kind : TokenKind) : Bool :=
  !([.integer, .float, .variadic, .other].contains kind)

theorem kind_first_digit {char : Char} (digit : char.isDigit = true) (rest : List Char) :
    startsOtherwise (first char rest).kind = false := by
  cases found : rule? char rest with
  | none => rw [first, found]; rfl
  | some lexeme =>
      rw [first_of_rule? found]
      rw [rule?_digit digit] at found
      rcases opens_number? found with isKind | isKind <;> rw [isKind] <;> rfl

theorem kind_first_point (rest : List Char) :
    startsOtherwise (first '.' rest).kind = false := by
  cases found : rule? '.' rest with
  | none => rw [first, found]; rfl
  | some lexeme =>
      rw [first_of_rule? found]
      rw [rule?_eq_point?] at found
      unfold point? at found
      split at found
      · cases found
        rfl
      · rcases opens_number? found with isKind | isKind <;> rw [isKind] <;> rfl

/-- No number starts where another lexeme does. -/
theorem scan?_eq_none {char : Char} {rest : List Char}
    (otherwise : startsOtherwise (first char rest).kind = true) (negative : Bool) :
    Number.scan? negative (char :: rest) = none := by
  have notDigit : char.isDigit = false := by
    apply Bool.eq_false_iff.mpr
    intro digit
    rw [kind_first_digit digit] at otherwise
    cases otherwise
  have notPoint : char ≠ '.' := by
    rintro rfl
    rw [kind_first_point] at otherwise
    cases otherwise
  have noDigits : Number.digits Char.isDigit (char :: rest) = 0 := by
    simp [Number.digits, notDigit]
  have noFraction : Number.fraction? (char :: rest) = none := by
    unfold Number.fraction?
    split
    · next isPoint => exact absurd (List.cons.inj isPoint).1 notPoint
    · rfl
  rw [Number.scan?, noDigits, if_pos rfl, noFraction]

theorem first_minus {text : List Char} (noNumber : Number.scan? true text = none) :
    first '-' text = ⟨.minus, 0⟩ := by
  have minus : first '-' text = Lexeme.minus text := rfl
  rw [minus, Lexeme.minus, noNumber]

end Lexeme

theorem IsLexeme.exists_cons {kind : TokenKind} {text : List Char} (isLexeme : IsLexeme kind text)
    (isKnown : kind ≠ .other) :
    ∃ char rest, text = char :: rest ∧ Lexeme.opens kind char = true := by
  obtain ⟨char, rest, rfl, again⟩ := isLexeme
  refine ⟨char, rest, rfl, ?_⟩
  have isFirst := again [] .nil
  cases found : Lexeme.rule? char (rest ++ []) with
  | none =>
      rw [Lexeme.first, found] at isFirst
      exact absurd (congrArg Lexeme.kind isFirst).symm isKnown
  | some lexeme =>
      have opened := Lexeme.opens_of_rule? found
      rwa [← Lexeme.first_of_rule? found, isFirst] at opened

section ClassConstant

variable {wild final : Bool} {word : Word} {parts : List Word} {after : List Char}

/-- What may follow a part of the name of a class constant. -/
def PartFollows (wild : Bool) (after : List Char) : Prop :=
  if wild then after.head? ≠ some '/' else Delimited after

theorem Word.Lexical.identifier (lexical : word.Lexical) (isName : word.kind = .identifier) :
    IsLexeme .identifier word.text.toList := by
  have isLexeme := lexical (.inl (by rw [isName]; rfl))
  rwa [isName] at isLexeme

theorem Word.partText_identifier (isName : word.kind = .identifier) :
    word.partText = word.text :=
  if_pos isName

theorem Word.partText_wildcard (isWild : word.kind = .wildcard) : word.partText = "*" :=
  if_neg (by rw [isWild]; decide)

theorem NameTail.partFollows (others : NameTail wild parts final)
    (lexical : ∀ word ∈ parts, word.Lexical) (delimited : Delimited after) :
    PartFollows wild ((nameText parts).toList ++ after) := by
  cases others with
  | nil =>
      cases wild with
      | false => exact delimited
      | true =>
          intro isSlash
          exact absurd (delimited '/' isSlash) (by decide)
  | @cons _ _ word rest isPart glued others =>
      rw [nameText, String.toList_append]
      cases wild with
      | false =>
          rw [Word.partText_wildcard isPart]
          exact Delimited.cons (show '*' ∈ Lexeme.delimiters by decide)
      | true =>
          have isLexeme := (lexical word List.mem_cons_self).identifier isPart
          obtain ⟨char, chars, isText, opened⟩ := isLexeme.exists_cons (by decide)
          rw [Word.partText_identifier isPart, isText]
          intro isSlash
          obtain rfl : char = '/' := by simpa using isSlash
          exact absurd opened (by decide)

/-- A part of a name is cut off as one word. -/
theorem exists_part (isPart : word.kind = partKind wild) (lexical : word.Lexical) :
    ∃ value, (⟨false, partKind wild, value⟩ : Word).partText = word.partText ∧
      Cut (PartFollows wild) false word.partText.toList [⟨false, partKind wild, value⟩] := by
  cases wild with
  | false =>
      refine ⟨word.text, (Word.partText_identifier isPart).symm, ?_⟩
      intro after rest delimited others
      have scanned : Scanned false (word.text.toList ++ after) _ :=
        (lexical.identifier isPart).scanned (by decide) delimited others
      rw [String.ofList_toList] at scanned
      rw [Word.partText_identifier isPart]
      exact scanned
  | true =>
      refine ⟨"*", (Word.partText_wildcard isPart).symm, ?_⟩
      intro after rest notSlash others
      have cut : Lexeme.first '*' after = ⟨.wildcard, 0⟩ :=
        Lexeme.first_of_rule? (if_neg notSlash)
      rw [Word.partText_wildcard isPart]
      exact .mark cut (by decide) others

/-- The further parts of a name are cut off as before, without blanks between them. -/
theorem NameTail.exists_cut (others : NameTail wild parts final)
    (lexical : ∀ word ∈ parts, word.Lexical) :
    ∃ words, NameTail wild words final ∧ nameText words = nameText parts ∧
      Cut Delimited false (nameText parts).toList words := by
  induction others with
  | nil => exact ⟨[], .nil, rfl, Cut.nil _⟩
  | @cons wild final word rest isPart glued others induction =>
      have restLexical : ∀ word ∈ rest, word.Lexical :=
        fun later isLater => lexical later (List.mem_cons_of_mem _ isLater)
      obtain ⟨value, isText, cut⟩ := exists_part isPart (lexical word List.mem_cons_self)
      obtain ⟨words, tail, sameText, restCut⟩ := induction restLexical
      refine ⟨⟨false, partKind (!wild), value⟩ :: words, .cons rfl rfl tail, ?_, ?_⟩
      · rw [nameText, nameText, isText, sameText]
      · intro after rest delimited scanned
        have scannedRest := restCut after rest delimited scanned
        have scannedAll := cut _ _ (others.partFollows restLexical delimited) scannedRest
        rw [nameText, String.toList_append, List.append_assoc]
        exact scannedAll

end ClassConstant

namespace ConstExpr

/-- Only numbers start with a number. -/
theorem startsOtherwise_of_spelled {expr : ConstExpr} {word : Word} {words : List Word}
    {ending : Ending} (isSpelled : (ConstPhrase.expr expr).Spelled (word :: words) ending)
    (notNumber : expr.isNumber = false) : Lexeme.startsOtherwise word.kind = true := by
  cases isSpelled with
  | integer => cases notNumber
  | float => cases notNumber
  | string isQuoted => rcases isQuoted with isKind | isKind <;> rw [isKind] <;> rfl
  | keyword isName => rw [isName]; rfl
  | constant isName => rw [isName]; rfl
  | classConstant isName => rw [isName]; rfl
  | minus isMinus => rw [isMinus]; rfl
  | bracketed isOpen => rw [isOpen]; rfl
  | longArray isName => rw [isName]; rfl

end ConstExpr

theorem Further.mem {parts : List (List Word)} {words part : List Word} {word : Word}
    (further : Further parts words) (isPart : part ∈ parts) (isMember : word ∈ part) :
    word ∈ words := by
  induction further with
  | done => cases isPart
  | comma => cases isPart
  | more isComma others induction =>
      rcases List.mem_cons.mp isPart with rfl | isLater
      · simp [isMember]
      · simp [induction isLater]

theorem Listed.mem {close : TokenKind} {parts : List (List Word)} {words part : List Word}
    {word : Word} (listed : Listed close parts words) (isPart : part ∈ parts)
    (isMember : word ∈ part) : word ∈ words := by
  cases listed with
  | none => cases isPart
  | some further isClose =>
      rcases List.mem_cons.mp isPart with rfl | isLater
      · simp [isMember]
      · simp [further.mem isLater isMember]

/-- What holds of the words of a list holds of the words of its items. -/
theorem Listed.forall_slots {α : Type} {close : TokenKind} {slots : List (Slot α)}
    {words : List Word} {property : Word → Prop}
    (listed : Listed close (slots.map Slot.words) words) (holds : ∀ word ∈ words, property word) :
    ∀ slot ∈ slots, ∀ word ∈ slot.words, property word :=
  fun _ isSlot word isMember => holds word (listed.mem (List.mem_map_of_mem isSlot) isMember)

theorem isLexeme_array : IsLexeme .identifier "array".toList :=
  Lexeme.isLexeme_identifier
    (show Lexeme.rule? 'a' ['r', 'r', 'a', 'y'] = some ⟨.identifier, 4⟩ from rfl)

namespace ConstPhrase

theorem rescans_classConstant {word first : Word} {parts : List Word} {wild final : Bool}
    (attributes : Attributes) (isName : word.kind = .identifier)
    (isPart : first.kind = partKind wild) (others : NameTail wild parts final)
    (lexical : ∀ other ∈ word :: first :: parts, other.Lexical) :
    Rescans Delimited (word.text ++ "::" ++ nameText (first :: parts))
      (Spelled (.expr ⟨.fetch (some word.text) (nameText (first :: parts)), attributes⟩)) := by
  have restLexical : ∀ part ∈ parts, part.Lexical :=
    fun part isMember => lexical part (by simp [isMember])
  have isLexeme := (lexical word (by simp)).identifier isName
  obtain ⟨value, isText, cut⟩ := exists_part isPart (lexical first (by simp))
  obtain ⟨words, tail, sameText, restCut⟩ := others.exists_cut restLexical
  have sameName :
      nameText (⟨false, partKind wild, value⟩ :: words) = nameText (first :: parts) := by
    rw [nameText, nameText, isText, sameText]
  intro gap
  refine ⟨.identifier, word.text,
    ⟨false, .doubleColon, "::"⟩ :: ⟨false, partKind wild, value⟩ :: words, .part final, ?_, ?_⟩
  · intro after rest delimited scanned
    have scannedRest := restCut after rest delimited scanned
    have scannedName := cut _ _ (others.partFollows restLexical delimited) scannedRest
    have scannedColons : Scanned false (':' :: ':' :: _) _ :=
      .doubleMark rfl (by decide) scannedName
    have scannedAll : Scanned gap _ _ :=
      isLexeme.scanned (by decide) (.cons (by decide)) scannedColons
    rw [String.ofList_toList] at scannedAll
    simpa [nameText, List.append_assoc] using scannedAll
  · rw [← sameName]
    exact @Spelled.classConstant ⟨gap, .identifier, word.text⟩ ⟨false, .doubleColon, "::"⟩
      ⟨false, partKind wild, value⟩ words wild final attributes rfl rfl rfl tail

theorem rescans_minus {operand : ConstExpr} (attributes : Attributes)
    (rescans : Rescans Delimited operand.print (Spelled (.expr operand))) :
    Rescans Delimited (ConstForm.minus operand).print
      (Spelled (.expr ⟨.minus operand, attributes⟩)) := by
  intro gap
  cases isNumber : operand.isNumber with
  | true =>
      obtain ⟨kind, value, more, ending, cut, isSpelled⟩ := rescans true
      refine ⟨.minus, "-", _, ending, ?_, .minus rfl isSpelled⟩
      intro after rest delimited scanned
      have noNumber (text : List Char) : Number.scan? true (' ' :: text) = none := rfl
      have scannedAll : Scanned gap ('-' :: ' ' :: _) _ :=
        .mark (Lexeme.first_minus (noNumber _)) (by decide)
          (.space (cut after rest delimited scanned))
      rw [ConstForm.print, isNumber, if_pos rfl]
      simpa using scannedAll
  | false =>
      obtain ⟨kind, value, more, ending, cut, isSpelled⟩ := rescans false
      refine ⟨.minus, "-", _, ending, ?_, .minus rfl isSpelled⟩
      intro after rest delimited scanned
      obtain ⟨char, chars, isText, isFirst⟩ := cut.first .nil
      obtain ⟨extra, isFirst⟩ := isFirst after rest delimited scanned
      have otherwise := ConstExpr.startsOtherwise_of_spelled isSpelled isNumber
      have noNumber : Number.scan? true (char :: (chars ++ after)) = none :=
        Lexeme.scan?_eq_none (by rw [isFirst]; exact otherwise) true
      have scannedOperand := cut after rest delimited scanned
      rw [isText, List.cons_append] at scannedOperand
      have scannedAll : Scanned gap ('-' :: char :: _) _ :=
        .mark (Lexeme.first_minus noNumber) (by decide) scannedOperand
      rw [ConstForm.print, isNumber, if_neg (by decide), String.toList_append, isText]
      exact scannedAll

/-- The entries of an array behind its opening bracket. -/
theorem exists_listed_items {slots : List (Slot ConstItem)} {close : TokenKind} {bracket : Char}
    (each : ∀ slot ∈ slots,
      Rescans Delimited slot.value.print (Spelled (.item slot.value)))
    (isDelimiter : bracket ∈ Lexeme.delimiters)
    (isClose : ∀ after, Lexeme.first bracket after = ⟨close, 0⟩) (solid : close ≠ .blank) :
    ∃ (others : List (Slot ConstItem)) (words : List Word),
      others.map Slot.value = slots.map Slot.value ∧
      (∀ slot ∈ others, Spelled (.item slot.value) slot.words slot.ending) ∧
      Listed close (others.map Slot.words) words ∧
      ∀ after rest, Scanned false after rest → Scanned false
        ((String.intercalate ", " (ConstItem.printAll (slots.map Slot.value))).toList ++
          bracket :: after) (words ++ rest) := by
  rw [ConstItem.printAll_eq_map]
  have eachItem : ∀ item ∈ slots.map Slot.value,
      Rescans Delimited item.print (Spelled (.item item)) := by
    intro item isItem
    obtain ⟨slot, isSlot, rfl⟩ := List.mem_map.mp isItem
    exact each slot isSlot
  exact exists_listed ConstItem.print (fun item => Spelled (.item item)) eachItem
    (fun _ => Delimited.cons (by decide)) (fun _ => Delimited.cons isDelimiter) isClose solid

/-- The printed form of a part of a constant expression is cut into a spelling of it. -/
theorem Spelled.rescans {phrase : ConstPhrase} {words : List Word} {ending : Ending}
    (isSpelled : phrase.Spelled words ending) (lexical : ∀ word ∈ words, word.Lexical) :
    Rescans Delimited phrase.print phrase.Spelled := by
  induction isSpelled with
  | @integer word attributes isKind =>
      have isLexeme := lexical word List.mem_cons_self (.inr (.inl isKind))
      rw [isKind] at isLexeme
      exact isLexeme.rescans (by decide) .closed
        fun gap => @Spelled.integer ⟨gap, .integer, word.text⟩ attributes rfl
  | @float word attributes isKind =>
      have isLexeme := lexical word List.mem_cons_self (.inr (.inr isKind))
      rw [isKind] at isLexeme
      exact isLexeme.rescans (by decide) .closed
        fun gap => @Spelled.float ⟨gap, .float, word.text⟩ attributes rfl
  | @string word attributes isQuoted =>
      have isNamed : Lexeme.isNamed word.kind = true := by
        rcases isQuoted with isKind | isKind <;> rw [isKind] <;> rfl
      have isLexeme := lexical word List.mem_cons_self (.inl isNamed)
      have solid : word.kind ≠ .blank := by
        rcases isQuoted with isKind | isKind <;> rw [isKind] <;> decide
      exact isLexeme.rescans solid .closed
        fun gap => @Spelled.string ⟨gap, word.kind, word.text⟩ attributes isQuoted
  | @keyword word kind attributes isName isKeyword =>
      have isLexeme := (lexical word List.mem_cons_self).identifier isName
      exact isLexeme.rescans (by decide) (.constant word.text)
        fun gap => @Spelled.keyword ⟨gap, .identifier, word.text⟩ kind attributes rfl isKeyword
  | @constant word attributes isName noKeyword =>
      have isLexeme := (lexical word List.mem_cons_self).identifier isName
      exact isLexeme.rescans (by decide) (.constant word.text)
        fun gap => @Spelled.constant ⟨gap, .identifier, word.text⟩ attributes rfl noKeyword
  | @classConstant word colons first parts wild final attributes isName isColons isPart others =>
      exact rescans_classConstant attributes isName isPart others
        fun other isMember => lexical other (by simp at isMember ⊢; tauto)
  | @minus word operand words ending attributes isMinus inner induction =>
      exact rescans_minus attributes
        (induction fun other isMember => lexical other (List.mem_cons_of_mem _ isMember))
  | @bracketed word slots words attributes isOpen each listed induction =>
      have slotsLexical := listed.forall_slots
        fun other isMember => lexical other (List.mem_cons_of_mem _ isMember)
      obtain ⟨others, list, sameItems, areSpelled, listed, scans⟩ := exists_listed_items
        (fun slot isSlot => induction slot isSlot (slotsLexical slot isSlot))
        (show ']' ∈ Lexeme.delimiters by decide) (fun _ => rfl) (by decide)
      intro gap
      refine ⟨.openSquare, "[", list, .closed, ?_, ?_⟩
      · intro after rest _ scanned
        have scannedAll : Scanned gap ('[' :: _) _ :=
          .mark rfl (by decide) (scans after rest scanned)
        simpa [ConstPhrase.print, ConstExpr.print, ConstForm.print] using scannedAll
      · rw [← sameItems]
        exact .bracketed rfl areSpelled listed
  | @longArray word paren slots words attributes isName isArray isOpen each listed induction =>
      have slotsLexical := listed.forall_slots
        fun other isMember => lexical other (by simp [isMember])
      obtain ⟨others, list, sameItems, areSpelled, listed, scans⟩ := exists_listed_items
        (fun slot isSlot => induction slot isSlot (slotsLexical slot isSlot))
        (show ')' ∈ Lexeme.delimiters by decide) (fun _ => rfl) (by decide)
      intro gap
      refine ⟨.identifier, "array", ⟨false, .openParen, "("⟩ :: list, .closed, ?_, ?_⟩
      · intro after rest _ scanned
        have scannedList : Scanned false ('(' :: _) _ :=
          .mark rfl (by decide) (scans after rest scanned)
        have scannedAll : Scanned gap _ _ :=
          isLexeme_array.scanned (by decide) (.cons (by decide)) scannedList
        simpa [ConstPhrase.print, ConstExpr.print, ConstForm.print] using scannedAll
      · rw [← sameItems]
        have isArray : Text.lowercase "array" = "array" := by decide
        exact .longArray rfl isArray rfl areSpelled listed
  | value inner induction =>
      refine (induction lexical).imp fun words ending isSpelled => ⟨ending, .value isSpelled⟩
  | @entry key expr keyWords words keyEnding ending arrow attributes left isArrow right
      leftInduction rightInduction =>
      have leftRescans := leftInduction fun other isMember => lexical other (by simp [isMember])
      have rightRescans := rightInduction fun other isMember => lexical other (by simp [isMember])
      intro gap
      obtain ⟨kind, value, more, keyEnding, keyCut, keySpelled⟩ := leftRescans gap
      obtain ⟨kind', value', more', ending, cut, isSpelled⟩ := rightRescans true
      refine ⟨kind, value, more ++ ⟨true, .doubleArrow, "=>"⟩ :: ⟨true, kind', value'⟩ :: more',
        ending, ?_, .entry keySpelled rfl isSpelled⟩
      intro after rest delimited scanned
      have scannedValue := cut after rest delimited scanned
      have scannedArrow : Scanned true ('=' :: '>' :: ' ' :: _) _ :=
        .doubleMark rfl (by decide) (.space scannedValue)
      have scannedAll := keyCut _ _ (.cons (by decide)) (.space scannedArrow)
      simpa [ConstPhrase.print, ConstItem.print, List.append_assoc] using scannedAll

end ConstPhrase

end Docblock
