import Docblock.Proofs.Lexemes
import Docblock.Proofs.Spelling

/-!
# From text to words

Scanning a text and passing over its blanks gives words.  This file describes the
words of a text without tokens, so that a text can be put together of pieces whose
words are known: a piece is cut into the same words wherever it stands, as long as
what follows it is of the right kind.
-/

namespace Docblock

open Text

/-- The words that scanning cuts off a text; `gap` tells whether a blank stands in front
of it. -/
inductive Scanned : Bool → List Char → List Word → Prop
  | done {gap : Bool} : Scanned gap [] []
  | blank {gap : Bool} {char : Char} {rest : List Char} {extra : Nat} {words : List Word}
      (cut : Lexeme.first char rest = ⟨.blank, extra⟩)
      (others : Scanned true (rest.drop extra) words) : Scanned gap (char :: rest) words
  | word {gap : Bool} {char : Char} {rest : List Char} {kind : TokenKind} {extra : Nat}
      {words : List Word} (cut : Lexeme.first char rest = ⟨kind, extra⟩) (solid : kind ≠ .blank)
      (others : Scanned false (rest.drop extra) words) :
      Scanned gap (char :: rest)
        (⟨gap, kind, String.ofList (char :: rest.take extra)⟩ :: words)

theorem Lexeme.kind_first_ne_finish (char : Char) (rest : List Char) :
    (Lexeme.first char rest).kind ≠ .finish := by
  cases found : Lexeme.rule? char rest with
  | none => simp [Lexeme.first, found]
  | some lexeme =>
      rw [Lexeme.first_of_rule? found]
      intro isFinish
      have opened := Lexeme.opens_of_rule? found
      rw [isFinish] at opened
      cases opened

theorem Lexeme.kind_first_eq_blank {char : Char} {rest : List Char}
    (isKind : (Lexeme.first char rest).kind = .blank) : isBlank char = true := by
  cases found : Lexeme.rule? char rest with
  | none => simp [Lexeme.first, found] at isKind
  | some lexeme =>
      rw [Lexeme.first_of_rule? found] at isKind
      have opened := Lexeme.opens_of_rule? found
      rwa [isKind] at opened

theorem Lexeme.first_blank {char : Char} (blank : isBlank char = true) (rest : List Char) :
    Lexeme.first char rest = ⟨.blank, Lexeme.runLength isBlank rest⟩ := by
  apply Lexeme.first_of_rule?
  unfold Lexeme.rule?
  rw [if_pos blank]

/-- The tokens that scanning cuts off a text have the words of the text. -/
theorem Scanned.solidWords_scanWithin {gap : Bool} {text : List Char} {words : List Word}
    (scanned : Scanned gap text words) (fuel : Nat) (line : UInt32) (enough : text.length ≤ fuel) :
    solidWords gap (scanWithin fuel line text) = words := by
  induction scanned generalizing fuel line with
  | done => cases fuel <;> rfl
  | @blank _ char rest extra _ cut others induction =>
      cases fuel with
      | zero => simp at enough
      | succ fuel =>
          simp only [List.length_cons] at enough
          rw [scanWithin, cut]
          rw [solidWords_blank rfl]
          exact induction fuel _ (by simp; omega)
  | @word _ char rest kind extra _ cut solid others induction =>
      cases fuel with
      | zero => simp at enough
      | succ fuel =>
          simp only [List.length_cons] at enough
          rw [scanWithin, cut]
          rw [solidWords_solid solid, induction fuel _ (by simp; omega)]

theorem head_scanWithin {fuel : Nat} {line : UInt32} {text : List Char} {token : Token}
    (isHead : token ∈ (scanWithin fuel line text).head?) :
    ∃ char rest, text = char :: rest ∧ token.kind = (Lexeme.first char rest).kind := by
  cases fuel with
  | zero => cases isHead
  | succ fuel =>
      cases text with
      | nil => cases isHead
      | cons char rest =>
          obtain rfl := Option.mem_some_iff.mp isHead
          exact ⟨char, rest, rfl, rfl⟩

theorem Lexeme.drop_runLength (keep : Char → Bool) (text : List Char) :
    text.drop (Lexeme.runLength keep text) = text.dropWhile keep := by
  have dropped : (text.takeWhile keep ++ text.dropWhile keep).drop (text.takeWhile keep).length =
      text.dropWhile keep := List.drop_left
  rwa [List.takeWhile_append_dropWhile] at dropped

/-- A blank takes all the blanks that follow it. -/
theorem head_drop_runLength (keep : Char → Bool) (text : List Char) :
    ∀ char ∈ (text.drop (Lexeme.runLength keep text)).head?, keep char = false := by
  intro char isHead
  rw [Lexeme.drop_runLength] at isHead
  have stopped := List.head?_dropWhile_not keep text
  rw [Option.mem_def.mp isHead] at stopped
  exact stopped

theorem singleBlanks_scanWithin (fuel : Nat) (line : UInt32) (text : List Char) :
    SingleBlanks (scanWithin fuel line text) := by
  induction fuel generalizing line text with
  | zero => exact .nil
  | succ fuel induction =>
      cases text with
      | nil => exact .nil
      | cons char rest =>
          rw [scanWithin]
          refine .cons ?_ (induction _ _)
          intro isBlank next isNext nextBlank
          have blank := Lexeme.kind_first_eq_blank isBlank
          rw [Lexeme.first_blank blank] at isNext
          obtain ⟨nextChar, others, isRest, isKind⟩ := head_scanWithin isNext
          have notBlank := head_drop_runLength Text.isBlank rest nextChar (by simp [isRest])
          have isBlank := Lexeme.kind_first_eq_blank (isKind.symm.trans nextBlank)
          rw [notBlank] at isBlank
          cases isBlank

theorem mem_scanWithin {fuel : Nat} {line : UInt32} {text : List Char} {token : Token}
    (isMember : token ∈ scanWithin fuel line text) :
    ∃ char rest, token.kind = (Lexeme.first char rest).kind ∧
      token.value.toList = char :: rest.take (Lexeme.first char rest).extra := by
  induction fuel generalizing line text with
  | zero => cases isMember
  | succ fuel induction =>
      cases text with
      | nil => cases isMember
      | cons char rest =>
          rw [scanWithin] at isMember
          rcases List.mem_cons.mp isMember with rfl | isLater
          · exact ⟨char, rest, rfl, String.toList_ofList⟩
          · exact induction isLater

/-- The tokens of a text are those that scanning cuts off, and the end. -/
theorem exists_tokenize_eq (source : String) :
    ∃ line, tokenize source = scan source.toList ++ [Token.finish line] := by
  rw [tokenize, TokenList.sealed]
  split
  · next isEmpty =>
      rw [List.getLast?_eq_none_iff.mp isEmpty]
      exact ⟨1, rfl⟩
  · next last isLast =>
      have notFinish : last.kind ≠ .finish := by
        obtain ⟨char, rest, isKind, -⟩ := mem_scanWithin (List.mem_of_getLast? isLast)
        rw [isKind]
        exact Lexeme.kind_first_ne_finish char rest
      rw [if_neg notFinish]
      exact ⟨_, rfl⟩

/-- The words that a grammar sees of a text are those that scanning cuts off, and the end. -/
theorem Scanned.words_tokenize {source : String} {words : List Word}
    (scanned : Scanned false source.toList words) :
    ∃ last, last.kind = .finish ∧
      (Cursor.ofTokens (tokenize source)).words = words ++ [last] := by
  obtain ⟨line, isTokenized⟩ := exists_tokenize_eq source
  have isFinish : (Token.finish line).kind = .finish := rfl
  obtain ⟨final, seen⟩ := Cursor.words_ofTokens_concat isFinish
    (singleBlanks_scanWithin source.toList.length 1 source.toList)
  rw [scanned.solidWords_scanWithin _ _ (Nat.le_refl _)] at seen
  exact ⟨_, rfl, by rw [isTokenized]; exact seen⟩

/-- A name, a number or a quoted text is cut off again wherever it stands. -/
def Word.Lexical (word : Word) : Prop :=
  (Lexeme.isNamed word.kind = true ∨ word.kind = .integer ∨ word.kind = .float) →
    IsLexeme word.kind word.text.toList

/-- Every integer and every float among the tokens is a number as numbers are defined. -/
def WellFormedNumbers (tokens : List Token) : Prop :=
  ∀ token ∈ tokens, token.kind = .integer ∨ token.kind = .float →
    Number.WellFormed token.kind token.value.toList

/-- What a token of the text is made of is cut off again, as a word. -/
theorem lexical_of_token {source : String} (numbers : WellFormedNumbers (tokenize source))
    {word : Word} (isWord : ∃ token ∈ tokenize source,
      token.kind = word.kind ∧ token.value = word.text) : word.Lexical := by
  intro literal
  obtain ⟨token, isToken, isKind, isValue⟩ := isWord
  obtain ⟨line, isTokenized⟩ := exists_tokenize_eq source
  rw [← isKind, ← isValue]
  rw [← isKind] at literal
  rcases literal with isNamed | isNumber
  · rw [isTokenized] at isToken
    rcases List.mem_append.mp isToken with isScanned | isLast
    · obtain ⟨char, rest, sameKind, isText⟩ := mem_scanWithin isScanned
      rw [sameKind] at isNamed ⊢
      rw [isText]
      exact Lexeme.isLexeme_first isNamed
    · rw [List.mem_singleton.mp isLast] at isNamed
      cases isNamed
  · exact Lexeme.isLexeme_number (numbers token isToken isNumber)

theorem lexical_of_tokenize {source : String} (numbers : WellFormedNumbers (tokenize source)) :
    ∀ word ∈ (Cursor.ofTokens (tokenize source)).words, word.Lexical := by
  intro word isMember
  obtain ⟨line, isTokenized⟩ := exists_tokenize_eq source
  have alreadySealed : TokenList.sealed (tokenize source) = tokenize source := by
    simp [isTokenized, TokenList.sealed, Token.finish]
  rw [Cursor.words_ofTokens, alreadySealed] at isMember
  exact lexical_of_token numbers (mem_leadingWords isMember)

section Pieces

variable {gap : Bool} {char : Char} {text after : List Char} {words rest : List Word}
  {kind : TokenKind}

/-- A lexeme in front of a delimiter is one word. -/
theorem IsLexeme.scanned (isLexeme : IsLexeme kind text) (solid : kind ≠ .blank)
    (delimited : Delimited after) (others : Scanned false after rest) :
    Scanned gap (text ++ after) (⟨gap, kind, String.ofList text⟩ :: rest) := by
  obtain ⟨char, tail, rfl, again⟩ := isLexeme
  have others : Scanned false ((tail ++ after).drop tail.length) rest := by
    rwa [List.drop_left]
  have scanned : Scanned gap (char :: (tail ++ after)) _ :=
    .word (again after delimited) solid others
  rwa [List.take_left] at scanned

/-- A character that is a lexeme of its own is one word. -/
theorem Scanned.mark (cut : Lexeme.first char after = ⟨kind, 0⟩) (solid : kind ≠ .blank)
    (others : Scanned false after rest) :
    Scanned gap (char :: after) (⟨gap, kind, String.ofList [char]⟩ :: rest) :=
  .word cut solid others

/-- Two characters that are a lexeme together are one word. -/
theorem Scanned.doubleMark {second : Char}
    (cut : Lexeme.first char (second :: after) = ⟨kind, 1⟩) (solid : kind ≠ .blank)
    (others : Scanned false after rest) :
    Scanned gap (char :: second :: after) (⟨gap, kind, String.ofList [char, second]⟩ :: rest) :=
  .word cut solid others

/-- An ellipsis is one word. -/
theorem Scanned.ellipsis (others : Scanned false after rest) :
    Scanned gap ('.' :: '.' :: '.' :: after) (⟨gap, .variadic, "..."⟩ :: rest) := by
  have cut : Lexeme.first '.' ('.' :: '.' :: after) = ⟨.variadic, 2⟩ := rfl
  exact .word cut (by decide) others

/-- A space is passed over, together with the blanks that follow it. -/
theorem Scanned.space (others : Scanned true after rest) : Scanned gap (' ' :: after) rest := by
  have cut := Lexeme.first_blank (show isBlank ' ' = true from rfl) after
  refine .blank cut ?_
  cases others with
  | done => exact .done
  | @blank _ char tail extra _ cutNext others =>
      have blank : isBlank char = true := Lexeme.kind_first_eq_blank (by rw [cutNext])
      rw [Lexeme.first_blank blank] at cutNext
      cases cutNext
      simpa [Lexeme.runLength, blank] using others
  | @word _ char tail kind extra _ cutNext solid others =>
      have notBlank : isBlank char = false := by
        apply Bool.eq_false_iff.mpr
        intro blank
        rw [Lexeme.first_blank blank] at cutNext
        cases cutNext
        exact solid rfl
      simpa [Lexeme.runLength, notBlank] using Scanned.word cutNext solid others

/-- Behind a blank, the first word knows that. -/
theorem Scanned.gap_eq_true {word : Word} (scanned : Scanned true text (word :: rest)) :
    word.gap = true := by
  generalize isGap : true = gap at scanned
  generalize isCons : word :: rest = words at scanned
  induction scanned with
  | done => cases isCons
  | blank _ _ induction => exact (induction rfl isCons).trans isGap
  | word =>
      cases isCons
      rfl

/-- If the first word of a text does not follow a blank, it is the first lexeme. -/
theorem Scanned.first_eq {value : String}
    (scanned : Scanned false (char :: text) (⟨false, kind, value⟩ :: rest)) :
    kind ≠ .blank ∧ ∃ extra, Lexeme.first char text = ⟨kind, extra⟩ ∧
      value = String.ofList (char :: text.take extra) := by
  cases scanned with
  | blank _ others => cases others.gap_eq_true
  | @word _ _ _ _ extra _ cut solid _ => exact ⟨solid, extra, cut, rfl⟩

end Pieces

/-- In front of every text of the right kind, the text is cut into the words. -/
def Cut (follows : List Char → Prop) (gap : Bool) (text : List Char) (words : List Word) : Prop :=
  ∀ after rest, follows after → Scanned false after rest →
    Scanned gap (text ++ after) (words ++ rest)

/-- The text is cut into the words of a spelling, whether a blank stands in front of it or
not. -/
def Rescans (follows : List Char → Prop) (text : String)
    (spelled : List Word → Ending → Prop) : Prop :=
  ∀ gap, ∃ kind value more ending, Cut follows gap text.toList (⟨gap, kind, value⟩ :: more) ∧
    spelled (⟨gap, kind, value⟩ :: more) ending

theorem Rescans.imp {follows : List Char → Prop} {text : String}
    {spelled spelled' : List Word → Ending → Prop} (rescans : Rescans follows text spelled)
    (implies : ∀ words ending, spelled words ending → ∃ ending', spelled' words ending') :
    Rescans follows text spelled' := by
  intro gap
  obtain ⟨kind, value, more, ending, cut, isSpelled⟩ := rescans gap
  obtain ⟨ending', isSpelled'⟩ := implies _ _ isSpelled
  exact ⟨kind, value, more, ending', cut, isSpelled'⟩

/-- A lexeme is cut into one word. -/
theorem IsLexeme.cut {kind : TokenKind} {text : String} (isLexeme : IsLexeme kind text.toList)
    (solid : kind ≠ .blank) (gap : Bool) : Cut Delimited gap text.toList [⟨gap, kind, text⟩] := by
  intro after rest delimited others
  have scanned : Scanned gap (text.toList ++ after) _ := isLexeme.scanned solid delimited others
  rwa [String.ofList_toList] at scanned

/-- A lexeme alone is cut into a spelling of one word. -/
theorem IsLexeme.rescans {kind : TokenKind} {text : String}
    {spelled : List Word → Ending → Prop} (isLexeme : IsLexeme kind text.toList)
    (solid : kind ≠ .blank) (ending : Ending)
    (isSpelled : ∀ gap, spelled [⟨gap, kind, text⟩] ending) :
    Rescans Delimited text spelled :=
  fun gap => ⟨kind, text, [], ending, isLexeme.cut solid gap, isSpelled gap⟩

theorem Cut.nil (follows : List Char → Prop) : Cut follows false [] [] :=
  fun _ _ _ scanned => scanned

section Separated

variable {α : Type} {spelled : α → List Word → Ending → Prop} {separates : Word → Prop}
  {list : List (List Word) → List Word → Prop} {follows ends : List Char → Prop}

/-- Items behind separators are cut into a list of spellings. -/
theorem exists_separated (print : α → List Char) (items : List α) (final : List Char)
    (each : ∀ item ∈ items, ∃ separator words ending, separates separator ∧
      spelled item words ending ∧ Cut follows false (print item) (separator :: words))
    (itemFollows : ∀ item ∈ items, ∀ after, follows (print item ++ after))
    {tail : List Word} (last : list [] tail) (cut : Cut ends false final tail)
    (finalFollows : ∀ after, ends after → follows (final ++ after))
    (more : ∀ separator part parts tail, separates separator → list parts tail →
      list (part :: parts) (separator :: part ++ tail)) :
    ∃ (slots : List (Slot α)) (words : List Word), slots.map Slot.value = items ∧
      (∀ slot ∈ slots, spelled slot.value slot.words slot.ending) ∧
      list (slots.map Slot.words) words ∧
      Cut ends false (items.flatMap print ++ final) words := by
  induction items with
  | nil => exact ⟨[], tail, rfl, by simp, last, by simpa using cut⟩
  | cons item items induction =>
      obtain ⟨separator, itemWords, ending, isSeparator, isSpelled, itemCut⟩ :=
        each item List.mem_cons_self
      obtain ⟨slots, words, rfl, areSpelled, isList, restCut⟩ :=
        induction (fun later isLater => each later (List.mem_cons_of_mem _ isLater))
          fun later isLater => itemFollows later (List.mem_cons_of_mem _ isLater)
      refine ⟨⟨item, itemWords, ending⟩ :: slots, separator :: itemWords ++ words, rfl,
        by simpa using ⟨isSpelled, areSpelled⟩, more _ _ _ _ isSeparator isList, ?_⟩
      intro after rest isEnd scanned
      have following : follows
          ((slots.map Slot.value).flatMap print ++ final ++ after) := by
        cases slots with
        | nil => exact finalFollows after isEnd
        | cons slot slots =>
            simp only [List.map_cons, List.flatMap_cons, List.append_assoc]
            exact itemFollows slot.value (by simp) _
      have scannedRest := restCut after rest isEnd scanned
      have scannedAll := itemCut _ _ following scannedRest
      simpa [List.append_assoc] using scannedAll

/-- An item behind a comma and a space. -/
theorem Rescans.behindComma {text : String} {spelling : List Word → Ending → Prop}
    (rescans : Rescans follows text spelling) :
    ∃ comma words ending, comma.kind = .comma ∧ spelling words ending ∧
      Cut follows false (',' :: ' ' :: text.toList) (comma :: words) := by
  obtain ⟨kind, value, more, ending, cut, isSpelled⟩ := rescans true
  refine ⟨⟨false, .comma, ","⟩, _, ending, rfl, isSpelled, ?_⟩
  intro after rest following others
  exact .mark rfl (by decide) (.space (cut after rest following others))

theorem toList_intercalate_cons (separator first : String) (others : List String) :
    (String.intercalate separator (first :: others)).toList =
      first.toList ++ others.flatMap fun other => separator.toList ++ other.toList := by
  induction others generalizing first with
  | nil => simp
  | cons next others induction =>
      rw [String.intercalate_cons_cons, String.toList_append, String.toList_append, induction,
        List.flatMap_cons]
      simp

/-- Items with commas between them and the bracket behind them. -/
theorem exists_listed {close : TokenKind} {bracket : Char} (print : α → String)
    (spelled : α → List Word → Ending → Prop) {items : List α}
    (each : ∀ item ∈ items, Rescans follows (print item) (spelled item))
    (commaFollows : ∀ after, follows (',' :: after))
    (bracketFollows : ∀ after, follows (bracket :: after))
    (isClose : ∀ after, Lexeme.first bracket after = ⟨close, 0⟩) (solid : close ≠ .blank) :
    ∃ (slots : List (Slot α)) (words : List Word), slots.map Slot.value = items ∧
      (∀ slot ∈ slots, spelled slot.value slot.words slot.ending) ∧
      Listed close (slots.map Slot.words) words ∧
      ∀ after rest, Scanned false after rest →
        Scanned false ((String.intercalate ", " (items.map print)).toList ++ bracket :: after)
          (words ++ rest) := by
  have closing (after : List Char) (rest : List Word) (scanned : Scanned false after rest) :
      Scanned false (bracket :: after) (⟨false, close, String.ofList [bracket]⟩ :: rest) :=
    .mark (isClose after) solid scanned
  cases items with
  | nil => exact ⟨[], _, rfl, by simp, .none rfl, closing⟩
  | cons item items =>
      obtain ⟨kind, value, more, ending, cut, isSpelled⟩ := each item List.mem_cons_self false
      obtain ⟨slots, words, rfl, areSpelled, further, restCut⟩ :=
        exists_separated (fun item => ',' :: ' ' :: (print item).toList) items []
          (fun later isLater => (each later (List.mem_cons_of_mem _ isLater)).behindComma)
          (fun _ _ _ => commaFollows _) Further.done (Cut.nil follows)
          (fun _ following => following)
          fun separator part parts tail isComma others => .more isComma others
      rw [List.append_nil] at restCut
      refine ⟨⟨item, ⟨false, kind, value⟩ :: more, ending⟩ :: slots,
        ⟨false, kind, value⟩ :: more ++ words ++ [⟨false, close, String.ofList [bracket]⟩], rfl,
        by simpa using ⟨isSpelled, areSpelled⟩, .some further rfl, ?_⟩
      intro after rest scanned
      have scannedItems := restCut _ _ (bracketFollows after) (closing after rest scanned)
      have following : follows (((slots.map Slot.value).flatMap fun item =>
          ',' :: ' ' :: (print item).toList) ++ bracket :: after) := by
        cases slots with
        | nil => exact bracketFollows after
        | cons slot slots => exact commaFollows _
      have scannedAll := cut _ _ following scannedItems
      rw [List.map_cons, toList_intercalate_cons, List.flatMap_map]
      simpa [List.append_assoc] using scannedAll

end Separated

end Docblock
