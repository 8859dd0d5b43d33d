import Docblock.Token.Scan
import Mathlib.Data.List.TakeWhile
import Mathlib.Tactic.Common
import Mathlib.Tactic.IntervalCases

/-!
# Lexemes that are cut again

A lexeme that was cut off a text is cut off again wherever it stands, provided that
what follows it does not continue it.  In printed forms a lexeme is always followed
by one of a few delimiters or by nothing, so it is enough that no delimiter continues
a lexeme.  Numbers are an exception: a malformed number can be cut off in one place
and not in another, so they are described by the expressions that define them.
-/

namespace Docblock

open Text

/-- The characters that can follow a name or a literal in a printed form. -/
def Lexeme.delimiters : List Char :=
  ['|', '&', '[', ']', '(', ')', '<', '>', '\x7b', '\x7d', ',', ' ', '\n', ':', '?', '=', '*']

/-- The text ends here, or a delimiter follows. -/
def Delimited (text : List Char) : Prop := ∀ char ∈ text.head?, char ∈ Lexeme.delimiters

/-- A text behind a space, and nothing for an empty text. -/
def behindSpace (text : String) : List Char := if text = "" then [] else ' ' :: text.toList

theorem Delimited.cons {char : Char} {rest : List Char} (isDelimiter : char ∈ Lexeme.delimiters) :
    Delimited (char :: rest) := by
  simpa [Delimited] using isDelimiter

theorem Delimited.head {P : Char → Prop} [DecidablePred P] {after : List Char}
    (delimited : Delimited after) (holds : Lexeme.delimiters.all fun char => P char) :
    ∀ char ∈ after.head?, P char := by
  intro char isHead
  exact of_decide_eq_true (List.all_eq_true.mp holds char (delimited char isHead))

namespace Number

/-- Digits, with single underscores between them. -/
inductive Run (isDigit : Char → Bool) : List Char → Prop
  | last {char : Char} (digit : isDigit char = true) : Run isDigit [char]
  | more {char : Char} {rest : List Char} (digit : isDigit char = true)
      (others : Run isDigit rest) : Run isDigit (char :: rest)
  | grouped {char : Char} {rest : List Char} (digit : isDigit char = true)
      (others : Run isDigit rest) : Run isDigit (char :: '_' :: rest)

/-- An exponent with its letter. -/
inductive Power : List Char → Prop
  | positive {letter : Char} {digits : List Char} (isLetter : isExponentLetter letter = true)
      (run : Run Char.isDigit digits) : Power (letter :: digits)
  | negative {letter : Char} {digits : List Char} (isLetter : isExponentLetter letter = true)
      (run : Run Char.isDigit digits) : Power (letter :: '-' :: digits)

/-- The numbers without sign, by the kind of their tokens. -/
inductive Unsigned : TokenKind → List Char → Prop
  | decimal {digits : List Char} (run : Run Char.isDigit digits) : Unsigned .integer digits
  | binary {letter : Char} {digits : List Char} (isLetter : letter = 'b' ∨ letter = 'B')
      (run : Run isBinaryDigit digits) : Unsigned .integer ('0' :: letter :: digits)
  | octal {letter : Char} {digits : List Char} (isLetter : letter = 'o' ∨ letter = 'O')
      (run : Run isOctalDigit digits) : Unsigned .integer ('0' :: letter :: digits)
  | hexadecimal {letter : Char} {digits : List Char} (isLetter : letter = 'x' ∨ letter = 'X')
      (run : Run isHexDigit digits) : Unsigned .integer ('0' :: letter :: digits)
  | pointed {whole decimals power : List Char} (ofWhole : Run Char.isDigit whole)
      (ofDecimals : decimals = [] ∨ Run Char.isDigit decimals)
      (ofPower : power = [] ∨ Power power) :
      Unsigned .float (whole ++ '.' :: (decimals ++ power))
  | fraction {decimals power : List Char} (ofDecimals : Run Char.isDigit decimals)
      (ofPower : power = [] ∨ Power power) : Unsigned .float ('.' :: (decimals ++ power))
  | scaled {whole power : List Char} (ofWhole : Run Char.isDigit whole) (ofPower : Power power) :
      Unsigned .float (whole ++ power)

/-- The expressions that define numbers: at most one minus sign and a number without sign. -/
inductive WellFormed : TokenKind → List Char → Prop
  | unsigned {kind : TokenKind} {text : List Char} (number : Unsigned kind text) :
      WellFormed kind text
  | negative {kind : TokenKind} {text : List Char} (number : Unsigned kind text) :
      WellFormed kind ('-' :: text)

variable {isDigit : Char → Bool} {text after power : List Char}

theorem Run.ne_nil (run : Run isDigit text) : text ≠ [] := by
  cases run <;> simp

theorem Run.exists_cons (run : Run isDigit text) :
    ∃ char rest, text = char :: rest ∧ isDigit char = true := by
  cases run with
  | last digit => exact ⟨_, _, rfl, digit⟩
  | more digit => exact ⟨_, _, rfl, digit⟩
  | grouped digit => exact ⟨_, _, rfl, digit⟩

/-- No digits go on at the start of the text. -/
def Halts (isDigit : Char → Bool) (after : List Char) : Prop :=
  ∀ char ∈ after.head?, isDigit char = false ∧ char ≠ '_'

theorem moreDigits_digit {char : Char} (digit : isDigit char = true) (rest : List Char) :
    moreDigits isDigit (char :: rest) = moreDigits isDigit rest + 1 := by
  rw [moreDigits.eq_def]
  exact if_pos digit

theorem moreDigits_grouped {char : Char} (apart : isDigit '_' = false)
    (digit : isDigit char = true) (rest : List Char) :
    moreDigits isDigit ('_' :: char :: rest) = moreDigits isDigit (char :: rest) + 1 := by
  rw [moreDigits_digit digit]
  simp [moreDigits, apart, digit]

theorem moreDigits_eq_zero (halts : Halts isDigit after) : moreDigits isDigit after = 0 := by
  cases after with
  | nil => rfl
  | cons char rest =>
      have notDigit := halts char (by simp)
      rw [moreDigits.eq_def]
      simp [notDigit]

theorem Run.moreDigits_append (run : Run isDigit text) (apart : isDigit '_' = false)
    (halts : Halts isDigit after) :
    moreDigits isDigit (text ++ after) = text.length := by
  induction run with
  | @last char digit =>
      rw [List.cons_append, List.nil_append, moreDigits_digit digit,
        moreDigits_eq_zero halts, List.length_singleton]
  | more digit others induction =>
      rw [List.cons_append, moreDigits_digit digit, induction, List.length_cons]
  | grouped digit others induction =>
      obtain ⟨next, rest, rfl, nextDigit⟩ := others.exists_cons
      rw [List.cons_append, List.cons_append, moreDigits_digit digit, List.cons_append,
        moreDigits_grouped apart nextDigit, ← List.cons_append, induction]
      simp

theorem Run.digits_append (run : Run isDigit text) (apart : isDigit '_' = false)
    (halts : Halts isDigit after) :
    digits isDigit (text ++ after) = text.length := by
  have length := run.moreDigits_append apart halts
  obtain ⟨char, rest, rfl, digit⟩ := run.exists_cons
  rw [← length, List.cons_append, digits, if_pos digit, moreDigits_digit digit]

theorem digits_eq_zero (halts : Halts isDigit after) : digits isDigit after = 0 := by
  cases after with
  | nil => rfl
  | cons char rest =>
      have notDigit := halts char (by simp)
      simp [digits, notDigit]

theorem Halts.of_delimited (delimited : Delimited after)
    (apart : Lexeme.delimiters.all fun char => isDigit char = false ∧ char ≠ '_') :
    Halts isDigit after :=
  delimited.head apart

theorem Halts.cons {char : Char} {rest : List Char} (notDigit : isDigit char = false)
    (notMark : char ≠ '_') : Halts isDigit (char :: rest) := by
  simpa [Halts] using ⟨notDigit, notMark⟩

theorem eq_of_isExponentLetter {letter : Char} (isLetter : isExponentLetter letter = true) :
    letter = 'e' ∨ letter = 'E' := by
  simpa [isExponentLetter] using isLetter

theorem Power.exists_cons (ofPower : Power power) :
    ∃ letter rest, power = letter :: rest ∧ isExponentLetter letter = true := by
  cases ofPower with
  | positive isLetter => exact ⟨_, _, rfl, isLetter⟩
  | negative isLetter => exact ⟨_, _, rfl, isLetter⟩

theorem exponent_append (ofPower : Power power) (halts : Halts Char.isDigit after) :
    exponent (power ++ after) = power.length := by
  cases ofPower with
  | @positive letter digits isLetter run =>
      have length := run.digits_append (by decide) halts
      obtain ⟨char, rest, rfl, digit⟩ := run.exists_cons
      have notSign : char ≠ '-' := by
        rintro rfl
        exact absurd digit (by decide)
      rw [List.cons_append] at length
      rw [List.cons_append, List.cons_append, exponent.eq_def]
      simp [isLetter, notSign, length, marked]
      omega
  | @negative letter digits isLetter run =>
      have length := run.digits_append (by decide) halts
      have some : digits.length ≠ 0 := by simpa using run.ne_nil
      rw [List.cons_append, List.cons_append, exponent.eq_def]
      simp [isLetter, length, marked, some]
      omega

theorem exponent_eq_zero (stops : ∀ char ∈ after.head?, isExponentLetter char = false) :
    exponent after = 0 := by
  cases after with
  | nil => rfl
  | cons char rest =>
      have notLetter := stops char (by simp)
      rw [exponent.eq_def]
      simp [notLetter]

theorem radix_eq_zero (stops : ∀ char ∈ after.head?, char ∉ ['b', 'B', 'o', 'O', 'x', 'X']) :
    radix after = 0 := by
  cases after with
  | nil => rfl
  | cons char rest =>
      have notLetter := stops char (by simp)
      simp only [List.mem_cons, List.not_mem_nil, or_false, not_or] at notLetter
      simp [radix, notLetter]

theorem fraction?_kind {text : List Char} {found : TokenKind × Nat}
    (isFound : fraction? text = some found) : found.1 = .float := by
  unfold fraction? at isFound
  split at isFound
  · simp only at isFound
    split at isFound
    · cases isFound
    · cases isFound
      rfl
  · cases isFound

theorem afterWhole_kind (cut : TokenKind) (whole : Nat) (text : List Char) :
    (afterWhole cut whole text).1 ∈ [TokenKind.integer, .float, cut] := by
  unfold afterWhole
  split
  · simp
  · simp only
    split_ifs <;> simp

theorem scan?_kind {negative : Bool} {text : List Char} {found : TokenKind × Nat}
    (isFound : scan? negative text = some found) :
    found.1 = .integer ∨ found.1 = .float ∨ (negative = true ∧ found.1 = .minus) := by
  unfold scan? at isFound
  simp only at isFound
  split at isFound
  · exact .inr (.inl (fraction?_kind isFound))
  · split at isFound
    · cases isFound
      exact .inl rfl
    · have isKind := afterWhole_kind
        (if negative = true ∧ text.take (digits Char.isDigit text) = ['0'] then .minus
          else .integer)
        (digits Char.isDigit text) (text.drop (digits Char.isDigit text))
      cases isFound
      simp only [List.mem_cons, List.not_mem_nil, or_false] at isKind
      rcases isKind with isInteger | isFloat | isCut
      · exact .inl isInteger
      · exact .inr (.inl isFloat)
      · rw [isCut]
        split
        · next isZero => exact .inr (.inr ⟨isZero.1, rfl⟩)
        · exact .inl rfl

/-- A whole part is followed by what the rest of a number makes of it. -/
theorem scan?_whole {whole rest : List Char} (negative : Bool) (ofWhole : Run Char.isDigit whole)
    (halts : Halts Char.isDigit rest)
    (noRadix : ∀ char ∈ rest.head?, char ∉ ['b', 'B', 'o', 'O', 'x', 'X']) :
    ∃ cut, scan? negative (whole ++ rest) = some (afterWhole cut whole.length rest) := by
  have length := ofWhole.digits_append (by decide) halts
  have some : whole.length ≠ 0 := by simpa using ofWhole.ne_nil
  refine ⟨if negative = true ∧ whole = ['0'] then .minus else .integer, ?_⟩
  rw [scan?, length, if_neg some, List.take_left, List.drop_left, radix_eq_zero noRadix]
  simp

theorem scan?_radix {letter : Char} {radixDigits : List Char} (negative : Bool)
    (isRadix : ∀ rest, radix (letter :: rest) = marked 1 (digits isDigit rest))
    (notDigit : Char.isDigit letter = false) (notMark : letter ≠ '_')
    (run : Run isDigit radixDigits) (apart : isDigit '_' = false) (halts : Halts isDigit after) :
    scan? negative ('0' :: letter :: radixDigits ++ after) =
      some (.integer, ('0' :: letter :: radixDigits).length) := by
  have zero : Run Char.isDigit ['0'] := .last (by decide)
  have zeroHalts : Halts Char.isDigit (letter :: (radixDigits ++ after)) := .cons notDigit notMark
  have whole : digits Char.isDigit ('0' :: letter :: (radixDigits ++ after)) = 1 :=
    zero.digits_append (by decide) zeroHalts
  have length : radix (letter :: (radixDigits ++ after)) = 1 + radixDigits.length := by
    rw [isRadix, run.digits_append apart halts, marked, if_neg (by simpa using run.ne_nil)]
  rw [List.cons_append, List.cons_append, scan?]
  simp [whole, length]
  omega

/-- An exponent, or none, is as long as it is, and no digits stand at its start. -/
theorem exponent_optional (ofPower : power = [] ∨ Power power) (delimited : Delimited after) :
    exponent (power ++ after) = power.length ∧ Halts Char.isDigit (power ++ after) := by
  have halts : Halts Char.isDigit after := .of_delimited delimited (by decide)
  rcases ofPower with rfl | ofPower
  · exact ⟨exponent_eq_zero (delimited.head (by decide)), halts⟩
  · have length := exponent_append ofPower halts
    obtain ⟨letter, rest, rfl, isLetter⟩ := ofPower.exists_cons
    rcases eq_of_isExponentLetter isLetter with rfl | rfl
    · exact ⟨length, .cons (by decide) (by decide)⟩
    · exact ⟨length, .cons (by decide) (by decide)⟩

theorem digits_optional {decimals : List Char}
    (ofDecimals : decimals = [] ∨ Run Char.isDigit decimals) (halts : Halts Char.isDigit after) :
    digits Char.isDigit (decimals ++ after) = decimals.length := by
  rcases ofDecimals with rfl | run
  · exact digits_eq_zero halts
  · exact run.digits_append (by decide) halts

theorem afterWhole_pointed (cut : TokenKind) (whole : Nat) {decimals : List Char}
    (ofDecimals : decimals = [] ∨ Run Char.isDigit decimals) (ofPower : power = [] ∨ Power power)
    (delimited : Delimited after) :
    afterWhole cut whole ('.' :: (decimals ++ (power ++ after))) =
      (.float, whole + 1 + decimals.length + power.length) := by
  obtain ⟨powerLength, halts⟩ := exponent_optional ofPower delimited
  have length := digits_optional ofDecimals halts
  rw [afterWhole, if_pos rfl]
  simp only [length, List.drop_left, powerLength]
  apply if_neg
  rintro ⟨noDecimals, noPower, isLetter⟩
  obtain rfl := List.eq_nil_of_length_eq_zero noDecimals
  obtain rfl := List.eq_nil_of_length_eq_zero noPower
  have noLetter : ∀ char ∈ after.head?, isExponentLetter char = false :=
    delimited.head (by decide)
  cases after with
  | nil => cases isLetter
  | cons char rest => simp [noLetter char rfl] at isLetter

theorem scan?_append {kind : TokenKind} (negative : Bool) (number : Unsigned kind text)
    (delimited : Delimited after) :
    scan? negative (text ++ after) = some (kind, text.length) := by
  have halts : Halts Char.isDigit after := .of_delimited delimited (by decide)
  have marksOff : ∀ char ∈ after.head?, char ∉ ['b', 'B', 'o', 'O', 'x', 'X'] ∧
      char ≠ '.' ∧ char ≠ '_' ∧ isExponentLetter char = false ∧
      isZeroContinuation char = false := delimited.head (by decide)
  cases number with
  | decimal run =>
      obtain ⟨cut, scanned⟩ := scan?_whole negative run halts
        fun char isHead => (marksOff char isHead).1
      rw [scanned]
      cases after with
      | nil => rfl
      | cons char rest =>
          obtain ⟨-, notPoint, notMark, notLetter, notContinued⟩ :=
            marksOff char rfl
          have noPower : exponent (char :: rest) = 0 :=
            exponent_eq_zero (by simpa using notLetter)
          simp [afterWhole, notPoint, notMark, noPower, notContinued]
  | binary isLetter run =>
      have binaryHalts : Halts isBinaryDigit after := .of_delimited delimited (by decide)
      rcases isLetter with rfl | rfl
      · exact scan?_radix negative (fun _ => rfl) (by decide) (by decide) run rfl binaryHalts
      · exact scan?_radix negative (fun _ => rfl) (by decide) (by decide) run rfl binaryHalts
  | octal isLetter run =>
      have octalHalts : Halts isOctalDigit after := .of_delimited delimited (by decide)
      rcases isLetter with rfl | rfl
      · exact scan?_radix negative (fun _ => rfl) (by decide) (by decide) run rfl octalHalts
      · exact scan?_radix negative (fun _ => rfl) (by decide) (by decide) run rfl octalHalts
  | hexadecimal isLetter run =>
      have hexHalts : Halts isHexDigit after := .of_delimited delimited (by decide)
      rcases isLetter with rfl | rfl
      · exact scan?_radix negative (fun _ => rfl) (by decide) (by decide) run rfl hexHalts
      · exact scan?_radix negative (fun _ => rfl) (by decide) (by decide) run rfl hexHalts
  | @pointed whole decimals power ofWhole ofDecimals ofPower =>
      have pointHalts : Halts Char.isDigit ('.' :: (decimals ++ (power ++ after))) :=
        .cons (by decide) (by decide)
      obtain ⟨cut, scanned⟩ := scan?_whole negative ofWhole pointHalts (by simp)
      rw [List.append_assoc, List.cons_append, List.append_assoc, scanned,
        afterWhole_pointed cut whole.length ofDecimals ofPower delimited]
      simp
      omega
  | @fraction decimals power ofDecimals ofPower =>
      obtain ⟨powerLength, powerHalts⟩ := exponent_optional ofPower delimited
      have length := ofDecimals.digits_append (by decide) powerHalts
      have notEmpty : decimals ≠ [] := ofDecimals.ne_nil
      have noWhole : digits Char.isDigit ('.' :: (decimals ++ (power ++ after))) = 0 := rfl
      rw [List.cons_append, List.append_assoc, scan?]
      simp [noWhole, fraction?, length, notEmpty, powerLength]
      omega
  | @scaled whole power ofWhole ofPower =>
      obtain ⟨powerLength, powerHalts⟩ := exponent_optional (.inr ofPower) delimited
      obtain ⟨letter, rest, rfl, isLetter⟩ := ofPower.exists_cons
      have apart : letter ∉ ['b', 'B', 'o', 'O', 'x', 'X'] ∧ letter ≠ '.' ∧ letter ≠ '_' := by
        rcases eq_of_isExponentLetter isLetter with rfl | rfl <;> decide
      obtain ⟨cut, scanned⟩ := scan?_whole negative ofWhole powerHalts (by simpa using apart.1)
      rw [List.append_assoc, scanned]
      rw [List.cons_append] at powerLength
      simp [afterWhole, apart.2.1, apart.2.2, powerLength]

end Number

namespace Lexeme

variable {char quote : Char} {rest after : List Char} {size : Nat} {kind : TokenKind}

theorem nameTail_part (isPart : isNamePart char = true) (rest : List Char) :
    nameTail (char :: rest) = nameTail rest + 1 := by
  rw [nameTail.eq_def]
  exact if_pos isPart

theorem nameTail_segment (isStart : isNameStart char = true) (rest : List Char) :
    nameTail ('\\' :: char :: rest) = nameTail rest + 2 := by
  have notPart : isNamePart '\\' = false := by decide
  rw [nameTail.eq_def]
  simp [notPart, isStart]

theorem nameTail_eq_zero (notPart : ∀ char ∈ rest.head?, isNamePart char = false)
    (notSegment : ∀ char ∈ rest.head?, char ≠ '\\') : nameTail rest = 0 := by
  cases rest with
  | nil => rfl
  | cons char rest =>
      rw [nameTail.eq_def]
      simp [notPart char rfl, notSegment char rfl]

theorem nameTail_take_append (rest : List Char)
    (notPart : ∀ char ∈ after.head?, isNamePart char = false)
    (notSegment : ∀ char ∈ after.head?, char ≠ '\\') :
    nameTail rest ≤ rest.length ∧
      nameTail (rest.take (nameTail rest) ++ after) = nameTail rest := by
  have ended := nameTail_eq_zero notPart notSegment
  fun_induction nameTail rest with
  | case1 => exact ⟨Nat.zero_le _, by simpa using ended⟩
  | case2 char rest isPart induction =>
      exact ⟨by simpa using induction.1,
        by rw [List.take_succ_cons, List.cons_append, nameTail_part isPart, induction.2]⟩
  | case3 char => exact ⟨Nat.zero_le _, by simpa using ended⟩
  | case4 start others isStart _ induction =>
      refine ⟨by simpa using induction.1, ?_⟩
      rw [List.take_succ_cons, List.take_succ_cons, List.cons_append, List.cons_append,
        nameTail_segment isStart, induction.2]
  | case5 => exact ⟨Nat.zero_le _, by simpa using ended⟩
  | case6 => exact ⟨Nat.zero_le _, by simpa using ended⟩

theorem quotedTail?_take_append (found : quotedTail? quote rest = some size) (after : List Char) :
    size ≤ rest.length ∧ quotedTail? quote (rest.take size ++ after) = some size := by
  fun_induction quotedTail? quote rest generalizing size with
  | case1 => cases found
  | case2 others =>
      cases found
      refine ⟨by simp, ?_⟩
      rw [List.take_succ_cons, List.take_zero, List.cons_append, quotedTail?.eq_def]
      simp
  | case3 => cases found
  | case4 => cases found
  | case5 => cases found
  | case6 escaped others notEnd notQuote _ induction =>
      obtain ⟨tail, foundTail, rfl⟩ := Option.map_eq_some_iff.mp found
      obtain ⟨short, again⟩ := induction foundTail
      refine ⟨by simpa using short, ?_⟩
      have notLineEnd : isLineEnd '\\' = false := by decide
      simp [quotedTail?, notQuote, notLineEnd, notEnd, again]
  | case7 next others notQuote notEnd notEscape induction =>
      obtain ⟨tail, foundTail, rfl⟩ := Option.map_eq_some_iff.mp found
      obtain ⟨short, again⟩ := induction foundTail
      refine ⟨by simpa using short, ?_⟩
      rw [List.take_succ_cons, List.cons_append, quotedTail?.eq_def]
      simp [notQuote, notEnd, notEscape, again]

theorem take_runLength (keep : Char → Bool) (rest : List Char) :
    rest.take (runLength keep rest) = rest.takeWhile keep :=
  (List.prefix_iff_eq_take.mp (List.takeWhile_prefix keep)).symm

theorem takeWhile_takeWhile_append {keep : Char → Bool} (rest : List Char)
    (stops : ∀ char ∈ after.head?, keep char = false) :
    (rest.takeWhile keep ++ after).takeWhile keep = rest.takeWhile keep := by
  have ended : after.takeWhile keep = [] := by
    cases after with
    | nil => rfl
    | cons char others => rw [List.takeWhile_cons, stops char rfl, if_neg (by simp)]
  rw [List.takeWhile_append_of_pos fun char isKept => List.mem_takeWhile_imp isKept, ended,
    List.append_nil]

/-- Whether a lexeme of the given kind can start with the character, as far as this is needed. -/
def opens : TokenKind → Char → Bool
  | .blank, char => isBlank char
  | .identifier, char => isNameStart char || char = '\\'
  | .namedVariable, char => char = '$'
  | .singleQuoted, char => char = '\x27'
  | .doubleQuoted, char => char = '\x22'
  | .lineBreak, char => isLineEnd char
  | .tag, char => char = '@'
  | .union, char => char = '|'
  | .intersection, char => char = '&'
  | .openAngle, char => char = '<'
  | .openParen, char => char = '('
  | .openSquare, char => char = '['
  | .colon, char => char = ':'
  | .doubleColon, char => char = ':'
  | .finish, _ => false
  | _, _ => true

theorem opens_number? {char : Char} {rest : List Char} {lexeme : Lexeme}
    (isFound : number? char rest = some lexeme) :
    lexeme.kind = .integer ∨ lexeme.kind = .float := by
  obtain ⟨found, scanned, rfl⟩ := Option.map_eq_some_iff.mp isFound
  simpa using Number.scan?_kind scanned

theorem opens_of_rule? {char : Char} {rest : List Char} {lexeme : Lexeme}
    (isFound : rule? char rest = some lexeme) : opens lexeme.kind char = true := by
  have number {char : Char} (isNumber : number? char rest = some lexeme) :
      opens lexeme.kind char = true := by
    rcases opens_number? isNumber with isKind | isKind <;> rw [isKind] <;> rfl
  unfold rule? at isFound
  split at isFound
  · next isBlank =>
      cases isFound
      exact isBlank
  · split at isFound
    · next isStart =>
        cases isFound
        simp [opens, isStart]
    · split at isFound
      · exact number isFound
      · split at isFound
        · cases isFound; rfl
        · split at isFound <;> cases isFound
          rfl
        · cases isFound
          unfold ampersandKind
          split
          · rfl
          · split_ifs <;> rfl
        · cases isFound
          unfold minus
          split
          · next scanned =>
              rcases Number.scan?_kind scanned with isKind | isKind | ⟨-, isKind⟩ <;>
                simp [isKind, opens]
          · rfl
        · split at isFound
          · cases isFound; rfl
          · exact number isFound
        · split at isFound <;> cases isFound <;> rfl
        · split at isFound <;> cases isFound <;> rfl
        · split at isFound <;> cases isFound <;> rfl
        · split at isFound
          · split at isFound <;> cases isFound
            rfl
          · cases isFound
        · split at isFound <;> cases isFound
          rfl
        · unfold dollar? at isFound
          simp only at isFound
          split_ifs at isFound <;> cases isFound <;> rfl
        · split at isFound
          · split at isFound <;> cases isFound
            rfl
          · cases isFound
        · obtain ⟨size, -, rfl⟩ := Option.map_eq_some_iff.mp isFound
          rfl
        · obtain ⟨size, -, rfl⟩ := Option.map_eq_some_iff.mp isFound
          rfl
        · obtain ⟨kind, found, rfl⟩ := Option.map_eq_some_iff.mp isFound
          unfold punctuation? at found
          split at found <;> cases found <;> rfl

theorem first_of_rule? {lexeme : Lexeme} (found : rule? char rest = some lexeme) :
    first char rest = lexeme := by
  rw [first, found]

theorem isBlank_iff : isBlank char = true ↔ char = ' ' ∨ char = '\t' := by
  simp [isBlank]

theorem eq_of_isSpace {char : Char} (space : isSpace char = true) :
    char = ' ' ∨ char = '\t' ∨ char = '\n' ∨ char = '\x0b' ∨ char = '\x0c' ∨ char = '\r' := by
  simp only [isSpace, Bool.or_eq_true, decide_eq_true_eq, Bool.and_eq_true] at space
  rcases space with rfl | ⟨least, most⟩
  · exact .inl rfl
  · have isChar : char = Char.ofNat char.toNat := (Char.ofNat_toNat char).symm
    generalize char.toNat = code at least most isChar
    rw [isChar]
    interval_cases code <;> decide

theorem rule?_nameStart (isStart : isNameStart char = true) (rest : List Char) :
    rule? char rest = some ⟨.identifier, nameTail rest⟩ := by
  have notBlank : isBlank char ≠ true := by
    intro blank
    rcases isBlank_iff.mp blank with rfl | rfl <;> exact absurd isStart (by decide)
  unfold rule?
  rw [if_neg notBlank, if_pos isStart]

theorem isNameStart_digit (digit : char.isDigit = true) : isNameStart char = false := by
  have bounds : 48 ≤ char.toNat ∧ char.toNat ≤ 57 := by
    simpa [Char.isDigit, UInt32.le_iff_toNat_le] using digit
  have notMark : char ≠ '_' := by
    rintro rfl
    exact absurd digit (by decide)
  have notLetter : char.isAlpha = false := by
    delta Char.isAlpha Char.isUpper Char.isLower
    simp [UInt32.le_iff_toNat_le]
    omega
  simp [isNameStart, notLetter, notMark]
  omega

theorem rule?_digit (digit : char.isDigit = true) (rest : List Char) :
    rule? char rest = number? char rest := by
  have notBlank : isBlank char ≠ true := by
    intro blank
    rcases isBlank_iff.mp blank with rfl | rfl <;> exact absurd digit (by decide)
  have notStart : isNameStart char ≠ true := by simp [isNameStart_digit digit]
  unfold rule?
  rw [if_neg notBlank, if_neg notStart, if_pos digit]

end Lexeme

/-- The text is cut off as one lexeme of the given kind, whatever delimiter follows it. -/
def IsLexeme (kind : TokenKind) (text : List Char) : Prop :=
  ∃ char rest, text = char :: rest ∧
    ∀ after, Delimited after → Lexeme.first char (rest ++ after) = ⟨kind, rest.length⟩

theorem IsLexeme.of_rule? {kind : TokenKind} {char : Char} {rest : List Char}
    (again : ∀ after, Delimited after →
      Lexeme.rule? char (rest ++ after) = some ⟨kind, rest.length⟩) :
    IsLexeme kind (char :: rest) :=
  ⟨char, rest, rfl, fun after delimited => Lexeme.first_of_rule? (again after delimited)⟩

namespace Lexeme

variable {char : Char} {rest : List Char} {kind : TokenKind} {extra : Nat}

theorem isLexeme_identifier (found : rule? char rest = some ⟨.identifier, extra⟩) :
    IsLexeme .identifier (char :: rest.take extra) := by
  have notPart {after : List Char} (delimited : Delimited after) :
      ∀ char ∈ after.head?, isNamePart char = false := delimited.head (by decide)
  have notSegment {after : List Char} (delimited : Delimited after) :
      ∀ char ∈ after.head?, char ≠ '\\' := delimited.head (by decide)
  have opened := opens_of_rule? found
  simp only [opens, Bool.or_eq_true, decide_eq_true_eq] at opened
  rcases opened with isStart | rfl
  · rw [rule?_nameStart isStart] at found
    cases found
    apply IsLexeme.of_rule?
    intro after delimited
    obtain ⟨short, again⟩ := nameTail_take_append rest (notPart delimited)
      (notSegment delimited)
    rw [rule?_nameStart isStart, again, List.length_take_of_le short]
  · cases rest with
    | nil => cases found
    | cons start others =>
        have segment (others : List Char) : rule? '\\' (start :: others) =
          if isNameStart start then some ⟨.identifier, 1 + nameTail others⟩ else none := rfl
        rw [segment] at found
        split at found
        · next isStart =>
            cases found
            apply IsLexeme.of_rule?
            intro after delimited
            obtain ⟨short, again⟩ := nameTail_take_append others (notPart delimited)
              (notSegment delimited)
            rw [Nat.add_comm, List.take_succ_cons, List.cons_append, segment, if_pos isStart, again,
              List.length_cons, List.length_take_of_le short, Nat.add_comm]
        · cases found

theorem isLexeme_quoted {quote : Char} {foundKind : TokenKind}
    (quoted : ∀ text, rule? quote text = (quotedTail? quote text).map fun size => ⟨kind, size⟩)
    (found : rule? quote rest = some ⟨foundKind, extra⟩) :
    IsLexeme kind (quote :: rest.take extra) := by
  rw [quoted] at found
  obtain ⟨size, tail, eq⟩ := Option.map_eq_some_iff.mp found
  cases eq
  apply IsLexeme.of_rule?
  intro after _
  obtain ⟨short, again⟩ := quotedTail?_take_append tail after
  rw [quoted, again, List.length_take_of_le short]
  rfl

theorem isLexeme_namedVariable (found : rule? '$' rest = some ⟨.namedVariable, extra⟩) :
    IsLexeme .namedVariable ('$' :: rest.take extra) := by
  have dollar (text : List Char) : rule? '$' text = dollar? text := rfl
  rw [dollar] at found
  unfold dollar? at found
  simp only [take_runLength] at found
  split at found
  · next isStart =>
      split at found
      · cases found
      · next notThis =>
          cases found
          rw [take_runLength]
          have head : (rest.takeWhile isVariablePart).head?.any isNameStart = true := by
            cases rest with
            | nil => simp at isStart
            | cons char rest =>
                have isHead : isNameStart char = true := by simpa using isStart
                have isPart : isVariablePart char = true := by
                  rw [isVariablePart, isHead, Bool.true_or]
                simpa [List.takeWhile_cons, isPart] using isHead
          apply IsLexeme.of_rule?
          intro after delimited
          have stops : ∀ char ∈ after.head?, isVariablePart char = false :=
            delimited.head (by decide)
          have again := takeWhile_takeWhile_append rest stops
          have appendHead :
              ((rest.takeWhile isVariablePart) ++ after).head?.any isNameStart = true := by
            cases taken : rest.takeWhile isVariablePart with
            | nil => simp [taken] at head
            | cons char others => simpa [taken] using head
          rw [dollar, dollar?, if_pos appendHead]
          simp only [runLength, again, List.take_left, if_neg notThis]
  · cases found

theorem isLexeme_tag (found : rule? '@' rest = some ⟨.tag, extra⟩) :
    IsLexeme .tag ('@' :: rest.take extra) := by
  have tagged (text : List Char) : rule? '@' text =
      if text.head?.any Char.isAlpha then some ⟨.tag, runLength isTagPart text⟩ else none := rfl
  rw [tagged] at found
  split at found
  · next isAlpha =>
      cases found
      rw [take_runLength]
      apply IsLexeme.of_rule?
      intro after delimited
      have stops : ∀ char ∈ after.head?, isTagPart char = false := delimited.head (by decide)
      have again := takeWhile_takeWhile_append rest stops
      have appendHead : ((rest.takeWhile isTagPart) ++ after).head?.any Char.isAlpha = true := by
        cases rest with
        | nil => cases isAlpha
        | cons char rest =>
            have isHead : char.isAlpha = true := isAlpha
            have isPart : isTagPart char = true := by simp [isTagPart, Char.isAlphanum, isHead]
            simpa [List.takeWhile_cons, isPart] using isHead
      rw [tagged, if_pos appendHead]
      simp only [runLength, again]
  · cases found

/-- What a point starts: an ellipsis or a number. -/
def point? (text : List Char) : Option Lexeme :=
  match text with
  | '.' :: '.' :: _ => some ⟨.variadic, 2⟩
  | _ => number? '.' text

theorem rule?_eq_point? (text : List Char) : rule? '.' text = point? text := rfl

theorem rule?_point (digit : char.isDigit = true) (rest : List Char) :
    rule? '.' (char :: rest) = number? '.' (char :: rest) := by
  rw [rule?_eq_point?]
  unfold point?
  split
  · exact absurd digit (by simp_all)
  · rfl

/-- What a carriage return starts: the end of a line, if a line feed follows. -/
def lineEnd? (text : List Char) : Option Lexeme :=
  match text with
  | '\n' :: others => some ⟨.lineBreak, 1 + gutter others⟩
  | _ => none

theorem rule?_eq_lineEnd? (text : List Char) : rule? '\r' text = lineEnd? text := rfl

theorem isLexeme_unsigned {text : List Char} (number : Number.Unsigned kind text) :
    IsLexeme kind text := by
  have start : ∃ char rest, text = char :: rest ∧
      ∀ after, rule? char (rest ++ after) = number? char (rest ++ after) := by
    cases number with
    | decimal run =>
        obtain ⟨char, rest, rfl, digit⟩ := run.exists_cons
        exact ⟨char, rest, rfl, fun after => rule?_digit digit _⟩
    | binary => exact ⟨_, _, rfl, fun after => rule?_digit (by decide) _⟩
    | octal => exact ⟨_, _, rfl, fun after => rule?_digit (by decide) _⟩
    | hexadecimal => exact ⟨_, _, rfl, fun after => rule?_digit (by decide) _⟩
    | pointed ofWhole =>
        obtain ⟨char, rest, rfl, digit⟩ := ofWhole.exists_cons
        exact ⟨char, _, rfl, fun after => rule?_digit digit _⟩
    | fraction ofDecimals =>
        obtain ⟨char, rest, rfl, digit⟩ := ofDecimals.exists_cons
        exact ⟨'.', _, rfl, fun after => rule?_point digit _⟩
    | scaled ofWhole =>
        obtain ⟨char, rest, rfl, digit⟩ := ofWhole.exists_cons
        exact ⟨char, _, rfl, fun after => rule?_digit digit _⟩
  obtain ⟨char, rest, rfl, isNumber⟩ := start
  apply IsLexeme.of_rule?
  intro after delimited
  have scanned := Number.scan?_append false number delimited
  rw [List.cons_append] at scanned
  rw [isNumber, number?, scanned]
  simp

/-- A number is cut off again if it matches the expressions that define numbers. -/
theorem isLexeme_number {text : List Char} (number : Number.WellFormed kind text) :
    IsLexeme kind text := by
  cases number with
  | unsigned number => exact isLexeme_unsigned number
  | negative number =>
      apply IsLexeme.of_rule?
      intro after delimited
      have minus (text : List Char) : rule? '-' text = some (Lexeme.minus text) := rfl
      rw [minus, Lexeme.minus, Number.scan?_append true number delimited]

/-- The kinds of lexemes, numbers aside, whose text is not the same everywhere. -/
def isNamed (kind : TokenKind) : Bool :=
  [.identifier, .singleQuoted, .doubleQuoted, .namedVariable, .tag].contains kind

/-- Names and quoted texts are cut off again wherever they stand. -/
theorem isLexeme_first (named : isNamed (first char rest).kind = true) :
    IsLexeme (first char rest).kind (char :: rest.take (first char rest).extra) := by
  cases found : rule? char rest with
  | none =>
      rw [first, found] at named
      cases named
  | some lexeme =>
      rw [first_of_rule? found] at named ⊢
      obtain ⟨kind, extra⟩ := lexeme
      have opened := opens_of_rule? found
      simp only [isNamed, List.contains_eq_mem, List.mem_cons, List.not_mem_nil, or_false,
        decide_eq_true_eq] at named
      rcases named with rfl | rfl | rfl | rfl | rfl
      · exact isLexeme_identifier found
      · obtain rfl := of_decide_eq_true opened
        exact isLexeme_quoted (fun _ => rfl) found
      · obtain rfl := of_decide_eq_true opened
        exact isLexeme_quoted (fun _ => rfl) found
      · obtain rfl := of_decide_eq_true opened
        exact isLexeme_namedVariable found
      · obtain rfl := of_decide_eq_true opened
        exact isLexeme_tag found

end Lexeme

end Docblock
