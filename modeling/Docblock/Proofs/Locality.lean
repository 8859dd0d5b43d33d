import Docblock.Proofs.Lossless

/-!
# Lexemes that do not see what follows

Scanning takes the longest match, so a lexeme could depend on text far behind it.  It does not
where the text goes on quietly, with a space character or a close marker: every rule stops
there, whatever comes next.  The exceptions are few.  A quoted text may run on over close
markers, blanks go on in blanks, and an ampersand and the slash of an opening marker are the
same lexemes everywhere but look at what follows to choose their kind.
-/

namespace Docblock

open Text

namespace Number

variable {isDigit : Char → Bool} {after : List Char}

/-- No number goes on at the start of the text. -/
def Ends (after : List Char) : Prop := ∀ char ∈ after.head?, isPart char = false

theorem Ends.halts (ends : Ends after)
    (areParts : ∀ char, isDigit char = true → isPart char = true) : Halts isDigit after := by
  intro char isHead
  have notPart := ends char isHead
  constructor
  · apply Bool.eq_false_iff.mpr
    intro digit
    rw [areParts char digit] at notPart
    cases notPart
  · rintro rfl
    cases notPart

theorem Ends.decimal (ends : Ends after) : Halts Char.isDigit after :=
  ends.halts fun _ => isPart_digit

theorem Ends.head_ne (ends : Ends after) {char : Char} (isPart : isPart char = true) :
    after.head? ≠ some char := by
  intro isHead
  rw [ends char isHead] at isPart
  cases isPart

theorem moreDigits_undisturbed (halts : Halts isDigit after) (text : List Char) :
    moreDigits isDigit (text ++ after) = moreDigits isDigit text := by
  fun_induction moreDigits isDigit text with
  | case1 => exact moreDigits_eq_zero halts
  | case2 char rest digit induction => rw [List.cons_append, moreDigits_digit digit, induction]
  | case3 notDigit =>
      rw [List.cons_append, List.nil_append, moreDigits.eq_def]
      cases after with
      | nil => simp [notDigit]
      | cons char rest => simp [notDigit, (halts char rfl).1]
  | case4 digit others isDigit notDigit induction =>
      rw [List.cons_append, List.cons_append, moreDigits.eq_def]
      simp [notDigit, isDigit, induction]
  | case5 digit others isDigit notDigit =>
      rw [List.cons_append, List.cons_append, moreDigits.eq_def]
      simp [notDigit, isDigit]
  | case6 char rest notDigit notMark =>
      rw [List.cons_append, moreDigits.eq_def]
      simp [notDigit, notMark]

theorem digits_undisturbed (halts : Halts isDigit after) (text : List Char) :
    digits isDigit (text ++ after) = digits isDigit text := by
  cases text with
  | nil => exact digits_eq_zero halts
  | cons char rest =>
      rw [List.cons_append, digits, digits, moreDigits_undisturbed halts]

theorem digits_le_length (text : List Char) : digits isDigit text ≤ text.length := by
  have more : ∀ text, moreDigits isDigit text ≤ text.length := by
    intro text
    fun_induction moreDigits isDigit text <;> simp_all
  cases text with
  | nil => exact Nat.le_refl _
  | cons char rest =>
      rw [digits]
      split
      · exact Nat.succ_le_succ (more rest)
      · exact Nat.zero_le _

theorem exponent_undisturbed (ends : Ends after) (text : List Char) :
    exponent (text ++ after) = exponent text := by
  cases text with
  | nil =>
      apply exponent_eq_zero
      intro char isHead
      apply Bool.eq_false_iff.mpr
      intro isLetter
      exact ends.head_ne (isPart_exponentLetter isLetter) isHead
  | cons letter rest =>
      rw [List.cons_append, exponent.eq_def, exponent.eq_def]
      simp only
      split
      · cases rest with
        | nil =>
            have unsigned := ends.head_ne (show isPart '-' = true from rfl)
            cases after with
            | nil => rfl
            | cons char others =>
                have notSign : char ≠ '-' := by simpa using unsigned
                have none := digits_eq_zero ends.decimal
                have empty : digits Char.isDigit [] = 0 := rfl
                simp [notSign, none, empty]
        | cons sign others =>
            by_cases isSign : sign = '-'
            · simp [isSign, digits_undisturbed ends.decimal]
            · have digits := digits_undisturbed ends.decimal (sign :: others)
              simp only [List.cons_append] at digits
              simp [isSign, digits]
      · rfl

theorem radix_undisturbed (ends : Ends after) (text : List Char) :
    radix (text ++ after) = radix text := by
  cases text with
  | nil =>
      apply radix_eq_zero
      intro char isHead isLetter
      have isPart : ['b', 'B', 'o', 'O', 'x', 'X'].all isPart = true := by decide
      exact ends.head_ne (List.all_eq_true.mp isPart char isLetter) isHead
  | cons letter rest =>
      rw [List.cons_append, radix, radix,
        digits_undisturbed (ends.halts fun _ => isPart_binaryDigit),
        digits_undisturbed (ends.halts fun _ => isPart_octalDigit),
        digits_undisturbed (ends.halts fun _ => isPart_hexDigit)]

/-- What is left of a text behind its digits goes on as the text does. -/
theorem drop_digits_append (text after : List Char) :
    (text ++ after).drop (digits isDigit text) = text.drop (digits isDigit text) ++ after :=
  List.drop_append_of_le_length (digits_le_length text)

theorem fraction?_undisturbed (ends : Ends after) (text : List Char) :
    fraction? (text ++ after) = fraction? text := by
  cases text with
  | nil =>
      have notPoint := ends.head_ne (show isPart '.' = true from rfl)
      rw [List.nil_append]
      unfold fraction?
      split
      · exact absurd rfl notPoint
      · rfl
  | cons point rest =>
      by_cases isPoint : point = '.'
      · rw [isPoint, List.cons_append, fraction?, fraction?, digits_undisturbed ends.decimal,
          drop_digits_append, exponent_undisturbed ends]
      · simp [fraction?, isPoint]

theorem afterWhole_undisturbed (ends : Ends after) (cut : TokenKind) (whole : Nat)
    (text : List Char) : afterWhole cut whole (text ++ after) = afterWhole cut whole text := by
  cases text with
  | nil =>
      cases after with
      | nil => rfl
      | cons char rest =>
          have notPart := ends char rfl
          have notPoint : char ≠ '.' := by rintro rfl; cases notPart
          have notMark : char ≠ '_' := by rintro rfl; cases notPart
          have noPower : exponent (char :: rest) = 0 := exponent_undisturbed ends []
          have notContinued : isZeroContinuation char = false := by
            apply Bool.eq_false_iff.mpr
            intro continued
            simp [isPart, continued] at notPart
          simp [afterWhole, notPoint, notMark, noPower, notContinued]
  | cons next rest =>
      have letter : (rest ++ after).head?.any isExponentLetter =
          rest.head?.any isExponentLetter := by
        cases rest with
        | cons char others => rfl
        | nil =>
            cases after with
            | nil => rfl
            | cons char others =>
                apply Bool.eq_false_iff.mpr
                intro isLetter
                exact ends.head_ne (isPart_exponentLetter isLetter) rfl
      have power := exponent_undisturbed ends (next :: rest)
      rw [List.cons_append] at power
      simp only [List.cons_append, afterWhole, digits_undisturbed ends.decimal,
        drop_digits_append, exponent_undisturbed ends, letter, power]

/-- A number is measured without regard to what follows where no number goes on. -/
theorem scan?_undisturbed (ends : Ends after) (negative : Bool) (text : List Char) :
    scan? negative (text ++ after) = scan? negative text := by
  have whole : (text ++ after).take (digits Char.isDigit text) =
      text.take (digits Char.isDigit text) :=
    List.take_append_of_le_length (digits_le_length text)
  simp only [scan?, digits_undisturbed ends.decimal, drop_digits_append, whole,
    fraction?_undisturbed ends, radix_undisturbed ends, afterWhole_undisturbed ends]

end Number

namespace Lexeme

variable {char quote : Char} {text after : List Char}

/-- The characters with which a quiet text can start. -/
def quietHeads : List Char := [' ', '\t', '\n', '\x0b', '\x0c', '\r', '*']

/-- The text ends here, or goes on with a space character or a close marker. -/
def Quiet (after : List Char) : Prop :=
  (∀ char ∈ after.head?, isSpace char = true) ∨ startsWithClose after = true

theorem exists_of_startsWithClose (closes : startsWithClose text = true) :
    ∃ rest, text = '*' :: '/' :: rest := by
  unfold startsWithClose at closes
  split at closes
  · exact ⟨_, rfl⟩
  · cases closes

theorem Quiet.head {P : Char → Prop} [DecidablePred P] (quiet : Quiet after)
    (holds : quietHeads.all fun char => P char) : ∀ char ∈ after.head?, P char := by
  intro char isHead
  have isQuiet : char ∈ quietHeads := by
    rcases quiet with spaced | closes
    · rcases eq_of_isSpace (spaced char isHead) with rfl | rfl | rfl | rfl | rfl | rfl <;> decide
    · obtain ⟨rest, rfl⟩ := exists_of_startsWithClose closes
      obtain rfl := Option.some.inj isHead
      decide
  exact of_decide_eq_true (List.all_eq_true.mp holds char isQuiet)

theorem Quiet.ends (quiet : Quiet after) : Number.Ends after := quiet.head (by decide)

/-- A quiet text does not start with a character that no quiet text starts with. -/
theorem Quiet.head_ne (quiet : Quiet after) (loud : char ∉ quietHeads) :
    after.head? ≠ some char := by
  intro isHead
  have differs : ∀ other ∈ after.head?, other ∈ quietHeads := quiet.head (by decide)
  exact loud (differs char isHead)

theorem head?_append_ne (quiet : Quiet after) (loud : char ∉ quietHeads) (rest : List Char) :
    (rest ++ after).head? = some char ↔ rest.head? = some char := by
  cases rest with
  | nil => simpa using quiet.head_ne loud
  | cons next others => simp

theorem any_head?_append {keep : Char → Bool} (stops : ∀ char ∈ after.head?, keep char = false)
    (rest : List Char) : (rest ++ after).head?.any keep = rest.head?.any keep := by
  cases rest with
  | cons next others => rfl
  | nil =>
      cases after with
      | nil => rfl
      | cons next others => exact stops next rfl

theorem runLength_undisturbed {keep : Char → Bool} (text : List Char)
    (stops : text.all keep = true → ∀ char ∈ after.head?, keep char = false) :
    runLength keep (text ++ after) = runLength keep text := by
  induction text with
  | nil =>
      cases after with
      | nil => rfl
      | cons char rest => simp [runLength, stops rfl char rfl]
  | cons char rest induction =>
      cases kept : keep char with
      | false => simp [runLength, kept]
      | true =>
          have others := induction (by simpa [kept] using stops)
          simp only [runLength] at others
          simp [runLength, kept, others]

theorem nameTail_undisturbed (notPart : ∀ char ∈ after.head?, isNamePart char = false)
    (notSegment : ∀ char ∈ after.head?, char ≠ '\\') (text : List Char) :
    nameTail (text ++ after) = nameTail text := by
  fun_induction nameTail text with
  | case1 => exact nameTail_eq_zero notPart notSegment
  | case2 char rest isPart induction => rw [List.cons_append, nameTail_part isPart, induction]
  | case3 notPart' =>
      rw [List.cons_append, List.nil_append, nameTail.eq_def]
      cases after with
      | nil => simp [notPart']
      | cons char rest =>
          have notStart : isNameStart char = false := by
            apply Bool.eq_false_iff.mpr
            intro isStart
            have isPart := notPart char rfl
            simp [isNamePart, isVariablePart, isStart] at isPart
          simp [notPart', notStart]
  | case4 start others isStart _ induction =>
      rw [List.cons_append, List.cons_append, nameTail_segment isStart, induction]
  | case5 start others notStart notPart' =>
      rw [List.cons_append, List.cons_append, nameTail.eq_def]
      simp [notPart', notStart]
  | case6 char rest notPart' notSlash =>
      rw [List.cons_append, nameTail.eq_def]
      simp [notPart', notSlash]

theorem startsWithClose_undisturbed (notSlash : after.head? ≠ some '/') (char : Char)
    (rest : List Char) : startsWithClose (char :: (rest ++ after)) =
      startsWithClose (char :: rest) := by
  cases rest with
  | cons next others => by_cases isStar : char = '*' <;> by_cases isSlash : next = '/' <;>
      simp [startsWithClose, isStar, isSlash]
  | nil =>
      cases after with
      | nil => rfl
      | cons next others =>
          have differs : next ≠ '/' := by simpa using notSlash
          simp [startsWithClose, differs]

theorem otherTail_undisturbed (quiet : Quiet after) (text : List Char) :
    otherTail (text ++ after) = otherTail text := by
  have notSlash : after.head? ≠ some '/' := quiet.head_ne (by decide)
  fun_induction otherTail text with
  | case1 =>
      cases after with
      | nil => rfl
      | cons char rest =>
          rw [List.nil_append, otherTail]
          apply if_pos
          rcases quiet with spaced | closes
          · simp [spaced char rfl]
          · simp [closes]
  | case2 char rest stops =>
      rw [List.cons_append, otherTail, startsWithClose_undisturbed notSlash, if_pos stops]
  | case3 char rest goesOn induction =>
      rw [List.cons_append, otherTail, startsWithClose_undisturbed notSlash, if_neg goesOn,
        induction]

/-- A quoted text that ends stays as it is. -/
theorem quotedTail?_append {size : Nat} (found : quotedTail? quote text = some size)
    (after : List Char) : quotedTail? quote (text ++ after) = some size := by
  obtain ⟨short, again⟩ := quotedTail?_take_append found (text.drop size ++ after)
  rwa [← List.append_assoc, List.take_append_drop] at again

theorem quotedTail?_pos {size : Nat} (found : quotedTail? quote text = some size) : 0 < size := by
  unfold quotedTail? at found
  split at found
  · cases found
  · split_ifs at found
    · cases found
      exact Nat.one_pos
    · split at found
      · cases found
      · split_ifs at found
        obtain ⟨tail, -, rfl⟩ := Option.map_eq_some_iff.mp found
        exact Nat.succ_pos _
    · obtain ⟨tail, -, rfl⟩ := Option.map_eq_some_iff.mp found
      exact Nat.succ_pos _

/-- A quoted text that does not end in a text ends behind it or not at all. -/
theorem length_lt_of_quotedTail? {size : Nat} (unclosed : quotedTail? quote text = none)
    (found : quotedTail? quote (text ++ after) = some size) : text.length < size := by
  fun_induction quotedTail? quote text generalizing size with
  | case1 => exact quotedTail?_pos found
  | case2 => cases unclosed
  | case3 char rest notQuote isEnd =>
      rw [List.cons_append, quotedTail?.eq_def] at found
      simp [notQuote, isEnd] at found
  | case4 notQuote notEnd =>
      rw [List.cons_append, List.nil_append, quotedTail?.eq_def] at found
      simp only [notQuote, notEnd] at found
      cases after with
      | nil => simp at found
      | cons escaped others =>
          simp only [if_true, if_false, Bool.false_eq_true] at found
          split_ifs at found
          obtain ⟨tail, foundTail, rfl⟩ := Option.map_eq_some_iff.mp found
          exact Nat.lt_add_left tail (Nat.lt_succ_self 1)
  | case5 escaped others isEnd notQuote notEnd =>
      simp [quotedTail?, notQuote, notEnd, isEnd] at found
  | case6 escaped others notEnd' notQuote notEnd induction =>
      simp only [List.cons_append, quotedTail?, notQuote, notEnd, notEnd', if_true, if_false,
        Bool.false_eq_true] at found
      obtain ⟨tail, foundTail, rfl⟩ := Option.map_eq_some_iff.mp found
      have shorter := induction (Option.map_eq_none_iff.mp unclosed) foundTail
      simpa using shorter
  | case7 next others notQuote notEnd notEscape induction =>
      rw [List.cons_append, quotedTail?.eq_def] at found
      simp only [notQuote, notEnd, notEscape, if_false, Bool.false_eq_true] at found
      obtain ⟨tail, foundTail, rfl⟩ := Option.map_eq_some_iff.mp found
      have shorter := induction (Option.map_eq_none_iff.mp unclosed) foundTail
      simpa using shorter

/-- A quoted text ends with its quote. -/
theorem getElem?_quotedTail? {size : Nat} (found : quotedTail? quote text = some size) :
    text[size - 1]? = some quote := by
  fun_induction quotedTail? quote text generalizing size with
  | case1 => cases found
  | case2 rest =>
      cases found
      rfl
  | case3 => cases found
  | case4 => cases found
  | case5 => cases found
  | case6 escaped others notEnd notQuote _ induction =>
      obtain ⟨tail, foundTail, rfl⟩ := Option.map_eq_some_iff.mp found
      obtain ⟨more, rfl⟩ := Nat.exists_eq_succ_of_ne_zero (quotedTail?_pos foundTail).ne'
      exact induction foundTail
  | case7 next others notQuote notEnd notEscape induction =>
      obtain ⟨tail, foundTail, rfl⟩ := Option.map_eq_some_iff.mp found
      obtain ⟨more, rfl⟩ := Nat.exists_eq_succ_of_ne_zero (quotedTail?_pos foundTail).ne'
      exact induction foundTail

/-- A text without the quote does not end a quoted text. -/
theorem quotedTail?_unclosed (unclosed : quotedTail? quote text = none) (absent : quote ∉ after) :
    quotedTail? quote (text ++ after) = none := by
  cases found : quotedTail? quote (text ++ after) with
  | none => rfl
  | some size =>
      have reached := length_lt_of_quotedTail? unclosed found
      have isQuote := getElem?_quotedTail? found
      rw [List.getElem?_append_right (by omega)] at isQuote
      exact absurd (List.mem_of_getElem? isQuote) absent

/-- A quoted text that does not end in its line does not end at all. -/
theorem quotedTail?_broken (solid : isLineEnd quote = false)
    (unclosed : quotedTail? quote text = none) (isMember : char ∈ text)
    (isEnd : isLineEnd char = true) (after : List Char) :
    quotedTail? quote (text ++ after) = none := by
  cases found : quotedTail? quote (text ++ after) with
  | none => rfl
  | some size =>
      have reached := length_lt_of_quotedTail? unclosed found
      have isTaken : char ∈ (text ++ after).take size := by
        rw [List.take_append, List.take_of_length_le (Nat.le_of_lt reached)]
        exact List.mem_append_left _ isMember
      have inLine := covers_quotedTail? found solid char isTaken
      simp [isEnd] at inLine

/-- Where a line ends, a quoted text of the line does not go on. -/
theorem quotedTail?_inLine (solid : isLineEnd quote = false)
    (lineEnds : ∀ char ∈ after.head?, isLineEnd char = true) :
    quotedTail? quote (text ++ after) = quotedTail? quote text := by
  cases found : quotedTail? quote text with
  | some size => exact quotedTail?_append found after
  | none =>
      cases after with
      | nil => rwa [List.append_nil]
      | cons char rest =>
          have isEnd := lineEnds char rfl
          have absent : quote ∉ [char] := by
            simp only [List.mem_singleton]
            rintro rfl
            simp [isEnd] at solid
          have broken := quotedTail?_broken solid (quotedTail?_unclosed found absent)
            (List.mem_append_right text List.mem_cons_self) isEnd rest
          rwa [List.append_assoc] at broken

/-- A quoted text that ends within a text is found without what follows. -/
theorem quotedTail?_within
    (within : ∀ size ∈ quotedTail? quote (text ++ after), size ≤ text.length) :
    quotedTail? quote (text ++ after) = quotedTail? quote text := by
  cases found : quotedTail? quote text with
  | some size => exact quotedTail?_append found after
  | none =>
      cases foundAll : quotedTail? quote (text ++ after) with
      | none => rfl
      | some size =>
          have reached := length_lt_of_quotedTail? found foundAll
          have short := within size foundAll
          omega

/-- A quoted text that neither ends nor breaks off in a text goes on behind it, unless a
backslash comes last. -/
theorem quotedTail?_open (unclosed : quotedTail? quote text = none)
    (inLine : ∀ char ∈ text, isLineEnd char = false) (notEscape : text.getLast? ≠ some '\\')
    (after : List Char) :
    quotedTail? quote (text ++ after) = (quotedTail? quote after).map (· + text.length) := by
  fun_induction quotedTail? quote text with
  | case1 => simp
  | case2 => cases unclosed
  | case3 char rest notQuote isEnd =>
      rw [inLine char List.mem_cons_self] at isEnd
      cases isEnd
  | case4 => exact absurd rfl notEscape
  | case5 escaped others isEnd =>
      rw [inLine escaped (by simp)] at isEnd
      cases isEnd
  | case6 escaped others notEnd' notQuote notEnd induction =>
      have rest := induction (Option.map_eq_none_iff.mp unclosed)
        (fun char isMember => inLine char (by simp [isMember]))
        (fun isLast => notEscape (by simp [List.getLast?_cons, isLast]))
      rw [List.cons_append, List.cons_append, quotedTail?.eq_def]
      simp only [notQuote, notEnd, notEnd', if_true, if_false, Bool.false_eq_true, rest,
        Option.map_map]
      rfl
  | case7 next others notQuote notEnd notEscape' induction =>
      have rest := induction (Option.map_eq_none_iff.mp unclosed)
        (fun char isMember => inLine char (by simp [isMember]))
        (fun isLast => notEscape (by simp [List.getLast?_cons, isLast]))
      rw [List.cons_append, quotedTail?.eq_def]
      simp only [notQuote, notEnd, notEscape', if_false, Bool.false_eq_true, rest, Option.map_map]
      rfl

theorem number?_undisturbed (quiet : Quiet after) (char : Char) (text : List Char) :
    number? char (text ++ after) = number? char text := by
  rw [number?, number?, ← List.cons_append, Number.scan?_undisturbed quiet.ends]

theorem minus_undisturbed (quiet : Quiet after) (text : List Char) :
    minus (text ++ after) = minus text := by
  rw [minus, minus, Number.scan?_undisturbed quiet.ends]

theorem dollar?_undisturbed (quiet : Quiet after) (text : List Char) :
    dollar? (text ++ after) = dollar? text := by
  have size : runLength isVariablePart (text ++ after) = runLength isVariablePart text :=
    runLength_undisturbed text fun _ => quiet.head (by decide)
  have short : runLength isVariablePart text ≤ text.length := (List.takeWhile_prefix _).length_le
  have start : (text ++ after).head?.any isNameStart = text.head?.any isNameStart :=
    any_head?_append (quiet.head (by decide)) text
  simp only [dollar?, start, size, List.take_append_of_le_length short]

/-- Whether a text spells a pattern is decided in front of a character that cannot be part of
the pattern. -/
theorem spells_undisturbed (spelled : Char → Char) (pattern : List Char)
    (apart : ∀ char ∈ after.head?, spelled char ∉ pattern) (text : List Char) :
    ((text ++ after).take pattern.length).map spelled = pattern ↔
      (text.take pattern.length).map spelled = pattern := by
  induction pattern generalizing text with
  | nil => simp
  | cons first others induction =>
      cases text with
      | cons char rest =>
          have tail := induction (fun char isHead isMember =>
            apart char isHead (List.mem_cons_of_mem _ isMember)) rest
          simp only [List.cons_append, List.length_cons, List.take_succ_cons, List.map_cons,
            List.cons.injEq, tail]
      | nil =>
          cases after with
          | nil => simp
          | cons char rest =>
              have differs : spelled char ≠ first := by
                rintro rfl
                exact apart char rfl List.mem_cons_self
              simp [differs]

theorem point?_eq (text : List Char) : point? text =
    if (text.take ['.', '.'].length).map id = ['.', '.'] then some ⟨.variadic, 2⟩
    else number? '.' text := by
  unfold point?
  split
  · simp
  · next notPoints =>
      rw [if_neg]
      intro isPoints
      match text with
      | [] => cases isPoints
      | [_] => cases isPoints
      | first :: second :: rest =>
          cases isPoints
          exact notPoints rest rfl

theorem point?_undisturbed (quiet : Quiet after) (text : List Char) :
    point? (text ++ after) = point? text := by
  have apart : ∀ char ∈ after.head?, id char ∉ ['.', '.'] := quiet.head (by decide)
  simp only [point?_eq, spells_undisturbed id _ apart, number?_undisturbed quiet]

/-- In front of a quiet text the rules find what they find at the end of a text, the rules for
line ends, ampersands and slashes aside. -/
theorem rule?_undisturbed (quiet : Quiet after)
    (special : isLineEnd char = true ∨ char = '&' ∨ char = '/' →
      rule? char (text ++ after) = rule? char text)
    (blanks : isBlank char = true → text.all isBlank = true →
      ∀ next ∈ after.head?, isBlank next = false)
    (quotes : char = '\x27' ∨ char = '\x22' →
      quotedTail? char (text ++ after) = quotedTail? char text) :
    rule? char (text ++ after) = rule? char text := by
  have notPart : ∀ char ∈ after.head?, isNamePart char = false := quiet.head (by decide)
  have notSegment : ∀ char ∈ after.head?, char ≠ '\\' := quiet.head (by decide)
  by_cases isSpecial : isLineEnd char = true ∨ char = '&' ∨ char = '/'
  · exact special isSpecial
  unfold rule?
  split
  · next isBlank => rw [runLength_undisturbed _ (blanks isBlank)]
  split
  · rw [nameTail_undisturbed notPart notSegment]
  split
  · exact number?_undisturbed quiet char text
  split
  · exact absurd (.inl rfl) isSpecial
  · exact absurd (.inl rfl) isSpecial
  · exact absurd (.inr (.inl rfl)) isSpecial
  · rw [minus_undisturbed quiet]
  · exact point?_undisturbed quiet text
  · simp only [head?_append_ne quiet (by decide : ':' ∉ quietHeads)]
  · simp only [head?_append_ne quiet (by decide : '>' ∉ quietHeads)]
  · simp only [head?_append_ne quiet (by decide : '/' ∉ quietHeads)]
  · exact absurd (.inr (.inr rfl)) isSpecial
  · have named : (text ++ after).head?.any Char.isAlpha = text.head?.any Char.isAlpha :=
      any_head?_append (quiet.head (by decide)) text
    rw [named, runLength_undisturbed text fun _ => quiet.head (by decide)]
  · exact dollar?_undisturbed quiet text
  · cases text with
    | cons start others =>
        simp only [List.cons_append, nameTail_undisturbed notPart notSegment]
    | nil =>
        cases after with
        | nil => rfl
        | cons start others =>
            have notStart : ∀ char ∈ (start :: others).head?, isNameStart char = false :=
              quiet.head (by decide)
            simp [notStart start rfl]
  · rw [quotes (.inl rfl)]
  · rw [quotes (.inr rfl)]
  · rfl

theorem spellsThis_undisturbed (quiet : Quiet after) (text : List Char) :
    spellsThis (text ++ after) = spellsThis text := by
  have apart : ∀ char ∈ after.head?, char.toLower ∉ ['t', 'h', 'i', 's'] :=
    quiet.head (by decide)
  have same : ((text ++ after).take 4).map Char.toLower = ['t', 'h', 'i', 's'] ↔
      (text.take 4).map Char.toLower = ['t', 'h', 'i', 's'] :=
    spells_undisturbed Char.toLower ['t', 'h', 'i', 's'] apart text
  by_cases isThis : (text.take 4).map Char.toLower = ['t', 'h', 'i', 's']
  · have long : 4 ≤ text.length := by
      have length := congrArg List.length isThis
      simp only [List.length_map, List.length_take, List.length_cons, List.length_nil] at length
      omega
    have ended : ((text ++ after).drop 4).head?.any isVariablePart =
        (text.drop 4).head?.any isVariablePart := by
      rw [List.drop_append_of_le_length long]
      exact any_head?_append (quiet.head (by decide)) _
    simp only [spellsThis, same, ended]
  · simp only [spellsThis, same, isThis, decide_false, Bool.false_and]

section BeforeClose

/-- In front of a close marker an ampersand joins operands if nothing else is left. -/
theorem ampersandKind_beforeClose (closes : startsWithClose after = true) (text : List Char) :
    ampersandKind (text ++ after) = ampersandKind text := by
  obtain ⟨others, rfl⟩ := exists_of_startsWithClose closes
  have solid : isSpace '*' = false := by decide
  unfold ampersandKind
  rw [List.dropWhile_append]
  cases remaining : text.dropWhile isSpace with
  | nil => simp [solid]
  | cons next rest =>
      simp only [List.isEmpty_cons, List.cons_append, Bool.false_eq_true, if_false,
        spellsThis_undisturbed (.inr closes)]

theorem gutter_beforeClose (closes : startsWithClose after = true) (text : List Char) :
    gutter (text ++ after) = gutter text := by
  have quiet : Quiet after := .inr closes
  have notBlank : ∀ char ∈ after.head?, isBlank char = false := by
    obtain ⟨others, rfl⟩ := exists_of_startsWithClose closes
    simp [isBlank]
  have spacing : runLength isBlank (text ++ after) = runLength isBlank text :=
    runLength_undisturbed text fun _ => notBlank
  have short : runLength isBlank text ≤ text.length := (List.takeWhile_prefix _).length_le
  simp only [gutter, spacing, List.drop_append_of_le_length short]
  cases text.drop (runLength isBlank text) with
  | nil => simp [closes]
  | cons char rest =>
      rw [List.cons_append, startsWithClose_undisturbed (quiet.head_ne (by decide))]
      simp

theorem rule?_lineEnd_beforeClose (closes : startsWithClose after = true)
    (isEnd : isLineEnd char = true) (text : List Char) :
    rule? char (text ++ after) = rule? char text := by
  have isEnd : char = '\r' ∨ char = '\n' := by simpa [isLineEnd] using isEnd
  rcases isEnd with rfl | rfl
  · rw [rule?_eq_lineEnd?, rule?_eq_lineEnd?]
    cases text with
    | nil =>
        obtain ⟨others, rfl⟩ := exists_of_startsWithClose closes
        rfl
    | cons next rest =>
        by_cases isFeed : next = '\n'
        · simp [lineEnd?, isFeed, gutter_beforeClose closes]
        · simp [lineEnd?, isFeed]
  · have found (rest : List Char) : rule? '\n' rest = some ⟨.lineBreak, gutter rest⟩ := rfl
    rw [found, found, gutter_beforeClose closes]

/-- What a slash starts: an opening marker, if a space character follows it. -/
def slash? (text : List Char) : Option Lexeme :=
  match text with
  | '*' :: '*' :: next :: _ => if isSpace next then some ⟨.openDoc, 2⟩ else none
  | _ => none

theorem rule?_eq_slash? (text : List Char) : rule? '/' text = slash? text := rfl

theorem slash?_beforeClose (closes : startsWithClose after = true) (text : List Char) :
    slash? (text ++ after) = slash? text := by
  obtain ⟨others, rfl⟩ := exists_of_startsWithClose closes
  match text with
  | [] => rfl
  | [first] => by_cases isStar : first = '*' <;> simp [slash?, isStar, isSpace]
  | [first, second] =>
      by_cases isStar : first = '*' <;> by_cases areStars : second = '*' <;>
        simp [slash?, isStar, areStars, isSpace]
  | first :: second :: next :: rest =>
      by_cases isStar : first = '*' <;> by_cases areStars : second = '*' <;>
        simp [slash?, isStar, areStars]

theorem first_beforeClose (closes : startsWithClose after = true)
    (quotes : char = '\x27' ∨ char = '\x22' →
      quotedTail? char (text ++ after) = quotedTail? char text) :
    first char (text ++ after) = first char text := by
  have quiet : Quiet after := .inr closes
  have rule : rule? char (text ++ after) = rule? char text := by
    apply rule?_undisturbed quiet
    · rintro (isEnd | rfl | rfl)
      · exact rule?_lineEnd_beforeClose closes isEnd text
      · have found (rest : List Char) : rule? '&' rest = some ⟨ampersandKind rest, 0⟩ := rfl
        rw [found, found, ampersandKind_beforeClose closes]
      · exact slash?_beforeClose closes text
    · intro _ _
      obtain ⟨others, rfl⟩ := exists_of_startsWithClose closes
      simp [isBlank]
    · exact quotes
  rw [first, first, rule, otherTail_undisturbed quiet]

end BeforeClose

/-- A close marker is always cut off as it is spelled. -/
theorem exists_of_closeDoc {char : Char} {rest : List Char}
    (isClose : (first char rest).kind = .closeDoc) :
    char = '*' ∧ ∃ others, rest = '/' :: others ∧ (first char rest).extra = 1 := by
  cases found : rule? char rest with
  | none => simp [first, found] at isClose
  | some lexeme =>
      rw [first_of_rule? found] at isClose ⊢
      cases ruled_of_rule? found with
      | closeDoc => exact ⟨rfl, _, rfl, rfl⟩
      | number _ scanned =>
          rcases Number.scan?_kind scanned with isKind | isKind | ⟨-, isKind⟩ <;>
            simp [isKind] at isClose
      | negative scanned =>
          rcases Number.scan?_kind scanned with isKind | isKind | ⟨-, isKind⟩ <;>
            simp [isKind] at isClose
      | ampersand =>
          rcases ampersandKind_cases rest with isKind | isKind <;> simp [isKind] at isClose
      | variableName isKind => rcases isKind with rfl | rfl <;> cases isClose
      | quoted isQuote => rcases isQuote with ⟨-, rfl⟩ | ⟨-, rfl⟩ <;> cases isClose
      | punctuation isMark =>
          unfold punctuation? at isMark
          split at isMark <;> cases isMark <;> cases isClose
      | _ => cases isClose

end Lexeme

/-- The token that is cut off a text that is not empty. -/
def Token.cut (line : UInt32) (char : Char) (rest : List Char) : Token :=
  ⟨(Lexeme.first char rest).kind,
    String.ofList (char :: rest.take (Lexeme.first char rest).extra), line⟩

theorem scanWithin_succ (fuel : Nat) (line : UInt32) (char : Char) (rest : List Char) :
    scanWithin (fuel + 1) line (char :: rest) = Token.cut line char rest ::
      scanWithin fuel (Token.cut line char rest).nextLine
        (rest.drop (Lexeme.first char rest).extra) := rfl

/-- Where scanning finds a token, it has cut it off the start of the text. -/
theorem exists_of_scanWithin_cons {fuel : Nat} {line : UInt32} {text : List Char} {token : Token}
    {tokens : List Token} (scanned : scanWithin fuel line text = token :: tokens) :
    ∃ char rest fewer, text = char :: rest ∧ fuel = fewer + 1 ∧
      token = Token.cut line char rest ∧
      scanWithin fewer token.nextLine (rest.drop (Lexeme.first char rest).extra) = tokens := by
  cases fuel with
  | zero => cases scanned
  | succ fewer =>
      cases text with
      | nil => cases scanned
      | cons char rest =>
          rw [scanWithin_succ] at scanned
          obtain ⟨rfl, scannedRest⟩ := List.cons.inj scanned
          exact ⟨char, rest, fewer, rfl, rfl, rfl, scannedRest⟩

end Docblock
