import Docblock.Proofs.Document.Lines
import Docblock.Proofs.Locality
import Mathlib.Data.List.DropRight

/-!
# Lines are cut into tokens again

A line keeps its text when a comment is printed, but not its neighbours: the blanks at its end are
gone, and a line feed follows it.  Its lexemes stay the same, up to the few kinds that look at
what follows them, so the printed line is read as the same line.
-/

namespace Docblock

open Text

/-- The kinds of lexemes that are chosen by what follows the lexeme. -/
def TokenKind.isLoose (kind : TokenKind) : Bool :=
  [.reference, .intersection, .openDoc, .other].contains kind

namespace Lexeme

variable {char : Char} {text after : List Char}

/-- Two lexemes have the same length and the same kind, unless their kinds are chosen by what
follows. -/
structure Kin (first second : Lexeme) : Prop where
  extra : first.extra = second.extra
  kind : first.kind = second.kind ∨ first.kind.isLoose = true ∧ second.kind.isLoose = true

namespace Kin

variable {first second third : Lexeme}

theorem refl (lexeme : Lexeme) : Kin lexeme lexeme := ⟨rfl, .inl rfl⟩

theorem symm (kin : Kin first second) : Kin second first :=
  ⟨kin.extra.symm, kin.kind.imp Eq.symm And.symm⟩

theorem trans (kin : Kin first second) (others : Kin second third) : Kin first third := by
  constructor
  · exact kin.extra.trans others.extra
  · rcases kin.kind with same | ⟨isLoose, isLoose'⟩
    · rw [same]
      exact others.kind
    · rcases others.kind with same | ⟨-, isLoose''⟩
      · rw [← same]
        exact .inr ⟨isLoose, isLoose'⟩
      · exact .inr ⟨isLoose, isLoose''⟩

theorem inLine (kin : Kin first second)
    (inLine : Prose.lineEnds.contains first.kind = false) :
    Prose.lineEnds.contains second.kind = false := by
  rcases kin.kind with same | ⟨-, isLoose⟩
  · rwa [← same]
  · generalize second.kind = kind at isLoose
    cases kind <;> first | rfl | cases isLoose

end Kin

theorem opens_first (char : Char) (rest : List Char) :
    opens (first char rest).kind char = true := by
  cases found : rule? char rest with
  | none => simp [first, found, opens]
  | some lexeme =>
      rw [first_of_rule? found]
      exact opens_of_rule? found

/-- Only a line end starts a line break. -/
theorem notBreak_of_inLine (inLine : isLineEnd char = false) (text : List Char) :
    (first char text).kind ≠ .lineBreak := by
  intro isBreak
  have opened := opens_first char text
  rw [isBreak] at opened
  rw [show isLineEnd char = true from opened] at inLine
  cases inLine

/-- A slash is as long as unrecognised text, also where it opens a comment. -/
theorem first_slash (text : List Char) :
    (first '/' text).extra = otherTail text ∧ (first '/' text).kind.isLoose = true := by
  rw [first, rule?_eq_slash?]
  unfold slash?
  split
  · next lexeme found =>
      split at found
      · next next rest =>
          split at found
          · next spaced =>
              cases found
              have notSlash : next ≠ '/' := by
                rintro rfl
                cases spaced
              have stars : startsWithClose ('*' :: '*' :: next :: rest) = false := rfl
              have star : startsWithClose ('*' :: next :: rest) = false := by
                simp [startsWithClose, notSlash]
              have solid : isSpace '*' = false := by decide
              constructor
              · simp [otherTail, stars, star, solid, spaced]
              · rfl
          · cases found
      · cases found
  · exact ⟨rfl, rfl⟩

/-- In front of a quiet text a lexeme of a line is what it is at the end of the text. -/
theorem kin_undisturbed (quiet : Quiet after) (inLine : isLineEnd char = false)
    (blanks : isBlank char = true → text.all isBlank = true →
      ∀ next ∈ after.head?, isBlank next = false)
    (quotes : char = '\x27' ∨ char = '\x22' →
      quotedTail? char (text ++ after) = quotedTail? char text) :
    Kin (first char (text ++ after)) (first char text) := by
  by_cases isAmpersand : char = '&'
  · subst isAmpersand
    have found (rest : List Char) : first '&' rest = ⟨ampersandKind rest, 0⟩ := rfl
    have isLoose (rest : List Char) : (ampersandKind rest).isLoose = true := by
      rcases ampersandKind_cases rest with isKind | isKind <;> rw [isKind] <;> rfl
    rw [found, found]
    exact ⟨rfl, .inr ⟨isLoose _, isLoose _⟩⟩
  by_cases isSlash : char = '/'
  · subst isSlash
    constructor
    · rw [(first_slash _).1, (first_slash _).1, otherTail_undisturbed quiet]
    · exact .inr ⟨(first_slash _).2, (first_slash _).2⟩
  have rule : rule? char (text ++ after) = rule? char text := by
    apply rule?_undisturbed quiet _ blanks quotes
    rintro (isEnd | isSpecial | isSpecial)
    · rw [inLine] at isEnd
      cases isEnd
    · exact absurd isSpecial isAmpersand
    · exact absurd isSpecial isSlash
  rw [first, first, rule, otherTail_undisturbed quiet]
  exact .refl _

/-- Where a line ends, a lexeme of the line is what it is at the end of the text. -/
theorem kin_inLine (inLine : isLineEnd char = false) {lineEnd : Char}
    (isEnd : isLineEnd lineEnd = true) :
    Kin (first char (text ++ lineEnd :: after)) (first char text) := by
  have isEnd' : lineEnd = '\r' ∨ lineEnd = '\n' := by simpa [isLineEnd] using isEnd
  apply kin_undisturbed _ inLine
  · intro _ _ next isNext
    obtain rfl := Option.some.inj isNext
    rcases isEnd' with rfl | rfl <;> rfl
  · intro _
    apply quotedTail?_inLine inLine
    simpa using isEnd
  · left
    intro next isNext
    obtain rfl := Option.some.inj isNext
    rcases isEnd' with rfl | rfl <;> rfl

/-- A lexeme of a line does not reach beyond the line. -/
theorem extra_le_of_lineFeed (inLine : isLineEnd char = false) (text after : List Char) :
    (first char (text ++ '\n' :: after)).extra ≤ text.length := by
  by_contra beyond
  have counted := count_lineFeed_first char (text ++ '\n' :: after)
  rw [if_neg (notBreak_of_inLine inLine _), List.count_eq_zero] at counted
  apply counted
  rw [List.take_append]
  have reaches : 0 < (first char (text ++ '\n' :: after)).extra - text.length := by omega
  obtain ⟨more, isMore⟩ := Nat.exists_eq_succ_of_ne_zero (Nat.ne_of_gt reaches)
  simp [isMore]

theorem gutter_le_length (text : List Char) : gutter text ≤ text.length := by
  have short : runLength isBlank text ≤ text.length := (List.takeWhile_prefix _).length_le
  unfold gutter
  simp only
  split
  · next isStar =>
      obtain ⟨others, isRest⟩ := List.head?_eq_some_iff.mp isStar.1
      have length := congrArg List.length isRest
      simp only [List.length_drop, List.length_cons] at length
      omega
  · exact short

/-- A lexeme does not reach beyond the text. -/
theorem extra_le_length (char : Char) (text : List Char) :
    (first char text).extra ≤ text.length := by
  by_cases inLine : isLineEnd char = false
  · -- behind the text a line feed would end the lexeme, and it is no longer without one
    have kin : Kin (first char (text ++ '\n' :: [])) (first char text) := kin_inLine inLine rfl
    rw [← kin.extra]
    exact extra_le_of_lineFeed inLine text []
  · have isEnd : char = '\r' ∨ char = '\n' := by
      simpa [isLineEnd, or_iff_not_imp_left] using inLine
    rcases isEnd with rfl | rfl
    · unfold first
      rw [rule?_eq_lineEnd?]
      cases text with
      | nil => exact Nat.le_refl 0
      | cons next rest =>
          by_cases isFeed : next = '\n'
          · have short := gutter_le_length rest
            simp only [lineEnd?, isFeed, List.length_cons]
            omega
          · simp [lineEnd?, isFeed, isSpace]
    · exact gutter_le_length text

/-- A quoted text is one lexeme. -/
theorem first_quoted {size : Nat} (isQuote : char = '\x27' ∨ char = '\x22')
    (found : quotedTail? char text = some size) : (first char text).extra = size := by
  rcases isQuote with rfl | rfl
  · have rule : rule? '\x27' text =
        (quotedTail? '\x27' text).map fun size => ⟨.singleQuoted, size⟩ := rfl
    rw [found] at rule
    rw [first_of_rule? rule]
  · have rule : rule? '\x22' text =
        (quotedTail? '\x22' text).map fun size => ⟨.doubleQuoted, size⟩ := rfl
    rw [found] at rule
    rw [first_of_rule? rule]

/-- A lexeme of a line ends with a blank only if it starts with one. -/
theorem solid_getLast_first (solid : isBlank char = false) (inLine : isLineEnd char = false)
    (rest : List Char) :
    ∀ last ∈ (char :: rest.take (first char rest).extra).getLast?, isBlank last = false := by
  intro last isLast
  cases taken : (rest.take (first char rest).extra).getLast? with
  | none =>
      rw [List.getLast?_cons, taken, Option.getD_none, Option.mem_some_iff] at isLast
      rwa [← isLast]
  | some found =>
      rw [List.getLast?_cons, taken, Option.getD_some, Option.mem_some_iff] at isLast
      subst isLast
      obtain ⟨front, isTaken⟩ := List.getLast?_eq_some_iff.mp taken
      have length : front.length + 1 = (first char rest).extra := by
        have lengths := congrArg List.length isTaken
        have short := extra_le_length char rest
        simp only [List.length_take, List.length_append, List.length_singleton] at lengths
        omega
      have isRest : rest = front ++ found :: rest.drop (first char rest).extra := by
        rw [← List.singleton_append, ← List.append_assoc, ← isTaken, List.take_append_drop]
      by_contra blank
      rw [Bool.not_eq_false] at blank
      by_cases quoted : (char = '\x27' ∨ char = '\x22') ∧ ∃ size, quotedTail? char rest = some size
      · -- the last character of a quoted text is its quote
        obtain ⟨isQuote, size, isTail⟩ := quoted
        have isLast := getElem?_quotedTail? isTail
        rw [← first_quoted isQuote isTail, ← length, isRest] at isLast
        simp only [Nat.add_sub_cancel, List.getElem?_append_right (Nat.le_refl _), Nat.sub_self,
          List.getElem?_cons_zero, Option.some.injEq] at isLast
        rw [← isLast, blank] at solid
        cases solid
      · -- any other lexeme would have ended in front of the blank
        have kin : Kin (first char rest) (first char front) := by
          rw [isRest]
          apply kin_undisturbed _ inLine
          · intro isBlank
            rw [solid] at isBlank
            cases isBlank
          · intro isQuote
            have unclosed : quotedTail? char rest = none := by
              cases isTail : quotedTail? char rest with
              | none => rfl
              | some size => exact absurd ⟨isQuote, size, isTail⟩ quoted
            rw [← isRest, unclosed]
            cases isTail : quotedTail? char front with
            | none => rfl
            | some size =>
                have again := quotedTail?_append isTail (found :: rest.drop (first char rest).extra)
                rw [← isRest, unclosed] at again
                cases again
          · have spacing : isSpace found = true := by
              rcases (by simpa [isBlank] using blank : found = ' ' ∨ found = '\t') with rfl | rfl
              · rfl
              · rfl
            exact .inl fun _ isHead => Option.some.inj isHead ▸ spacing
        have short := extra_le_length char front
        have same := kin.extra
        omega

/-- Behind its first character a lexeme of a line has no line ends. -/
theorem inLine_first (inLine : isLineEnd char = false) (rest : List Char) :
    ∀ other ∈ rest.take (first char rest).extra, isLineEnd other = false := by
  intro other isMember
  apply Bool.eq_false_iff.mpr
  intro isEnd
  obtain ⟨before, behind, isTaken⟩ := List.append_of_mem isMember
  have isRest : rest = before ++ other :: (behind ++ rest.drop (first char rest).extra) := by
    calc rest = rest.take (first char rest).extra ++ rest.drop (first char rest).extra :=
          (List.take_append_drop _ _).symm
      _ = _ := by rw [isTaken, List.append_assoc, List.cons_append]
  have reached : before.length < (first char rest).extra := by
    have length := congrArg List.length isTaken
    simp only [List.length_take, List.length_append, List.length_cons] at length
    omega
  -- with a line feed in place of the line end the lexeme would reach beyond it just as well
  have kin : Kin (first char rest) (first char before) := by
    rw [isRest]
    exact kin_inLine inLine isEnd
  have kin' : Kin (first char (before ++ '\n' :: behind)) (first char before) :=
    kin_inLine inLine rfl
  have bound := extra_le_of_lineFeed inLine before behind
  rw [kin'.extra, ← kin.extra] at bound
  omega

end Lexeme

/-- The tokens of a text whose first line has the given number. -/
def scanFrom (line : UInt32) (text : List Char) : List Token := scanWithin text.length line text

theorem scanWithin_enough {fuel fuel' : Nat} {text : List Char} (line : UInt32)
    (enough : text.length ≤ fuel) (enough' : text.length ≤ fuel') :
    scanWithin fuel line text = scanWithin fuel' line text := by
  induction fuel generalizing line text fuel' with
  | zero =>
      obtain rfl := List.length_eq_zero_iff.mp (Nat.le_zero.mp enough)
      cases fuel' <;> rfl
  | succ fuel induction =>
      cases text with
      | nil => cases fuel' <;> rfl
      | cons char rest =>
          obtain ⟨fuel', rfl⟩ := Nat.exists_eq_succ_of_ne_zero (Nat.ne_zero_of_lt enough')
          rw [List.length_cons, Nat.succ_le_succ_iff] at enough enough'
          rw [scanWithin_succ, scanWithin_succ]
          congr 1
          apply induction
          · exact Nat.le_trans (by simp) enough
          · exact Nat.le_trans (by simp) enough'

theorem scanFrom_cons (line : UInt32) (char : Char) (rest : List Char) :
    scanFrom line (char :: rest) = Token.cut line char rest ::
      scanFrom (Token.cut line char rest).nextLine (rest.drop (Lexeme.first char rest).extra) := by
  rw [scanFrom, List.length_cons, scanWithin_succ, scanFrom,
    scanWithin_enough _ (by simp) (Nat.le_refl _)]

/-- The tokens of a text that does not start with a blank do not start with one either. -/
theorem solid_scanFrom {text : List Char} (solid : ∀ char ∈ text.head?, isBlank char = false)
    (line : UInt32) : ∀ token ∈ (scanFrom line text).head?, token.kind ≠ .blank := by
  intro token isHead blank
  obtain ⟨char, rest, rfl, isKind⟩ := head_scanWithin isHead
  have isBlank := Lexeme.kind_first_eq_blank (isKind.symm.trans blank)
  rw [solid char rfl] at isBlank
  cases isBlank

/-- In front of a line feed a text starts as before. -/
theorem solidHead_append {text : List Char} (solid : ∀ char ∈ text.head?, isBlank char = false)
    (after : List Char) : ∀ char ∈ (text ++ '\n' :: after).head?, isBlank char = false := by
  cases text with
  | nil => simp [isBlank]
  | cons char rest => exact solid

theorem exists_tokenize_eq_scanFrom (source : String) :
    ∃ line, tokenize source = scanFrom 1 source.toList ++ [Token.finish line] :=
  exists_tokenize_eq source

/-- Where scanning finds tokens, it has cut them off the start of the text and goes on behind
them. -/
theorem exists_of_scanFrom_append {line : UInt32} {text : List Char} {before after : List Token}
    (scanned : scanFrom line text = before ++ after) :
    ∃ rest line', text = (TokenList.text before).toList ++ rest ∧ after = scanFrom line' rest := by
  induction before generalizing line text with
  | nil => exact ⟨text, line, by simp, scanned.symm⟩
  | cons token before induction =>
      cases text with
      | nil => cases scanned
      | cons char rest =>
          rw [scanFrom_cons, List.cons_append] at scanned
          obtain ⟨rfl, scannedRest⟩ := List.cons.inj scanned
          obtain ⟨remaining, line', isRest, isAfter⟩ := induction scannedRest
          refine ⟨remaining, line', ?_, isAfter⟩
          rw [TokenList.text_cons, String.toList_append, List.append_assoc, ← isRest, Token.cut,
            String.toList_ofList, List.cons_append, List.take_append_drop]

/-- Every carriage return in the text is followed by a line feed. -/
def PairedReturns (text : List Char) : Prop :=
  ∀ front after, text = front ++ '\r' :: after → after.head? = some '\n'

theorem PairedReturns.drop {front rest : List Char} (paired : PairedReturns (front ++ rest)) :
    PairedReturns rest := by
  intro before after isRest
  apply paired (front ++ before)
  rw [isRest, List.append_assoc]

theorem PairedReturns.tail {char : Char} {rest : List Char}
    (paired : PairedReturns (char :: rest)) : PairedReturns rest := by
  rw [← List.singleton_append] at paired
  exact paired.drop

theorem pairedReturns_cons_iff (char : Char) (rest : List Char) :
    PairedReturns (char :: rest) ↔
      (char = '\r' → rest.head? = some '\n') ∧ PairedReturns rest := by
  constructor
  · intro paired
    constructor
    · rintro rfl
      exact paired [] rest rfl
    · exact paired.tail
  · rintro ⟨first, others⟩ front after isText
    cases front with
    | nil =>
        obtain ⟨rfl, rfl⟩ := List.cons.inj isText
        exact first rfl
    | cons _ front => exact others front after (List.cons.inj isText).2

instance decidablePairedReturns : (text : List Char) → Decidable (PairedReturns text)
  | [] => isTrue fun front after isText => by simp at isText
  | char :: rest =>
      have := decidablePairedReturns rest
      decidable_of_iff _ (pairedReturns_cons_iff char rest).symm

/-- In a text with paired returns only line breaks have line ends. -/
theorem inLine_of_mem_scanFrom {line : UInt32} {text : List Char} (paired : PairedReturns text)
    {token : Token} (isMember : token ∈ scanFrom line text) (notBreak : token.kind ≠ .lineBreak) :
    ∀ char ∈ token.value.toList, Lexeme.isLineEnd char = false := by
  obtain ⟨before, after, scanned⟩ := List.append_of_mem isMember
  obtain ⟨remaining, line', rfl, isCons⟩ := exists_of_scanFrom_append scanned
  have paired := paired.drop
  cases remaining with
  | nil => cases isCons
  | cons first rest =>
      rw [scanFrom_cons] at isCons
      obtain ⟨rfl, -⟩ := List.cons.inj isCons
      have inLine : Lexeme.isLineEnd first = false := by
        apply Bool.eq_false_iff.mpr
        intro isEnd
        have isEnd : first = '\r' ∨ first = '\n' := by simpa [Lexeme.isLineEnd] using isEnd
        apply notBreak
        rcases isEnd with rfl | rfl
        · obtain ⟨others, rfl⟩ := List.head?_eq_some_iff.mp (paired [] rest rfl)
          rfl
        · rfl
      rw [Token.cut, String.toList_ofList]
      intro char isMember
      rcases List.mem_cons.mp isMember with rfl | isLater
      · exact inLine
      · exact Lexeme.inLine_first inLine rest char isLater

section Rescanning

open Lexeme

variable {line : UInt32} {char : Char} {text blanks rest : List Char} {tokens others : List Token}

theorem quiet_blanks (areBlank : ∀ char ∈ blanks, isBlank char = true) (quiet : Quiet rest) :
    Quiet (blanks ++ rest) := by
  cases blanks with
  | nil => exact quiet
  | cons blank blanks =>
      left
      intro char isHead
      obtain rfl := Option.some.inj isHead
      rcases isBlank_iff.mp (areBlank blank List.mem_cons_self) with rfl | rfl <;> rfl

/-- The length of a quoted text is that of its lexeme. -/
theorem extra_first_quote {size : Nat} (quotes : char = '\x27' ∨ char = '\x22')
    (found : quotedTail? char text = some size) : (first char text).extra = size := by
  rcases quotes with rfl | rfl
  · have rule : rule? '\x27' text = (quotedTail? '\x27' text).map (⟨.singleQuoted, ·⟩) := rfl
    rw [found] at rule
    rw [first_of_rule? rule]
  · have rule : rule? '\x22' text = (quotedTail? '\x22' text).map (⟨.doubleQuoted, ·⟩) := rfl
    rw [found] at rule
    rw [first_of_rule? rule]

/-- A lexeme that lies in a line, blanks at its end included, stays the same if a line feed takes
the place of the blanks. -/
theorem kin_lineFeed (areBlank : ∀ char ∈ blanks, isBlank char = true) (quiet : Quiet rest)
    (inLine : isLineEnd char = false) (solid : (char :: text).all isBlank = false)
    (within : ((text ++ (blanks ++ rest)).take (first char (text ++ (blanks ++ rest))).extra).length
      ≤ (text ++ blanks).length) (after : List Char) :
    Kin (first char (text ++ (blanks ++ rest))) (first char (text ++ '\n' :: after)) := by
  have kin : Kin (first char (text ++ (blanks ++ rest))) (first char text) := by
    apply kin_undisturbed (quiet_blanks areBlank quiet) inLine
    · intro isBlank allBlank
      rw [List.all_cons, isBlank, allBlank] at solid
      cases solid
    · intro quotes
      have unquoted : char ∉ blanks := by
        intro isMember
        rcases quotes with rfl | rfl <;> cases areBlank _ isMember
      have withoutRest : quotedTail? char (text ++ blanks ++ rest) =
          quotedTail? char (text ++ blanks) := by
        apply quotedTail?_within
        intro size found
        rw [List.append_assoc] at found
        have short := (quotedTail?_take_append found []).1
        rw [extra_first_quote quotes found, List.length_take, Nat.min_eq_left short] at within
        exact within
      rw [← List.append_assoc, withoutRest]
      cases found : quotedTail? char text with
      | some size => exact quotedTail?_append found blanks
      | none => exact quotedTail?_unclosed found unquoted
  have kin' : Kin (first char (text ++ '\n' :: after)) (first char text) := kin_inLine inLine rfl
  exact kin.trans kin'.symm

/-- In front of a line feed a lexeme of the line is cut off, and the line goes on. -/
theorem scanFrom_inLine (inLine : isLineEnd char = false) (line : UInt32) (text after : List Char)
    {lexeme : Lexeme} (isFirst : first char (text ++ '\n' :: after) = lexeme) :
    scanFrom line (char :: (text ++ '\n' :: after)) =
      ⟨lexeme.kind, String.ofList (char :: text.take lexeme.extra), line⟩ ::
        scanFrom line (text.drop lexeme.extra ++ '\n' :: after) := by
  subst isFirst
  have bound := extra_le_of_lineFeed inLine text after
  have sameLine : (Token.cut line char (text ++ '\n' :: after)).nextLine = line :=
    if_neg (notBreak_of_inLine inLine _)
  rw [scanFrom_cons, sameLine, List.drop_append_of_le_length bound, Token.cut,
    List.take_append_of_le_length bound]

/-- A token has the text, and the kind up to what is chosen by what follows it. -/
structure Token.Resembles (token : Token) (kind : TokenKind) (value : String) : Prop where
  value : token.value = value
  kind : token.kind = kind ∨ token.kind.isLoose = true ∧ kind.isLoose = true

/-- A token that is not of a firm kind does not resemble one. -/
theorem Token.Resembles.kind_ne {token : Token} {kind : TokenKind} {value : String}
    (resembles : token.Resembles kind value) {firm : TokenKind} (isFirm : firm.isLoose = false)
    (differs : token.kind ≠ firm) : kind ≠ firm := by
  rintro rfl
  rcases resembles.kind with same | ⟨-, isLoose⟩
  · exact differs same
  · rw [isFirm] at isLoose
    cases isLoose

/-- The tokens of a line are cut off again in front of a line feed, without the blanks at the end
of the line. -/
theorem exists_rescanned (areBlank : ∀ char ∈ blanks, isBlank char = true) (quiet : Quiet rest)
    (scanned : scanFrom line (text ++ (blanks ++ rest)) = tokens ++ others)
    (isText : (TokenList.text tokens).toList = text ++ blanks)
    (solid : ∀ char ∈ text.getLast?, isBlank char = false)
    (inLine : ∀ char ∈ text, isLineEnd char = false)
    (kinds : ∀ token ∈ tokens, Prose.lineEnds.contains token.kind = false)
    (line' : UInt32) (after : List Char) :
    ∃ tokens', scanFrom line' (text ++ '\n' :: after) = tokens' ++ scanFrom line' ('\n' :: after) ∧
      (TokenList.text tokens').toList = text ∧
      (∀ token ∈ tokens', Prose.lineEnds.contains token.kind = false) ∧
      ∀ token ∈ tokens'.head?, ∀ token' ∈ tokens.head?,
        token'.Resembles token.kind token.value := by
  induction tokens generalizing text line with
  | nil =>
      obtain ⟨rfl, -⟩ := List.append_eq_nil_iff.mp isText.symm
      exact ⟨[], rfl, rfl, by simp, by simp⟩
  | cons token tokens induction =>
      cases text with
      | nil => exact ⟨[], rfl, rfl, by simp, by simp⟩
      | cons char text =>
          rw [List.cons_append, scanFrom_cons, List.cons_append] at scanned
          obtain ⟨isCut, scannedRest⟩ := List.cons.inj scanned
          have charInLine := inLine char List.mem_cons_self
          have notBlank : (char :: text).all isBlank = false := by
            apply Bool.eq_false_iff.mpr
            intro allBlank
            have last := solid _ (List.getLast?_eq_some_getLast (List.cons_ne_nil char text))
            rw [List.all_eq_true.mp allBlank _ (List.getLast_mem _)] at last
            cases last
          rw [← isCut, TokenList.text_cons, String.toList_append, Token.cut, String.toList_ofList,
            List.cons_append, List.cons_append, List.cons.injEq] at isText
          have within : ((text ++ (blanks ++ rest)).take
              (first char (text ++ (blanks ++ rest))).extra).length ≤ (text ++ blanks).length := by
            rw [← isText.2, List.length_append]
            exact Nat.le_add_right _ _
          have kin := kin_lineFeed areBlank quiet charInLine notBlank within after
          have bound := extra_le_of_lineFeed charInLine text after
          generalize isAgain : first char (text ++ '\n' :: after) = lexeme at kin bound
          rw [kin.extra, List.take_append_of_le_length bound] at isText
          rw [kin.extra, List.drop_append_of_le_length bound] at scannedRest
          have isRest : (TokenList.text tokens).toList = text.drop lexeme.extra ++ blanks := by
            rw [← List.append_cancel_left_eq (text.take lexeme.extra), isText.2,
              ← List.append_assoc, List.take_append_drop]
          have solidRest : ∀ char ∈ (text.drop lexeme.extra).getLast?, isBlank char = false := by
            intro last isLast
            apply solid
            rw [List.getLast?_drop] at isLast
            split at isLast
            · cases isLast
            · rw [List.getLast?_cons, isLast]
              rfl
          obtain ⟨again, scannedAgain, textAgain, inLineAgain, -⟩ := induction scannedRest isRest
            solidRest (fun other isMember => inLine other
              (List.mem_cons_of_mem _ (List.mem_of_mem_drop isMember)))
            fun other isMember => kinds other (List.mem_cons_of_mem _ isMember)
          refine ⟨⟨lexeme.kind, String.ofList (char :: text.take lexeme.extra), line'⟩ :: again,
            ?_, ?_, ?_, ?_⟩
          · rw [List.cons_append, scanFrom_inLine charInLine line' text after isAgain, scannedAgain,
              List.cons_append]
          · rw [TokenList.text_cons, String.toList_append, textAgain, String.toList_ofList,
              List.cons_append, List.take_append_drop]
          · intro other isMember
            rcases List.mem_cons.mp isMember with rfl | isLater
            · apply kin.inLine
              have ofToken := kinds token List.mem_cons_self
              rwa [← isCut] at ofToken
            · exact inLineAgain other isLater
          · intro other isOther token' isToken
            obtain rfl := Option.some.inj isOther
            obtain rfl := Option.some.inj isToken
            rw [← isCut]
            refine ⟨?_, kin.kind⟩
            rw [Token.cut, kin.extra, List.take_append_of_le_length bound]

end Rescanning

namespace TokenList

/-- The tokens are what is left of the tokens of a text with paired returns. -/
def Remains (tokens : List Token) : Prop :=
  ∃ line text last, PairedReturns text ∧ tokens = scanFrom line text ++ [Token.finish last]

variable {token : Token} {tokens rest : List Token}

theorem remains_tokenize {source : String} (paired : PairedReturns source.toList) :
    Remains (tokenize source) := by
  obtain ⟨last, isTokenized⟩ := exists_tokenize_eq_scanFrom source
  exact ⟨1, source.toList, last, paired, isTokenized⟩

theorem Remains.tail (remains : Remains (token :: rest)) (more : token.kind ≠ .finish) :
    Remains rest := by
  obtain ⟨line, text, last, paired, isRemaining⟩ := remains
  cases text with
  | nil =>
      obtain ⟨rfl, -⟩ := List.cons.inj isRemaining
      exact absurd rfl more
  | cons char text =>
      rw [scanFrom_cons, List.cons_append] at isRemaining
      obtain ⟨rfl, rfl⟩ := List.cons.inj isRemaining
      refine ⟨_, _, last, ?_, rfl⟩
      rw [← List.take_append_drop (Lexeme.first char text).extra text, ← List.cons_append] at paired
      exact paired.drop

theorem Remains.drop (remains : Remains tokens) {place : Nat} (inside : place < tokens.length) :
    Remains (tokens.drop place) := by
  obtain ⟨line, text, last, paired, rfl⟩ := remains
  rw [List.length_append] at inside
  obtain ⟨rest, line', isText, isRest⟩ :=
    exists_of_scanFrom_append (List.take_append_drop place (scanFrom line text)).symm
  rw [isText] at paired
  refine ⟨line', rest, last, paired.drop, ?_⟩
  rw [List.drop_append_of_le_length (Nat.le_of_lt_succ inside), isRest]

theorem Remains.singleBlanks (remains : Remains tokens) : SingleBlanks tokens := by
  obtain ⟨line, text, last, -, rfl⟩ := remains
  refine List.isChain_append.mpr ⟨singleBlanks_scanWithin _ _ _, .singleton _, ?_⟩
  intro _ _ next isNext _
  obtain rfl : Token.finish last = next := by simpa using isNext
  exact TokenKind.noConfusion

theorem Remains.behindBlank (remains : Remains tokens) : Remains (behindBlank tokens) := by
  cases tokens with
  | nil => exact remains
  | cons token rest =>
      rw [TokenList.behindBlank]
      split
      · next isBlank =>
          apply remains.tail
          rw [isBlank]
          decide
      · exact remains

theorem behindBlank_subset (tokens : List Token) : TokenList.behindBlank tokens ⊆ tokens := by
  cases tokens with
  | nil => exact List.Subset.refl _
  | cons token rest =>
      rw [TokenList.behindBlank]
      split
      · exact List.subset_cons_self _ _
      · exact List.Subset.refl _

/-- Behind one blank there is no other. -/
theorem Remains.behindBlank_solid (remains : Remains tokens) :
    ∀ token ∈ (TokenList.behindBlank tokens).head?, token.kind ≠ .blank := by
  intro first isFirst
  cases tokens with
  | nil => cases isFirst
  | cons token rest =>
      rw [TokenList.behindBlank] at isFirst
      split at isFirst
      · next isBlank =>
          cases rest with
          | nil => cases isFirst
          | cons next rest =>
              obtain rfl := Option.some.inj isFirst
              exact (List.isChain_cons_cons.mp remains.singleBlanks).1 isBlank
      · next solid =>
          obtain rfl := Option.some.inj isFirst
          exact solid

end TokenList

/-- A text of one line, without blanks around it, that is cut into tokens again in front of a line
feed.  It starts with a token as described. -/
structure Recut (text : List Char) (starts : TokenKind → String → Prop) : Prop where
  solidHead : ∀ char ∈ text.head?, isBlank char = false
  solidEnd : ∀ char ∈ text.getLast?, isBlank char = false
  inLine : ∀ char ∈ text, Lexeme.isLineEnd char = false
  again : ∀ line after, ∃ tokens,
    scanFrom line (text ++ '\n' :: after) = tokens ++ scanFrom line ('\n' :: after) ∧
      (TokenList.text tokens).toList = text ∧
      (∀ token ∈ tokens, Prose.lineEnds.contains token.kind = false) ∧
      ∀ token ∈ tokens.head?, starts token.kind token.value

theorem Recut.nil {starts : TokenKind → String → Prop} : Recut [] starts where
  solidHead := by simp
  solidEnd := by simp
  inLine := by simp
  again line after := ⟨[], rfl, rfl, by simp, by simp⟩

theorem Recut.imp {text : List Char} {starts starts' : TokenKind → String → Prop}
    (recut : Recut text starts) (implies : ∀ kind value, starts kind value → starts' kind value) :
    Recut text starts' where
  solidHead := recut.solidHead
  solidEnd := recut.solidEnd
  inLine := recut.inLine
  again line after := by
    obtain ⟨tokens, scanned, isText, inLine, starts⟩ := recut.again line after
    exact ⟨tokens, scanned, isText, inLine, fun token isHead =>
      implies _ _ (starts token isHead)⟩

/-- The first token of a text is of a kind that its first character opens. -/
theorem Recut.opened {text : List Char} {starts : TokenKind → String → Prop}
    (recut : Recut text starts) : Recut text fun kind value =>
      starts kind value ∧ ∃ char ∈ text.head?, Lexeme.opens kind char = true where
  solidHead := recut.solidHead
  solidEnd := recut.solidEnd
  inLine := recut.inLine
  again line after := by
    obtain ⟨tokens, scanned, isText, inLine, starts⟩ := recut.again line after
    refine ⟨tokens, scanned, isText, inLine, fun token isHead => ⟨starts token isHead, ?_⟩⟩
    cases text with
    | nil =>
        rw [List.nil_append, List.self_eq_append_left] at scanned
        rw [scanned] at isHead
        cases isHead
    | cons char rest =>
        obtain ⟨others, rfl⟩ := List.head?_eq_some_iff.mp isHead
        rw [List.cons_append, scanFrom_cons] at scanned
        rw [← (List.cons.inj scanned).1]
        exact ⟨char, rfl, Lexeme.opens_first char _⟩

/-- A text that starts with the end of a line goes on quietly. -/
theorem quiet_of_lineEnd {line : UInt32} {rest : List Char}
    (ends : ∀ token ∈ (scanFrom line rest).head?, Prose.lineEnds.contains token.kind = true) :
    Lexeme.Quiet rest := by
  cases rest with
  | nil => exact .inl (by simp)
  | cons char rest =>
      have isEnd := ends (Token.cut line char rest) (by rw [scanFrom_cons]; rfl)
      simp only [Prose.lineEnds_contains_iff, List.mem_cons, List.not_mem_nil, or_false] at isEnd
      rcases isEnd with isBreak | isClose | isFinish
      · left
        intro other isOther
        obtain rfl := Option.some.inj isOther
        have opened := Lexeme.opens_first char rest
        rw [show (Lexeme.first char rest).kind = .lineBreak from isBreak] at opened
        have isEnd : char = '\r' ∨ char = '\n' := by
          simpa [Lexeme.opens, Lexeme.isLineEnd] using opened
        rcases isEnd with rfl | rfl <;> rfl
      · obtain ⟨rfl, others, rfl, -⟩ := Lexeme.exists_of_closeDoc isClose
        exact .inr rfl
      · exact absurd isFinish (Lexeme.kind_first_ne_finish char rest)

namespace TokenList

variable {tokens : List Token}

theorem line_append_finish (tokens : List Token) (last : UInt32) :
    line (tokens ++ [Token.finish last]) = line tokens := by
  rw [line, line, List.takeWhile_append]
  split
  · next whole =>
      have ends : Prose.lineEnds.contains (Token.finish last).kind = true := by
        show Prose.lineEnds.contains .finish = true
        decide
      rw [List.takeWhile_cons, ends]
      simpa using (List.takeWhile_prefix _).eq_of_length whole |>.symm
  · rfl

theorem inLine_of_mem_line {token : Token} (isMember : token ∈ line tokens) :
    Prose.lineEnds.contains token.kind = false := by
  simpa using List.mem_takeWhile_imp isMember

theorem head?_of_line {token : Token} (isHead : token ∈ (line tokens).head?) :
    token ∈ tokens.head? := by
  cases tokens with
  | nil => cases isHead
  | cons first rest =>
      rw [line, List.takeWhile_cons] at isHead
      split at isHead
      · exact isHead
      · cases isHead

/-- The first line of the tokens, in the text from which they were cut. -/
theorem Remains.exists_line (remains : Remains tokens) :
    ∃ number rest others,
      scanFrom number ((text (line tokens)).toList ++ rest) = line tokens ++ others ∧
      Lexeme.Quiet rest ∧ ∀ char ∈ (text (line tokens)).toList, Lexeme.isLineEnd char = false := by
  obtain ⟨number, source, last, paired, rfl⟩ := remains
  rw [line_append_finish]
  have isSplit : scanFrom number source = line (scanFrom number source) ++
      (scanFrom number source).dropWhile fun token => !Prose.lineEnds.contains token.kind :=
    List.takeWhile_append_dropWhile.symm
  obtain ⟨rest, number', isSource, isRest⟩ := exists_of_scanFrom_append isSplit
  refine ⟨number, rest, _, by rw [← isSource]; exact isSplit, ?_, ?_⟩
  · apply quiet_of_lineEnd
    intro token isHead
    rw [← isRest] at isHead
    have stops := List.head?_dropWhile_not
      (fun token : Token => !Prose.lineEnds.contains token.kind) (scanFrom number source)
    rw [Option.mem_def.mp isHead] at stops
    simpa using stops
  · intro char isMember
    rw [toList_text, List.mem_flatMap] at isMember
    obtain ⟨token, isToken, isChar⟩ := isMember
    have inLine := inLine_of_mem_line isToken
    have isScanned : token ∈ scanFrom number source := (List.takeWhile_prefix _).subset isToken
    apply inLine_of_mem_scanFrom paired isScanned _ char isChar
    intro isBreak
    rw [isBreak] at inLine
    exact absurd inLine (by decide)

/-- The text of a line is cut into tokens again. -/
theorem Remains.recut (remains : Remains tokens)
    (solid : ∀ token ∈ tokens.head?, token.kind ≠ .blank) :
    Recut (lineText tokens).toList
      (fun kind value => ∃ token ∈ tokens.head?, token.Resembles kind value) := by
  obtain ⟨number, rest, others, scanned, quiet, inLine⟩ := remains.exists_line
  have isTrimmed : (lineText tokens).toList = (text (line tokens)).toList.rdropWhile isBlank := by
    rw [lineText, trimEnd, String.toList_ofList]
    rfl
  have isText : (text (line tokens)).toList = (lineText tokens).toList ++
      (text (line tokens)).toList.rtakeWhile isBlank := by
    rw [isTrimmed, List.rdropWhile_append_rtakeWhile]
  have areBlank : ∀ char ∈ (text (line tokens)).toList.rtakeWhile isBlank, isBlank char = true :=
    fun _ => List.mem_rtakeWhile_imp
  generalize (text (line tokens)).toList.rtakeWhile isBlank = blanks at isText areBlank
  rw [isText, List.append_assoc] at scanned
  have solidEnd : ∀ char ∈ (lineText tokens).toList.getLast?, isBlank char = false := by
    rw [isTrimmed]
    intro char isLast
    obtain ⟨notEmpty, rfl⟩ := List.mem_getLast?_eq_getLast isLast
    simpa using List.rdropWhile_last_not isBlank (text (line tokens)).toList notEmpty
  have textInLine : ∀ char ∈ (lineText tokens).toList, Lexeme.isLineEnd char = false := by
    intro char isMember
    apply inLine
    rw [isText]
    exact List.mem_append_left _ isMember
  have exists_head (notEmpty : (lineText tokens).toList ≠ []) :
      ∃ token, token ∈ (line tokens).head? := by
    cases isLine : line tokens with
    | nil =>
        rw [isLine] at isText
        exact absurd (List.append_eq_nil_iff.mp isText.symm).1 notEmpty
    | cons token rest => exact ⟨token, rfl⟩
  constructor
  · intro char isHead
    obtain ⟨more, isCons⟩ := List.head?_eq_some_iff.mp isHead
    obtain ⟨token, isToken⟩ := exists_head (by rw [isCons]; exact List.cons_ne_nil _ _)
    obtain ⟨others', isLine⟩ := List.head?_eq_some_iff.mp isToken
    rw [isCons, isLine, List.cons_append, List.cons_append, scanFrom_cons] at scanned
    obtain ⟨isCut, -⟩ := List.cons.inj scanned
    apply Bool.eq_false_iff.mpr
    intro isBlank
    apply solid token (head?_of_line isToken)
    rw [← isCut, Token.cut, Lexeme.first_blank isBlank]
  · exact solidEnd
  · exact textInLine
  · intro number' after
    obtain ⟨again, scannedAgain, isAgain, inLineAgain, same⟩ := exists_rescanned areBlank quiet
      scanned isText solidEnd textInLine (fun _ => inLine_of_mem_line) number' after
    refine ⟨again, scannedAgain, isAgain, inLineAgain, ?_⟩
    intro token isHead
    have notEmpty : (lineText tokens).toList ≠ [] := by
      intro isEmpty
      rw [isEmpty, List.nil_append, List.self_eq_append_left] at scannedAgain
      rw [scannedAgain] at isHead
      cases isHead
    obtain ⟨token', isToken⟩ := exists_head notEmpty
    exact ⟨token', head?_of_line isToken, same token isHead token' isToken⟩

section Append

variable {behind : List Token}
  (inLine : ∀ token ∈ tokens, Prose.lineEnds.contains token.kind = false)
  (ends : ∀ token ∈ behind.head?, Prose.lineEnds.contains token.kind = true)

include inLine ends

theorem line_append : line (tokens ++ behind) = tokens := by
  have stops : line behind = [] := by
    cases behind with
    | nil => rfl
    | cons token rest => rw [line, List.takeWhile_cons, ends token rfl]; rfl
  rw [line, List.takeWhile_append_of_pos (by simpa using inLine)]
  exact (congrArg (tokens ++ ·) stops).trans (List.append_nil _)

theorem lineText_append : lineText (tokens ++ behind) = trimEnd isBlank (text tokens) := by
  rw [lineText, line_append inLine ends]

end Append

end TokenList

/-- The tokens of a line of text are read as the text. -/
theorem Recut.lineText_eq {text : String} {starts : TokenKind → String → Prop}
    (recut : Recut text.toList starts) {tokens behind : List Token}
    (isText : (TokenList.text tokens).toList = text.toList)
    (inLine : ∀ token ∈ tokens, Prose.lineEnds.contains token.kind = false)
    (ends : ∀ token ∈ behind.head?, Prose.lineEnds.contains token.kind = true) :
    TokenList.lineText (tokens ++ behind) = text := by
  have untrimmed : text.toList.rdropWhile isBlank = text.toList := by
    rw [List.rdropWhile_eq_self_iff]
    intro notEmpty
    rw [recut.solidEnd _ (List.getLast?_eq_some_getLast notEmpty)]
    exact Bool.false_ne_true
  rw [TokenList.lineText_append inLine ends, trimEnd, isText]
  exact (congrArg String.ofList untrimmed).trans String.ofList_toList

theorem rule?_at (text : List Char) : Lexeme.rule? '@' text =
    if text.head?.any Char.isAlpha then some ⟨.tag, Lexeme.runLength Lexeme.isTagPart text⟩
    else none := rfl

/-- The name of a tag as it is spelled. -/
def IsTagName (name : String) : Prop :=
  ∃ tail, name.toList = '@' :: tail ∧ tail.head?.any Char.isAlpha = true ∧
    tail.all Lexeme.isTagPart = true

/-- The name of a tag is cut off again where nothing can extend it. -/
theorem IsTagName.scanFrom_append {name : String} (isName : IsTagName name) (number : UInt32)
    {after : List Char} (stops : ∀ char ∈ after.head?, Lexeme.isTagPart char = false) :
    scanFrom number (name.toList ++ after) = ⟨.tag, name, number⟩ :: scanFrom number after := by
  obtain ⟨tail, isCons, isAlpha, areParts⟩ := isName
  have alphaHead : (tail ++ after).head?.any Char.isAlpha = true := by
    cases tail with
    | nil => cases isAlpha
    | cons char tail => exact isAlpha
  have length : Lexeme.runLength Lexeme.isTagPart (tail ++ after) = tail.length := by
    rw [Lexeme.runLength_undisturbed tail fun _ => stops, Lexeme.runLength,
      List.takeWhile_eq_self_iff.mpr (List.all_eq_true.mp areParts)]
  have isFirst : Lexeme.first '@' (tail ++ after) = ⟨.tag, tail.length⟩ := by
    have rule := rule?_at (tail ++ after)
    rw [alphaHead, length] at rule
    exact Lexeme.first_of_rule? rule
  rw [isCons, List.cons_append, scanFrom_cons, Token.cut, isFirst, List.take_left, List.drop_left,
    ← isCons, String.ofList_toList]
  rfl

theorem isTagName_of_scanFrom {number : UInt32} {text : List Char} {token : Token}
    {rest : List Token} (scanned : scanFrom number text = token :: rest)
    (isTag : token.kind = .tag) : IsTagName token.value := by
  cases text with
  | nil => cases scanned
  | cons char text =>
      rw [scanFrom_cons] at scanned
      obtain ⟨rfl, -⟩ := List.cons.inj scanned
      have opened := Lexeme.opens_first char text
      rw [show (Lexeme.first char text).kind = .tag from isTag] at opened
      obtain rfl : char = '@' := of_decide_eq_true opened
      have rule := rule?_at text
      cases isAlpha : text.head?.any Char.isAlpha with
      | false =>
          rw [isAlpha] at rule
          rw [Token.cut, Lexeme.first, rule] at isTag
          cases isTag
      | true =>
          rw [isAlpha] at rule
          have isFirst := Lexeme.first_of_rule? rule
          refine ⟨text.takeWhile Lexeme.isTagPart, ?_, ?_, List.all_takeWhile⟩
          · rw [Token.cut, isFirst, String.toList_ofList]
            exact congrArg _ (Lexeme.take_runLength _ _)
          · cases text with
            | nil => cases isAlpha
            | cons first rest =>
                have isPart : Lexeme.isTagPart first = true := by
                  simp [Lexeme.isTagPart, Char.isAlphanum, show first.isAlpha = true from isAlpha]
                rw [List.takeWhile_cons, isPart]
                exact isAlpha

/-- One space is one blank in front of a text that does not start with one. -/
theorem scanFrom_space (number : UInt32) {text : List Char}
    (solid : ∀ char ∈ text.head?, isBlank char = false) :
    scanFrom number (' ' :: text) = ⟨.blank, " ", number⟩ :: scanFrom number text := by
  have length : Lexeme.runLength isBlank text = 0 := by
    cases text with
    | nil => rfl
    | cons char rest => simp [Lexeme.runLength, solid char rfl]
  rw [scanFrom_cons, Token.cut, Lexeme.first_blank rfl, length]
  rfl

namespace Line

/-- The printed form of a line that nothing continues, without the gutter. -/
def print (line : Line) : String := line.child.print

theorem print_tag (name text : String) :
    print ⟨some name, text⟩ = if text = "" then name else name ++ " " ++ text := by
  simp only [print, child, Child.print, TagNode.print, TagValue.print_ofProse, String.isEmpty_iff]

theorem toList_print_tag (name text : String) :
    (print ⟨some name, text⟩).toList = name.toList ++ behindSpace text := by
  rw [print_tag, behindSpace]
  split <;> simp

/-- In front of a line feed the printed line is cut into tokens that are read as the line. -/
structure Rereads (line : Line) : Prop where
  inLine : ∀ char ∈ line.print.toList, char ≠ '\n'
  solidHead : ∀ char ∈ line.print.toList.head?, isBlank char = false
  again : ∀ number after, ∃ tokens,
    scanFrom number (line.print.toList ++ '\n' :: after) =
      tokens ++ scanFrom number ('\n' :: after) ∧
    (∀ token ∈ tokens, Prose.lineEnds.contains token.kind = false) ∧
    ∀ behind, (∀ token ∈ behind.head?, Prose.lineEnds.contains token.kind = true) →
      TokenList.lineAt (tokens ++ behind) = line

theorem ne_lineFeed {char : Char} (inLine : Lexeme.isLineEnd char = false) : char ≠ '\n' := by
  rintro rfl
  cases inLine

section Ends

variable {behind : List Token}
  (ends : ∀ token ∈ behind.head?, Prose.lineEnds.contains token.kind = true)

include ends

theorem lineText_end : TokenList.lineText behind = "" := by
  cases behind with
  | nil => rfl
  | cons token rest => exact TokenList.lineText_end (ends token rfl)

theorem behindBlank_end : TokenList.behindBlank behind = behind := by
  cases behind with
  | nil => rfl
  | cons token rest =>
      rw [TokenList.behindBlank, if_neg]
      intro isBlank
      have isEnd := ends token rfl
      rw [isBlank] at isEnd
      exact absurd isEnd (by decide)

/-- Where a line ends there is an empty line. -/
theorem lineAt_end : TokenList.lineAt behind = ⟨none, ""⟩ := by
  cases behind with
  | nil => rfl
  | cons token rest =>
      have notTag : token.kind ≠ .tag := by
        intro isTag
        have isEnd := ends token rfl
        rw [isTag] at isEnd
        exact absurd isEnd (by decide)
      rw [TokenList.lineAt_text notTag, lineText_end ends]

end Ends

/-- A line feed ends the line in front of it. -/
theorem ends_lineFeed (number : UInt32) (after : List Char) (others : List Token) :
    ∀ token ∈ (scanFrom number ('\n' :: after) ++ others).head?,
      Prose.lineEnds.contains token.kind = true := by
  rw [scanFrom_cons]
  intro token isHead
  obtain rfl := Option.some.inj isHead
  show Prose.lineEnds.contains .lineBreak = true
  decide

/-- A text behind a space has one blank in front of it, or it is empty. -/
theorem behindBlank_behindSpace {text : String}
    (solid : ∀ char ∈ text.toList.head?, isBlank char = false) (number : UInt32)
    (after : List Char) (others : List Token) :
    TokenList.behindBlank (scanFrom number (behindSpace text ++ '\n' :: after) ++ others) =
      scanFrom number (text.toList ++ '\n' :: after) ++ others := by
  unfold behindSpace
  split
  · next isEmpty =>
      rw [isEmpty, List.nil_append, behindBlank_end (ends_lineFeed number after others)]
      rfl
  · rw [List.cons_append, scanFrom_space number (solidHead_append solid after), List.cons_append,
      TokenList.behindBlank, if_pos rfl]

theorem rereads_text {text : String} (recut : Recut text.toList fun kind _ => kind ≠ .tag) :
    Rereads ⟨none, text⟩ := by
  constructor
  · exact fun char isMember => ne_lineFeed (recut.inLine char isMember)
  · exact recut.solidHead
  · intro number after
    obtain ⟨tokens, scanned, isText, inLine, untagged⟩ := recut.again number after
    refine ⟨tokens, scanned, inLine, fun behind ends => ?_⟩
    have isLine := recut.lineText_eq isText inLine ends
    cases tokens with
    | nil =>
        obtain rfl : text = "" := by
          rw [← String.toList_inj, ← isText]
          rfl
        exact lineAt_end ends
    | cons token tokens =>
        rw [List.cons_append, TokenList.lineAt_text (untagged token rfl), ← List.cons_append,
          isLine]

theorem rereads_tag {name text : String} {starts : TokenKind → String → Prop}
    (isName : IsTagName name) (recut : Recut text.toList starts) : Rereads ⟨some name, text⟩ := by
  have spelled := isName
  obtain ⟨tail, isCons, -, areParts⟩ := spelled
  have nameInLine : ∀ char ∈ name.toList, char ≠ '\n' := by
    rw [isCons]
    rintro char isMember rfl
    rcases List.mem_cons.mp isMember with impossible | isPart
    · cases impossible
    · cases List.all_eq_true.mp areParts '\n' isPart
  have nameHead (more : List Char) :
      ∀ char ∈ (name.toList ++ more).head?, isBlank char = false := by
    rw [isCons]
    intro char isHead
    obtain rfl := Option.some.inj isHead
    rfl
  have tagInLine : Prose.lineEnds.contains .tag = false := by decide
  by_cases isEmpty : text = ""
  · subst isEmpty
    have isPrint : print ⟨some name, ""⟩ = name := by rw [print_tag, if_pos rfl]
    constructor
    · rwa [isPrint]
    · rw [isPrint, ← List.append_nil name.toList]
      exact nameHead []
    · intro number after
      rw [isPrint]
      refine ⟨[⟨.tag, name, number⟩], ?_, by simpa using tagInLine, fun behind ends => ?_⟩
      · apply isName.scanFrom_append
        simp [Lexeme.isTagPart]
      · rw [List.singleton_append, TokenList.lineAt_tag rfl, behindBlank_end ends,
          lineText_end ends]
  · have isPrint : print ⟨some name, text⟩ = name ++ " " ++ text := by
      rw [print_tag, if_neg isEmpty]
    have isList : (name ++ " " ++ text).toList = name.toList ++ ' ' :: text.toList := by simp
    constructor
    · rw [isPrint, isList]
      intro char isMember
      simp only [List.mem_append, List.mem_cons] at isMember
      rcases isMember with inName | rfl | inText
      · exact nameInLine char inName
      · decide
      · exact ne_lineFeed (recut.inLine char inText)
    · rw [isPrint, isList]
      exact nameHead _
    · intro number after
      obtain ⟨tokens, scanned, isText, inLine, -⟩ := recut.again number after
      have solidHead := solidHead_append recut.solidHead after
      refine ⟨⟨.tag, name, number⟩ :: ⟨.blank, " ", number⟩ :: tokens, ?_, ?_, ?_⟩
      · rw [isPrint, isList, List.append_assoc, List.cons_append, isName.scanFrom_append number,
          scanFrom_space number solidHead, scanned]
        · rfl
        · simp [Lexeme.isTagPart]
      · have blankInLine : Prose.lineEnds.contains .blank = false := by decide
        simpa [tagInLine, blankInLine] using inLine
      · intro behind ends
        rw [List.cons_append, TokenList.lineAt_tag rfl, List.cons_append, TokenList.behindBlank,
          if_pos rfl, recut.lineText_eq isText inLine ends]

end Line

namespace TokenList

variable {tokens : List Token}

theorem linesAfter_append {behind : List Token}
    (inLine : ∀ token ∈ tokens, Prose.lineEnds.contains token.kind = false) :
    linesAfter (tokens ++ behind) = linesAfter behind := by
  induction tokens with
  | nil => rfl
  | cons token rest induction =>
      rw [List.cons_append, linesAfter_inLine (inLine token List.mem_cons_self)]
      exact induction fun other isMember => inLine other (List.mem_cons_of_mem _ isMember)

theorem Remains.isTagName {token : Token} {rest : List Token} (remains : Remains (token :: rest))
    (isTag : token.kind = .tag) : IsTagName token.value := by
  obtain ⟨line, text, last, -, isRemaining⟩ := remains
  cases isScanned : scanFrom line text with
  | nil =>
      rw [isScanned] at isRemaining
      obtain ⟨rfl, -⟩ := List.cons.inj isRemaining
      cases isTag
  | cons first others =>
      rw [isScanned] at isRemaining
      obtain ⟨rfl, -⟩ := List.cons.inj isRemaining
      exact isTagName_of_scanFrom isScanned isTag

theorem Remains.rereads_lineAt (remains : Remains tokens)
    (solid : ∀ token ∈ tokens.head?, token.kind ≠ .blank) : (lineAt tokens).Rereads := by
  cases tokens with
  | nil =>
      obtain ⟨_, _, _, -, isRemaining⟩ := remains
      simp at isRemaining
  | cons token rest =>
      by_cases isTag : token.kind = .tag
      · have remainsRest : Remains rest := by
          apply remains.tail
          rw [isTag]
          decide
        rw [lineAt_tag isTag]
        exact Line.rereads_tag (remains.isTagName isTag)
          (remainsRest.behindBlank.recut remainsRest.behindBlank_solid)
      · rw [lineAt_text isTag]
        apply Line.rereads_text
        apply (remains.recut solid).imp
        rintro kind value ⟨_, isHead, resembles⟩
        obtain rfl := Option.some.inj isHead
        exact resembles.kind_ne rfl isTag

/-- Every line of a comment can be printed and read again. -/
theorem Remains.rereads_linesAfter (remains : Remains tokens) :
    ∀ line ∈ linesAfter tokens, line.Rereads := by
  induction tokens with
  | nil => simp [linesAfter]
  | cons token rest induction =>
      intro line isMember
      rw [linesAfter] at isMember
      split at isMember
      · next isBreak =>
          have remainsRest : Remains rest := by
            apply remains.tail
            rw [isBreak]
            decide
          split at isMember
          · cases isMember
          · rcases List.mem_cons.mp isMember with rfl | isLater
            · exact remainsRest.behindBlank.rereads_lineAt remainsRest.behindBlank_solid
            · exact induction remainsRest line isLater
      · split at isMember
        · cases isMember
        · next inside =>
            have notFinish : token.kind ≠ .finish := by
              intro isFinish
              rw [isFinish] at inside
              exact inside (by decide)
            exact induction (remains.tail notFinish) line isMember

theorem Remains.rereads_linesFrom (remains : Remains tokens)
    (solid : ∀ token ∈ tokens.head?, token.kind ≠ .blank) :
    ∀ line ∈ linesFrom tokens, line.Rereads := by
  intro line isMember
  rw [linesFrom] at isMember
  split at isMember
  · cases isMember
  · rcases List.mem_cons.mp isMember with rfl | isLater
    · exact remains.rereads_lineAt solid
    · exact remains.rereads_linesAfter line isLater

end TokenList

end Docblock
