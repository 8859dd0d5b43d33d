import Docblock.Proofs.Document.LineScanning

/-!
# Close markers are found

Wherever a text holds the two characters of a close marker, scanning cuts off a token there, and
only a quoted text can take the marker with it.  The star of the marker has many rivals: it could be
a gutter, a wildcard, a part of an opening marker or of unrecognised text.  All of these stop in
front of the marker, because every lexeme but a quoted text is the same whether the marker stands
behind it or the text ends there.  The same look at single lexemes shows what unrecognised text and
blanks are made of.
-/

namespace Docblock

open Text

namespace Lexeme

variable {char : Char} {text after : List Char}

/-- A lexeme in front of a close marker ends there at the latest, unless it is a quoted text that
encloses the marker. -/
theorem extra_beforeClose (char : Char) (text after : List Char) :
    (first char (text ++ '*' :: '/' :: after)).extra ≤ text.length ∨
      (first char (text ++ '*' :: '/' :: after)).kind ∈ [.singleQuoted, .doubleQuoted] ∧
        text.length + 3 ≤ (first char (text ++ '*' :: '/' :: after)).extra := by
  by_cases within : char = '\x27' ∨ char = '\x22' →
      quotedTail? char (text ++ '*' :: '/' :: after) = quotedTail? char text
  · left
    rw [first_beforeClose rfl within]
    exact extra_le_length char text
  · right
    obtain ⟨isQuote, differs⟩ := Classical.not_imp.mp within
    obtain ⟨size, found, beyond⟩ : ∃ size ∈ quotedTail? char (text ++ '*' :: '/' :: after),
        text.length < size := by
      by_contra none
      push Not at none
      exact differs (quotedTail?_within none)
    have isLast := getElem?_quotedTail? found
    -- the last character of a quoted text is its quote, and no quote is a part of the marker
    have notStar : size ≠ text.length + 1 := by
      rintro rfl
      rcases isQuote with rfl | rfl <;> simp at isLast
    have notSlash : size ≠ text.length + 2 := by
      rintro rfl
      rcases isQuote with rfl | rfl <;> simp at isLast
    have isLexeme : (first char (text ++ '*' :: '/' :: after)).kind ∈
          [.singleQuoted, .doubleQuoted] ∧
        (first char (text ++ '*' :: '/' :: after)).extra = size := by
      rcases isQuote with rfl | rfl
      · have rule : rule? '\x27' (text ++ '*' :: '/' :: after) = some ⟨.singleQuoted, size⟩ :=
          Option.map_eq_some_iff.mpr ⟨size, found, rfl⟩
        rw [first_of_rule? rule]
        simp
      · have rule : rule? '\x22' (text ++ '*' :: '/' :: after) = some ⟨.doubleQuoted, size⟩ :=
          Option.map_eq_some_iff.mpr ⟨size, found, rfl⟩
        rw [first_of_rule? rule]
        simp
    refine ⟨isLexeme.1, ?_⟩
    rw [isLexeme.2]
    omega

/-- Unrecognised text is what no rule accepts. -/
theorem rule?_of_other {rest : List Char} (isOther : (first char rest).kind = .other) :
    rule? char rest = none := by
  cases found : rule? char rest with
  | none => rfl
  | some lexeme =>
      rw [first_of_rule? found] at isOther
      cases ruled_of_rule? found with
      | number _ scanned =>
          rcases Number.scan?_kind scanned with isKind | isKind | ⟨-, isKind⟩ <;>
            simp [isKind] at isOther
      | negative scanned =>
          rcases Number.scan?_kind scanned with isKind | isKind | ⟨-, isKind⟩ <;>
            simp [isKind] at isOther
      | ampersand =>
          rcases ampersandKind_cases rest with isKind | isKind <;> simp [isKind] at isOther
      | variableName isKind => rcases isKind with rfl | rfl <;> cases isOther
      | quoted isQuote => rcases isQuote with ⟨-, rfl⟩ | ⟨-, rfl⟩ <;> cases isOther
      | punctuation isMark =>
          unfold punctuation? at isMark
          split at isMark <;> cases isMark <;> cases isOther
      | _ => cases isOther

/-- No close marker stands in unrecognised text. -/
theorem not_close_infix_otherTail (text : List Char) :
    ¬['*', '/'] <:+: text.take (otherTail text) := by
  fun_induction otherTail text with
  | case1 => simp
  | case2 => simp
  | case3 char rest goesOn induction =>
      rw [List.take_succ_cons, List.infix_cons_iff]
      rintro (isPrefix | isLater)
      · obtain ⟨tail, isTaken⟩ := isPrefix
        obtain ⟨rfl, isRest⟩ := List.cons.inj isTaken
        have closes : startsWithClose ('*' :: rest) = true := by
          cases rest with
          | nil => simp at isRest
          | cons next others =>
              cases size : otherTail (next :: others) with
              | zero => simp [size] at isRest
              | succ size =>
                  rw [size, List.take_succ_cons] at isRest
                  rw [← (List.cons.inj isRest).1]
                  rfl
        simp [closes] at goesOn
      · exact induction isLater

/-- No close marker stands in unrecognised text, whose first character is no star. -/
theorem not_close_infix_of_other {rest : List Char} (noRule : rule? char rest = none) :
    ¬['*', '/'] <:+: char :: rest.take (otherTail rest) := by
  have notStar : char ≠ '*' := by
    rintro rfl
    have ruled : rule? '*' rest = if rest.head? = some '/' then some ⟨.closeDoc, 1⟩
      else some ⟨.wildcard, 0⟩ := rfl
    rw [ruled] at noRule
    split at noRule <;> cases noRule
  rw [List.infix_cons_iff]
  rintro (⟨tail, isPrefix⟩ | isLater)
  · exact notStar (List.cons.inj isPrefix).1.symm
  · exact not_close_infix_otherTail rest isLater

end Lexeme

namespace TokenList

/-- Behind the text `before` the tokens have a close marker, or a quoted text with a close marker
inside. -/
def MeetsClose (tokens : List Token) (before : String) : Prop :=
  ∃ front token rest, tokens = front ++ token :: rest ∧
    (token.kind = .closeDoc ∧ token.value = "*/" ∧ text front = before ∨
      token.kind ∈ [.singleQuoted, .doubleQuoted] ∧
        ∃ head tail, head ≠ "" ∧ tail ≠ "" ∧ token.value = head ++ "*/" ++ tail ∧
          text front ++ head = before)

variable {tokens : List Token} {before : String}

theorem MeetsClose.cons (meets : MeetsClose tokens before) (token : Token) :
    MeetsClose (token :: tokens) (token.value ++ before) := by
  obtain ⟨front, found, rest, rfl, isFound⟩ := meets
  refine ⟨token :: front, found, rest, rfl, ?_⟩
  rw [text_cons]
  rcases isFound with ⟨isClose, isMarker, rfl⟩ | ⟨isQuoted, head, tail, some, more, isValue, rfl⟩
  · exact .inl ⟨isClose, isMarker, rfl⟩
  · exact .inr ⟨isQuoted, head, tail, some, more, isValue, String.append_assoc⟩

theorem MeetsClose.append (meets : MeetsClose tokens before) (others : List Token) :
    MeetsClose (tokens ++ others) before := by
  obtain ⟨front, found, rest, rfl, isFound⟩ := meets
  exact ⟨front, found, rest ++ others, by simp, isFound⟩

/-- No token ends between the two characters of a close marker that the tokens meet. -/
theorem MeetsClose.not_split (meets : MeetsClose tokens before) {front rest : List Token}
    (split : tokens = front ++ rest) : text front ≠ before ++ "*" := by
  intro isFront
  have reached := congrArg String.length isFront
  obtain ⟨front', token, rest', split', found⟩ := meets
  -- the token starts at the marker or in front of it, and ends behind it
  have starts : (text front').length ≤ before.length := by
    rcases found with ⟨-, -, rfl⟩ | ⟨-, head, tail, -, -, -, rfl⟩ <;> simp
  have ends : before.length + 2 ≤ (text front').length + token.value.length := by
    have marker : "*/".length = 2 := rfl
    rcases found with ⟨-, isMarker, rfl⟩ | ⟨-, head, tail, -, -, isValue, rfl⟩
    · rw [isMarker, marker]
    · simp only [isValue, String.length_append]
      omega
  have single : "*".length = 1 := rfl
  rw [String.length_append, single] at reached
  rcases List.append_eq_append_iff.mp (split'.symm.trans split) with
    ⟨between, rfl, isRest⟩ | ⟨between, rfl, isRest⟩
  · cases between with
    | nil =>
        rw [List.append_nil] at reached
        omega
    | cons next between =>
        obtain ⟨rfl, -⟩ := List.cons.inj isRest
        rw [text_append, text_cons, String.length_append, String.length_append] at reached
        omega
  · rw [text_append, String.length_append] at starts
    omega

/-- A close marker at the end of a text is met as it is, because nothing is left for a quoted text
that would enclose it. -/
theorem MeetsClose.exists_close (meets : MeetsClose tokens before)
    (ends : text tokens = before ++ "*/") : ∃ close ∈ tokens, close.kind = .closeDoc := by
  obtain ⟨front, token, rest, rfl, ⟨isClose, -, -⟩ |
    ⟨-, head, tail, -, more, isValue, rfl⟩⟩ := meets
  · exact ⟨token, by simp, isClose⟩
  · rw [text_append, text_cons, isValue] at ends
    have length := congrArg String.length ends
    simp only [String.length_append] at length
    have isEmpty : tail.length = 0 := by omega
    exact absurd (String.length_eq_zero_iff.mp isEmpty) more

end TokenList

/-- A quoted text that goes on behind a close marker encloses the marker. -/
theorem meetsClose_quoted {line : UInt32} {char : Char} {text after : List Char}
    (isQuoted : (Lexeme.first char (text ++ '*' :: '/' :: after)).kind ∈
      [.singleQuoted, .doubleQuoted])
    (long : text.length + 3 ≤ (Lexeme.first char (text ++ '*' :: '/' :: after)).extra)
    (others : List Token) :
    TokenList.MeetsClose (Token.cut line char (text ++ '*' :: '/' :: after) :: others)
      (String.ofList (char :: text)) := by
  have inside := Lexeme.extra_le_length char (text ++ '*' :: '/' :: after)
  obtain ⟨more, isExtra⟩ := Nat.exists_eq_add_of_le long
  refine ⟨[], _, others, rfl, .inr ⟨isQuoted, String.ofList (char :: text),
    String.ofList (after.take (more + 1)), ?_, ?_, ?_, ?_⟩⟩
  · simp
  · rw [isExtra, List.length_append, List.length_cons, List.length_cons] at inside
    have some : after ≠ [] := List.length_pos_iff.mp (by omega)
    simp [some]
  · have isTaken : (text ++ '*' :: '/' :: after).take (text.length + 3 + more) =
        text ++ '*' :: '/' :: after.take (more + 1) := by
      rw [show text.length + 3 + more = text.length + (more + 1 + 2) by omega,
        List.take_length_add_append]
      rfl
    rw [← String.toList_inj, Token.cut, isExtra, isTaken]
    simp
  · simp

/-- Scanning meets every close marker. -/
theorem meetsClose_scanFrom (line : UInt32) (before after : List Char) :
    TokenList.MeetsClose (scanFrom line (before ++ '*' :: '/' :: after))
      (String.ofList before) := by
  induction size : before.length using Nat.strong_induction_on generalizing line before with
  | _ size induction =>
      cases before with
      | nil => exact ⟨[], _, _, scanFrom_cons line '*' ('/' :: after), .inl ⟨rfl, rfl, rfl⟩⟩
      | cons char text =>
          rw [List.cons_append, scanFrom_cons]
          rcases Lexeme.extra_beforeClose char text after with short | ⟨isQuoted, long⟩
          · rw [List.drop_append_of_le_length short]
            have isBefore : (Token.cut line char (text ++ '*' :: '/' :: after)).value ++
                String.ofList (text.drop
                  (Lexeme.first char (text ++ '*' :: '/' :: after)).extra) =
                String.ofList (char :: text) := by
              rw [Token.cut, List.take_append_of_le_length short, ← String.ofList_append,
                List.cons_append, List.take_append_drop]
            rw [← isBefore]
            refine .cons (induction _ ?_ _ _ rfl) _
            rw [← size, List.length_drop, List.length_cons]
            omega
          · exact meetsClose_quoted isQuoted long _

theorem meetsClose_tokenize {source before after : String}
    (split : source = before ++ "*/" ++ after) :
    TokenList.MeetsClose (tokenize source) before := by
  obtain ⟨line, isTokenized⟩ := exists_tokenize_eq_scanFrom source
  have chars : source.toList = before.toList ++ '*' :: '/' :: after.toList := by simp [split]
  have meets := meetsClose_scanFrom 1 before.toList after.toList
  rw [String.ofList_toList] at meets
  rw [isTokenized, chars]
  exact meets.append [Token.finish line]

/-- Unrecognised text is a single space character, or has neither space characters nor close
markers. -/
theorem value_of_other {source : String} {token : Token} (isMember : token ∈ tokenize source)
    (isOther : token.kind = .other) :
    (∃ char, isSpace char = true ∧ token.value = String.singleton char) ∨
      (∀ char ∈ token.value.toList, isSpace char = false) ∧
        ¬['*', '/'] <:+: token.value.toList := by
  obtain ⟨line, isTokenized⟩ := exists_tokenize_eq source
  rw [isTokenized] at isMember
  rcases List.mem_append.mp isMember with isScanned | isLast
  · obtain ⟨char, rest, isKind, isValue⟩ := mem_scanWithin isScanned
    have noRule := Lexeme.rule?_of_other (isKind.symm.trans isOther)
    have isFirst : Lexeme.first char rest =
        ⟨.other, if isSpace char then 0 else Lexeme.otherTail rest⟩ := by
      rw [Lexeme.first, noRule]
    rw [isFirst] at isValue
    cases spaced : isSpace char with
    | true =>
        left
        refine ⟨char, spaced, ?_⟩
        rw [← String.toList_inj, isValue]
        simp [spaced]
    | false =>
        right
        rw [isValue]
        simp only [spaced, Bool.false_eq_true, if_false]
        refine ⟨?_, Lexeme.not_close_infix_of_other noRule⟩
        intro other isOther
        rcases List.mem_cons.mp isOther with rfl | isLater
        · exact spaced
        · simpa using Lexeme.covers_otherTail rest other isLater
  · rw [List.mem_singleton.mp isLast] at isOther
    cases isOther

/-- A close marker is missed only in quoted texts.  Wherever a text holds its two characters, a
token for the marker starts there or a quoted text has both of them inside, and in neither case does
a token end between the two.  No blank follows another, and unrecognised text is a single space
character or has neither space characters nor close markers. -/
theorem closeMarkers_met (source : String) :
    (∀ before after, source = before ++ "*/" ++ after →
      TokenList.MeetsClose (tokenize source) before ∧
      ∀ front rest, tokenize source = front ++ rest → TokenList.text front ≠ before ++ "*") ∧
    SingleBlanks (tokenize source) ∧
    ∀ token ∈ tokenize source, token.kind = .other →
      (∃ char, isSpace char = true ∧ token.value = String.singleton char) ∨
      (∀ char ∈ token.value.toList, isSpace char = false) ∧
        ¬['*', '/'] <:+: token.value.toList := by
  refine ⟨?_, singleBlanks_tokenize source, fun token => value_of_other⟩
  intro before after split
  have meets := meetsClose_tokenize split
  exact ⟨meets, fun front rest => meets.not_split⟩

/-- The first of two close markers stands in a quoted text, and the second ends the comment. -/
theorem closeMarkers_met_quoted :
    let source := "/** 'a*/' */"
    tokenize source = [⟨.openDoc, "/**", 1⟩, ⟨.blank, " ", 1⟩, ⟨.singleQuoted, "'a*/'", 1⟩,
        ⟨.blank, " ", 1⟩, ⟨.closeDoc, "*/", 1⟩, Token.finish 1] ∧
      TokenList.MeetsClose (tokenize source) "/** 'a" ∧
      TokenList.MeetsClose (tokenize source) "/** 'a*/' " := by
  intro source
  have scanned : tokenize source = [⟨.openDoc, "/**", 1⟩, ⟨.blank, " ", 1⟩,
      ⟨.singleQuoted, "'a*/'", 1⟩, ⟨.blank, " ", 1⟩, ⟨.closeDoc, "*/", 1⟩, Token.finish 1] := by
    decide +kernel
  have markers := (closeMarkers_met source).1
  exact ⟨scanned, (markers "/** 'a" "' */" (by decide)).1,
    (markers "/** 'a*/' " "" (by decide)).1⟩

end Docblock
