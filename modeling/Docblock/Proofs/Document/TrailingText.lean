import Docblock.Proofs.Document.Structure
import Docblock.Proofs.Locality

/-!
# Text behind a comment

The whole input is cut into tokens before a comment is read, so text behind the close marker
could reach back into the comment.  It does not: every lexeme of a comment stops at the close
marker at the latest, and further text leaves the tokens as they are.  The one exception is a
quote that closes no quoted text on the last line.  What follows the comment may hold the
missing quote, and then the quoted text takes the close marker with it.
-/

namespace Docblock

open Text

namespace Lexeme

/-- The two characters that enclose quoted texts. -/
def isQuote (char : Char) : Bool := char = '\x27' || char = '\x22'

theorem isQuote_iff {char : Char} : isQuote char = true ↔ char = '\x27' ∨ char = '\x22' := by
  simp [isQuote]

theorem isLineEnd_quote {char : Char} (quotes : isQuote char = true) : isLineEnd char = false := by
  rcases isQuote_iff.mp quotes with rfl | rfl <;> rfl

/-- A quote without its partner is no quoted text. -/
theorem kind_first_quote {char : Char} {rest : List Char} (quotes : isQuote char = true)
    (unclosed : quotedTail? char rest = none) : (first char rest).kind = .other := by
  rcases isQuote_iff.mp quotes with rfl | rfl
  · have rule : rule? '\x27' rest = (quotedTail? '\x27' rest).map (⟨.singleQuoted, ·⟩) := rfl
    rw [first, rule, unclosed]
    rfl
  · have rule : rule? '\x22' rest = (quotedTail? '\x22' rest).map (⟨.doubleQuoted, ·⟩) := rfl
    rw [first, rule, unclosed]
    rfl

end Lexeme

namespace TokenList

/-- The quotes that the tokens leave open: a quote that starts a piece of unrecognised text, and
no line ends behind it. -/
def openQuotes : List Token → List Char
  | [] => []
  | token :: rest =>
      if token.kind = .other ∧
          (text (token :: rest)).toList.all (fun char => !Lexeme.isLineEnd char) = true then
        token.value.toList.head?.toList.filter Lexeme.isQuote ++ openQuotes rest
      else openQuotes rest

theorem openQuotes_subset (token : Token) (rest : List Token) :
    openQuotes rest ⊆ openQuotes (token :: rest) := by
  intro quote isMember
  rw [openQuotes]
  split
  · exact List.mem_append_right _ isMember
  · exact isMember

theorem mem_openQuotes {token : Token} {rest : List Token} {quote : Char} {others : List Char}
    (isOther : token.kind = .other) (starts : token.value.toList = quote :: others)
    (quotes : Lexeme.isQuote quote = true)
    (inLine : ∀ char ∈ (text (token :: rest)).toList, Lexeme.isLineEnd char = false) :
    quote ∈ openQuotes (token :: rest) := by
  have noLineEnd :
      (text (token :: rest)).toList.all (fun char => !Lexeme.isLineEnd char) = true := by
    rw [List.all_eq_true]
    intro char isMember
    rw [inLine char isMember]
    rfl
  rw [openQuotes, if_pos ⟨isOther, noLineEnd⟩, starts]
  simp [quotes]

/-- The tokens end with the close marker that ends the comment, and the end of the input. -/
def EndsWithClose (tokens : List Token) : Prop :=
  ∃ front close last, tokens = front ++ [close, last] ∧ close.kind = .closeDoc ∧
    ∀ token ∈ front, token.kind ≠ .closeDoc

end TokenList

section Scanning

open Lexeme

variable {fuel : Nat} {line : UInt32} {text : List Char} {front : List Token} {close last : Token}

/-- A text whose last lexeme is a close marker is spelled so. -/
theorem text_of_scanWithin (enough : text.length ≤ fuel) (isClose : close.kind = .closeDoc)
    (scanned : scanWithin fuel line text = front ++ [close]) :
    text = (TokenList.text front).toList ++ ['*', '/'] := by
  have isMember : close ∈ scanWithin fuel line text := by simp [scanned]
  obtain ⟨char, rest, isKind, isValue⟩ := mem_scanWithin isMember
  obtain ⟨rfl, others, rfl, isExtra⟩ := exists_of_closeDoc (isKind.symm.trans isClose)
  rw [isExtra] at isValue
  have isText := text_scanWithin line enough
  rw [scanned, TokenList.text_append, TokenList.text_cons, String.toList_append,
    String.toList_append, isValue] at isText
  exact isText.symm

/-- The lexeme at a place in front of a close marker does not change with the text behind the
marker, unless it is a quote that the text behind the marker closes. -/
theorem first_append_of_settled {char : Char} {rest : List Char} (after : List Char)
    (settled : isQuote char = true → quotedTail? char (rest ++ ['*', '/']) = none →
      (∀ other ∈ rest ++ ['*', '/'], isLineEnd other = false) → quotedTail? char after = none) :
    first char (rest ++ ['*', '/'] ++ after) = first char (rest ++ ['*', '/']) := by
  have marker (quotes : isQuote char = true) :
      quotedTail? char (rest ++ ['*', '/']) = quotedTail? char rest := by
    cases found : quotedTail? char rest with
    | some size => exact quotedTail?_append found _
    | none =>
        apply quotedTail?_unclosed found
        rcases isQuote_iff.mp quotes with rfl | rfl <;> decide
  have behind (quotes : isQuote char = true) : quotedTail? char (rest ++ ['*', '/'] ++ after) =
      quotedTail? char (rest ++ ['*', '/']) := by
    cases found : quotedTail? char (rest ++ ['*', '/']) with
    | some size => exact quotedTail?_append found after
    | none =>
        by_cases inLine : ∀ other ∈ rest ++ ['*', '/'], isLineEnd other = false
        · rw [quotedTail?_open found inLine (by simp), settled quotes found inLine]
          rfl
        · simp only [not_forall, Bool.not_eq_false] at inLine
          obtain ⟨other, isMember, isEnd⟩ := inLine
          exact quotedTail?_broken (isLineEnd_quote quotes) found isMember isEnd after
  have closes (after : List Char) : startsWithClose ('*' :: '/' :: after) = true := rfl
  rw [first_beforeClose (closes []) fun quotes => marker (isQuote_iff.mpr quotes),
    List.append_assoc]
  apply first_beforeClose (closes after)
  intro quotes
  have quotes := isQuote_iff.mpr quotes
  have all := (behind quotes).trans (marker quotes)
  rwa [List.append_assoc] at all

/-- A quote that starts a piece of unrecognised text without line ends is left open. -/
theorem mem_openQuotes_cut {char : Char} {rest : List Char} {tokens : List Token}
    (quotes : isQuote char = true) (unclosed : quotedTail? char rest = none)
    (inLine : ∀ other ∈ rest, isLineEnd other = false)
    (isText : (TokenList.text tokens).toList = rest.drop (first char rest).extra) :
    char ∈ TokenList.openQuotes (Token.cut line char rest :: tokens) := by
  apply TokenList.mem_openQuotes (kind_first_quote quotes unclosed) String.toList_ofList quotes
  rw [TokenList.text_cons, String.toList_append, isText, Token.cut, String.toList_ofList,
    List.cons_append, List.take_append_drop]
  intro other isMember
  rcases List.mem_cons.mp isMember with rfl | isLater
  · exact isLineEnd_quote quotes
  · exact inLine other isLater

/-- Text behind a close marker leaves the lexemes in front of it as they are. -/
theorem exists_scanWithin_append (after : List Char) {fuel' : Nat} (enough : text.length ≤ fuel)
    (enough' : (text ++ after).length ≤ fuel') (isClose : close.kind = .closeDoc)
    (empty : last.value = "") (scanned : scanWithin fuel line text = front ++ [close])
    (settled : ∀ quote ∈ TokenList.openQuotes (front ++ [close, last]),
      quotedTail? quote after = none) :
    ∃ others, scanWithin fuel' line (text ++ after) = front ++ close :: others := by
  induction front generalizing text line fuel fuel' with
  | nil =>
      obtain rfl : text = ['*', '/'] := text_of_scanWithin enough isClose scanned
      obtain ⟨char, rest, fewer, isText, rfl, isCut, -⟩ := exists_of_scanWithin_cons scanned
      obtain ⟨fewer', rfl⟩ := Nat.exists_eq_succ_of_ne_zero (Nat.ne_zero_of_lt enough')
      obtain ⟨rfl, rfl⟩ := List.cons.inj isText
      exact ⟨_, by rw [isCut]; rfl⟩
  | cons token front induction =>
      rw [List.cons_append] at scanned
      obtain ⟨char, rest, fewer, rfl, rfl, isCut, scannedRest⟩ := exists_of_scanWithin_cons scanned
      obtain ⟨fewer', rfl⟩ := Nat.exists_eq_succ_of_ne_zero (Nat.ne_zero_of_lt enough')
      have shorter : (rest.drop (first char rest).extra).length ≤ fewer := by
        simp only [List.length_cons, List.length_drop] at enough ⊢
        omega
      have shorter' : (rest.drop (first char rest).extra ++ after).length ≤ fewer' := by
        simp only [List.cons_append, List.length_cons, List.length_append, List.length_drop]
          at enough' ⊢
        omega
      have isRest := text_of_scanWithin shorter isClose scannedRest
      have inside : (first char rest).extra ≤ rest.length := by
        have length := congrArg List.length isRest
        simp only [List.length_drop, List.length_append, List.length_cons] at length
        omega
      have isSplit := List.take_append_drop (first char rest).extra rest
      rw [isRest, ← List.append_assoc] at isSplit
      have same : first char (rest ++ after) = first char rest := by
        rw [← isSplit]
        apply first_append_of_settled
        rw [isSplit]
        intro quotes unclosed inLine
        apply settled
        rw [List.cons_append, isCut]
        apply mem_openQuotes_cut quotes unclosed inLine
        have isText := text_scanWithin token.nextLine shorter
        rw [scannedRest] at isText
        rw [List.append_cons, TokenList.text_append, String.toList_append, isText]
        simp [empty]
      obtain ⟨others, scannedAll⟩ := induction shorter shorter' scannedRest
        fun quote isOpen => settled quote (TokenList.openQuotes_subset token _ isOpen)
      refine ⟨others, ?_⟩
      have sameCut : Token.cut line char (rest ++ after) = token := by
        rw [isCut, Token.cut, Token.cut, same, List.take_append_of_le_length inside]
      rw [List.cons_append, scanWithin_succ, sameCut, same, List.drop_append_of_le_length inside,
        scannedAll, List.cons_append]

end Scanning

namespace Document

/-- Text behind a comment is ignored.  If a text is a comment up to its close marker, and no quote
that it leaves open is closed in the text that follows, then both together are read as the same
comment. -/
theorem trailingText_ignored {source text : String} {document : Document}
    (accepted : ofText source = .ok document)
    (closes : TokenList.EndsWithClose (tokenize source))
    (settled : ∀ quote ∈ TokenList.openQuotes (tokenize source),
      Lexeme.quotedTail? quote text.toList = none) :
    ofText (source ++ text) = .ok document := by
  obtain ⟨front, close, last, split, isClose, first⟩ := closes
  obtain ⟨-, -, front', close', after, found, _, split', isClose', first', isRun, -, others⟩ |
    ⟨-, _, _, _, _, -, -, rejected⟩ | ⟨-, -, _, _, _, -, -, rejected⟩ := run_cases .off source
  · have isFound : found = document := by
      rw [ofText, ofTokens, isRun] at accepted
      exact Except.ok.inj accepted
    have sameLength : front.length = front'.length :=
      (findIdx_closeDoc split isClose first).symm.trans (findIdx_closeDoc split' isClose' first')
    obtain ⟨rfl, sameRest⟩ := List.append_inj (split.symm.trans split') sameLength
    obtain ⟨rfl, -⟩ := List.cons.inj sameRest
    obtain ⟨line, isTokenized⟩ := exists_tokenize_eq source
    rw [List.append_cons] at split
    obtain ⟨scanned, isLast⟩ := List.append_inj' (isTokenized.symm.trans split) rfl
    obtain rfl := (List.cons.inj isLast).1
    obtain ⟨line', isTokenized'⟩ := exists_tokenize_eq (source ++ text)
    rw [isTokenized, scanned, ← List.append_cons] at settled
    obtain ⟨rest, scannedAll⟩ := exists_scanWithin_append text.toList
      (Nat.le_refl source.toList.length) (Nat.le_refl (source.toList ++ text.toList).length)
      isClose rfl scanned settled
    rw [ofText, isTokenized', String.toList_append, scan, scannedAll, List.append_assoc,
      List.cons_append, others, isFound]
  · rw [ofText, ofTokens, rejected] at accepted
    cases accepted
  · rw [ofText, ofTokens, rejected] at accepted
    cases accepted

/-- A quote is left open on each of two lines; behind the comment the first of them is closed,
which its line end prevents from reaching back, and a second comment follows. -/
theorem trailingText_ignored_twoQuotes :
    let source := "/** @var int it's\n * \"x */"
    let text := " 'y' /** @var int */"
    TokenList.openQuotes (tokenize source) = ['\x22'] ∧
      ∃ document, ofText source = .ok document ∧ ofText (source ++ text) = .ok document := by
  intro source text
  have isAccepted : (match ofText source with
      | .ok _ => true
      | .error _ => false) = true := by decide +kernel
  have quotes : TokenList.openQuotes (tokenize source) = ['\x22'] := by decide +kernel
  have closes : TokenList.EndsWithClose (tokenize source) := by
    refine ⟨(tokenize source).take 12, ⟨.closeDoc, "*/", 2⟩, Token.finish 2, ?_, rfl, ?_⟩
    · decide +kernel
    · decide +kernel
  have unclosed : Lexeme.quotedTail? '\x22' text.toList = none := by decide +kernel
  split at isAccepted
  · next document accepted =>
      refine ⟨quotes, document, accepted, trailingText_ignored accepted closes ?_⟩
      simpa [quotes] using unclosed
  · cases isAccepted

/-- A quote that a comment leaves open can be closed behind the comment: then the quoted text
takes the close marker with it, and nothing ends the comment. -/
theorem openQuote_takesClose :
    let source := "/** it's */"
    (∃ document, ofText source = .ok document) ∧ TokenList.EndsWithClose (tokenize source) ∧
      ∃ failure, ofText (source ++ " 'x'") = .error failure := by
  intro source
  have isAccepted : (match ofText source with
      | .ok _ => true
      | .error _ => false) = true := by decide +kernel
  have isRejected : (match ofText (source ++ " 'x'") with
      | .ok _ => true
      | .error _ => false) = false := by decide +kernel
  constructor
  · split at isAccepted
    · next document accepted => exact ⟨document, accepted⟩
    · cases isAccepted
  constructor
  · refine ⟨(tokenize source).take 5, ⟨.closeDoc, "*/", 1⟩, Token.finish 1, ?_, rfl, ?_⟩
    · decide +kernel
    · decide +kernel
  · split at isRejected
    · cases isRejected
    · next failure rejected => exact ⟨failure, rejected⟩

end Document

end Docblock
