import Docblock.Proofs.Document.LineScanning
import Docblock.Proofs.TypeExpr.Printing

/-!
# Ampersands agree with the tokens behind them

The kind of an ampersand is chosen by the first character behind it that is no space character,
while the text there is still uncut.  The tokens that are cut off later bear the choice out.
Spacing falls into tokens that end where the spacing ends, because a lexeme that starts with a
space character has nothing but space characters and the star of a gutter; so the character that
was looked at starts a token.  If it is a dollar sign, the check for the current object accepts the
very texts that the rule for variables does.
-/

namespace Docblock

open Text

theorem Covers.le_length {keep : Char → Bool} {size : Nat} {text after : List Char} {char : Char}
    (covers : Covers keep size (text ++ char :: after)) (stops : keep char = false) :
    size ≤ text.length := by
  by_contra beyond
  obtain ⟨more, rfl⟩ := Nat.exists_eq_add_of_lt (Nat.lt_of_not_le beyond)
  have isCovered : keep char = true := by
    apply covers
    rw [Nat.add_assoc, List.take_length_add_append]
    simp
  rw [stops] at isCovered
  cases isCovered

namespace Lexeme

variable {char : Char} {rest : List Char}

theorem kind_first_dollar_iff : (first '$' rest).kind = .thisVariable ↔ spellsThis rest = true :=
  ⟨spellsThis_of_first, kind_first_of_spellsThis⟩

/-- Only an ampersand has the kind of an ampersand. -/
theorem eq_ampersand (isAmpersand : (first char rest).kind ∈ [.reference, .intersection]) :
    char = '&' := by
  cases found : rule? char rest with
  | none => simp [first, found] at isAmpersand
  | some lexeme =>
      rw [first_of_rule? found] at isAmpersand
      cases ruled_of_rule? found with
      | ampersand => rfl
      | number _ scanned =>
          rcases Number.scan?_kind scanned with isKind | isKind | ⟨-, isKind⟩ <;>
            simp [isKind] at isAmpersand
      | negative scanned =>
          rcases Number.scan?_kind scanned with isKind | isKind | ⟨-, isKind⟩ <;>
            simp [isKind] at isAmpersand
      | variableName isKind => rcases isKind with rfl | rfl <;> simp at isAmpersand
      | quoted isQuote => rcases isQuote with ⟨-, rfl⟩ | ⟨-, rfl⟩ <;> simp at isAmpersand
      | punctuation isMark =>
          unfold punctuation? at isMark
          split at isMark <;> cases isMark <;> simp at isAmpersand
      | _ => simp at isAmpersand

/-- The characters of spacing, with the star of a gutter. -/
def isSpacing (char : Char) : Bool := isSpace char || char = '*'

/-- A lexeme that starts with a space character is spacing. -/
theorem covers_first_space (space : isSpace char = true) (rest : List Char) :
    Covers isSpacing (first char rest).extra rest := by
  have blanks : ∀ char, isBlank char = true → isSpacing char = true := by
    intro char blank
    rcases isBlank_iff.mp blank with rfl | rfl <;> rfl
  have gutters : ∀ char, isGutter char = true → isSpacing char = true := by
    intro char isGutter
    rcases Bool.or_eq_true_iff.mp isGutter with blank | isStar
    · exact blanks char blank
    · simp [isSpacing, of_decide_eq_true isStar]
  have ofBlank (blank : isBlank char = true) : Covers isSpacing (first char rest).extra rest := by
    rw [first_blank blank]
    exact (covers_runLength isBlank rest).imp blanks
  rcases eq_of_isSpace space with rfl | rfl | rfl | rfl | rfl | rfl
  · exact ofBlank rfl
  · exact ofBlank rfl
  · exact (covers_gutter rest).imp gutters
  · exact .zero _ _
  · exact .zero _ _
  · cases rest with
    | nil => exact .zero _ _
    | cons next others =>
        by_cases isFeed : next = '\n'
        · subst isFeed
          have isFirst : first '\r' ('\n' :: others) = ⟨.lineBreak, 1 + gutter others⟩ := rfl
          rw [isFirst, Nat.add_comm]
          exact .cons rfl ((covers_gutter others).imp gutters)
        · have isFirst : first '\r' (next :: others) = ⟨.other, 0⟩ := by
            have lineEnd : rule? '\r' (next :: others) = lineEnd? (next :: others) := rfl
            rw [first, lineEnd]
            simp [lineEnd?, isFeed, isSpace]
          rw [isFirst]
          exact .zero _ _

/-- What the kind of an ampersand says about the text behind its spacing. -/
theorem ampersandKind_of_dropWhile {text : List Char} (isBehind : text.dropWhile isSpace = char :: rest) :
    ampersandKind text =
      if char ∈ ['.', ',', '=', ')'] then .reference
      else if char = '$' ∧ spellsThis rest = false then .reference
      else .intersection := by
  rw [ampersandKind, isBehind]
  simp [or_assoc]

end Lexeme

section Scanned

variable {source : String} {front rest : List Token} {token : Token}

/-- Spacing is cut into tokens that end where the spacing ends. -/
theorem exists_scanFrom_spacing (line : UInt32) {spacing after : List Char} {next : Char}
    (spaced : ∀ char ∈ spacing, isSpace char = true) (solid : Lexeme.isSpacing next = false) :
    ∃ tokens line', scanFrom line (spacing ++ next :: after) =
        tokens ++ scanFrom line' (next :: after) ∧
      (TokenList.text tokens).toList = spacing := by
  induction size : spacing.length using Nat.strong_induction_on generalizing line spacing with
  | _ size induction =>
      cases spacing with
      | nil => exact ⟨[], line, rfl, rfl⟩
      | cons char others =>
          have short := (Lexeme.covers_first_space (spaced char List.mem_cons_self)
            (others ++ next :: after)).le_length solid
          have fewer : (others.drop (Lexeme.first char (others ++ next :: after)).extra).length <
              (char :: others).length := by
            rw [List.length_drop, List.length_cons]
            omega
          rw [size] at fewer
          obtain ⟨tokens, line', scanned, isText⟩ := induction _ fewer
            (Token.cut line char (others ++ next :: after)).nextLine
            (fun other isMember =>
              spaced other (List.mem_cons_of_mem _ (List.mem_of_mem_drop isMember))) rfl
          refine ⟨Token.cut line char (others ++ next :: after) :: tokens, line', ?_, ?_⟩
          · rw [List.cons_append, scanFrom_cons, List.drop_append_of_le_length short, scanned,
              List.cons_append]
          · rw [TokenList.text_cons, String.toList_append, isText, Token.cut,
              String.toList_ofList, List.take_append_of_le_length short, List.cons_append,
              List.take_append_drop]

/-- The first character behind the spacing starts a token, unless it is a star. -/
theorem exists_behindSpacing (line : UInt32) {text after : List Char} {next : Char}
    (isBehind : text.dropWhile isSpace = next :: after) (solid : Lexeme.isSpacing next = false) :
    ∃ spacing line' others,
      scanFrom line text = spacing ++ Token.cut line' next after :: others ∧
      (TokenList.text spacing).toList = text.takeWhile isSpace := by
  have isText : text = text.takeWhile isSpace ++ next :: after := by
    rw [← isBehind, List.takeWhile_append_dropWhile]
  obtain ⟨spacing, line', scanned, isSpacing⟩ :=
    exists_scanFrom_spacing line (fun _ => List.mem_takeWhile_imp) solid
  rw [← isText, scanFrom_cons] at scanned
  exact ⟨spacing, line', _, scanned, isSpacing⟩

/-- An ampersand among the tokens of a text, and what was cut off behind it. -/
theorem exists_ampersand (split : tokenize source = front ++ token :: rest)
    (isAmpersand : token.kind ∈ [.reference, .intersection]) :
    ∃ line last text, source.toList = (TokenList.text front).toList ++ '&' :: text ∧
      token.value = "&" ∧ token.kind = Lexeme.ampersandKind text ∧
      rest = scanFrom line text ++ [last] := by
  obtain ⟨line, isTokenized⟩ := exists_tokenize_eq_scanFrom source
  have more : rest ≠ [] := by
    rw [Ne, ← kind_eq_finish_iff split]
    intro isFinish
    rw [isFinish] at isAmpersand
    exact absurd isAmpersand (by decide)
  obtain ⟨others, last, rfl⟩ := (List.eq_nil_or_concat rest).resolve_left more
  rw [isTokenized, List.concat_eq_append, ← List.cons_append, ← List.append_assoc] at split
  obtain ⟨scanned, -⟩ := List.append_inj' split rfl
  obtain ⟨remaining, line', isSource, isRest⟩ := exists_of_scanFrom_append scanned
  cases remaining with
  | nil => cases isRest
  | cons char text =>
      rw [scanFrom_cons] at isRest
      obtain ⟨rfl, rfl⟩ := List.cons.inj isRest
      obtain rfl := Lexeme.eq_ampersand isAmpersand
      exact ⟨_, last, text, isSource, rfl, rfl, List.concat_eq_append⟩

/-- Ampersands agree with the tokens behind them.  For every ampersand among the tokens of a text,
if the first character behind it that is no space character is a dollar sign, a token starts there,
and the ampersand joins types exactly if that token is the current object.  Otherwise it marks a
reference exactly if there is such a character and it is a point, a comma, an equals sign or a
closing parenthesis. -/
theorem ampersands_agree (source : String) {front rest : List Token} {token : Token}
    (split : tokenize source = front ++ token :: rest)
    (isAmpersand : token.kind = .reference ∨ token.kind = .intersection) :
    ∃ after, source = TokenList.text front ++ "&" ++ after ∧ token.value = "&" ∧
      let next := after.toList.find? fun char => !isSpace char
      (next = some '$' → ∃ spacing dollar others, rest = spacing ++ dollar :: others ∧
        (TokenList.text spacing).toList = after.toList.takeWhile isSpace ∧
        dollar.value.toList.head? = some '$' ∧
        (token.kind = .intersection ↔ dollar.kind = .thisVariable)) ∧
      (next ≠ some '$' →
        (token.kind = .reference ↔ ∃ char ∈ next, char ∈ ['.', ',', '=', ')'])) := by
  obtain ⟨line, last, text, isSource, isValue, isKind, rfl⟩ :=
    exists_ampersand split (by simpa using isAmpersand)
  refine ⟨String.ofList text, ?_, isValue, ?_⟩
  · rw [← String.toList_inj]
    simpa using isSource
  have isNext : text.find? (fun char => !isSpace char) = (text.dropWhile isSpace).head? := by
    simp [List.find?_eq_head?_dropWhile_not]
  rw [String.toList_ofList, isNext, isKind]
  cases isBehind : text.dropWhile isSpace with
  | nil => simp [Lexeme.ampersandKind, isBehind]
  | cons char behind =>
      rw [Lexeme.ampersandKind_of_dropWhile isBehind]
      constructor
      · intro isDollar
        obtain rfl : char = '$' := Option.some.inj isDollar
        obtain ⟨spacing, line', others, scanned, isSpacing⟩ :=
          exists_behindSpacing line isBehind (by decide)
        refine ⟨spacing, Token.cut line' '$' behind, others ++ [last], ?_, isSpacing, ?_, ?_⟩
        · rw [scanned, List.append_assoc, List.cons_append]
        · simp [Token.cut]
        · show _ ↔ (Lexeme.first '$' behind).kind = .thisVariable
          rw [Lexeme.kind_first_dollar_iff]
          cases Lexeme.spellsThis behind <;> simp
      · intro notDollar
        have notDollar : char ≠ '$' := by simpa using notDollar
        by_cases isMark : char ∈ ['.', ',', '=', ')']
        · rw [if_pos isMark]
          simpa using isMark
        · rw [if_neg isMark, if_neg fun both => notDollar both.1]
          simpa using isMark

/-- A line break and other spacing between an ampersand and the current object, with a hyphen right
behind the name. -/
theorem ampersands_agree_nextLine :
    let source := "A &\x0b\n \t$tHis-1"
    let front : List Token := [⟨.identifier, "A", 1⟩, ⟨.blank, " ", 1⟩]
    let rest : List Token := [⟨.other, "\x0b", 1⟩, ⟨.lineBreak, "\n \t", 1⟩,
      ⟨.thisVariable, "$tHis", 2⟩, ⟨.integer, "-1", 2⟩, Token.finish 2]
    tokenize source = front ++ ⟨.intersection, "&", 1⟩ :: rest ∧
      ∃ spacing dollar others, rest = spacing ++ dollar :: others ∧
        TokenList.text spacing = "\x0b\n \t" ∧ dollar.kind = .thisVariable := by
  intro source front rest
  have split : tokenize source = front ++ ⟨.intersection, "&", 1⟩ :: rest := by decide +kernel
  obtain ⟨after, isSource, -, agrees, -⟩ := ampersands_agree source split (.inr rfl)
  have isAfter : after.toList = "\x0b\n \t$tHis-1".toList := by
    have dropped := congrArg (fun text : String => text.toList.drop 3) isSource
    simpa [source, front] using dropped.symm
  rw [isAfter] at agrees
  obtain ⟨spacing, dollar, others, isRest, isSpacing, -, isJoining⟩ := agrees (by decide)
  refine ⟨split, spacing, dollar, others, isRest, ?_, isJoining.mp rfl⟩
  rw [← String.toList_inj, isSpacing]
  decide

end Scanned

end Docblock
