import Docblock.Proofs.Scanning

/-!
# Tokens and the text they are cut from

Nothing of a text is lost when it is cut into tokens, and the line of every token can be
counted off in the text.  The reason for the second is that a line feed stands in no lexeme
but a line break, which has exactly one.
-/

namespace Docblock

open Text

/-- The first `size` characters of the text satisfy `keep`. -/
def Covers (keep : Char → Bool) (size : Nat) (text : List Char) : Prop :=
  ∀ char ∈ text.take size, keep char = true

namespace Covers

variable {keep : Char → Bool} {char : Char} {size more : Nat} {text : List Char}

theorem zero (keep : Char → Bool) (text : List Char) : Covers keep 0 text := by
  simp [Covers]

theorem cons (isKept : keep char = true) (others : Covers keep size text) :
    Covers keep (size + 1) (char :: text) := by
  intro other isMember
  rw [List.take_succ_cons] at isMember
  rcases List.mem_cons.mp isMember with rfl | isLater
  · exact isKept
  · exact others other isLater

theorem tail (covers : Covers keep (size + 1) (char :: text)) : Covers keep size text :=
  fun other isMember => covers other (by simp [isMember])

theorem add (first : Covers keep size text) (second : Covers keep more (text.drop size)) :
    Covers keep (size + more) text := by
  intro other isMember
  rw [List.take_add] at isMember
  rcases List.mem_append.mp isMember with isEarly | isLate
  · exact first other isEarly
  · exact second other isLate

theorem imp {keep' : Char → Bool} (covers : Covers keep size text)
    (implied : ∀ char, keep char = true → keep' char = true) : Covers keep' size text :=
  fun other isMember => implied other (covers other isMember)

end Covers

namespace Number

/-- The characters of numbers. -/
def isPart (char : Char) : Bool :=
  isHexDigit char || isZeroContinuation char || char = '_' || char = '.' || char = '-'

theorem isPart_digit {char : Char} (digit : char.isDigit = true) : isPart char = true := by
  simp [isPart, isHexDigit, digit]

theorem isPart_hexDigit {char : Char} (digit : isHexDigit char = true) : isPart char = true := by
  simp [isPart, digit]

theorem isPart_exponentLetter {char : Char} (isLetter : isExponentLetter char = true) :
    isPart char = true := by
  simp [isPart, isZeroContinuation, isLetter]

theorem isPart_binaryDigit {char : Char} (digit : isBinaryDigit char = true) :
    isPart char = true := by
  rcases (by simpa [isBinaryDigit] using digit : char = '0' ∨ char = '1') with rfl | rfl <;> rfl

theorem isPart_octalDigit {char : Char} (digit : isOctalDigit char = true) :
    isPart char = true := by
  have bounds : '0' ≤ char ∧ char ≤ '7' := by simpa [isOctalDigit] using digit
  have below : char ≤ '9' := Char.le_trans bounds.2 (by decide)
  exact isPart_digit (by simpa [Char.isDigit] using ⟨bounds.1, below⟩)

variable {isDigit : Char → Bool}

theorem covers_moreDigits (areParts : ∀ char, isDigit char = true → isPart char = true)
    (text : List Char) : Covers isPart (moreDigits isDigit text) text := by
  fun_induction moreDigits isDigit text with
  | case1 => exact .zero _ _
  | case2 char rest digit induction => exact .cons (areParts char digit) induction
  | case3 => exact .zero _ _
  | case4 digit others isDigit _ induction =>
      exact .cons rfl (.cons (areParts digit isDigit) induction)
  | case5 => exact .zero _ _
  | case6 => exact .zero _ _

theorem covers_digits (areParts : ∀ char, isDigit char = true → isPart char = true)
    (text : List Char) : Covers isPart (digits isDigit text) text := by
  unfold digits
  split
  · exact .zero _ _
  · split
    · next digit => exact .cons (areParts _ digit) (covers_moreDigits areParts _)
    · exact .zero _ _

theorem covers_marked {marker count : Nat} {text : List Char} (marks : Covers isPart marker text)
    (others : Covers isPart count (text.drop marker)) :
    Covers isPart (marked marker count) text := by
  unfold marked
  split
  · exact .zero _ _
  · exact marks.add others

theorem covers_exponent (text : List Char) : Covers isPart (exponent text) text := by
  have decimal (text : List Char) := covers_digits (fun _ => isPart_digit) text
  unfold exponent
  split
  · exact .zero _ _
  · split
    · next isLetter =>
        have ofLetter := isPart_exponentLetter isLetter
        split
        · exact covers_marked (.cons ofLetter (.cons rfl (.zero _ _))) (decimal _)
        · exact covers_marked (.cons ofLetter (.zero _ _)) (decimal _)
    · exact .zero _ _

theorem covers_radix (text : List Char) : Covers isPart (radix text) text := by
  have letter {char : Char} (isLetter : isZeroContinuation char = true) (rest : List Char) :
      Covers isPart 1 (char :: rest) := .cons (by simp [isPart, isLetter]) (.zero _ _)
  unfold radix
  split
  · exact .zero _ _
  · next char rest =>
      split
      · next isLetter =>
          refine covers_marked (letter ?_ rest) (covers_digits (fun _ => isPart_binaryDigit) rest)
          rcases (by simpa using isLetter : char = 'b' ∨ char = 'B') with rfl | rfl <;> rfl
      · split
        · next isLetter =>
            refine covers_marked (letter ?_ rest) (covers_digits (fun _ => isPart_octalDigit) rest)
            rcases (by simpa using isLetter : char = 'o' ∨ char = 'O') with rfl | rfl <;> rfl
        · split
          · next isLetter =>
              refine covers_marked (letter ?_ rest) (covers_digits (fun _ => isPart_hexDigit) rest)
              rcases (by simpa using isLetter : char = 'x' ∨ char = 'X') with rfl | rfl <;> rfl
          · exact .zero _ _

theorem covers_fraction? {text : List Char} {found : TokenKind × Nat}
    (isFound : fraction? text = some found) : Covers isPart found.2 text := by
  unfold fraction? at isFound
  split at isFound
  · next rest =>
      simp only at isFound
      split at isFound
      · cases isFound
      · cases isFound
        refine .add ?_ ?_
        · rw [Nat.add_comm]
          exact .cons rfl (covers_digits (fun _ => isPart_digit) rest)
        · rw [Nat.add_comm, List.drop_succ_cons]
          exact covers_exponent _
  · cases isFound

theorem covers_afterWhole (cut : TokenKind) {whole : Nat} {text : List Char}
    (ofWhole : Covers isPart whole text) :
    Covers isPart (afterWhole cut whole (text.drop whole)).2 text := by
  unfold afterWhole
  split
  · exact ofWhole
  · next next rest isRest =>
      have upTo {size : Nat} (others : Covers isPart size (next :: rest)) :
          Covers isPart (whole + size) text := ofWhole.add (by rwa [isRest])
      split
      · next isPoint =>
          have ofPoint : isPart next = true := by rw [isPoint]; rfl
          simp only
          split
          · exact upTo (.cons ofPoint (.zero _ _))
          · have ofDecimals : Covers isPart _ _ := .cons ofPoint
              (.add (covers_digits (fun _ => isPart_digit) rest) (covers_exponent _))
            have all := upTo ofDecimals
            rwa [Nat.add_comm _ 1, ← Nat.add_assoc, ← Nat.add_assoc] at all
      · split
        · next isMark => exact upTo (.cons (by rw [isMark]; rfl) (.zero _ _))
        · simp only
          split
          · exact upTo (covers_exponent _)
          · split <;> exact ofWhole

/-- The number at the start of a text has only characters of numbers. -/
theorem covers_scan? {negative : Bool} {text : List Char} {found : TokenKind × Nat}
    (isFound : scan? negative text = some found) : Covers isPart found.2 text := by
  have ofWhole := covers_digits (fun _ => isPart_digit) text
  unfold scan? at isFound
  simp only at isFound
  split at isFound
  · exact covers_fraction? isFound
  · split at isFound
    · next isZero =>
        cases isFound
        have isText : text = '0' :: text.drop (digits Char.isDigit text) := by
          have split := List.take_append_drop (digits Char.isDigit text) text
          rw [isZero.1] at split
          exact split.symm
        generalize text.drop (digits Char.isDigit text) = rest at isText ⊢
        rw [isText, Nat.add_comm]
        exact .cons rfl (covers_radix rest)
    · cases isFound
      exact covers_afterWhole _ ofWhole

end Number

namespace Lexeme

theorem covers_runLength (keep : Char → Bool) (text : List Char) :
    Covers keep (runLength keep text) text := by
  intro char isMember
  rw [take_runLength] at isMember
  exact List.mem_takeWhile_imp isMember

/-- The characters of names behind the first one. -/
def isNameText (char : Char) : Bool := isNamePart char || char = '\\'

theorem covers_nameTail (text : List Char) : Covers isNameText (nameTail text) text := by
  have part {char : Char} (isPart : isNamePart char = true) : isNameText char = true := by
    simp [isNameText, isPart]
  fun_induction nameTail text with
  | case1 => exact .zero _ _
  | case2 char rest isPart induction => exact .cons (part isPart) induction
  | case3 => exact .zero _ _
  | case4 start others isStart _ induction =>
      refine .cons rfl (.cons (part ?_) induction)
      simp [isNamePart, isVariablePart, isStart]
  | case5 => exact .zero _ _
  | case6 => exact .zero _ _

theorem covers_quotedTail? {quote : Char} {text : List Char} {size : Nat}
    (isFound : quotedTail? quote text = some size) (solid : isLineEnd quote = false) :
    Covers (fun char => !isLineEnd char) size text := by
  fun_induction quotedTail? quote text generalizing size with
  | case1 => cases isFound
  | case2 rest =>
      cases isFound
      exact .cons (by simp [solid]) (.zero _ _)
  | case3 => cases isFound
  | case4 => cases isFound
  | case5 => cases isFound
  | case6 escaped others inLine _ _ induction =>
      obtain ⟨size, found, rfl⟩ := Option.map_eq_some_iff.mp isFound
      exact .cons rfl (.cons (by simpa using inLine) (induction found))
  | case7 char rest _ inLine _ induction =>
      obtain ⟨size, found, rfl⟩ := Option.map_eq_some_iff.mp isFound
      exact .cons (by simpa using inLine) (induction found)

theorem covers_otherTail (text : List Char) :
    Covers (fun char => !isSpace char) (otherTail text) text := by
  fun_induction otherTail text with
  | case1 => exact .zero _ _
  | case2 => exact .zero _ _
  | case3 char rest goesOn induction =>
      have solid : isSpace char = false := by simp_all
      exact .cons (by simp [solid]) induction

/-- The characters of a line break behind its line feed. -/
def isGutter (char : Char) : Bool := isBlank char || char = '*'

theorem covers_gutter (text : List Char) : Covers isGutter (gutter text) text := by
  have blanks : Covers isGutter (runLength isBlank text) text :=
    (covers_runLength isBlank text).imp fun char isBlank => by simp [isGutter, isBlank]
  unfold gutter
  simp only
  split
  · next isStar =>
      obtain ⟨others, isRest⟩ := List.head?_eq_some_iff.mp isStar.1
      refine blanks.add ?_
      rw [isRest]
      exact .cons rfl (.zero _ _)
  · exact blanks

/-- What the rules find, rule by rule. -/
inductive Ruled : Char → List Char → Lexeme → Prop
  | blank {char : Char} {rest : List Char} (isBlank : isBlank char = true) :
      Ruled char rest ⟨.blank, runLength Text.isBlank rest⟩
  | name {char : Char} {rest : List Char} (isStart : isNameStart char = true) :
      Ruled char rest ⟨.identifier, nameTail rest⟩
  | number {char : Char} {rest : List Char} {found : TokenKind × Nat}
      (opens : char.isDigit = true ∨ char = '.')
      (scanned : Number.scan? false (char :: rest) = some found) :
      Ruled char rest ⟨found.1, found.2 - 1⟩
  | lineFeed {rest : List Char} : Ruled '\n' rest ⟨.lineBreak, gutter rest⟩
  | returned {rest : List Char} : Ruled '\r' ('\n' :: rest) ⟨.lineBreak, 1 + gutter rest⟩
  | ampersand {rest : List Char} : Ruled '&' rest ⟨ampersandKind rest, 0⟩
  | negative {rest : List Char} {found : TokenKind × Nat}
      (scanned : Number.scan? true rest = some found) : Ruled '-' rest ⟨found.1, found.2⟩
  | minus {rest : List Char} (unsigned : Number.scan? true rest = none) :
      Ruled '-' rest ⟨.minus, 0⟩
  | ellipsis {rest : List Char} : Ruled '.' ('.' :: '.' :: rest) ⟨.variadic, 2⟩
  | doubleColon {rest : List Char} : Ruled ':' (':' :: rest) ⟨.doubleColon, 1⟩
  | colon {rest : List Char} (single : rest.head? ≠ some ':') : Ruled ':' rest ⟨.colon, 0⟩
  | doubleArrow {rest : List Char} : Ruled '=' ('>' :: rest) ⟨.doubleArrow, 1⟩
  | equal {rest : List Char} (single : rest.head? ≠ some '>') : Ruled '=' rest ⟨.equal, 0⟩
  | closeDoc {rest : List Char} : Ruled '*' ('/' :: rest) ⟨.closeDoc, 1⟩
  | wildcard {rest : List Char} (single : rest.head? ≠ some '/') :
      Ruled '*' rest ⟨.wildcard, 0⟩
  | openDoc {next : Char} {rest : List Char} (spaced : isSpace next = true) :
      Ruled '/' ('*' :: '*' :: next :: rest) ⟨.openDoc, 2⟩
  | tag {rest : List Char} (named : rest.head?.any Char.isAlpha = true) :
      Ruled '@' rest ⟨.tag, runLength isTagPart rest⟩
  | variableName {rest : List Char} {kind : TokenKind}
      (isKind : kind = .thisVariable ∨ kind = .namedVariable) :
      Ruled '$' rest ⟨kind, runLength isVariablePart rest⟩
  | qualified {start : Char} {rest : List Char} (isStart : isNameStart start = true) :
      Ruled '\\' (start :: rest) ⟨.identifier, 1 + nameTail rest⟩
  | quoted {quote : Char} {rest : List Char} {kind : TokenKind} {size : Nat}
      (isQuote : quote = '\x27' ∧ kind = .singleQuoted ∨ quote = '\x22' ∧ kind = .doubleQuoted)
      (found : quotedTail? quote rest = some size) : Ruled quote rest ⟨kind, size⟩
  | punctuation {char : Char} {rest : List Char} {kind : TokenKind}
      (found : punctuation? char = some kind) : Ruled char rest ⟨kind, 0⟩

theorem ruled_of_rule? {char : Char} {rest : List Char} {lexeme : Lexeme}
    (isFound : rule? char rest = some lexeme) : Ruled char rest lexeme := by
  have number {char : Char} (opens : char.isDigit = true ∨ char = '.')
      (isNumber : number? char rest = some lexeme) : Ruled char rest lexeme := by
    obtain ⟨found, scanned, rfl⟩ := Option.map_eq_some_iff.mp isNumber
    exact .number opens scanned
  unfold rule? at isFound
  split at isFound
  · next isBlank =>
        cases isFound
        exact .blank isBlank
  split at isFound
  · next isStart =>
        cases isFound
        exact .name isStart
  split at isFound
  · next digit => exact number (.inl digit) isFound
  split at isFound
  · cases isFound
    exact .lineFeed
  · split at isFound
    · cases isFound
      exact .returned
    · cases isFound
  · cases isFound
    exact .ampersand
  · cases isFound
    unfold Lexeme.minus
    split
    · next scanned => exact .negative scanned
    · next unsigned => exact .minus unsigned
  · split at isFound
    · cases isFound
      exact .ellipsis
    · exact number (.inr rfl) isFound
  · split at isFound
    · next isHead =>
        obtain ⟨others, rfl⟩ := List.head?_eq_some_iff.mp isHead
        cases isFound
        exact .doubleColon
    · next single =>
          cases isFound
          exact .colon single
  · split at isFound
    · next isHead =>
        obtain ⟨others, rfl⟩ := List.head?_eq_some_iff.mp isHead
        cases isFound
        exact .doubleArrow
    · next single =>
          cases isFound
          exact .equal single
  · split at isFound
    · next isHead =>
        obtain ⟨others, rfl⟩ := List.head?_eq_some_iff.mp isHead
        cases isFound
        exact .closeDoc
    · next single =>
          cases isFound
          exact .wildcard single
  · split at isFound
    · split at isFound
      · next spaced =>
            cases isFound
            exact .openDoc spaced
      · cases isFound
    · cases isFound
  · split at isFound
    · next named =>
          cases isFound
          exact .tag named
    · cases isFound
  · unfold dollar? at isFound
    simp only at isFound
    split_ifs at isFound <;> cases isFound
    · exact .variableName (.inl rfl)
    · exact .variableName (.inr rfl)
  · split at isFound
    · split at isFound
      · next isStart =>
            cases isFound
            exact .qualified isStart
      · cases isFound
    · cases isFound
  · obtain ⟨size, found, rfl⟩ := Option.map_eq_some_iff.mp isFound
    exact .quoted (.inl ⟨rfl, rfl⟩) found
  · obtain ⟨size, found, rfl⟩ := Option.map_eq_some_iff.mp isFound
    exact .quoted (.inr ⟨rfl, rfl⟩) found
  · obtain ⟨kind, found, rfl⟩ := Option.map_eq_some_iff.mp isFound
    exact .punctuation found

theorem ampersandKind_cases (text : List Char) :
    ampersandKind text = .reference ∨ ampersandKind text = .intersection := by
  unfold ampersandKind
  split
  · exact .inr rfl
  · split_ifs <;> simp

section LineFeeds

variable {char : Char} {rest : List Char} {lexeme : Lexeme} {size : Nat}

theorem count_lineFeed_eq_zero {keep : Char → Bool} (inLine : char ≠ '\n')
    (covers : Covers keep size rest) (stops : keep '\n' = false) :
    (char :: rest.take size).count '\n' = 0 := by
  rw [List.count_cons_of_ne inLine, List.count_eq_zero]
  intro isMember
  rw [covers _ isMember] at stops
  cases stops

/-- A line break has one line feed, and no other lexeme has any. -/
theorem Ruled.count_lineFeed (ruled : Ruled char rest lexeme) :
    (char :: rest.take lexeme.extra).count '\n' = if lexeme.kind = .lineBreak then 1 else 0 := by
  cases ruled with
  | blank isBlank =>
      refine count_lineFeed_eq_zero ?_ (covers_runLength _ _) rfl
      rintro rfl
      cases isBlank
  | name isStart =>
      refine count_lineFeed_eq_zero ?_ (covers_nameTail _) rfl
      rintro rfl
      cases isStart
  | @number _ _ found opens scanned =>
      have covers := Number.covers_scan? scanned
      have inLine : char ≠ '\n' := by
        rintro rfl
        rcases opens with digit | isPoint
        · cases digit
        · cases isPoint
      have others : Covers Number.isPart (found.2 - 1) rest := by
        cases size : found.2 with
        | zero => exact .zero _ _
        | succ size =>
            rw [size] at covers
            exact covers.tail
      rw [count_lineFeed_eq_zero inLine others rfl, if_neg]
      intro isBreak
      rcases Number.scan?_kind scanned with isKind | isKind | ⟨-, isKind⟩
      all_goals
        rw [isKind] at isBreak
        cases isBreak
  | lineFeed =>
      rw [List.count_cons_self, if_pos rfl, List.count_eq_zero_of_not_mem]
      intro isMember
      cases covers_gutter rest _ isMember
  | @returned others =>
      rw [Nat.add_comm, List.take_succ_cons, List.count_cons_of_ne (by decide),
        List.count_cons_self, if_pos rfl, List.count_eq_zero_of_not_mem]
      intro isMember
      cases covers_gutter others _ isMember
  | ampersand =>
      rcases ampersandKind_cases rest with isKind | isKind <;> simp [isKind]
  | @negative _ found scanned =>
      rw [count_lineFeed_eq_zero (by decide) (Number.covers_scan? scanned) rfl, if_neg]
      intro isBreak
      rcases Number.scan?_kind scanned with isKind | isKind | ⟨-, isKind⟩
      all_goals
        rw [isKind] at isBreak
        cases isBreak
  | variableName isKind =>
      rw [count_lineFeed_eq_zero (by decide) (covers_runLength _ _) rfl]
      rcases isKind with rfl | rfl <;> rfl
  | tag => exact count_lineFeed_eq_zero (by decide) (covers_runLength _ _) rfl
  | @qualified start others isStart =>
      have covers : Covers isNameText (1 + nameTail others) (start :: others) := by
        rw [Nat.add_comm]
        refine .cons ?_ (covers_nameTail others)
        simp [isNameText, isNamePart, isVariablePart, isStart]
      exact count_lineFeed_eq_zero (by decide) covers rfl
  | quoted isQuote found =>
      rcases isQuote with ⟨rfl, rfl⟩ | ⟨rfl, rfl⟩
      · exact count_lineFeed_eq_zero (by decide) (covers_quotedTail? found rfl) rfl
      · exact count_lineFeed_eq_zero (by decide) (covers_quotedTail? found rfl) rfl
  | punctuation found =>
      unfold punctuation? at found
      split at found <;> cases found <;> simp
  | _ => simp

theorem count_lineFeed_first (char : Char) (rest : List Char) :
    (char :: rest.take (first char rest).extra).count '\n' =
      if (first char rest).kind = .lineBreak then 1 else 0 := by
  cases found : rule? char rest with
  | some lexeme =>
      rw [first_of_rule? found]
      exact (ruled_of_rule? found).count_lineFeed
  | none =>
      have inLine : char ≠ '\n' := by
        rintro rfl
        cases found
      have isFirst : first char rest = ⟨.other, if isSpace char then 0 else otherTail rest⟩ := by
        rw [first, found]
      rw [isFirst]
      show (char :: rest.take (if isSpace char then 0 else otherTail rest)).count '\n' = 0
      split
      · exact count_lineFeed_eq_zero inLine (.zero (fun _ => false) _) rfl
      · exact count_lineFeed_eq_zero inLine (covers_otherTail rest) rfl

end LineFeeds

end Lexeme

/-- The number of line feeds in a text. -/
def lineFeeds (text : String) : Nat := text.toList.count '\n'

namespace TokenList

@[simp] theorem toList_text (tokens : List Token) :
    (text tokens).toList = tokens.flatMap fun token => token.value.toList := by
  simp [text, String.toList_join, List.flatMap_map]

@[simp] theorem text_nil : text [] = "" := rfl

theorem text_cons (token : Token) (rest : List Token) :
    text (token :: rest) = token.value ++ text rest := by
  rw [← String.toList_inj]
  simp

theorem text_append (first second : List Token) :
    text (first ++ second) = text first ++ text second := by
  rw [← String.toList_inj]
  simp

end TokenList

theorem lineFeeds_append (first second : String) :
    lineFeeds (first ++ second) = lineFeeds first + lineFeeds second := by
  simp [lineFeeds]

/-- The tokens follow one another, the first one on the given line: only a line break moves
the line count. -/
def Numbered : UInt32 → List Token → Prop
  | _, [] => True
  | line, token :: rest => token.line = line ∧ Numbered token.nextLine rest

/-- The line of what follows the tokens, if the first of them is on the given line. -/
def lineBehind (line : UInt32) (tokens : List Token) : UInt32 :=
  tokens.getLast?.elim line Token.nextLine

theorem Numbered.append {line : UInt32} {first second : List Token} (numbered : Numbered line first)
    (others : Numbered (lineBehind line first) second) : Numbered line (first ++ second) := by
  induction first generalizing line with
  | nil => exact others
  | cons token rest induction =>
      refine ⟨numbered.1, induction numbered.2 ?_⟩
      cases rest with
      | nil => exact others
      | cons next rest => exact others

/-- A token is as many lines further down as there are line breaks in front of it. -/
theorem Numbered.line_eq {line : UInt32} {before after : List Token} {token : Token}
    (numbered : Numbered line (before ++ token :: after)) :
    token.line = line + UInt32.ofNat (before.countP (·.kind = .lineBreak)) := by
  induction before generalizing line with
  | nil => simpa using numbered.1
  | cons first rest induction =>
      rw [induction numbered.2, Token.nextLine, numbered.1]
      by_cases isBreak : first.kind = .lineBreak
      · rw [if_pos isBreak, List.countP_cons_of_pos (by simpa using isBreak), Nat.add_comm,
          UInt32.ofNat_add, ← UInt32.add_assoc]
        rfl
      · rw [if_neg isBreak, List.countP_cons_of_neg (by simpa using isBreak)]

theorem numbered_scanWithin (fuel : Nat) (line : UInt32) (text : List Char) :
    Numbered line (scanWithin fuel line text) := by
  induction fuel generalizing line text with
  | zero => trivial
  | succ fuel induction =>
      cases text with
      | nil => trivial
      | cons char rest => exact ⟨rfl, induction _ _⟩

theorem numbered_tokenize (source : String) : Numbered 1 (tokenize source) := by
  have scanned := numbered_scanWithin source.toList.length 1 source.toList
  rw [tokenize, TokenList.sealed]
  split
  · exact ⟨rfl, trivial⟩
  · next last isLast =>
      split
      · exact scanned
      · refine scanned.append ⟨?_, trivial⟩
        show last.nextLine = (scan source.toList).getLast?.elim 1 Token.nextLine
        rw [isLast]
        rfl

/-- The tokens that are cut off a text make up the text. -/
theorem text_scanWithin {fuel : Nat} {text : List Char} (line : UInt32)
    (enough : text.length ≤ fuel) :
    (TokenList.text (scanWithin fuel line text)).toList = text := by
  induction fuel generalizing line text with
  | zero =>
      rw [List.length_eq_zero_iff.mp (Nat.le_zero.mp enough)]
      rfl
  | succ fuel induction =>
      cases text with
      | nil => rfl
      | cons char rest =>
          have shorter : (rest.drop (Lexeme.first char rest).extra).length ≤ fuel := by
            simp only [List.length_cons, List.length_drop] at enough ⊢
            omega
          rw [scanWithin, TokenList.text_cons, String.toList_append, induction _ shorter]
          simp

theorem lineFeeds_of_mem_tokenize {source : String} {token : Token}
    (isMember : token ∈ tokenize source) :
    lineFeeds token.value = if token.kind = .lineBreak then 1 else 0 := by
  obtain ⟨line, isTokenized⟩ := exists_tokenize_eq source
  rw [isTokenized] at isMember
  rcases List.mem_append.mp isMember with isScanned | isLast
  · obtain ⟨char, rest, isKind, isValue⟩ := mem_scanWithin isScanned
    rw [lineFeeds, isValue, isKind]
    exact Lexeme.count_lineFeed_first char rest
  · rw [List.mem_singleton.mp isLast]
    rfl

theorem lineFeeds_text {tokens : List Token}
    (each : ∀ token ∈ tokens, lineFeeds token.value = if token.kind = .lineBreak then 1 else 0) :
    lineFeeds (TokenList.text tokens) = tokens.countP (·.kind = .lineBreak) := by
  induction tokens with
  | nil => rfl
  | cons token rest induction =>
      rw [TokenList.text_cons, lineFeeds_append, each token List.mem_cons_self,
        induction fun other isMember => each other (List.mem_cons_of_mem _ isMember)]
      by_cases isBreak : token.kind = .lineBreak
      · rw [if_pos isBreak, List.countP_cons_of_pos (by simpa using isBreak), Nat.add_comm]
      · rw [if_neg isBreak, List.countP_cons_of_neg (by simpa using isBreak), Nat.zero_add]

theorem text_tokenize (source : String) : TokenList.text (tokenize source) = source := by
  obtain ⟨line, isTokenized⟩ := exists_tokenize_eq source
  rw [isTokenized, TokenList.text_append, ← String.toList_inj, String.toList_append, scan,
    text_scanWithin 1 (Nat.le_refl _)]
  simp [Token.finish]

/-- The line of a token, counted off in the text in front of it. -/
theorem line_of_tokenize {source : String} {before after : List Token} {token : Token}
    (countable : lineFeeds source < UInt32.size - 1)
    (split : tokenize source = before ++ token :: after) :
    token.line.toNat = 1 + lineFeeds (TokenList.text before) := by
  have numbered := numbered_tokenize source
  have whole := text_tokenize source
  rw [split] at numbered whole
  have counted : lineFeeds (TokenList.text before) = before.countP (·.kind = .lineBreak) := by
    refine lineFeeds_text fun other isMember => ?_
    have isToken : other ∈ tokenize source := by simp [split, isMember]
    exact lineFeeds_of_mem_tokenize isToken
  have bound : lineFeeds (TokenList.text before) ≤ lineFeeds source := by
    rw [← whole, TokenList.text_append, lineFeeds_append]
    exact Nat.le_add_right _ _
  rw [numbered.line_eq, counted]
  rw [counted] at bound
  rw [UInt32.size] at countable
  rw [UInt32.toNat_add, UInt32.toNat_ofNat', show (1 : UInt32).toNat = 1 from rfl]
  omega

/-- The tokens of a text make up the text, the last of them and no other is the end of the
input and empty, and the line of each is one more than the number of line feeds in front of
it, which are found in line breaks only and in each of them once. -/
theorem tokenize_lossless (source : String) (countable : lineFeeds source < UInt32.size - 1) :
    TokenList.text (tokenize source) = source ∧
    (∃ front last, tokenize source = front ++ [last] ∧ last.kind = .finish ∧ last.value = "" ∧
      ∀ token ∈ front, token.kind ≠ .finish ∧ token.value ≠ "") ∧
    (∀ before token after, tokenize source = before ++ token :: after →
      token.line.toNat = 1 + lineFeeds (TokenList.text before)) ∧
    ∀ token ∈ tokenize source,
      lineFeeds token.value = if token.kind = .lineBreak then 1 else 0 := by
  refine ⟨text_tokenize source, ?_, fun _ _ _ => line_of_tokenize countable,
    fun _ => lineFeeds_of_mem_tokenize⟩
  obtain ⟨line, isTokenized⟩ := exists_tokenize_eq source
  refine ⟨_, _, isTokenized, rfl, rfl, ?_⟩
  intro token isScanned
  obtain ⟨char, rest, isKind, isValue⟩ := mem_scanWithin isScanned
  constructor
  · rw [isKind]
    exact Lexeme.kind_first_ne_finish char rest
  · intro isEmpty
    rw [isEmpty] at isValue
    cases isValue

/-- The close marker on the third line of a comment. -/
theorem tokenize_lossless_thirdLine :
    let source := "/**\r\n * 1_\n */"
    let before : List Token := [⟨.openDoc, "/**", 1⟩, ⟨.lineBreak, "\r\n *", 1⟩,
      ⟨.blank, " ", 2⟩, ⟨.integer, "1_", 2⟩, ⟨.lineBreak, "\n ", 2⟩]
    lineFeeds source < UInt32.size - 1 ∧
      tokenize source = before ++ ⟨.closeDoc, "*/", 3⟩ :: [Token.finish 3] ∧
      (3 : UInt32).toNat = 1 + lineFeeds (TokenList.text before) := by
  intro source before
  have countable : lineFeeds source < UInt32.size - 1 := by decide +kernel
  have split : tokenize source = before ++ ⟨.closeDoc, "*/", 3⟩ :: [Token.finish 3] := by
    decide +kernel
  exact ⟨countable, split, (tokenize_lossless source countable).2.2.1 _ _ _ split⟩

end Docblock
