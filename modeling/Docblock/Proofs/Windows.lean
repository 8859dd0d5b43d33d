import Docblock.Proofs.Lossless
import Docblock.Proofs.Tandem
import Mathlib.Data.List.Chain

/-!
# Windows over lists of tokens

The byte offset of a token is the size of the text in front of it, so lists that start with the
same tokens agree in the offsets of these, too, and form a window up to a token that closes a
comment or ends the input.
-/

namespace Docblock

namespace TokenList

theorem getElem?_offsetsFrom (start : Nat) (tokens : List Token) (place : Nat) :
    (offsetsFrom start tokens)[place]? =
      tokens[place]?.map fun _ => start + (text (tokens.take place)).utf8ByteSize := by
  induction tokens generalizing start place with
  | nil => simp [offsetsFrom]
  | cons token rest induction =>
      cases place with
      | zero => simp [offsetsFrom]
      | succ place =>
          rw [offsetsFrom, List.getElem?_cons_succ, induction, List.getElem?_cons_succ,
            List.take_succ_cons, text_cons, String.utf8ByteSize_append, Token.size, Nat.add_assoc]

theorem sealed_append (front : List Token) {rest : List Token} (notEmpty : rest ≠ []) :
    sealed (front ++ rest) = front ++ sealed rest := by
  obtain ⟨last, isLast⟩ : ∃ last, rest.getLast? = some last :=
    Option.ne_none_iff_exists'.mp (by simpa using notEmpty)
  have isLast' : (front ++ rest).getLast? = some last := by
    rw [List.getLast?_append, isLast]
    rfl
  rw [sealed, sealed, isLast, isLast']
  split
  · next impossible => cases impossible
  · split
    · rfl
    · rw [List.append_assoc]

/-- Behind a token that does not end the input a sealed list goes on. -/
theorem exists_sealed_cons {token : Token} (notFinish : token.kind ≠ .finish) (rest : List Token) :
    ∃ next others, sealed (token :: rest) = token :: next :: others := by
  cases rest with
  | nil => exact ⟨Token.finish token.nextLine, [], by simp [sealed, notFinish]⟩
  | cons next others =>
      have isSealed : sealed (token :: next :: others) = token :: sealed (next :: others) :=
        sealed_append [token] (List.cons_ne_nil next others)
      obtain ⟨next', others', isCons⟩ :=
        List.exists_cons_of_ne_nil (sealed_ne_nil (next :: others))
      exact ⟨next', others', by rw [isSealed, isCons]⟩

end TokenList

namespace Cursor

/-- The cursor over a list of tokens as it is. -/
def onTokens (tokens : List Token) : Cursor where
  tokens := tokens.toArray
  offsets := (TokenList.offsetsFrom 0 tokens).toArray
  index := 0
  savePoints := []

/-- The place at which the reading of a list starts: behind one blank. -/
def entry (tokens : List Token) : Nat :=
  if tokens.head?.any (·.kind = .blank) then 1 else 0

theorem ofTokens_eq (tokens : List Token) :
    ofTokens tokens =
      (onTokens (TokenList.sealed tokens)).standing (entry (TokenList.sealed tokens)) [] := rfl

@[simp] theorem size_onTokens (tokens : List Token) :
    (onTokens tokens).tokens.size = tokens.length := by
  simp [onTokens]

theorem tokenAt_onTokens (tokens : List Token) (place : Nat) :
    (onTokens tokens).tokenAt place = tokens[place]?.getD (Token.finish 1) := by
  simp [tokenAt, onTokens]

@[simp] theorem tokenAt_onTokens_append (front : List Token) (token : Token) (after : List Token) :
    (onTokens (front ++ token :: after)).tokenAt front.length = token := by
  simp [tokenAt_onTokens]

theorem tokensFrom_onTokens (tokens : List Token) (place start : Nat) (saved : List Nat) :
    ((onTokens tokens).standing place saved).tokensFrom start = tokens.drop start := by
  simp only [tokensFrom, standing, onTokens, Array.toList_extract, List.extract_eq_take_drop]
  exact List.take_of_length_le (by simp)

/-- An error names the token at the cursor, and where its text starts. -/
theorem unexpected_onTokens (front : List Token) (token : Token) (after : List Token)
    (saved : List Nat) (expected : Expected) :
    ((onTokens (front ++ token :: after)).standing front.length saved).unexpected expected =
      ⟨token.value, token.kind, (TokenList.text front).utf8ByteSize, token.line, expected⟩ := by
  have isCurrent :
      ((onTokens (front ++ token :: after)).standing front.length saved).current = token :=
    tokenAt_onTokens_append front token after
  have isOffset : ((onTokens (front ++ token :: after)).standing front.length saved).offset =
      (TokenList.text front).utf8ByteSize := by
    simp [offset, standing, onTokens, TokenList.getElem?_offsetsFrom]
  rw [unexpected, isCurrent, isOffset]

theorem entry_append (front : List Token) (token : Token) (after after' : List Token) :
    entry (front ++ token :: after') = entry (front ++ token :: after) := by
  cases front <;> rfl

theorem entry_le {tokens front after : List Token} {token : Token}
    (split : tokens = front ++ token :: after) (notBlank : token.kind ≠ .blank) :
    entry tokens ≤ front.length := by
  rw [split, entry]
  cases front with
  | nil => simp [notBlank]
  | cons other rest => split <;> simp

end Cursor

theorem sealed_tokenize (source : String) :
    TokenList.sealed (tokenize source) = tokenize source := by
  obtain ⟨line, isTokenized⟩ := exists_tokenize_eq source
  simp [isTokenized, TokenList.sealed, Token.finish]

theorem ofTokens_tokenize (source : String) :
    Cursor.ofTokens (tokenize source) =
      (Cursor.onTokens (tokenize source)).standing (Cursor.entry (tokenize source)) [] := by
  rw [Cursor.ofTokens_eq, sealed_tokenize]

theorem exists_last (source : String) :
    ∃ front last, tokenize source = front ++ [last] ∧ last.kind = .finish := by
  obtain ⟨line, split⟩ := exists_tokenize_eq source
  exact ⟨_, _, split, rfl⟩

section Splits

variable {source : String} {front after : List Token} {token : Token}

/-- A token of a text in front of another one was cut off the text. -/
theorem exists_lexeme_of_split (split : tokenize source = front ++ token :: after)
    (more : after ≠ []) : ∃ char rest, token.kind = (Lexeme.first char rest).kind ∧
      token.value.toList = char :: rest.take (Lexeme.first char rest).extra := by
  obtain ⟨line, isTokenized⟩ := exists_tokenize_eq source
  obtain ⟨others, last, rfl⟩ := (List.eq_nil_or_concat after).resolve_left more
  rw [isTokenized, List.concat_eq_append, ← List.cons_append, ← List.append_assoc] at split
  have isScanned : token ∈ scan source.toList := by
    rw [(List.append_inj' split rfl).1]
    simp
  exact mem_scanWithin isScanned

theorem exists_finish_of_split (split : tokenize source = front ++ [token]) :
    ∃ line, token = Token.finish line := by
  obtain ⟨line, isTokenized⟩ := exists_tokenize_eq source
  rw [isTokenized] at split
  exact ⟨line, by simpa using (congrArg List.getLast? split).symm⟩

/-- The end of the input is the last token of a text and no other. -/
theorem kind_eq_finish_iff (split : tokenize source = front ++ token :: after) :
    token.kind = .finish ↔ after = [] := by
  constructor
  · intro isFinish
    by_contra more
    obtain ⟨char, rest, isKind, -⟩ := exists_lexeme_of_split split more
    exact Lexeme.kind_first_ne_finish char rest (isKind.symm.trans isFinish)
  · rintro rfl
    obtain ⟨line, rfl⟩ := exists_finish_of_split split
    rfl

/-- The end of the input is the only token of a text that is empty. -/
theorem value_eq_empty_iff (split : tokenize source = front ++ token :: after) :
    token.value = "" ↔ after = [] := by
  constructor
  · intro isEmpty
    by_contra more
    obtain ⟨char, rest, -, isValue⟩ := exists_lexeme_of_split split more
    rw [isEmpty] at isValue
    cases isValue
  · rintro rfl
    obtain ⟨line, rfl⟩ := exists_finish_of_split split
    rfl

/-- Behind a close marker there is at least the end of the input. -/
theorem ne_nil_of_closeDoc (split : tokenize source = front ++ token :: after)
    (isClose : token.kind = .closeDoc) : after ≠ [] := by
  rw [Ne, ← kind_eq_finish_iff split, isClose]
  decide

end Splits

theorem singleBlanks_tokenize (source : String) : SingleBlanks (tokenize source) := by
  obtain ⟨line, isTokenized⟩ := exists_tokenize_eq source
  rw [isTokenized]
  refine List.isChain_append.mpr ⟨singleBlanks_scanWithin _ _ _, .singleton _, ?_⟩
  intro last _ next isNext _
  obtain rfl : Token.finish line = next := by simpa using isNext
  exact TokenKind.noConfusion

/-- The words for a bound stand for themselves only where they are names. -/
theorem isIdentifier_of_mem_tokenize {source : String} {token : Token}
    (isMember : token ∈ tokenize source) (isWord : token.value ∈ ["of", "as"]) :
    token.kind = .identifier := by
  obtain ⟨line, isTokenized⟩ := exists_tokenize_eq source
  rw [isTokenized] at isMember
  rcases List.mem_append.mp isMember with isScanned | isLast
  · obtain ⟨char, rest, isKind, isValue⟩ := mem_scanWithin isScanned
    have isStart : Lexeme.isNameStart char = true := by
      simp only [List.mem_cons, List.not_mem_nil, or_false] at isWord
      rcases isWord with isOf | isAs
      · rw [isOf] at isValue
        rw [← (List.cons.inj isValue).1]
        decide
      · rw [isAs] at isValue
        rw [← (List.cons.inj isValue).1]
        decide
    rw [isKind, Lexeme.first_of_rule? (Lexeme.rule?_nameStart isStart rest)]
  · have isEmpty : token.value = "" := by rw [List.mem_singleton.mp isLast]; rfl
    rw [isEmpty] at isWord
    exact absurd isWord (by decide)

namespace Window

/-- The window of two lists that start with the same tokens, up to one that closes a comment or
ends the input. -/
def closing (front : List Token) (close : Token) (after after' : List Token)
    (bars : close.kind ∈ [.closeDoc, .finish])
    (named : ∀ token ∈ front ++ [close], token.value ∈ ["of", "as"] → token.kind = .identifier) :
    Window where
  first := .onTokens (front ++ close :: after)
  second := .onTokens (front ++ close :: after')
  limit := front.length
  last := front.length
  inFirst := by simp
  inSecond := by simp
  tokens place inside := by
    have within : place < (front ++ [close]).length := by simpa using Nat.lt_succ_of_le inside
    rw [Cursor.tokenAt_onTokens, Cursor.tokenAt_onTokens, List.append_cons,
      List.append_cons front close after', List.getElem?_append_left within,
      List.getElem?_append_left within]
  offsets place inside := by
    have within : place < (front ++ [close]).length := by simpa using Nat.lt_succ_of_le inside
    simp only [Cursor.onTokens, List.getElem?_toArray, TokenList.getElem?_offsetsFrom,
      List.take_append_of_le_length inside]
    rw [List.append_cons, List.append_cons front close after',
      List.getElem?_append_left within, List.getElem?_append_left within]
  bars := by
    rw [Cursor.tokenAt_onTokens_append]
    simp only [List.mem_cons, List.not_mem_nil, or_false] at bars ⊢
    tauto
  last_le := Nat.le_refl _
  near := Nat.le_add_right _ _
  ends := by
    rw [Cursor.tokenAt_onTokens_append]
    simp only [List.mem_cons, List.not_mem_nil, or_false] at bars ⊢
    tauto
  blanks place behind before := by omega
  named place inside := by
    have within : place < (front ++ [close]).length := by simpa using Nat.lt_succ_of_le inside
    rw [Cursor.tokenAt_onTokens, List.append_cons, List.getElem?_append_left within,
      List.getElem?_eq_getElem within]
    exact named _ (List.getElem_mem within)

/-- The window up to a token of a text that closes a comment or ends the input, with any list on
the other side that starts with the same tokens. -/
def upTo {source : String} {front after : List Token} {close : Token}
    (split : tokenize source = front ++ close :: after) (bars : close.kind ∈ [.closeDoc, .finish])
    (after' : List Token) : Window :=
  .closing front close after after' bars fun token isMember => by
    have isToken : token ∈ tokenize source := by
      rw [split, List.append_cons]
      exact List.mem_append_left _ isMember
    exact isIdentifier_of_mem_tokenize isToken

end Window

end Docblock
