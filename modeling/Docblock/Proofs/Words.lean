import Docblock.Proofs.Steady
import Mathlib.Tactic.Common

/-!
# What the grammars see of the tokens

A step of the cursor passes over one blank, so to a grammar the input is a list
of *words*: tokens that know whether a blank stands in front of them.  The words
from the cursor on determine what every reading step does, up to positions.
A second blank in a row would be a word of its own, which no grammar accepts.
-/

namespace Docblock

/-- A token as a grammar sees it; `gap` tells whether a blank stands in front of it. -/
structure Word where
  gap : Bool
  kind : TokenKind
  text : String
  deriving DecidableEq, Repr

/-- The words of a list of tokens; `gap` tells whether a blank stands in front of the
first one.  The last token is a word even if it is a blank. -/
def wordsOf : Bool → List Token → List Word
  | _, [] => []
  | gap, [token] => [⟨gap, token.kind, token.value⟩]
  | gap, token :: next :: rest =>
      ⟨gap, token.kind, token.value⟩ ::
        if next.kind = .blank ∧ rest ≠ [] then wordsOf true rest
        else wordsOf (token.kind = .blank) (next :: rest)

/-- The words of a whole list of tokens, behind one leading blank. -/
def leadingWords : List Token → List Word
  | [] => []
  | token :: rest =>
      if token.kind = .blank then wordsOf true rest else wordsOf false (token :: rest)

/-- Whether a word is a line break. -/
def Word.isBreak (word : Word) : Bool := word.kind = .lineBreak

/-- The words behind the leading line breaks. -/
def behindBreaks (words : List Word) : List Word := words.dropWhile Word.isBreak

/-- The last word, and perhaps not only that one, ends the input. -/
def Sealed (words : List Word) : Prop := words.getLast?.map Word.kind = some .finish

theorem length_wordsOf_le (gap : Bool) (tokens : List Token) :
    (wordsOf gap tokens).length ≤ tokens.length := by
  fun_induction wordsOf gap tokens with
  | case1 => simp
  | case2 => simp
  | case3 gap token next rest skipped kept =>
      simp only [List.length_cons] at kept ⊢
      split <;> omega

theorem wordsOf_cons_ne_nil (gap : Bool) (token : Token) (rest : List Token) :
    wordsOf gap (token :: rest) ≠ [] := by
  cases rest <;> simp [wordsOf]

/-- The last word is made of the last token. -/
theorem getLast?_wordsOf (gap : Bool) (tokens : List Token) :
    (wordsOf gap tokens).getLast?.map Word.kind = tokens.getLast?.map Token.kind := by
  fun_induction wordsOf gap tokens with
  | case1 => rfl
  | case2 => rfl
  | case3 gap token next rest skipped kept =>
      rw [List.getLast?_cons_cons]
      split
      · next passed =>
          obtain ⟨later, others, rfl⟩ := List.exists_cons_of_ne_nil passed.2
          rw [List.getLast?_cons_of_ne_nil (wordsOf_cons_ne_nil _ _ _), skipped,
            List.getLast?_cons_cons]
      · rw [List.getLast?_cons_of_ne_nil (wordsOf_cons_ne_nil _ _ _), kept]

/-- A word is made of one of the tokens. -/
theorem mem_wordsOf {gap : Bool} {tokens : List Token} {word : Word}
    (isMember : word ∈ wordsOf gap tokens) :
    ∃ token ∈ tokens, token.kind = word.kind ∧ token.value = word.text := by
  fun_induction wordsOf gap tokens with
  | case1 => cases isMember
  | case2 gap token =>
      obtain rfl := List.mem_singleton.mp isMember
      exact ⟨token, List.mem_singleton_self token, rfl, rfl⟩
  | case3 gap token next rest skipped kept =>
      rcases List.mem_cons.mp isMember with rfl | isLater
      · exact ⟨token, List.mem_cons_self, rfl, rfl⟩
      · split at isLater
        · obtain ⟨other, isOther, isSame⟩ := skipped isLater
          exact ⟨other, by simp [isOther], isSame⟩
        · obtain ⟨other, isOther, isSame⟩ := kept isLater
          exact ⟨other, List.mem_cons_of_mem _ isOther, isSame⟩

theorem mem_leadingWords {tokens : List Token} {word : Word}
    (isMember : word ∈ leadingWords tokens) :
    ∃ token ∈ tokens, token.kind = word.kind ∧ token.value = word.text := by
  cases tokens with
  | nil => cases isMember
  | cons token rest =>
      rw [leadingWords] at isMember
      split at isMember
      · obtain ⟨other, isOther, isSame⟩ := mem_wordsOf isMember
        exact ⟨other, List.mem_cons_of_mem _ isOther, isSame⟩
      · exact mem_wordsOf isMember

namespace Sealed

variable {word : Word} {words used rest : List Word}

theorem ne_nil (ends : Sealed words) : words ≠ [] := by
  rintro rfl
  simp [Sealed] at ends

theorem exists_cons (ends : Sealed words) : ∃ word rest, words = word :: rest :=
  List.exists_cons_of_ne_nil ends.ne_nil

theorem of_append (ends : Sealed (used ++ rest)) (more : rest ≠ []) : Sealed rest := by
  obtain ⟨word, others, rfl⟩ := List.exists_cons_of_ne_nil more
  simpa [Sealed, List.getLast?_append] using ends

theorem append (ends : Sealed rest) (used : List Word) : Sealed (used ++ rest) := by
  obtain ⟨word, others, rfl⟩ := List.exists_cons_of_ne_nil ends.ne_nil
  simpa [Sealed, List.getLast?_append] using ends

theorem cons (ends : Sealed rest) (word : Word) : Sealed (word :: rest) := ends.append [word]

theorem tail (ends : Sealed (word :: rest)) (more : word.kind ≠ .finish) : Sealed rest := by
  cases rest with
  | nil => exact absurd (by simpa [Sealed] using ends) more
  | cons next others =>
      exact Sealed.of_append (show Sealed ([word] ++ next :: others) from ends) (by simp)

theorem behindBreaks_ne_nil (ends : Sealed words) : behindBreaks words ≠ [] := by
  induction words with
  | nil => exact absurd rfl ends.ne_nil
  | cons word words induction =>
      unfold behindBreaks
      rw [List.dropWhile_cons]
      split
      · next isBreak =>
          refine induction (ends.tail ?_)
          intro isFinish
          simp [Word.isBreak, isFinish] at isBreak
      · simp

theorem behindBreaks (ends : Sealed words) : Sealed (behindBreaks words) := by
  have split : words.takeWhile Word.isBreak ++ Docblock.behindBreaks words = words :=
    List.takeWhile_append_dropWhile
  rw [← split] at ends
  exact ends.of_append (by rw [split] at ends; exact ends.behindBreaks_ne_nil)

end Sealed

/-- The tokens that are not blanks, as words; `gap` tells whether a blank stands in front
of the first token. -/
def solidWords : Bool → List Token → List Word
  | _, [] => []
  | gap, token :: rest =>
      if token.kind = .blank then solidWords true rest
      else ⟨gap, token.kind, token.value⟩ :: solidWords false rest

theorem solidWords_blank {token : Token} (isBlank : token.kind = .blank) (gap : Bool)
    (rest : List Token) : solidWords gap (token :: rest) = solidWords true rest :=
  if_pos isBlank

theorem solidWords_solid {token : Token} (isSolid : token.kind ≠ .blank) (gap : Bool)
    (rest : List Token) : solidWords gap (token :: rest) =
      ⟨gap, token.kind, token.value⟩ :: solidWords false rest :=
  if_neg isSolid

/-- One blank behind another does not occur. -/
def SingleBlanks (tokens : List Token) : Prop :=
  tokens.IsChain fun token next => token.kind = .blank → next.kind ≠ .blank

theorem SingleBlanks.rest {token : Token} {rest : List Token}
    (single : SingleBlanks (token :: rest)) :
    SingleBlanks rest ∧ (token.kind = .blank → ∀ next ∈ rest.head?, next.kind ≠ .blank) := by
  cases rest with
  | nil => exact ⟨.nil, by simp⟩
  | cons next rest =>
      obtain ⟨apart, others⟩ := List.isChain_cons_cons.mp single
      exact ⟨others, by simpa using apart⟩

theorem SingleBlanks.cons {token : Token} {rest : List Token}
    (apart : token.kind = .blank → ∀ next ∈ rest.head?, next.kind ≠ .blank)
    (others : SingleBlanks rest) : SingleBlanks (token :: rest) := by
  cases rest with
  | nil => exact .singleton token
  | cons next rest =>
      exact List.isChain_cons_cons.mpr ⟨fun isBlank => apart isBlank next rfl, others⟩

theorem mem_solidWords {gap : Bool} {tokens : List Token} {word : Word}
    (isMember : word ∈ solidWords gap tokens) : ∃ token ∈ tokens, token.kind = word.kind := by
  induction tokens generalizing gap with
  | nil => simp [solidWords] at isMember
  | cons token rest induction =>
      rw [solidWords] at isMember
      split at isMember
      · obtain ⟨other, isLater, isKind⟩ := induction isMember
        exact ⟨other, List.mem_cons_of_mem _ isLater, isKind⟩
      · rcases List.mem_cons.mp isMember with rfl | isLater
        · exact ⟨token, List.mem_cons_self, rfl⟩
        · obtain ⟨other, isLater, isKind⟩ := induction isLater
          exact ⟨other, List.mem_cons_of_mem _ isLater, isKind⟩

theorem kind_ne_blank_of_mem_solidWords {gap : Bool} {tokens : List Token} {word : Word}
    (isMember : word ∈ solidWords gap tokens) : word.kind ≠ .blank := by
  induction tokens generalizing gap with
  | nil => cases isMember
  | cons token rest induction =>
      by_cases isBlank : token.kind = .blank
      · rw [solidWords_blank isBlank] at isMember
        exact induction isMember
      · rw [solidWords_solid isBlank] at isMember
        rcases List.mem_cons.mp isMember with rfl | isLater
        · exact isBlank
        · exact induction isLater

/-- The words of a sealed list whose first token is no blank. -/
theorem wordsOf_concat (gap : Bool) (body : List Token) {last : Token}
    (isFinish : last.kind = .finish) (single : SingleBlanks body)
    (unspaced : ∀ token ∈ body.head?, token.kind ≠ .blank) :
    ∃ final, wordsOf gap (body ++ [last]) =
      solidWords gap body ++ [⟨final, .finish, last.value⟩] := by
  -- The recursion of the words: either the token behind the first one is passed over or not.
  induction gap, body using wordsOf.induct with
  | case1 gap => exact ⟨gap, by simp [wordsOf, solidWords, isFinish]⟩
  | case2 gap token =>
      have isSolid : token.kind ≠ .blank := by simpa using unspaced
      exact ⟨false, by simp [wordsOf, solidWords, isFinish, isSolid]⟩
  | case3 gap token next rest skipped kept =>
      have isSolid : token.kind ≠ .blank := by simpa using unspaced
      obtain ⟨single, -⟩ := single.rest
      by_cases isBlank : next.kind = .blank
      · obtain ⟨final, words⟩ := skipped single.rest.1 (single.rest.2 isBlank)
        refine ⟨final, ?_⟩
        rw [List.cons_append, List.cons_append, wordsOf, if_pos ⟨isBlank, by simp⟩, words,
          solidWords_solid isSolid, solidWords_blank isBlank, List.cons_append]
      · obtain ⟨final, words⟩ := kept single (by simpa using isBlank)
        refine ⟨final, ?_⟩
        rw [decide_eq_false isSolid] at words
        rw [List.cons_append, List.cons_append, wordsOf, if_neg (fun both => isBlank both.1),
          decide_eq_false isSolid, ← List.cons_append, words, solidWords_solid isSolid,
          List.cons_append]

/-- The words of a sealed list are those of the tokens that are no blanks, and the end. -/
theorem leadingWords_concat {body : List Token} {last : Token} (isFinish : last.kind = .finish)
    (single : SingleBlanks body) :
    ∃ final, leadingWords (body ++ [last]) =
      solidWords false body ++ [⟨final, .finish, last.value⟩] := by
  cases body with
  | nil => exact ⟨false, by simp [leadingWords, wordsOf, solidWords, isFinish]⟩
  | cons token rest =>
      by_cases isBlank : token.kind = .blank
      · rw [List.cons_append, leadingWords, if_pos isBlank, solidWords_blank isBlank]
        exact wordsOf_concat true rest isFinish single.rest.1 (single.rest.2 isBlank)
      · rw [List.cons_append, leadingWords, if_neg isBlank]
        exact wordsOf_concat false (token :: rest) isFinish single (by simpa using isBlank)

/-- The first word that ends the input is the last word of all. -/
theorem eq_of_append_stop {front used others : List Word} {last stop : Word}
    (split : front ++ [last] = used ++ stop :: others)
    (unfinished : ∀ word ∈ front, word.kind ≠ .finish) (isStop : stop.kind = .finish) :
    used = front := by
  rcases List.append_eq_append_iff.mp split with ⟨more, rfl, eq⟩ | ⟨more, rfl, eq⟩
  · cases more with
    | nil => rw [List.append_nil]
    | cons word more => simp at eq
  · cases more with
    | nil => rw [List.append_nil]
    | cons word more =>
        obtain ⟨rfl, -⟩ := List.cons.inj eq
        exact absurd isStop (unfinished stop (by simp))

/-- A sealed list ends with the end of the input. -/
theorem TokenList.getLast?_sealed (tokens : List Token) :
    (TokenList.sealed tokens).getLast?.map Token.kind = some .finish := by
  unfold TokenList.sealed
  split
  · rfl
  · next found =>
      split
      · next isFinish => rw [found, Option.map_some, isFinish]
      · simp [Token.finish]

namespace Cursor

/-- The words from the cursor on. -/
def words (cursor : Cursor) : List Word :=
  wordsOf cursor.isAfterBlank (cursor.tokensFrom cursor.index)

theorem tokensFrom_of_le (cursor : Cursor) {index : Nat} (beyond : cursor.tokens.size ≤ index) :
    cursor.tokensFrom index = [] := by
  simp [tokensFrom, beyond]

theorem tokensFrom_ne_nil_iff (cursor : Cursor) (index : Nat) :
    cursor.tokensFrom index ≠ [] ↔ index < cursor.tokens.size := by
  constructor
  · intro nonempty
    by_contra beyond
    exact nonempty (cursor.tokensFrom_of_le (by omega))
  · intro inside
    rw [cursor.tokensFrom_of_lt inside]
    simp

theorem length_tokensFrom (cursor : Cursor) (index : Nat) :
    (cursor.tokensFrom index).length = cursor.tokens.size - index := by
  simp [tokensFrom]

theorem length_words_le (cursor : Cursor) : cursor.words.length ≤ cursor.remaining := by
  rw [words, remaining, ← length_tokensFrom]
  exact length_wordsOf_le _ _

theorem words_moveTo_succ (cursor : Cursor) (index : Nat) :
    (cursor.moveTo (index + 1)).words =
      wordsOf (decide ((cursor.tokenAt index).kind = .blank)) (cursor.tokensFrom (index + 1)) :=
  rfl

variable {cursor : Cursor} {word : Word} {rest : List Word}

theorem inside_of_words (seen : cursor.words = word :: rest) :
    cursor.index < cursor.tokens.size := by
  rw [← tokensFrom_ne_nil_iff]
  intro empty
  rw [words, empty] at seen
  cases seen

/-- The word at the cursor is made of the current token. -/
theorem current_of_words (seen : cursor.words = word :: rest) :
    word = ⟨cursor.isAfterBlank, cursor.current.kind, cursor.current.value⟩ := by
  have inside := inside_of_words seen
  rw [words, cursor.tokensFrom_of_lt inside] at seen
  cases following : cursor.tokensFrom (cursor.index + 1) with
  | nil =>
      rw [following] at seen
      cases seen
      rfl
  | cons next others =>
      rw [following] at seen
      cases seen
      rfl

theorem kind_of_words (seen : cursor.words = word :: rest) : cursor.current.kind = word.kind := by
  rw [current_of_words seen]

theorem value_of_words (seen : cursor.words = word :: rest) :
    cursor.current.value = word.text := by
  rw [current_of_words seen]

theorem gap_of_words (seen : cursor.words = word :: rest) : cursor.isAfterBlank = word.gap := by
  rw [current_of_words seen]

/-- A step of the cursor takes one word. -/
theorem words_advance (seen : cursor.words = word :: rest) (more : rest ≠ []) :
    cursor.advance.words = rest := by
  have inside := inside_of_words seen
  rw [words, cursor.tokensFrom_of_lt inside] at seen
  by_cases last : cursor.tokens.size ≤ cursor.index + 1
  · rw [cursor.tokensFrom_of_le last] at seen
    cases seen
    exact absurd rfl more
  · have nextInside : cursor.index + 1 < cursor.tokens.size := by omega
    rw [cursor.tokensFrom_of_lt nextInside, wordsOf] at seen
    obtain ⟨-, rfl⟩ := List.cons.inj seen
    simp only [advance, if_neg last, ← tokensFrom_ne_nil_iff]
    split
    · next passed =>
        rw [← decide_eq_true passed.1]
        exact cursor.words_moveTo_succ (cursor.index + 1)
    · rw [← cursor.tokensFrom_of_lt nextInside]
      exact cursor.words_moveTo_succ cursor.index

theorem tokensFrom_ofTokens (tokens : List Token) (index : Nat) :
    (ofTokens tokens).tokensFrom index = (TokenList.sealed tokens).drop index := by
  simp only [tokensFrom, ofTokens, Array.toList_extract, List.extract_eq_take_drop]
  exact List.take_of_length_le (by simp)

theorem words_ofTokens (tokens : List Token) :
    (ofTokens tokens).words = leadingWords (TokenList.sealed tokens) := by
  obtain ⟨token, rest, eq⟩ := List.exists_cons_of_ne_nil (TokenList.sealed_ne_nil tokens)
  rw [words, tokensFrom_ofTokens, eq, leadingWords]
  by_cases blank : token.kind = .blank
  · have start : (ofTokens tokens).index = 1 := by simp [ofTokens, eq, blank]
    have first : (ofTokens tokens).tokenAt 0 = token := by simp [tokenAt, ofTokens, eq]
    have gap : (ofTokens tokens).isAfterBlank = true := by
      simp [isAfterBlank, start, first, blank]
    rw [if_pos blank, start, gap]
    rfl
  · have start : (ofTokens tokens).index = 0 := by simp [ofTokens, eq, blank]
    rw [if_neg blank, start, isAfterBlank, start]
    rfl

theorem sealed_words_ofTokens (tokens : List Token) : Sealed (ofTokens tokens).words := by
  have last := TokenList.getLast?_sealed tokens
  rw [words_ofTokens, Sealed, ← last]
  obtain ⟨token, rest, eq⟩ := List.exists_cons_of_ne_nil (TokenList.sealed_ne_nil tokens)
  rw [eq, leadingWords]
  split
  · next blank =>
      rw [getLast?_wordsOf]
      cases rest with
      | nil => simp [eq, blank] at last
      | cons next others => rw [List.getLast?_cons_cons]
  · exact getLast?_wordsOf _ _

theorem words_ofTokens_concat {body : List Token} {last : Token} (isFinish : last.kind = .finish)
    (single : SingleBlanks body) :
    ∃ final, (ofTokens (body ++ [last])).words =
      solidWords false body ++ [⟨final, .finish, last.value⟩] := by
  have alreadySealed : TokenList.sealed (body ++ [last]) = body ++ [last] := by
    simp [TokenList.sealed, isFinish]
  rw [words_ofTokens, alreadySealed]
  exact leadingWords_concat isFinish single

end Cursor

end Docblock
