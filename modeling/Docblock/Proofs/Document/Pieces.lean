import Docblock.Proofs.Document.LineScanning
import Docblock.Proofs.Spacing
import Docblock.Proofs.TypeExpr.LineBreaks

/-!
# Where pieces of a text end among its tokens

What is known of a printed value are its words, which do not say how wide the blanks between them
are.  Behind a value there may be free text, which is read token by token, so the place where the
one ends and the other begins must be found among the tokens.  It is behind the last word of the
value and the blanks that follow it.
-/

namespace Docblock

open Text

namespace Scanned

variable {gap : Bool} {char : Char} {text rest : List Char} {words : List Word}

/-- Every text is cut into words. -/
theorem exists_words (gap : Bool) (text : List Char) : ∃ words, Scanned gap text words := by
  induction isLength : text.length using Nat.strongRecOn generalizing gap text with
  | ind length induction =>
      subst isLength
      cases text with
      | nil => exact ⟨[], .done⟩
      | cons char rest =>
          have shorter : (rest.drop (Lexeme.first char rest).extra).length <
              (char :: rest).length := by
            simp only [List.length_drop, List.length_cons]
            omega
          by_cases blank : (Lexeme.first char rest).kind = .blank
          · obtain ⟨words, others⟩ := induction _ shorter true _ rfl
            exact ⟨words, .blank (by rw [← blank]) others⟩
          · obtain ⟨words, others⟩ := induction _ shorter false _ rfl
            exact ⟨_, .word rfl blank others⟩

/-- The words behind blanks at the start of a text. -/
theorem behind_blank (scanned : Scanned gap (char :: rest) words) (blank : isBlank char = true) :
    Scanned true (rest.drop (Lexeme.runLength isBlank rest)) words := by
  have isFirst := Lexeme.first_blank blank rest
  cases scanned with
  | blank cut others =>
      cases isFirst.symm.trans cut
      exact others
  | word cut solid =>
      cases isFirst.symm.trans cut
      exact absurd rfl solid

/-- The word at the start of a text, and the words behind it. -/
theorem exists_word (scanned : Scanned gap (char :: rest) words) (solid : isBlank char = false) :
    ∃ others, words = ⟨gap, (Lexeme.first char rest).kind,
        String.ofList (char :: rest.take (Lexeme.first char rest).extra)⟩ :: others ∧
      Scanned false (rest.drop (Lexeme.first char rest).extra) others := by
  cases scanned with
  | blank cut =>
      have blank : isBlank char = true := Lexeme.kind_first_eq_blank (by rw [cut])
      rw [blank] at solid
      cases solid
  | word cut _ others =>
      rw [cut]
      exact ⟨_, rfl, others⟩

/-- More blanks behind a text leave the blanks at its start what they are, unless they are all of
it. -/
theorem behind_blanks {after : List Char} (whole : Scanned gap (char :: text ++ after) words)
    (blank : isBlank char = true) (more : text.drop (Lexeme.runLength isBlank text) ≠ []) :
    Lexeme.runLength isBlank (text ++ after) = Lexeme.runLength isBlank text ∧
      Scanned true (text.drop (Lexeme.runLength isBlank text) ++ after) words := by
  have length : Lexeme.runLength isBlank (text ++ after) = Lexeme.runLength isBlank text := by
    have stops : (text.takeWhile isBlank).length ≠ text.length := by
      intro isWhole
      apply more
      rw [Lexeme.runLength, isWhole, List.drop_length]
    rw [Lexeme.runLength, List.takeWhile_append, if_neg stops, Lexeme.runLength]
  have short : Lexeme.runLength isBlank text ≤ text.length := (List.takeWhile_prefix _).length_le
  have whole' : Scanned gap (char :: (text ++ after)) words := whole
  have behind := whole'.behind_blank blank
  rw [length, List.drop_append_of_le_length short] at behind
  exact ⟨length, behind⟩

theorem solid_of_kind (notBlank : (Lexeme.first char rest).kind ≠ .blank) :
    isBlank char = false := by
  apply Bool.eq_false_iff.mpr
  intro blank
  rw [Lexeme.first_blank blank] at notBlank
  exact notBlank rfl

/-- If the first word of a text is spelled as before, it is cut off as before. -/
theorem behind_word {after : List Char} {kind : TokenKind} {extra : Nat} {others : List Word}
    (whole : Scanned gap (char :: text ++ after)
      (⟨gap, kind, String.ofList (char :: text.take extra)⟩ :: others))
    (cut : Lexeme.first char text = ⟨kind, extra⟩) (notBlank : kind ≠ .blank) :
    Lexeme.first char (text ++ after) = ⟨kind, extra⟩ ∧
      Scanned false (text.drop extra ++ after) others := by
  have solid : (Lexeme.first char text).kind ≠ .blank := by rwa [cut]
  have short : extra ≤ text.length := by
    have bound := Lexeme.extra_le_length char text
    rwa [cut] at bound
  have short' := Lexeme.extra_le_length char (text ++ after)
  have whole' : Scanned gap (char :: (text ++ after)) _ := whole
  obtain ⟨more, isWord, behind⟩ := whole'.exists_word (solid_of_kind solid)
  obtain ⟨sameWord, rfl⟩ := List.cons.inj isWord
  obtain ⟨-, sameKind, sameText⟩ := Word.mk.inj sameWord
  have sameExtra : extra = (Lexeme.first char (text ++ after)).extra := by
    have lengths := congrArg List.length (String.ofList_injective sameText)
    simp only [List.length_cons, List.length_take] at lengths
    omega
  rw [← sameExtra, List.drop_append_of_le_length short] at behind
  exact ⟨by rw [sameKind, sameExtra], behind⟩

/-- Only line breaks and unrecognised texts start with the end of a line. -/
theorem inLine_of_kind
    (inLine : (Lexeme.first char rest).kind ∉ [.lineBreak, .closeDoc, .finish, .other]) :
    Lexeme.isLineEnd char = false := by
  apply Bool.eq_false_iff.mpr
  intro isEnd
  have isEnd' : char = '\r' ∨ char = '\n' := by simpa [Lexeme.isLineEnd] using isEnd
  apply inLine
  rcases isEnd' with rfl | rfl
  · rw [Lexeme.first, Lexeme.rule?_eq_lineEnd?]
    cases rest with
    | nil => decide
    | cons next rest => by_cases isFeed : next = '\n' <;> simp [Lexeme.lineEnd?, isFeed]
  · exact List.mem_cons_self

/-- A text of unbroken words has no line ends. -/
theorem inLine (scanned : Scanned gap text words) (unbroken : Unbroken words) :
    ∀ char ∈ text, Lexeme.isLineEnd char = false := by
  have inLexeme {char : Char} {rest : List Char} (inLine : Lexeme.isLineEnd char = false)
      (others : ∀ other ∈ rest.drop (Lexeme.first char rest).extra,
        Lexeme.isLineEnd other = false) :
      ∀ other ∈ char :: rest, Lexeme.isLineEnd other = false := by
    intro other isMember
    rw [← List.take_append_drop (Lexeme.first char rest).extra rest, ← List.cons_append,
      List.mem_append, List.mem_cons] at isMember
    rcases isMember with (rfl | isTaken) | isLater
    · exact inLine
    · exact Lexeme.inLine_first inLine rest other isTaken
    · exact others other isLater
  induction scanned with
  | done => simp
  | @blank _ char text _ _ cut _ induction =>
      have inner : (Lexeme.first char text).kind ∉ [.lineBreak, .closeDoc, .finish, .other] := by
        simp [cut]
      refine inLexeme (inLine_of_kind inner) ?_
      rw [cut]
      exact induction unbroken
  | word cut _ _ induction =>
      obtain ⟨isInner, others⟩ := unbroken_cons_iff.mp unbroken
      refine inLexeme (inLine_of_kind (by rwa [cut])) ?_
      rw [cut]
      exact induction others

/-- A text of unbroken words has no blanks at its end if the word behind it stands without one. -/
theorem solidEnd (scanned : Scanned gap text words) (unbroken : Unbroken words)
    {after : List Char} {next : Word} {others : List Word}
    (whole : Scanned gap (text ++ after) (words ++ next :: others)) (close : next.gap = false) :
    ∀ char ∈ text.getLast?, isBlank char = false := by
  have getLast?_drop {char : Char} {text : List Char} {count : Nat} (more : text.drop count ≠ []) :
      (char :: text).getLast? = (text.drop count).getLast? := by
    have split : char :: text = char :: text.take count ++ text.drop count := by simp
    rw [split, List.getLast?_append_of_ne_nil _ more]
  induction scanned with
  | done => simp
  | @blank gap char text extra words cut inner induction =>
      have blank : isBlank char = true := Lexeme.kind_first_eq_blank (by rw [cut])
      obtain rfl : Lexeme.runLength isBlank text = extra := by
        rw [Lexeme.first_blank blank] at cut
        cases cut
        rfl
      by_cases more : text.drop (Lexeme.runLength isBlank text) = []
      · rw [more] at inner
        cases inner
        -- the word behind the blanks would know of them
        have whole' : Scanned gap (char :: (text ++ after)) (next :: others) := whole
        rw [(whole'.behind_blank blank).gap_eq_true] at close
        cases close
      · rw [getLast?_drop more]
        exact induction unbroken (whole.behind_blanks blank more).2
  | @word gap char text kind extra words cut notBlank inner induction =>
      obtain ⟨isInner, unbrokenRest⟩ := unbroken_cons_iff.mp unbroken
      obtain ⟨-, behind⟩ := whole.behind_word cut notBlank
      by_cases more : text.drop extra = []
      · have isTaken : text.take extra = text :=
          List.take_of_length_le (List.drop_eq_nil_iff.mp more)
        have ends := Lexeme.solid_getLast_first (solid_of_kind (by rwa [cut]))
          (inLine_of_kind (by rwa [cut])) text
        rwa [cut, isTaken] at ends
      · rw [getLast?_drop more]
        exact induction unbrokenRest behind

end Scanned

/-- Blanks in front of something else are one token. -/
theorem scanFrom_blanks (line : UInt32) {char : Char} {blanks rest : List Char}
    (areBlank : ∀ other ∈ char :: blanks, isBlank other = true)
    (solid : ∀ other ∈ rest.head?, isBlank other = false) :
    scanFrom line (char :: (blanks ++ rest)) =
      ⟨.blank, String.ofList (char :: blanks), line⟩ :: scanFrom line rest := by
  have length : Lexeme.runLength isBlank (blanks ++ rest) = blanks.length := by
    rw [Lexeme.runLength_undisturbed blanks fun _ => solid, Lexeme.runLength,
      List.takeWhile_eq_self_iff.mpr fun other isMember =>
        areBlank other (List.mem_cons_of_mem _ isMember)]
  rw [scanFrom_cons, Token.cut, Lexeme.first_blank (areBlank char List.mem_cons_self), length,
    List.take_left, List.drop_left]
  rfl

/-- The tokens of a piece of a text and of the blanks behind it: they have the words of the piece,
and what follows them knows whether there are blanks. -/
structure CutsOff (gap : Bool) (words : List Word) (tokens : List Token) (gap' : Bool) : Prop where
  words : ∀ behind, solidWords gap (tokens ++ behind) = words ++ solidWords gap' behind
  inLine : ∀ token ∈ tokens, Prose.lineEnds.contains token.kind = false

theorem CutsOff.cons_blank {gap gap' : Bool} {words : List Word} {tokens : List Token}
    {token : Token} (isBlank : token.kind = .blank) (others : CutsOff true words tokens gap') :
    CutsOff gap words (token :: tokens) gap' where
  words behind := by rw [List.cons_append, solidWords_blank isBlank, others.words]
  inLine := by
    have blankInLine : Prose.lineEnds.contains .blank = false := by decide
    simpa [isBlank, blankInLine] using others.inLine

theorem CutsOff.cons_solid {gap gap' : Bool} {words : List Word} {tokens : List Token}
    {token : Token} (solid : token.kind ≠ .blank)
    (inLine : Prose.lineEnds.contains token.kind = false)
    (others : CutsOff false words tokens gap') :
    CutsOff gap (⟨gap, token.kind, token.value⟩ :: words) (token :: tokens) gap' where
  words behind := by
    rw [List.cons_append, solidWords_solid solid, others.words, List.cons_append]
  inLine := by simpa [inLine] using others.inLine

theorem contains_lineEnds {kind : TokenKind}
    (inLine : kind ∉ [.lineBreak, .closeDoc, .finish, .other]) :
    Prose.lineEnds.contains kind = false := by
  rw [← Bool.not_eq_true, Prose.lineEnds_contains_iff]
  simp only [List.mem_cons, List.not_mem_nil, or_false] at inLine ⊢
  tauto

section Cutting

variable {gap : Bool} {text spaces rest : List Char} {words others : List Word}
  (areBlank : ∀ char ∈ spaces, isBlank char = true)
  (solid : ∀ char ∈ rest.head?, isBlank char = false)

include areBlank solid

/-- Blanks alone have no words. -/
theorem exists_cutsOff_blanks (line : UInt32) : ∃ tokens gap',
    scanFrom line (spaces ++ rest) = tokens ++ scanFrom line rest ∧
      CutsOff gap [] tokens gap' ∧ (spaces ≠ [] → gap' = true) := by
  cases spaces with
  | nil => exact ⟨[], gap, rfl, ⟨fun _ => rfl, by simp⟩, fun none => absurd rfl none⟩
  | cons char blanks =>
      exact ⟨[⟨.blank, String.ofList (char :: blanks), line⟩], true,
        scanFrom_blanks line areBlank solid,
        .cons_blank rfl ⟨fun _ => rfl, by simp⟩, fun _ => rfl⟩

/-- If a text has the words of its first part and other ones, then its first tokens are those of
that part and of the blanks behind it. -/
theorem Scanned.exists_cutsOff (scanned : Scanned gap text words) (unbroken : Unbroken words)
    (whole : Scanned gap (text ++ (spaces ++ rest)) (words ++ others)) (line : UInt32) :
    ∃ tokens gap', scanFrom line (text ++ (spaces ++ rest)) = tokens ++ scanFrom line rest ∧
      CutsOff gap words tokens gap' ∧ (spaces ≠ [] → gap' = true) := by
  induction scanned with
  | done => exact exists_cutsOff_blanks areBlank solid line
  | @blank gap char text extra words cut inner induction =>
      have blank : isBlank char = true := Lexeme.kind_first_eq_blank (by rw [cut])
      obtain rfl : Lexeme.runLength isBlank text = extra := by
        rw [Lexeme.first_blank blank] at cut
        cases cut
        rfl
      by_cases more : text.drop (Lexeme.runLength isBlank text) = []
      · -- nothing but blanks is left, and the blanks behind them belong to the same token
        have textBlank : ∀ other ∈ text, isBlank other = true := by
          rwa [Lexeme.drop_runLength, List.dropWhile_eq_nil_iff] at more
        have areBlank' : ∀ other ∈ char :: (text ++ spaces), isBlank other = true := by
          intro other isMember
          simp only [List.mem_cons, List.mem_append] at isMember
          rcases isMember with rfl | inText | inSpaces
          · exact blank
          · exact textBlank other inText
          · exact areBlank other inSpaces
        rw [more] at inner
        cases inner
        obtain ⟨tokens, gap', cutOff, cutsOff, apart⟩ := exists_cutsOff_blanks areBlank' solid line
        refine ⟨tokens, gap', ?_, cutsOff, fun _ => apart (List.cons_ne_nil _ _)⟩
        rw [← cutOff]
        simp
      · obtain ⟨length, behind⟩ := whole.behind_blanks blank more
        obtain ⟨tokens, gap', cutOff, cutsOff, apart⟩ := induction unbroken behind
        have short : Lexeme.runLength isBlank text ≤ text.length :=
          (List.takeWhile_prefix _).length_le
        refine ⟨⟨.blank, String.ofList (char :: text.take (Lexeme.runLength isBlank text)), line⟩ ::
          tokens, gap', ?_, .cons_blank rfl cutsOff, apart⟩
        rw [List.cons_append, scanFrom_cons, Token.cut, Lexeme.first_blank blank, length,
          List.take_append_of_le_length short, List.drop_append_of_le_length short,
          List.cons_append, ← cutOff]
        rfl
  | @word gap char text kind extra words cut notBlank inner induction =>
      obtain ⟨sameCut, behind⟩ := whole.behind_word cut notBlank
      obtain ⟨inLine, unbrokenRest⟩ := unbroken_cons_iff.mp unbroken
      obtain ⟨tokens, gap', cutOff, cutsOff, apart⟩ := induction unbrokenRest behind
      have notBreak : kind ≠ .lineBreak := fun isBreak => inLine (by simp [isBreak])
      have short : extra ≤ text.length := by
        have bound := Lexeme.extra_le_length char text
        rwa [cut] at bound
      let token : Token := ⟨kind, String.ofList (char :: text.take extra), line⟩
      have isSolid : token.kind ≠ .blank := notBlank
      refine ⟨token :: tokens, gap', ?_, .cons_solid isSolid (contains_lineEnds inLine) cutsOff,
        apart⟩
      have sameLine : token.nextLine = line := if_neg notBreak
      rw [List.cons_append, scanFrom_cons, Token.cut, sameCut,
        List.take_append_of_le_length short, List.drop_append_of_le_length short, sameLine,
        List.cons_append, ← cutOff]

end Cutting

section Standing

variable {source : String} {place place' : Nat}

/-- The words from a token of a text on, if it is no blank. -/
theorem exists_words_standing (inside : place < (tokenize source).length)
    (isSolid : ((Cursor.onTokens (tokenize source)).tokenAt place).kind ≠ .blank)
    (saved : List Nat) :
    ∃ front last final, (tokenize source).drop place = front ++ [last] ∧ last.kind = .finish ∧
      ((Cursor.onTokens (tokenize source)).standing place saved).words =
        solidWords ((Cursor.onTokens (tokenize source)).standing place saved).isAfterBlank front ++
          [⟨final, .finish, last.value⟩] := by
  obtain ⟨front, last, isTokenized, isFinish⟩ := exists_last source
  have within : place ≤ front.length := by
    rw [isTokenized, List.length_append] at inside
    exact Nat.le_of_lt_succ inside
  have single : SingleBlanks (front.drop place) := by
    have whole := singleBlanks_tokenize source
    rw [isTokenized] at whole
    exact List.IsChain.drop (List.isChain_append.mp whole).1 place
  have unspaced : ∀ token ∈ (front.drop place).head?, token.kind ≠ .blank := by
    intro token isHead
    rw [List.head?_drop] at isHead
    obtain ⟨found, isToken⟩ := List.getElem?_eq_some_iff.mp isHead
    rw [isTokenized, Cursor.tokenAt_onTokens, List.getElem?_append_left found,
      Option.mem_def.mp isHead] at isSolid
    exact isSolid
  have isRest : (tokenize source).drop place = front.drop place ++ [last] := by
    rw [isTokenized, List.drop_append_of_le_length within]
  have isWords : ((Cursor.onTokens (tokenize source)).standing place saved).words =
      wordsOf ((Cursor.onTokens (tokenize source)).standing place saved).isAfterBlank
        ((tokenize source).drop place) := by
    rw [Cursor.words]
    exact congrArg _ (Cursor.tokensFrom_onTokens (tokenize source) place place saved)
  obtain ⟨final, seen⟩ := wordsOf_concat _ (front.drop place) isFinish single unspaced
  exact ⟨_, last, final, isRest, isFinish, by rw [isWords, isRest, seen]⟩

theorem length_words_standing (inside : place < (tokenize source).length)
    (isSolid : ((Cursor.onTokens (tokenize source)).tokenAt place).kind ≠ .blank)
    (saved : List Nat) :
    ((Cursor.onTokens (tokenize source)).standing place saved).words.length =
      (withoutBlanks ((tokenize source).drop place)).length := by
  obtain ⟨front, last, final, isRest, isFinish, isWords⟩ :=
    exists_words_standing inside isSolid saved
  rw [isWords, isRest, List.length_append, length_solidWords, withoutBlanks, withoutBlanks,
    List.filter_append]
  simp [isFinish]

/-- Behind a token that is no blank there are fewer words. -/
theorem length_withoutBlanks_lt (inside : place < (tokenize source).length)
    (isSolid : ((Cursor.onTokens (tokenize source)).tokenAt place).kind ≠ .blank)
    (behind : place < place') :
    (withoutBlanks ((tokenize source).drop place')).length <
      (withoutBlanks ((tokenize source).drop place)).length := by
  have isCons := List.drop_eq_getElem_cons inside
  rw [Cursor.tokenAt_onTokens, List.getElem?_eq_getElem inside, Option.getD_some] at isSolid
  have isLater : (tokenize source).drop place' =
      ((tokenize source).drop (place + 1)).drop (place' - (place + 1)) := by
    rw [List.drop_drop]
    congr 1
    omega
  rw [isCons, withoutBlanks_solid isSolid, isLater, List.length_cons]
  exact Nat.lt_succ_of_le ((List.drop_sublist _ _).filter _).length_le

/-- Two places of a text that have equally many words behind them are the same place. -/
theorem eq_of_length_words (inside : place < (tokenize source).length)
    (isSolid : ((Cursor.onTokens (tokenize source)).tokenAt place).kind ≠ .blank)
    (inside' : place' < (tokenize source).length)
    (isSolid' : ((Cursor.onTokens (tokenize source)).tokenAt place').kind ≠ .blank)
    (same : (withoutBlanks ((tokenize source).drop place)).length =
      (withoutBlanks ((tokenize source).drop place')).length) : place = place' := by
  rcases Nat.lt_trichotomy place place' with earlier | isSame | later
  · have fewer := length_withoutBlanks_lt inside isSolid earlier
    omega
  · exact isSame
  · have fewer := length_withoutBlanks_lt inside' isSolid' later
    omega

end Standing

end Docblock
