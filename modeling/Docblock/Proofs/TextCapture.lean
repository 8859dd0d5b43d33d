import Docblock.Proofs.Document.LineReading
import Mathlib.Order.Bounds.Basic

/-!
# What is captured of a text

A text ends at the first place where it has to: at a close marker, at the end of the input, or at a
line break that is its first token or has a blank line, a tag or the end of the comment behind it.
What is captured are the tokens in front of that place, line by line.  Both follow from the rounds
in which a text is read: no place within a line ends it and no line break with which it goes on,
and a round adds a line break, at most one blank and a line.
-/

namespace Docblock

open Docblock.Parser

namespace Prose

/-- Whether a text that starts at `start` has to end at `place`: the comment or the input ends
there, or there is a line break which comes first, or behind which a blank line, a tag, the end of
the comment or the end of the input follows after at most one blank. -/
def EndsAt (tokens : List Token) (start place : Nat) : Prop :=
  match tokens.drop place with
  | [] => False
  | token :: rest =>
      token.kind ∈ [.closeDoc, .finish] ∨
        token.kind = .lineBreak ∧ (place = start ∨
          ∃ next ∈ (TokenList.behindBlank rest).head?,
            next.kind ∈ [.lineBreak, .tag, .closeDoc, .finish])

/-- The lines of a text: its tokens between the line breaks, and in each line but the first without
a blank that comes first. -/
def linesOf (tokens : List Token) : List (List Token) :=
  match tokens.splitOnP fun token => token.kind = .lineBreak with
  | [] => []
  | first :: others => first :: others.map TokenList.behindBlank

/-- The text of tokens: that of each line without the blanks at its end, joined by line feeds. -/
def captured (tokens : List Token) : String :=
  String.intercalate "\n" ((linesOf tokens).map fun line =>
    Text.trimEnd Text.isBlank (TokenList.text line))

/-- Tokens that are a line and more behind a blank are so with the blank in the line. -/
theorem exists_of_behindBlank {tokens line rest : List Token}
    (split : TokenList.behindBlank tokens = line ++ rest) :
    ∃ taken, tokens = taken ++ rest ∧ TokenList.behindBlank taken = line ∧
      ∀ token ∈ taken, token.kind = .blank ∨ token ∈ line := by
  cases tokens with
  | nil =>
      obtain ⟨rfl, rfl⟩ := List.append_eq_nil_iff.mp split.symm
      exact ⟨[], rfl, rfl, by simp⟩
  | cons first others =>
      by_cases isBlank : first.kind = .blank
      · have isOthers : others = line ++ rest := (if_pos isBlank).symm.trans split
        refine ⟨first :: line, by rw [isOthers, List.cons_append], if_pos isBlank, ?_⟩
        simp +contextual [isBlank]
      · have isTokens : first :: others = line ++ rest := (if_neg isBlank).symm.trans split
        refine ⟨line, isTokens, ?_, fun token isMember => .inr isMember⟩
        cases line with
        | nil => rfl
        | cons token line =>
            obtain ⟨rfl, -⟩ := List.cons.inj isTokens
            exact if_neg isBlank

theorem extract_eq {tokens taken : List Token} {place stop : Nat}
    (split : tokens.drop place = taken ++ tokens.drop stop) (bound : place ≤ stop)
    (inside : stop ≤ tokens.length) : tokens.extract place stop = taken := by
  have lengths := congrArg List.length split
  simp only [List.length_drop, List.length_append] at lengths
  rw [List.extract_eq_take_drop, split]
  exact List.take_left' (by omega)

section Capture

variable {source : String} {window : Window} {start place stop here : Nat} {text : String}
  {texts : List String}

theorem textEnds_contains_iff_mem {kind : TokenKind} : textEnds.contains kind = true ↔
    kind ∈ [.lineBreak, .tag, .closeDoc, .finish] := by
  cases kind <;> decide

/-- Where a text ends, in terms of the kinds of the tokens there and one step further. -/
theorem endsAt_iff (isText : window.first = Cursor.onTokens (tokenize source))
    (inside : place ≤ window.limit) : EndsAt (tokenize source) start place ↔
      window.kind place ∈ [.closeDoc, .finish] ∨
        window.kind place = .lineBreak ∧ (place = start ∨
          textEnds.contains (window.kind (window.first.next place)) = true) := by
  rw [EndsAt, window.drop_eq_cons isText inside, textEnds_contains_iff_mem]
  simp only
  by_cases isBreak : window.kind place = .lineBreak
  · have before := window.lt_limit_of_lineBreak inside isBreak
    rw [← window.drop_next isText before, window.drop_eq_cons isText (window.next_le before)]
    simp [Window.kind]
  · have notBreak : (window.token place).kind ≠ .lineBreak := isBreak
    simp [Window.kind, notBreak]

theorem not_endsAt_of_inLine (isText : window.first = Cursor.onTokens (tokenize source))
    (inside : place ≤ window.limit) (inLine : lineEnds.contains (window.kind place) = false) :
    ¬EndsAt (tokenize source) start place := by
  rw [← Bool.not_eq_true, lineEnds_contains_iff, not_or] at inLine
  rw [endsAt_iff isText inside]
  simp only [inLine, false_and, or_false, not_false_eq_true]

theorem not_endsAt_of_goesOn (isText : window.first = Cursor.onTokens (tokenize source))
    (inside : place ≤ window.limit) (goesOn : window.GoesOn place) (further : place ≠ start) :
    ¬EndsAt (tokenize source) start place := by
  rw [endsAt_iff isText inside, goesOn.1, goesOn.2]
  simp [further]

theorem endsAt_of_stops (isText : window.first = Cursor.onTokens (tokenize source))
    (inside : place ≤ window.limit) (atEnd : lineEnds.contains (window.kind place) = true)
    (stops : ¬window.GoesOn place) : EndsAt (tokenize source) start place := by
  rw [endsAt_iff isText inside]
  rcases lineEnds_contains_iff.mp atEnd with isBreak | isEnd
  · right
    refine ⟨isBreak, .inr ?_⟩
    simpa [Window.GoesOn, isBreak] using stops
  · exact .inl isEnd

/-- A line is followed by the tokens at its end. -/
theorem drop_eq_line (isText : window.first = Cursor.onTokens (tokenize source))
    (line : window.IsLine place text stop) :
    (tokenize source).drop place = window.lineFrom place ++ (tokenize source).drop stop := by
  have isPrefix : window.lineFrom place <+: (tokenize source).drop place := by
    rw [window.lineFrom_eq isText]
    exact List.takeWhile_prefix _
  rw [line.stop_eq, ← List.drop_drop]
  exact List.prefix_iff_eq_append.mp isPrefix |>.symm

/-- No place within a line is the end of a line. -/
theorem inLine_of_isLine (isText : window.first = Cursor.onTokens (tokenize source))
    (line : window.IsLine place text stop) (behind : place ≤ here) (before : here < stop) :
    lineEnds.contains (window.kind here) = false := by
  have lastLe := window.last_le
  have onLine := line.onLine
  have isStop := line.stop_eq
  obtain ⟨size, rfl⟩ := Nat.exists_eq_add_of_le behind
  have short : size < (window.lineFrom place).length := by omega
  have isCons := window.drop_eq_cons isText (show place + size ≤ window.limit by omega)
  rw [← List.drop_drop, drop_eq_line isText line, List.drop_append_of_le_length short.le,
    List.drop_eq_getElem_cons short, List.cons_append] at isCons
  have isToken : window.kind (place + size) = (window.lineFrom place)[size].kind :=
    congrArg Token.kind (List.cons.inj isCons).1.symm
  have inLine := List.mem_takeWhile_imp (List.getElem_mem short)
  rw [isToken]
  simpa using inLine

/-- Nowhere between the end of a line and the end of the next one does the text end that goes on
there. -/
theorem not_endsAt_of_nextLine (isText : window.first = Cursor.onTokens (tokenize source))
    (notBreak : window.kind start ≠ .lineBreak) (nextLine : window.NextLine here text stop)
    (onLine : here ≤ window.last) (behind : here ≤ place) (before : place < stop) :
    ¬EndsAt (tokenize source) start place := by
  obtain ⟨goesOn, line⟩ := nextLine
  have lastLe := window.last_le
  have lineOnLine := line.onLine
  have isNext := (window.next_eq (window.lt_limit_of_lineBreak (by omega) goesOn.1)).1
  rcases Nat.lt_or_ge place (window.first.next here) with inGap | inLine
  · rcases Nat.eq_or_lt_of_le behind with rfl | isGap
    · apply not_endsAt_of_goesOn isText (by omega) goesOn
      rintro rfl
      exact notBreak goesOn.1
    · -- between a line break and the next line there is at most a blank
      have isBlank : window.kind place = .blank := by
        split at isNext
        · next isBlank => rwa [show place = here + 1 by omega]
        · omega
      apply not_endsAt_of_inLine isText (by omega)
      rw [isBlank]
      decide
  · exact not_endsAt_of_inLine isText (by omega) (inLine_of_isLine isText line inLine before)

/-- A text ends where its last round does, and nowhere in between. -/
theorem endsAt_of_rounds (isText : window.first = Cursor.onTokens (tokenize source))
    (notBreak : window.kind start ≠ .lineBreak)
    (rounds : Rounds window.NextLine window.StopsText here texts () stop)
    (onLine : here ≤ window.last) (atEnd : lineEnds.contains (window.kind here) = true) :
    EndsAt (tokenize source) start stop ∧
      ∀ place, here ≤ place → place < stop → ¬EndsAt (tokenize source) start place := by
  have lastLe := window.last_le
  generalize () = result at rounds
  induction rounds with
  | done final =>
      obtain ⟨stops, rfl⟩ := final
      exact ⟨endsAt_of_stops isText (by omega) atEnd stops, fun place _ _ => by omega⟩
  | @item here middle stop text texts _ first _ induction =>
      obtain ⟨isEnd, unended⟩ := induction first.2.onLine first.2.atEnd
      refine ⟨isEnd, fun place behind before => ?_⟩
      rcases Nat.lt_or_ge place middle with early | late
      · exact not_endsAt_of_nextLine isText notBreak first onLine behind early
      · exact unended place late before

theorem notBreak_of_mem_lineFrom {token : Token} (isMember : token ∈ window.lineFrom place) :
    token.kind ≠ .lineBreak := by
  intro isBreak
  have inLine := List.mem_takeWhile_imp isMember
  rw [isBreak] at inLine
  exact absurd inLine (by decide)

/-- Behind a line break there are the tokens of a line, with at most a blank in front of them. -/
theorem exists_line (isText : window.first = Cursor.onTokens (tokenize source))
    (before : here < window.limit)
    (line : window.IsLine (window.first.next here) text stop) :
    ∃ tokens : List Token,
      (tokenize source).drop (here + 1) = tokens ++ (tokenize source).drop stop ∧
      (∀ token ∈ tokens, token.kind ≠ .lineBreak) ∧
      text = Text.trimEnd Text.isBlank (TokenList.text (TokenList.behindBlank tokens)) := by
  have split := (window.drop_next isText before).symm.trans (drop_eq_line isText line)
  obtain ⟨tokens, isTokens, isLine, members⟩ := exists_of_behindBlank split
  refine ⟨tokens, isTokens, ?_, ?_⟩
  · intro token isMember
    rcases members token isMember with isBlank | inLine
    · rw [isBlank]
      decide
    · exact notBreak_of_mem_lineFrom inLine
  · rw [isLine]
    exact line.text_eq

/-- The tokens that the rounds of a text take are split at their line breaks into the lines that
the rounds give. -/
theorem exists_taken_of_rounds (isText : window.first = Cursor.onTokens (tokenize source))
    (rounds : Rounds window.NextLine window.StopsText here texts () stop)
    (onLine : here ≤ window.last) :
    ∃ (taken : List Token) (others : List (List Token)),
      (tokenize source).drop here = taken ++ (tokenize source).drop stop ∧
      (∀ front : List Token, (∀ token ∈ front, token.kind ≠ .lineBreak) →
        (front ++ taken).splitOnP (fun token => token.kind = .lineBreak) = front :: others) ∧
      texts = (others.map TokenList.behindBlank).map fun line =>
        Text.trimEnd Text.isBlank (TokenList.text line) := by
  have lastLe := window.last_le
  generalize () = result at rounds
  induction rounds with
  | done final =>
      obtain ⟨-, rfl⟩ := final
      refine ⟨[], [], rfl, fun front inLine => ?_, rfl⟩
      rw [List.append_nil]
      exact List.splitOnP_eq_singleton (by simpa using inLine)
  | @item here middle stop text texts _ first _ induction =>
      obtain ⟨goesOn, line⟩ := first
      obtain ⟨taken, others, isDrop, isSplit, rfl⟩ := induction line.onLine
      have inside : here ≤ window.limit := by omega
      have isBreak : (window.token here).kind = .lineBreak := goesOn.1
      obtain ⟨tokens, isLine, inLine, rfl⟩ :=
        exists_line isText (window.lt_limit_of_lineBreak inside goesOn.1) line
      refine ⟨window.token here :: (tokens ++ taken), tokens :: others, ?_,
        fun front frontInLine => ?_, rfl⟩
      · rw [window.drop_eq_cons isText inside, isLine, isDrop, List.cons_append,
          List.append_assoc]
      · rw [List.splitOnP_append_cons_of_forall_mem (by simpa using frontInLine) _
          (by simpa using isBreak), isSplit tokens inLine]

theorem isLeast_of_isText (isText : window.first = Cursor.onTokens (tokenize source))
    (onLine : place ≤ window.last) (found : window.IsText place text stop) :
    IsLeast {stop | place ≤ stop ∧ EndsAt (tokenize source) place stop} stop := by
  have lastLe := window.last_le
  obtain ⟨⟨bound, -⟩, -⟩ := found.atLineEnd onLine
  cases found with
  | nothing isBreak =>
      refine ⟨⟨bound, ?_⟩, fun other isEnd => isEnd.1⟩
      rw [endsAt_iff isText (by omega)]
      exact .inr ⟨isBreak, .inl rfl⟩
  | @lines first others next stop notBreak line rounds =>
      obtain ⟨isEnd, unended⟩ := endsAt_of_rounds isText notBreak rounds line.onLine line.atEnd
      refine ⟨⟨bound, isEnd⟩, fun other ⟨behind, isOther⟩ => ?_⟩
      by_contra early
      have lineOnLine := line.onLine
      rcases Nat.lt_or_ge other next with inFirst | inOthers
      · exact not_endsAt_of_inLine isText (by omega)
          (inLine_of_isLine isText line behind inFirst) isOther
      · exact unended other inOthers (by omega) isOther

theorem captured_of_isText (isText : window.first = Cursor.onTokens (tokenize source))
    (onLine : place ≤ window.last) (found : window.IsText place text stop) :
    text = captured ((tokenize source).extract place stop) := by
  obtain ⟨⟨bound, stopOnLine⟩, -⟩ := found.atLineEnd onLine
  have inside : stop ≤ (tokenize source).length := by
    have lastLe := window.last_le
    have inFirst := window.inFirst
    rw [isText, Cursor.size_onTokens] at inFirst
    omega
  cases found with
  | nothing => simp [captured, linesOf, Text.trimEnd, Text.trimEndChars]
  | lines _ line rounds =>
      obtain ⟨taken, lines, isDrop, isSplit, rfl⟩ :=
        exists_taken_of_rounds isText rounds line.onLine
      have split := drop_eq_line isText line
      rw [isDrop, ← List.append_assoc] at split
      rw [captured, linesOf, extract_eq split bound inside,
        isSplit _ fun _ => notBreak_of_mem_lineFrom, line.text_eq]
      rfl

end Capture

/-- Texts are captured exactly.  From every place in a text, with any save points and any positions
to record, free text is read up to the first place where it has to end; the save points stay as
they are, and what is read is the text of the tokens in between, line by line. -/
theorem text_captured (source : String) (place : Nat)
    (inside : place < (tokenize source).length) (saved : List Nat) (tracking : Tracking) :
    let cursor := Cursor.ofTokens (tokenize source)
    ∃ stop, IsLeast {stop | place ≤ stop ∧ EndsAt (tokenize source) place stop} stop ∧
      parser tracking (cursor.standing place saved) =
        .ok (captured ((tokenize source).extract place stop)) (cursor.standing stop saved) := by
  intro cursor
  obtain ⟨front, last, split, isFinish⟩ := exists_last source
  have isEnd : last.kind ∈ [.closeDoc, .finish] := by simp [isFinish]
  have within : place ≤ (Window.upTo split isEnd []).limit := by
    rw [split, List.length_append, List.length_singleton] at inside
    exact Nat.le_of_lt_succ inside
  have isText : (Window.upTo split isEnd []).first = Cursor.onTokens (tokenize source) := by
    rw [split]
    rfl
  have isCursor (place : Nat) :
      (Window.upTo split isEnd []).first.standing place saved = cursor.standing place saved := by
    rw [isText]
    show _ = (Cursor.ofTokens (tokenize source)).standing place saved
    rw [ofTokens_tokenize]
    rfl
  have reads : parser.Tandem (Window.upTo split isEnd []) parser place
      ((Window.upTo split isEnd []).IsText place) False := parser_reads within
  obtain ⟨text, stop, -, found, isRead, -⟩ := reads.exists_ok within tracking saved saved
  rw [isCursor, isCursor, captured_of_isText isText within found] at isRead
  exact ⟨stop, isLeast_of_isText isText within found, isRead⟩

/-- Three lines with blanks at their ends, the last one with a tag that does not come first and an
empty line behind it. -/
theorem text_captured_threeLines :
    let source := "/** a \t\n *\tb  c\t\n  d @x\n *\n */"
    let cursor := Cursor.ofTokens (tokenize source)
    2 < (tokenize source).length ∧
      IsLeast {stop | 2 ≤ stop ∧ EndsAt (tokenize source) 2 stop} 14 ∧
      captured ((tokenize source).extract 2 14) = "a\nb  c\nd @x" ∧
      parser .full (cursor.standing 2 [7]) = .ok "a\nb  c\nd @x" (cursor.standing 14 [7]) := by
  intro source cursor
  have inside : 2 < (tokenize source).length := by decide +kernel
  have isPlace : (parser .full (cursor.standing 2 [7])).cursor.index = 14 := by decide +kernel
  have isText : (parser .full (cursor.standing 2 [7])).result.toOption =
      some "a\nb  c\nd @x" := by decide +kernel
  obtain ⟨stop, isLeast, isRead⟩ := text_captured source 2 inside [7] .full
  rw [isRead] at isPlace isText
  obtain rfl : stop = 14 := isPlace
  have isCaptured : captured ((tokenize source).extract 2 14) = "a\nb  c\nd @x" :=
    Option.some.inj isText
  rw [isCaptured] at isRead
  exact ⟨inside, isLeast, isCaptured, isRead⟩

end Prose

end Docblock
