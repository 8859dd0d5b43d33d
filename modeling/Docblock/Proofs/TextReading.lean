import Docblock.Proofs.Tandem
import Docblock.Prose

/-!
# How a text is read

A text is read in rounds: the rest of the current line, and then the next line for as long as the
text goes on with it.  This file says once what a round does and where the text ends, in terms of
the places of a window; what the text is made of, and where reading can stop, follows from that.
-/

namespace Docblock

open Docblock.Parser

namespace Prose

variable {kind : TokenKind}

theorem lineEnds_contains_iff :
    lineEnds.contains kind = true ↔ kind = .lineBreak ∨ kind ∈ [.closeDoc, .finish] := by
  cases kind <;> decide

theorem textEnds_contains_iff :
    textEnds.contains kind = true ↔ lineEnds.contains kind = true ∨ kind = .tag := by
  cases kind <;> decide

end Prose

namespace Window

variable (window : Window) {place : Nat}

/-- A rule that started at `place` did not go back and stopped where a line ends. -/
def AtLineEnd {α : Type} (place : Nat) (value : α) (stop : Nat) : Prop :=
  window.Along place value stop ∧ Prose.lineEnds.contains (window.kind stop) = true

theorem textEnds_limit : Prose.textEnds.contains (window.kind window.limit) = true := by
  have bars : window.kind window.limit ∈ [.closeDoc, .tag, .finish] := window.bars
  rw [Prose.textEnds_contains_iff, Prose.lineEnds_contains_iff]
  simp only [List.mem_cons, List.not_mem_nil, or_false] at bars ⊢
  tauto

/-- The tokens from a place on, up to the end of the line. -/
def lineFrom (place : Nat) : List Token :=
  (window.first.tokensFrom place).takeWhile fun token => !Prose.lineEnds.contains token.kind

/-- The rest of a line is the same on both lists, and it ends at the latest where the last line in
the window ends. -/
theorem run_lineEnds (onLine : place ≤ window.last) (saved saved' : List Nat) :
    (window.first.standing place saved).run Prose.lineEnds = window.lineFrom place ∧
      (window.second.standing place saved').run Prose.lineEnds = window.lineFrom place ∧
      place + (window.lineFrom place).length ≤ window.last ∧
      Prose.lineEnds.contains (window.kind (place + (window.lineFrom place).length)) = true := by
  have stopsAt (kind : TokenKind) :
      (Prose.lineEnds.insert .finish).contains kind = Prose.lineEnds.contains kind := by
    cases kind <;> decide
  have atLast : Prose.lineEnds.contains (window.kind window.last) = true :=
    Prose.lineEnds_contains_iff.mpr (List.mem_cons.mp window.ends)
  obtain ⟨taken, within, atEnd, isFirst, isSecond⟩ := window.takeWhile_same atLast onLine
  have isLine : window.lineFrom place = taken := isFirst
  rw [Cursor.run_eq_takeWhile, Cursor.run_eq_takeWhile, isLine]
  simp only [stopsAt]
  exact ⟨isFirst, isSecond, within, atEnd⟩

/-- From `place` to `stop` there is the rest of a line, and `text` is its text. -/
structure IsLine (place : Nat) (text : String) (stop : Nat) : Prop where
  text_eq : text = Text.trimEnd Text.isBlank (TokenList.text (window.lineFrom place))
  stop_eq : stop = place + (window.lineFrom place).length
  onLine : stop ≤ window.last
  atEnd : Prose.lineEnds.contains (window.kind stop) = true

/-- A line breaks here, and the text goes on with the next line. -/
def GoesOn (place : Nat) : Prop :=
  window.kind place = .lineBreak ∧
    Prose.textEnds.contains (window.kind (window.first.next place)) = false

/-- From the end of a line to the end of the next one, with which the text goes on. -/
def NextLine (here : Nat) (text : String) (stop : Nat) : Prop :=
  window.GoesOn here ∧ window.IsLine (window.first.next here) text stop

/-- The text does not go on with another line. -/
def StopsText (here : Nat) (_ : Unit) (stop : Nat) : Prop := ¬window.GoesOn here ∧ here = stop

/-- From `place` to `stop` there is a text: nothing where a line breaks, and otherwise the rest of
the line and the lines with which the text goes on. -/
inductive IsText (place : Nat) : String → Nat → Prop
  | nothing (isBreak : window.kind place = .lineBreak) : IsText place "" place
  | lines {first : String} {others : List String} {next stop : Nat}
      (notBreak : window.kind place ≠ .lineBreak) (line : window.IsLine place first next)
      (rounds : Rounds window.NextLine window.StopsText next others () stop) :
      IsText place (String.intercalate "\n" (first :: others)) stop

variable {window}

theorem GoesOn.lt_next (goesOn : window.GoesOn place) (inside : place ≤ window.limit) :
    place < window.first.next place :=
  window.lt_next (window.lt_limit_of_lineBreak inside goesOn.1)

/-- Behind the last line stands what ends a text, so a text that goes on is still in front of the
end of the last line. -/
theorem GoesOn.next_le_last (goesOn : window.GoesOn place) (onLine : place ≤ window.last) :
    window.first.next place ≤ window.last := by
  rcases Nat.lt_or_eq_of_le onLine with earlier | rfl
  · exact window.next_le_last earlier
  · have before := window.lt_limit_of_lineBreak window.last_le goesOn.1
    have ends := goesOn.2
    rw [window.next_last before, window.textEnds_limit] at ends
    cases ends

theorem NextLine.lt {here stop : Nat} {text : String} (nextLine : window.NextLine here text stop)
    (inside : here ≤ window.limit) : here < stop := by
  have further := nextLine.1.lt_next inside
  have isStop := nextLine.2.stop_eq
  omega

/-- The rounds of a text lead from the end of a line to the end of a line. -/
theorem atLineEnd_of_rounds {here stop : Nat} {texts : List String}
    (rounds : Rounds window.NextLine window.StopsText here texts () stop)
    (onLine : here ≤ window.last) (atEnd : Prose.lineEnds.contains (window.kind here) = true) :
    window.AtLineEnd here texts stop := by
  generalize () = result at rounds
  induction rounds with
  | done final =>
      obtain ⟨-, rfl⟩ := final
      exact ⟨⟨Nat.le_refl _, onLine⟩, atEnd⟩
  | item first _ induction =>
      have further := first.lt (Nat.le_trans onLine window.last_le)
      obtain ⟨⟨bound, stopOnLine⟩, stopAtEnd⟩ := induction first.2.onLine first.2.atEnd
      exact ⟨⟨by omega, stopOnLine⟩, stopAtEnd⟩

theorem IsText.atLineEnd {text : String} {stop : Nat} (isText : window.IsText place text stop)
    (onLine : place ≤ window.last) : window.AtLineEnd place text stop := by
  cases isText with
  | nothing isBreak =>
      refine ⟨⟨Nat.le_refl _, onLine⟩, ?_⟩
      rw [isBreak]
      decide
  | lines _ line rounds =>
      have isStop := line.stop_eq
      obtain ⟨⟨bound, stopOnLine⟩, stopAtEnd⟩ :=
        atLineEnd_of_rounds rounds line.onLine line.atEnd
      exact ⟨⟨by omega, stopOnLine⟩, stopAtEnd⟩

end Window

namespace Prose

variable {window : Window} {place : Nat} {bad : Prop}

theorem readLine_tandem (onLine : place ≤ window.last) :
    readLine.Tandem window readLine place (window.IsLine place) bad := by
  intro inside tracking saved saved'
  have lastLe := window.last_le
  obtain ⟨isFirst, isSecond, within, atEnd⟩ := window.run_lineEnds onLine saved saved'
  have stopInside : place + (window.lineFrom place).length ≤ window.limit := by omega
  simp only [readLine, bind_apply, Parser.joinUntil, step, Cursor.joinUntil, isFirst, isSecond]
  exact .ok stopInside ⟨rfl, rfl, within, atEnd⟩

theorem continues_tandem :
    continues.Tandem window continues place
      (fun goesOn stop =>
        (goesOn = true ∧ window.GoesOn place ∧ window.first.next place = stop) ∨
        (goesOn = false ∧ ¬window.GoesOn place ∧ place = stop)) bad := by
  refine .inside fun inside => .ifAt (fun isBreak => .push_bind ?_) fun notBreak =>
    .pure (.inr ⟨rfl, fun goesOn => notBreak goesOn.1, rfl⟩)
  refine .bind (.advance (window.lt_limit_of_lineBreak inside isBreak)) ?_
  rintro _ _ rfl
  refine .bind .isAtAny ?_
  rintro _ _ ⟨rfl, rfl⟩
  refine .ite (fun stops => .rollback_bind (.pure (.inr ⟨rfl, ?_, rfl⟩))) fun goesOn =>
    .drop_bind (.pure (.inl ⟨rfl, ⟨isBreak, goesOn⟩, rfl⟩))
  rintro ⟨-, goesOn⟩
  rw [goesOn] at stops
  cases stops

/-- What is read from a place on is the text there. -/
theorem parser_reads (onLine : place ≤ window.last) :
    parser.Tandem window parser place (window.IsText place) bad := by
  refine .ifAt (fun isBreak => .pure (.nothing isBreak)) fun notBreak => ?_
  refine .bind (readLine_tandem onLine) ?_
  intro first next line
  refine .bind (.many window.NextLine (fun here stop => window.StopsText here () stop)
    (fun here => here ≤ window.last) line.onLine fun here _ hereOnLine => ?_) ?_
  · refine .inside fun inside => .bind continues_tandem ?_
    rintro _ _ (⟨rfl, goesOn, rfl⟩ | ⟨rfl, stops, rfl⟩)
    · refine .bind (readLine_tandem (goesOn.next_le_last hereOnLine)) ?_
      intro text stop nextLine
      have further : window.NextLine here text stop := ⟨goesOn, nextLine⟩
      exact .pure ⟨further.lt inside, further, nextLine.onLine⟩
    · exact .pure ⟨stops, rfl⟩
  · intro others stop rounds
    exact .pure (.lines notBreak line rounds)

theorem parser_tandem (onLine : place ≤ window.last) :
    parser.Tandem window parser place (window.AtLineEnd place) bad :=
  (parser_reads onLine).mono (fun _ _ isText => isText.atLineEnd onLine) id

end Prose

end Docblock
