import Docblock.Proofs.Document.Rules
import Docblock.Proofs.NodePositions

/-!
# Reading goes forward

From wherever reading starts, it never ends in front of that place, and a type, a constant or a
comment takes at least one token.  The same holds of a single round of each loop: if the loop goes
on behind it, it has taken a token.  Since there is an end to the tokens, there is one to every
loop, and no loop runs out of the rounds that it is allowed.
-/

namespace Docblock

open Docblock.Parser

/-- An item is taken by going at least one token further. -/
def GoesFurther {α : Type} (start : Nat) (_ : α) (stop : Nat) : Prop := start < stop

namespace Prose

variable {course : Course} {place : Nat}

theorem continues_onward :
    continues.Onward course place (fun found stop => found = true → place < stop) True := by
  refine .ifAt (fun isBreak => .push_bind ?_) fun _ => .pure nofun
  have unfinished : course.kind place ≠ .finish := by rw [isBreak]; decide
  refine .bind (.advance_unfinished unfinished) fun _ stop _ further => .look_bind fun _ => ?_
  exact .ite (fun _ => .rollback_bind (.pure nofun)) fun _ => .drop_bind (.pure fun _ => further)

theorem nextLine_onward :
    nextLine.Onward course place (ItemSteps GoesFurther place) True := by
  refine .bind continues_onward fun found next _ further => ?_
  refine .ite (fun isFound => ?_) fun _ => .pure trivial
  refine .bind (readLine_built.forward course next) fun line stop behind _ => .pure ?_
  exact Nat.lt_of_lt_of_le (further isFound) behind

end Prose

theorem TagValue.nextParameter_onward {course : Course} {place : Nat} :
    nextParameter.Onward course place (ItemSteps GoesFurther place) True := by
  refine .bind (.accept rfl) ?_
  rintro _ next - (⟨rfl, comma⟩ | ⟨rfl, rfl⟩)
  · refine .bind (readMethodParameter_built.forward course next) fun parameter stop further _ => ?_
    exact .pure (Nat.lt_of_lt_of_le comma.further further)
  · exact .pure trivial

namespace Document

variable {course : Course} {place : Nat}

theorem nextChild_onward : nextChild.Onward course place (ItemSteps GoesFurther place) True := by
  refine .bind (.accept_unfinished (by decide)) ?_
  rintro _ next - (⟨rfl, -, broken⟩ | ⟨rfl, rfl⟩)
  · refine .ifAt (fun _ => .pure trivial) fun _ => ?_
    refine .bind (readChild_built.forward course next) fun child stop further _ => ?_
    exact .pure (Nat.lt_of_lt_of_le broken further)
  · exact .pure trivial

theorem readBody_onward : readBody.Onward course place (GoesFurther place) True := by
  refine .bind (.consume_unfinished (by decide)) fun _ next _ opened => ?_
  refine .bind (.accept_unfinished (by decide)) fun _ next' further _ => ?_
  refine (readChildren_built.forward course next').mono (fun children stop further' _ => ?_) id
  exact Nat.lt_of_lt_of_le opened.2 (Nat.le_trans further further')

theorem parser_onward : Document.parser.Onward course place (GoesFurther place) True := by
  refine .marked (.bind readBody_onward fun children next _ opened => ?_)
  refine ((readClose_built rfl place).forward course next).mono (fun document stop further _ => ?_) id
  exact Nat.lt_of_lt_of_le opened further

end Document

namespace TypeExpr

variable {course : Course} {place : Nat} {bad : Prop}

theorem lenientParser_onward (inside : place < course.size) :
    lenientParser.Onward course place (fun _ _ => True) bad := by
  refine .marked (.attempt_bind (.toEnd parser_onward) (fun _ _ _ _ => .pure trivial) ?_)
  intro error
  -- A reading that failed goes on to the last token, and no place is behind that one.
  have toLast : (move Cursor.fastForward).Onward course place (fun _ _ => True) bad :=
    fun _ _ => .ok (Nat.le_sub_one_of_lt inside) (Nat.sub_le course.size 1) trivial
  exact .look_bind fun rest => .bind toLast fun _ _ _ _ => .positioned fun _ _ => trivial

end TypeExpr

namespace Parser

variable {α β : Type}

/-- Whether a loop goes on behind a round. -/
def Round.isItem : Round α β → Bool
  | .item _ => true
  | .done _ => false

/-- Rounds of a loop from `cursor` on, however many there are, lead to `reply`: a last round ends
the loop, or a round fails. -/
inductive Repeats (round : Parser (Round α β)) (tracking : Tracking) :
    Cursor → Reply (List α × β) → Prop
  | done {cursor next : Cursor} {result : β}
      (ends : round tracking cursor = .ok (.done result) next) :
      Repeats round tracking cursor (.ok ([], result) next)
  | failed {cursor next : Cursor} {failure : Failure}
      (fails : round tracking cursor = .failed failure next) :
      Repeats round tracking cursor (.failed failure next)
  | item {cursor next : Cursor} {value : α} {reply : Reply (List α × β)}
      (goesOn : round tracking cursor = .ok (.item value) next)
      (others : Repeats round tracking next reply) :
      Repeats round tracking cursor (reply.map fun rest => (value :: rest.1, rest.2))

section Repeats

variable {round : Parser (Round α β)} {tracking : Tracking} {cursor next : Cursor} {fuel : Nat}

theorem gatherWithin_of_done {result : β} (ends : round tracking cursor = .ok (.done result) next) :
    gatherWithin round (fuel + 1) tracking cursor = .ok ([], result) next := by
  simp only [gatherWithin, bind_apply, ends, pure_apply]

theorem gatherWithin_of_failed {failure : Failure}
    (fails : round tracking cursor = .failed failure next) :
    gatherWithin round (fuel + 1) tracking cursor = .failed failure next := by
  simp only [gatherWithin, bind_apply, fails]

theorem gatherWithin_of_item {value : α} (goesOn : round tracking cursor = .ok (.item value) next) :
    gatherWithin round (fuel + 1) tracking cursor =
      (gatherWithin round fuel tracking next).map fun rest => (value :: rest.1, rest.2) := by
  simp only [gatherWithin, bind_apply, goesOn]
  cases gatherWithin round fuel tracking next <;> rfl

theorem many_apply (item? : Parser (Option α)) (tracking : Tracking) (cursor : Cursor) :
    many item? tracking cursor = (gather (roundOf item?) tracking cursor).map Prod.fst := by
  rw [many, bind_apply]
  cases gather (roundOf item?) tracking cursor <;> rfl

variable {course : Course} {place : Nat}

/-- A loop that is allowed more rounds than there are tokens left does not run out of them, for
every round behind which it goes on has taken a token. -/
theorem Repeats.gatherWithin
    (each : ∀ here, round.Onward course here
      (fun outcome stop => outcome.isItem = true → here < stop) True)
    (inside : place ≤ course.size) (saved : List Nat) (enough : course.size - place < fuel) :
    Repeats round course.tracking (course.cursor.standing place saved)
      (Parser.gatherWithin round fuel course.tracking (course.cursor.standing place saved)) := by
  induction fuel generalizing place with
  | zero => exact absurd enough (Nat.not_lt_zero _)
  | succ fuel induction =>
      rcases (each place inside saved).cases with
        ⟨outcome, stop, -, stopInside, further, isReply⟩ | ⟨error, stop, -, -, isReply⟩
      · cases outcome with
        | done result =>
            rw [gatherWithin_of_done isReply]
            exact .done isReply
        | item value =>
            have shorter : course.size - stop < fuel := by
              have taken : place < stop := further rfl
              omega
            rw [gatherWithin_of_item isReply]
            exact .item isReply (induction stopInside shorter)
      · rw [gatherWithin_of_failed isReply]
        exact .failed isReply

theorem Repeats.gather
    (each : ∀ here, round.Onward course here
      (fun outcome stop => outcome.isItem = true → here < stop) True)
    (inside : place ≤ course.size) (saved : List Nat) :
    Repeats round course.tracking (course.cursor.standing place saved)
      (Parser.gather round course.tracking (course.cursor.standing place saved)) :=
  .gatherWithin each inside saved (Nat.lt_succ_self _)

end Repeats

end Parser

namespace TypeExpr

/-- The parsers with which the rules for types read nested goals. -/
inductive ReadsGoals : (Goal → Parser TypeExpr) → Prop
  | within (depth : Nat) : ReadsGoals (goalWithin depth)
  | goal : ReadsGoals goal

theorem ReadsGoals.onward {nested : Goal → Parser TypeExpr} (reads : ReadsGoals nested)
    {course : Course} (wanted : Goal) (here : Nat) (began : wanted.Begun course here) :
    (nested wanted).Onward course here (course.Reads outline (wanted.origin here)) True := by
  cases reads with
  | within depth => exact goalWithin_onward began
  | goal => exact goal_onward began

end TypeExpr

/-- The rounds of all loops of the rules, and whether the loop goes on behind such a round. -/
inductive LoopRound : {σ : Type} → Parser σ → (σ → Bool) → Prop
  | union {nested : TypeExpr.Goal → Parser TypeExpr} (reads : TypeExpr.ReadsGoals nested)
      (multiline : Bool) :
      LoopRound (TypeExpr.nextOperand .union multiline
        (TypeExpr.chain .intersection .intersection multiline (TypeExpr.readOperand nested)))
        Option.isSome
  | intersection {nested : TypeExpr.Goal → Parser TypeExpr} (reads : TypeExpr.ReadsGoals nested)
      (multiline : Bool) :
      LoopRound (TypeExpr.nextOperand .intersection multiline (TypeExpr.readOperand nested))
        Option.isSome
  | arraySuffix (start : Nat) : LoopRound (TypeExpr.readArraySuffix start) Option.isSome
  | argument {nested : TypeExpr.Goal → Parser TypeExpr} (reads : TypeExpr.ReadsGoals nested) :
      LoopRound (TypeExpr.nextSeparated (nested (.union false)) .closeAngle) Option.isSome
  | parameter {nested : TypeExpr.Goal → Parser TypeExpr} (reads : TypeExpr.ReadsGoals nested) :
      LoopRound (TypeExpr.nextSeparated (TypeExpr.readParameter nested) .closeParen) Option.isSome
  | methodParameter : LoopRound TagValue.nextParameter Option.isSome
  /-- The first item of a shape, in front of the loop over the others. -/
  | firstShapeItem {nested : TypeExpr.Goal → Parser TypeExpr} (reads : TypeExpr.ReadsGoals nested) :
      LoopRound (TypeExpr.readShapeEntry nested) Round.isItem
  | shapeItem {nested : TypeExpr.Goal → Parser TypeExpr} (reads : TypeExpr.ReadsGoals nested) :
      LoopRound (TypeExpr.nextEntry nested) Round.isItem
  | constantName {next : TokenKind} (isPart : next = .identifier ∨ next = .wildcard) :
      LoopRound (ConstExpr.nextNamePart next) Option.isSome
  | arrayItem (depth : Nat) {close : TokenKind}
      (isClose : close = .closeSquare ∨ close = .closeParen) :
      LoopRound (ConstExpr.nextItem (ConstExpr.parserWithin depth) close) Option.isSome
  | textLine : LoopRound Prose.nextLine Option.isSome
  | child : LoopRound Document.nextChild Option.isSome

namespace LoopRound

variable {α β σ : Type} {course : Course} {place : Nat} {step : Nat → α → Nat → Prop}

theorem onward_of_items {item? : Parser (Option α)}
    (onward : item?.Onward course place (ItemSteps step place) True)
    (further : ∀ value stop, step place value stop → place < stop) :
    item?.Onward course place (fun found stop => found.isSome = true → place < stop) True := by
  refine onward.mono (fun found stop _ happened goesOn => ?_) id
  cases found with
  | some value => exact further value stop happened
  | none => cases goesOn

theorem onward_of_rounds {round : Parser (Round α β)}
    (onward : round.Onward course place (RoundSteps step place) True)
    (further : ∀ value stop, step place value stop → place < stop) :
    round.Onward course place (fun outcome stop => outcome.isItem = true → place < stop) True := by
  refine onward.mono (fun outcome stop _ happened goesOn => ?_) id
  cases outcome with
  | item value => exact further value stop happened
  | done result => cases goesOn

/-- A round behind which the loop goes on has taken a token. -/
theorem onward {body : Parser σ} {goesOn : σ → Bool} (round : LoopRound body goesOn) :
    body.Onward course place (fun outcome stop => goesOn outcome = true → place < stop) True := by
  cases round with
  | union reads multiline =>
      refine onward_of_items (TypeExpr.nextOperand_onward rfl fun _ => ?_) fun _ _ => (·.further)
      exact TypeExpr.chain_onward rfl (fun _ => rfl) fun _ =>
        TypeExpr.readOperand_onward reads.onward
  | intersection reads multiline =>
      refine onward_of_items (TypeExpr.nextOperand_onward rfl fun _ => ?_) fun _ _ => (·.further)
      exact TypeExpr.readOperand_onward reads.onward
  | arraySuffix start =>
      exact onward_of_items TypeExpr.readArraySuffix_onward fun _ _ => And.left
  | argument reads =>
      have each (here : Nat) :=
        @TypeExpr.ReadsGoals.onward _ reads course (.union false) here trivial
      exact onward_of_items (TypeExpr.nextSeparated_onward each) fun _ _ => (·.further)
  | parameter reads =>
      have each (here : Nat) := @TypeExpr.readParameter_onward course here _ reads.onward
      exact onward_of_items (TypeExpr.nextSeparated_onward each) fun _ _ => (·.further)
  | methodParameter => exact onward_of_items TagValue.nextParameter_onward fun _ _ => id
  | firstShapeItem reads =>
      exact onward_of_rounds (TypeExpr.readShapeEntry_onward reads.onward) fun _ _ => (·.further)
  | shapeItem reads =>
      exact onward_of_rounds (TypeExpr.nextEntry_onward reads.onward) fun _ _ => (·.further)
  | constantName isPart =>
      refine onward_of_items (ConstExpr.nextNamePart_onward ?_) fun _ _ => id
      rcases isPart with rfl | rfl <;> rfl
  | arrayItem depth isClose =>
      refine onward_of_items (ConstExpr.nextItem_onward
        (fun _ => ConstExpr.parserWithin_onward depth) ?_) fun _ _ => (·.further)
      rcases isClose with rfl | rfl <;> rfl
  | textLine => exact onward_of_items Prose.nextLine_onward fun _ _ => id
  | child => exact onward_of_items Document.nextChild_onward fun _ _ => id

/-- The bound on the rounds of a loop is never reached: what the loop gives is what its rounds lead
to, however many there are. -/
theorem gather_repeats {round : Parser (Round α β)} (isRound : LoopRound round Round.isItem)
    (inside : place ≤ course.size) (saved : List Nat) :
    Repeats round course.tracking (course.cursor.standing place saved)
      (gather round course.tracking (course.cursor.standing place saved)) :=
  .gather (fun _ => isRound.onward) inside saved

theorem many_repeats {item? : Parser (Option α)} (isRound : LoopRound item? Option.isSome)
    (inside : place ≤ course.size) (saved : List Nat) :
    ∃ reply, Repeats (roundOf item?) course.tracking (course.cursor.standing place saved) reply ∧
      many item? course.tracking (course.cursor.standing place saved) = reply.map Prod.fst := by
  refine ⟨_, .gather (fun here => ?_) inside saved, many_apply item? _ _⟩
  refine .bind isRound.onward fun found stop _ further => ?_
  cases found with
  | none => exact .pure (by simp [Round.isItem])
  | some value => exact .pure fun _ => further rfl

end LoopRound

/-- Nor does the name of a class constant run out of parts. -/
theorem ConstExpr.readNameParts_add {course : Course} {place fuel : Nat} {next : TokenKind}
    (isPart : next = .identifier ∨ next = .wildcard) (inside : place ≤ course.size)
    (saved : List Nat) (enough : course.size - place < fuel) (more : Nat) :
    readNameParts (fuel + more) next course.tracking (course.cursor.standing place saved) =
      readNameParts fuel next course.tracking (course.cursor.standing place saved) := by
  induction fuel generalizing place next with
  | zero => exact absurd enough (Nat.not_lt_zero _)
  | succ fuel induction =>
      have onward : (nextNamePart next).Onward course place
          (fun found stop => found.isSome = true → place < stop) True :=
        (LoopRound.constantName isPart).onward
      rw [Nat.succ_add, readNameParts, readNameParts, bind_apply, bind_apply]
      rcases (onward inside saved).cases with
        ⟨found, stop, -, stopInside, further, isReply⟩ | ⟨error, stop, -, -, isReply⟩
      · rw [isReply]
        cases found with
        | none => rfl
        | some part =>
            have taken : place < stop := further rfl
            generalize turned : (if next = .identifier then TokenKind.wildcard else .identifier) =
              turn
            have isPart' : turn = .identifier ∨ turn = .wildcard := by
              rw [← turned]
              split <;> simp
            show (readNameParts (fuel + more) turn >>= _) _ _ =
              (readNameParts fuel turn >>= _) _ _
            rw [bind_apply, bind_apply, induction isPart' stopInside (by omega)]
      · rw [isReply]

/-- Reading always goes forward.  From every place in a list of tokens, and with a value as well as
with an error, the reading of a type, of a constant, of a comment, and that of a type which keeps
its errors end no earlier than they start; a type, a constant or a comment that has been read has
taken a token.  So has every round of a loop behind which the loop goes on. -/
theorem reading_progresses (tracking : Tracking) (tokens : List Token) (place : Nat)
    (inside : place < (TokenList.sealed tokens).length) (saved : List Nat) :
    let cursor := (Cursor.ofTokens tokens).standing place saved
    (place ≤ (TypeExpr.parser tracking cursor).cursor.index ∧
      ∀ type next, TypeExpr.parser tracking cursor = .ok type next → place < next.index) ∧
    (place ≤ (ConstExpr.parser tracking cursor).cursor.index ∧
      ∀ expr next, ConstExpr.parser tracking cursor = .ok expr next → place < next.index) ∧
    (place ≤ (Document.parser tracking cursor).cursor.index ∧
      ∀ document next, Document.parser tracking cursor = .ok document next → place < next.index) ∧
    place ≤ (TypeExpr.lenientParser tracking cursor).cursor.index ∧
    ∀ {σ : Type} (body : Parser σ) (goesOn : σ → Bool), LoopRound body goesOn →
      place ≤ (body tracking cursor).cursor.index ∧
      ∀ outcome next, body tracking cursor = .ok outcome next → goesOn outcome = true →
        place < next.index := by
  intro cursor
  let course := Course.ofTokens tracking tokens
  have within : place ≤ course.size := Nat.le_of_lt inside
  have isType := @TypeExpr.parser_onward course place within saved
  have isConstant := @ConstExpr.parser_onward course place within saved
  have isDocument := @Document.parser_onward course place within saved
  have isLenient := @TypeExpr.lenientParser_onward course place False inside within saved
  refine ⟨⟨isType.le_index, fun type next read => (isType.good_of_ok read).further⟩,
    ⟨isConstant.le_index, fun expr next read => (isConstant.good_of_ok read).further⟩,
    ⟨isDocument.le_index, fun document next read => isDocument.good_of_ok read⟩,
    isLenient.le_index, fun body goesOn round => ?_⟩
  have isRound := @LoopRound.onward _ course place body goesOn round within saved
  exact ⟨isRound.le_index, fun outcome next read => isRound.good_of_ok read⟩

/-- Parameters that have no closing parenthesis are given up on the next line: reading goes back
to the opening one, which is still further than it started. -/
theorem reading_progresses_givenUp :
    let tokens := tokenize "?A(B\n|C"
    let cursor := (Cursor.ofTokens tokens).standing 1 []
    1 < (TokenList.sealed tokens).length ∧
      ∃ type next, TypeExpr.parser .off cursor = .ok type next ∧ next.index = 2 ∧
        1 < next.index := by
  intro tokens cursor
  have inside : 1 < (TokenList.sealed tokens).length := by decide +kernel
  have isIndex : (match TypeExpr.parser .off cursor with
      | .ok _ next => next.index
      | .failed _ _ => 0) = 2 := by decide +kernel
  refine ⟨inside, ?_⟩
  split at isIndex
  · next type next read =>
      exact ⟨type, next, read, isIndex,
        (reading_progresses .off tokens 1 inside []).1.2 type next read⟩
  · cases isIndex

end Docblock
