import Docblock.Proofs.Agreement
import Docblock.Proofs.Onward

/-!
# How rules are built

Every rule of the grammars is put together from a few steps in a few ways.  `Built` says so of two
rules at once that are put together in the same way and go on from values that differ, if at all,
in what a view leaves out: the positions that are recorded.  What holds of every step and is kept
by every way of putting rules together holds of all rules: they leave the save points as they found
them, they go forward, and the positions that are recorded make no difference to them.

Save points are used like brackets.  Behind a save point that a rule has pushed itself it takes
only steps that cannot fail, until it gives the save point back.
-/

namespace Docblock

namespace Parser

/-- The steps that cannot fail. -/
inductive Step : {α : Type} → Parser α → Prop
  | look {α : Type} (view : Cursor → α) : Step (look view)
  | advance : Step advance
  | skipLineBreaks : Step skipLineBreaks
  | accept (kind : TokenKind) : Step (accept kind)
  | acceptValue (value : String) : Step (acceptValue value)
  | joinUntil (stops : KindSet) : Step (joinUntil stops)

mutual

/-- Both parsers are built in the same way, and their values are the same up to the view. -/
inductive Built : {α γ : Type} → (view : α → γ) → (first second : Parser α) → Prop
  | pure {α γ : Type} {view : α → γ} {value value' : α} (same : view value = view value') :
      Built view (pure value) (pure value')
  | bind {α β γ δ : Type} {view : α → γ} {view' : β → δ} {first first' : Parser α}
      {next next' : α → Parser β} (firsts : Built view first first')
      (nexts : ∀ value value', view value = view value' →
        Built view' (next value) (next' value')) :
      Built view' (first >>= next) (first' >>= next')
  | step {α : Type} {step : Parser α} (isStep : Step step) : Built id step step
  | consume (kind : TokenKind) : Built id (consume kind) (consume kind)
  | consumeValue (kind : TokenKind) (value : String) :
      Built id (consumeValue kind value) (consumeValue kind value)
  | expecting {α γ : Type} {view : α → γ} (kind : TokenKind) :
      Built view (expecting kind) (expecting kind)
  /-- The view sees nothing of the positions. -/
  | positionsSince (start : Nat) :
      Built (fun _ => ()) (positionsSince start) (positionsSince start)
  | attempt {α γ : Type} {view : α → γ} {body body' : Parser α} (bodies : Built view body body') :
      Built (Except.map view) (attempt body) (attempt body')
  | gather {α β γ : Type} {view : α → γ} {round round' : Parser (Round α β)}
      (rounds : Built (Round.map view) round round') :
      Built (Prod.map (List.map view) id) (gather round) (gather round')
  | push_bind {α γ : Type} {view : α → γ} {next next' : Unit → Parser α}
      (opened : BuiltHolding view (next ()) (next' ())) :
      Built view (push >>= next) (push >>= next')

/-- Like `Built`, for what stands behind a save point of the rule. -/
inductive BuiltHolding : {α γ : Type} → (view : α → γ) → (first second : Parser α) → Prop
  | step_bind {α β γ : Type} {view : β → γ} {step : Parser α} {next next' : α → Parser β}
      (isStep : Step step) (nexts : ∀ value, BuiltHolding view (next value) (next' value)) :
      BuiltHolding view (step >>= next) (step >>= next')
  | drop_bind {α γ : Type} {view : α → γ} {next next' : Unit → Parser α}
      (closed : Built view (next ()) (next' ())) :
      BuiltHolding view (drop >>= next) (drop >>= next')
  | rollback_bind {α γ : Type} {view : α → γ} {next next' : Unit → Parser α}
      (closed : Built view (next ()) (next' ())) :
      BuiltHolding view (rollback >>= next) (rollback >>= next')

end

section Combinators

variable {α β γ δ : Type} {view : α → γ} {view' : β → δ}

/-- Behind values that are the same there is one value to go on from. -/
theorem Built.bind_same {first first' : Parser α} {next next' : α → Parser β}
    (firsts : Built id first first') (nexts : ∀ value, Built view' (next value) (next' value)) :
    Built view' (first >>= next) (first' >>= next') := by
  apply Built.bind firsts
  intro value value' same
  obtain rfl : value = value' := same
  exact nexts value

theorem Built.step_bind {step : Parser α} {next next' : α → Parser β} (isStep : Step step)
    (nexts : ∀ value, Built view' (next value) (next' value)) :
    Built view' (step >>= next) (step >>= next') :=
  .bind_same (.step isStep) nexts

/-- A rule that ends with the positions of what it read. -/
theorem Built.positioned {form form' : Attributes → α} (start : Nat)
    (same : ∀ attributes attributes', view (form attributes) = view (form' attributes')) :
    Built view (Parser.positionsSince start >>= fun attributes => Pure.pure (form attributes))
      (Parser.positionsSince start >>= fun attributes => Pure.pure (form' attributes)) := by
  apply Built.bind (.positionsSince start)
  intro attributes attributes' _
  exact .pure (same attributes attributes')

theorem Built.attempt_bind {body body' : Parser α} {next next' : Except SyntaxError α → Parser β}
    (bodies : Built view body body')
    (found : ∀ value value', view value = view value' →
      Built view' (next (.ok value)) (next' (.ok value')))
    (missed : ∀ error, Built view' (next (.error error)) (next' (.error error))) :
    Built view' (Parser.attempt body >>= next) (Parser.attempt body' >>= next') := by
  apply Built.bind (.attempt bodies)
  intro outcome outcome' same
  obtain ⟨value, value', rfl, rfl, sameValue⟩ | ⟨error, rfl, rfl⟩ := outcome_cases_of_map_eq same
  · exact found value value' sameValue
  · exact missed error

theorem Built.ite {condition : Prop} [Decidable condition] {yes yes' no no' : Parser α}
    (holds : Built view yes yes') (fails : Built view no no') :
    Built view (if condition then yes else no) (if condition then yes' else no') := by
  split
  · exact holds
  · exact fails

theorem BuiltHolding.ite {condition : Prop} [Decidable condition] {yes yes' no no' : Parser α}
    (holds : BuiltHolding view yes yes') (fails : BuiltHolding view no no') :
    BuiltHolding view (if condition then yes else no) (if condition then yes' else no') := by
  split
  · exact holds
  · exact fails

theorem Built.acceptWord (kind : TokenKind) (value : String) :
    Built id (acceptWord kind value) (Parser.acceptWord kind value) := by
  apply Built.step_bind (.look _)
  intro found
  exact .ite (.step (.acceptValue value)) (.pure rfl)

theorem Built.expectFinish : Built id expectFinish Parser.expectFinish := by
  apply Built.step_bind (.look _)
  intro found
  exact .ite (.pure rfl) (.expecting _)

theorem Built.toEnd {body body' : Parser α} (bodies : Built view body body') :
    Built view (toEnd body) (Parser.toEnd body') := by
  apply Built.bind bodies
  intro value value' same
  apply Built.bind_same .expectFinish
  intro _
  exact .pure same

theorem Built.many {item? item?' : Parser (Option α)}
    (items : Built (Option.map view) item? item?') :
    Built (List.map view) (many item?) (Parser.many item?') := by
  have rounds : Built (Round.map view) (roundOf item?) (roundOf item?') := by
    apply Built.bind items
    intro found found' same
    cases found with
    | none =>
        cases found' with
        | none => exact .pure rfl
        | some value' => simp at same
    | some value =>
        cases found' with
        | none => simp at same
        | some value' => exact .pure (congrArg Round.item (Option.some.inj same))
  apply Built.bind (.gather rounds)
  intro gathered gathered' same
  exact .pure (congrArg Prod.fst same)

theorem Built.many_same {item? item?' : Parser (Option α)} (items : Built id item? item?') :
    Built id (Parser.many item?) (Parser.many item?') := by
  rw [← Option.map_id] at items
  rw [← List.map_id_fun]
  exact many items

end Combinators

section Agreement

theorem Step.agree {α : Type} {step : Parser α} (isStep : Step step) : Agree id step step := by
  cases isStep with
  | look view => exact .look view
  | advance => exact .move _
  | skipLineBreaks => exact .move _
  | accept kind => exact .step _
  | acceptValue value => exact .step _
  | joinUntil stops => exact .step _

mutual

/-- The positions that are recorded make no difference. -/
theorem Built.agree {α γ : Type} {view : α → γ} {first second : Parser α} :
    Built view first second → Agree view first second
  | .pure same => .pure same
  | .bind firsts nexts => by
      apply Agree.bind firsts.agree
      intro value value' same
      exact (nexts value value' same).agree
  | .step isStep => isStep.agree
  | .consume kind => .consume kind
  | .consumeValue kind value => .consumeValue kind value
  | .expecting kind => .expecting kind
  | .positionsSince start => .positionsSince start
  | .attempt bodies => .attempt bodies.agree
  | .gather rounds => .gather rounds.agree
  | .push_bind opened => .bind_same (.move _) fun _ => opened.agree

theorem BuiltHolding.agree {α γ : Type} {view : α → γ} {first second : Parser α} :
    BuiltHolding view first second → Agree view first second
  | .step_bind isStep nexts => .bind_same isStep.agree fun value => (nexts value).agree
  | .drop_bind closed => .bind_same (.useSavePoint _) fun _ => closed.agree
  | .rollback_bind closed => .bind_same (.useSavePoint _) fun _ => closed.agree

end

end Agreement

section SavePoints

theorem Step.steady {α : Type} {step : Parser α} (isStep : Step step) : step.Steady := by
  cases isStep with
  | look view => exact .look view
  | advance => exact .advance
  | skipLineBreaks => exact .skipLineBreaks
  | accept kind => exact .accept kind
  | acceptValue value => exact .acceptValue value
  | joinUntil stops => exact .joinUntil stops

theorem Step.succeeds {α : Type} {step : Parser α} (isStep : Step step) (tracking : Tracking)
    (cursor : Cursor) : ∃ value next, step tracking cursor = .ok value next := by
  cases isStep <;> exact ⟨_, _, rfl⟩

mutual

/-- The save points are left as they were found. -/
theorem Built.steady {α γ : Type} {view : α → γ} {first second : Parser α} :
    Built view first second → first.Steady
  | .pure _ => .pure _
  | .bind firsts nexts => .bind firsts.steady fun value => (nexts value value rfl).steady
  | .step isStep => isStep.steady
  | .consume kind => .consume kind
  | .consumeValue kind value => .consumeValue kind value
  | .expecting kind => .expecting kind
  | .positionsSince start => .positionsSince start
  | .attempt bodies => .attempt bodies.steady
  | .gather rounds => .gather rounds.steady
  | .push_bind opened => .push_bind opened.releases

theorem BuiltHolding.releases {α γ : Type} {view : α → γ} {first second : Parser α} :
    BuiltHolding view first second → first.Releases
  | .step_bind isStep nexts => .bind isStep.steady isStep.succeeds fun value => (nexts value).releases
  | .drop_bind closed => .drop_bind closed.steady
  | .rollback_bind closed => .rollback_bind closed.steady

end

end SavePoints

section Progress

/-- From every place the parser goes onward. -/
def Forward {α : Type} (parser : Parser α) : Prop :=
  ∀ course place, parser.Onward course place (fun _ _ => True) True

theorem Step.onward {α : Type} {step : Parser α} (isStep : Step step) {course : Course}
    {place : Nat} {bad : Prop} : step.Onward course place (fun _ _ => True) bad := by
  have passes : Parser.advance.Onward course place (fun _ _ => True) bad :=
    Onward.advance.mono (fun _ _ _ _ => trivial) id
  cases isStep with
  | look view => exact .look_bind fun _ => .pure trivial
  | advance => exact passes
  | skipLineBreaks => exact .skipLineBreaks
  | accept kind =>
      rw [accept_eq]
      exact .ifAt (fun _ => .bind passes fun _ _ _ _ => .pure trivial) fun _ => .pure trivial
  | acceptValue value => exact .acceptValue
  | joinUntil stops => exact .joinUntil

theorem Forward.consume (kind : TokenKind) : (consume kind).Forward := by
  intro course place
  rw [consume_eq]
  refine .current_bind fun token _ => .ite (fun _ => ?_) fun _ => .expecting
  exact .bind Step.advance.onward fun _ _ _ _ => .pure trivial

theorem Forward.consumeValue (kind : TokenKind) (value : String) :
    (consumeValue kind value).Forward := by
  intro course place
  rw [consumeValue_eq]
  exact .look_bind fun _ => .ite (fun _ => Step.advance.onward) fun _ => .unexpected

theorem Forward.gather {α β : Type} {round : Parser (Round α β)} (isRound : round.Forward) :
    (gather round).Forward := by
  intro course place
  have each (here : Nat) (_ : place ≤ here) :
      round.Onward course here (RoundSteps (fun _ _ _ => True) here) True := by
    refine (isRound course here).mono (fun outcome _ _ _ => ?_) id
    cases outcome <;> trivial
  exact (Onward.gather each).mono (fun _ _ _ _ => trivial) id

mutual

/-- Reading does not end in front of the place where it started. -/
theorem Built.forward {α γ : Type} {view : α → γ} {first second : Parser α} :
    Built view first second → first.Forward
  | .pure _ => fun _ _ => .pure trivial
  | .bind firsts nexts => fun course place => by
      apply Onward.bind (firsts.forward course place)
      intro value stop _ _
      exact (nexts value value rfl).forward course stop
  | .step isStep => fun _ _ => isStep.onward
  | .consume kind => .consume kind
  | .consumeValue kind value => .consumeValue kind value
  | .expecting _ => fun _ _ => .expecting
  | .positionsSince _ => fun _ _ => Onward.positionsSince.mono (fun _ _ _ _ => trivial) id
  | .attempt bodies => fun course place =>
      (Onward.attempt (bodies.forward course place)).mono (fun _ _ _ _ => trivial) id
  | .gather rounds => .gather rounds.forward
  | .push_bind opened => fun course place => .push_bind (opened.forward course place place)

theorem BuiltHolding.forward {α γ : Type} {view : α → γ} {first second : Parser α} :
    BuiltHolding view first second → ∀ course origin place,
      first.HoldingOnward course origin place (fun _ _ => True) True
  | .step_bind isStep nexts => fun course origin place => by
      apply HoldingOnward.bind isStep.onward
      intro value stop _ _
      exact (nexts value).forward course origin stop
  | .drop_bind closed => fun course _ place => .drop_bind (closed.forward course place)
  | .rollback_bind closed => fun course origin _ => .rollback_bind (closed.forward course origin)

end

end Progress

end Parser

end Docblock
