import Docblock.Parser

/-!
# Parsers that agree up to a view of their values

Two parsers agree if their replies look the same through a view of the value, whatever
positions each of them is asked to record: the same outcome, the same failure, the same cursor
and values that the view does not tell apart.  Recording positions is the only step that looks
at what is asked for, and its value is invisible through the view that forgets everything.
-/

namespace Docblock

/-- The reply with its value seen through a view. -/
def Reply.map {α γ : Type} (view : α → γ) : Reply α → Reply γ
  | .ok value cursor => .ok (view value) cursor
  | .failed failure cursor => .failed failure cursor

/-- Replies that look the same have values that do, or are the same failure. -/
theorem Reply.cases_of_map_eq {α γ : Type} {view : α → γ} {first second : Reply α}
    (same : first.map view = second.map view) :
    (∃ value value' cursor, first = .ok value cursor ∧ second = .ok value' cursor ∧
      view value = view value') ∨
    ∃ failure cursor, first = .failed failure cursor ∧ second = .failed failure cursor := by
  cases first with
  | ok value cursor =>
      cases second with
      | ok value' cursor' =>
          rw [Reply.map, Reply.map, Reply.ok.injEq] at same
          obtain ⟨sameValue, rfl⟩ := same
          exact .inl ⟨value, value', cursor, rfl, rfl, sameValue⟩
      | failed failure' cursor' => cases same
  | failed failure cursor =>
      cases second with
      | ok value' cursor' => cases same
      | failed failure' cursor' =>
          rw [Reply.map, Reply.map, Reply.failed.injEq] at same
          obtain ⟨rfl, rfl⟩ := same
          exact .inr ⟨failure, cursor, rfl, rfl⟩

/-- A reply that looks like a value is one, with the same cursor. -/
theorem Reply.exists_ok_of_map_eq {α γ : Type} {view : α → γ} {reply : Reply α} {value : α}
    {cursor : Cursor} (same : reply.map view = (Reply.ok value cursor).map view) :
    ∃ found, reply = .ok found cursor ∧ view found = view value := by
  obtain ⟨found, _, _, isFound, isValue, sameView⟩ | ⟨_, _, -, impossible⟩ :=
    Reply.cases_of_map_eq same
  · obtain ⟨rfl, rfl⟩ := Reply.ok.inj isValue
    exact ⟨found, isFound, sameView⟩
  · cases impossible

/-- A reply that looks like a failure is that failure. -/
theorem Reply.eq_failed_of_map_eq {α γ : Type} {view : α → γ} {reply : Reply α}
    {failure : Failure} {cursor : Cursor}
    (same : reply.map view = (Reply.failed failure cursor).map view) :
    reply = .failed failure cursor := by
  obtain ⟨_, _, _, -, impossible, -⟩ | ⟨_, _, isFound, isFailure⟩ := Reply.cases_of_map_eq same
  · cases impossible
  · rw [isFound, isFailure]

namespace Parser

variable {α β γ δ : Type}

/-- The round with its item seen through a view. -/
def Round.map (view : α → γ) : Round α β → Round γ β
  | .item value => .item (view value)
  | .done result => .done result

/-- Rounds that look the same have items that do, or are the same end. -/
theorem Round.cases_of_map_eq {view : α → γ} {round round' : Round α β}
    (same : round.map view = round'.map view) :
    (∃ value value', round = .item value ∧ round' = .item value' ∧ view value = view value') ∨
    ∃ result, round = .done result ∧ round' = .done result := by
  cases round with
  | item value =>
      cases round' with
      | item value' => exact .inl ⟨value, value', rfl, rfl, Round.item.inj same⟩
      | done result' => cases same
  | done result =>
      cases round' with
      | item value' => cases same
      | done result' =>
          obtain rfl : result = result' := Round.done.inj same
          exact .inr ⟨result, rfl, rfl⟩

/-- Outcomes of an attempt that look the same have values that do, or are the same error. -/
theorem outcome_cases_of_map_eq {view : α → γ} {outcome outcome' : Except SyntaxError α}
    (same : outcome.map view = outcome'.map view) :
    (∃ value value', outcome = .ok value ∧ outcome' = .ok value' ∧ view value = view value') ∨
    ∃ error, outcome = .error error ∧ outcome' = .error error := by
  cases outcome with
  | ok value =>
      cases outcome' with
      | ok value' => exact .inl ⟨value, value', rfl, rfl, Except.ok.inj same⟩
      | error error' => cases same
  | error error =>
      cases outcome' with
      | ok value' => cases same
      | error error' =>
          obtain rfl : error = error' := Except.error.inj same
          exact .inr ⟨error, rfl, rfl⟩

/-- The replies of both parsers look the same through the view, whatever positions each of
them records. -/
def Agree (view : α → γ) (first second : Parser α) : Prop :=
  ∀ (tracking tracking' : Tracking) (cursor : Cursor),
    (first tracking cursor).map view = (second tracking' cursor).map view

namespace Agree

variable {view : α → γ} {view' : β → δ} {first first' : Parser α} {next next' : α → Parser β}

theorem pure {value value' : α} (same : view value = view value') :
    Agree view (pure value : Parser α) (Pure.pure value') := by
  intro tracking tracking' cursor
  simp only [pure_apply, Reply.map, same]

/-- What comes next agrees on any two values that the view of the first does not tell apart. -/
theorem bind (firsts : Agree view first first')
    (nexts : ∀ value value', view value = view value' → Agree view' (next value) (next' value')) :
    Agree view' (first >>= next) (first' >>= next') := by
  intro tracking tracking' cursor
  simp only [bind_apply]
  obtain ⟨value, value', after, reply, reply', same⟩ | ⟨failure, after, reply, reply'⟩ :=
    Reply.cases_of_map_eq (firsts tracking tracking' cursor)
  · rw [reply, reply']
    exact nexts value value' same tracking tracking' after
  · rw [reply, reply']

/-- Behind a parser whose values agree exactly there is one value to go on from. -/
theorem bind_same (firsts : Agree id first first')
    (nexts : ∀ value, Agree view' (next value) (next' value)) :
    Agree view' (first >>= next) (first' >>= next') := by
  apply bind firsts
  intro value value' same
  obtain rfl : value = value' := same
  exact nexts value

theorem look (glance : Cursor → α) : Agree id (look glance) (Parser.look glance) :=
  fun _ _ _ => rfl

theorem move (step : Cursor → Cursor) : Agree id (move step) (Parser.move step) :=
  fun _ _ _ => rfl

theorem step (run : Cursor → α × Cursor) : Agree id (step run) (Parser.step run) :=
  fun _ _ _ => rfl

theorem useSavePoint (use : Cursor → Except SavePointUse Cursor) :
    Agree id (useSavePoint use) (Parser.useSavePoint use) := by
  intro tracking tracking' cursor
  rfl

theorem consume (kind : TokenKind) : Agree id (consume kind) (Parser.consume kind) :=
  fun _ _ _ => rfl

theorem consumeValue (kind : TokenKind) (value : String) :
    Agree id (consumeValue kind value) (Parser.consumeValue kind value) :=
  fun _ _ _ => rfl

theorem expecting (kind : TokenKind) : Agree view (expecting kind) (Parser.expecting kind) :=
  fun _ _ _ => rfl

/-- The positions that are recorded differ, and nothing else does. -/
theorem positionsSince (start : Nat) :
    Agree (fun _ => ()) (positionsSince start) (Parser.positionsSince start) :=
  fun _ _ _ => rfl

/-- An attempt keeps the error of its body as it is. -/
theorem attempt (bodies : Agree view first first') :
    Agree (Except.map view) (attempt first) (Parser.attempt first') := by
  intro tracking tracking' cursor
  simp only [Parser.attempt]
  obtain ⟨value, value', after, reply, reply', same⟩ | ⟨failure, after, reply, reply'⟩ :=
    Reply.cases_of_map_eq (bodies tracking tracking' cursor.push)
  · rw [reply, reply']
    have kept : Except.map view (.ok value : Except SyntaxError α) = Except.map view (.ok value') :=
      congrArg Except.ok same
    exact (Agree.bind_same (.useSavePoint _) fun _ => .pure kept) tracking tracking' after
  · rw [reply, reply']
    cases failure with
    | unbalanced use => rfl
    | rejected error =>
        exact (Agree.bind_same (.useSavePoint _) fun _ => .pure rfl) tracking tracking' after

theorem gatherWithin {round round' : Parser (Round α β)}
    (rounds : Agree (Round.map view) round round') (fuel : Nat) :
    Agree (Prod.map (List.map view) id) (gatherWithin round fuel)
      (Parser.gatherWithin round' fuel) := by
  induction fuel with
  | zero => exact .expecting _
  | succ fuel induction =>
      apply Agree.bind rounds
      intro outcome outcome' same
      obtain ⟨value, value', rfl, rfl, sameValue⟩ | ⟨result, rfl, rfl⟩ :=
        Round.cases_of_map_eq same
      · apply Agree.bind induction
        rintro ⟨values, result⟩ ⟨values', result'⟩ sameRest
        obtain ⟨sameValues, sameResult⟩ := Prod.mk.inj sameRest
        obtain rfl : result = result' := sameResult
        exact .pure (by simp only [Prod.map, List.map_cons, sameValue, sameValues])
      · exact .pure rfl

theorem gather {round round' : Parser (Round α β)}
    (rounds : Agree (Round.map view) round round') :
    Agree (Prod.map (List.map view) id) (gather round) (Parser.gather round') :=
  .bind_same (.look _) fun bound => .gatherWithin rounds (bound + 1)

end Agree

end Parser

end Docblock
