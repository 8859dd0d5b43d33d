import Docblock.Parser

/-!
# Parsers that keep the save points

Every rule of the grammars leaves the stack of save points as it found it,
whether it succeeds or fails, and never uses a save point that is not there.
The rules push save points at several places and not only through `attempt`,
so two properties carry the argument.  A *steady* parser moves the cursor and
does nothing else to it.  A *releasing* parser starts with one save point more
than it ends with.  Between a push and the use of its save point stand only
steps that cannot fail, which is why no failure leaves a save point behind.
-/

namespace Docblock

/-- The cursor over the same tokens, with the same save points, at another index. -/
def Cursor.moveTo (cursor : Cursor) (index : Nat) : Cursor := { cursor with index }

/-- The cursor with one more save point. -/
def Cursor.withSavePoint (cursor : Cursor) (index : Nat) : Cursor :=
  { cursor with savePoints := index :: cursor.savePoints }

namespace Reply

variable {α : Type}

/-- A reply is steady if all that became of `cursor` is its index, and no save
point was missing. -/
def Steady (reply : Reply α) (cursor : Cursor) : Prop :=
  match reply with
  | ok _ next => ∃ index, next = cursor.moveTo index
  | failed (.rejected _) next => ∃ index, next = cursor.moveTo index
  | failed (.unbalanced _) _ => False

theorem Steady.ofMoveTo {reply : Reply α} {cursor : Cursor} {index : Nat}
    (steady : reply.Steady (cursor.moveTo index)) : reply.Steady cursor := by
  cases reply with
  | ok value next => exact steady
  | failed failure next =>
      cases failure with
      | rejected error => exact steady
      | unbalanced use => exact steady

theorem Steady.cursor_eq {reply : Reply α} {cursor : Cursor}
    (steady : reply.Steady cursor) :
    reply.cursor = cursor.moveTo reply.cursor.index := by
  cases reply with
  | ok value next =>
      obtain ⟨index, rfl⟩ := steady
      rfl
  | failed failure next =>
      cases failure with
      | rejected error =>
          obtain ⟨index, rfl⟩ := steady
          rfl
      | unbalanced use => exact steady.elim

theorem Steady.ne_unbalanced {reply : Reply α} {cursor : Cursor}
    (steady : reply.Steady cursor) (use : SavePointUse) :
    reply.result ≠ .error (.unbalanced use) := by
  cases reply with
  | ok value next => simp [result]
  | failed failure next =>
      cases failure with
      | rejected error => simp [result]
      | unbalanced use => exact steady.elim

end Reply

namespace Cursor

theorem push_eq (cursor : Cursor) : cursor.push = cursor.withSavePoint cursor.index := rfl

theorem advance_eq_moveTo (cursor : Cursor) : ∃ index, cursor.advance = cursor.moveTo index := by
  simp only [advance]
  split
  · exact ⟨cursor.index, rfl⟩
  · split
    · exact ⟨cursor.index + 1 + 1, rfl⟩
    · exact ⟨cursor.index + 1, rfl⟩

theorem skipLineBreaks_eq_moveTo (cursor : Cursor) :
    ∃ index, cursor.skipLineBreaks = cursor.moveTo index := by
  have within : ∀ (fuel : Nat) (cursor : Cursor),
      ∃ index, skipLineBreaksWithin fuel cursor = cursor.moveTo index := by
    intro fuel
    induction fuel with
    | zero => exact fun cursor => ⟨cursor.index, rfl⟩
    | succ fuel induction =>
        intro cursor
        unfold skipLineBreaksWithin
        split
        · obtain ⟨next, advanced⟩ := cursor.advance_eq_moveTo
          obtain ⟨last, skipped⟩ := induction cursor.advance
          exact ⟨last, by rw [skipped, advanced]; rfl⟩
        · exact ⟨cursor.index, rfl⟩
  exact within _ _

end Cursor

namespace Parser

variable {α β : Type}

/-- A steady parser changes nothing about a cursor but its index, and never misses a
save point. -/
def Steady (parser : Parser α) : Prop :=
  ∀ tracking cursor, (parser tracking cursor).Steady cursor

/-- A releasing parser is steady but for the innermost save point, which it takes off
the stack. -/
def Releases (parser : Parser α) : Prop :=
  ∀ tracking cursor index, (parser tracking (cursor.withSavePoint index)).Steady cursor

theorem Steady.pure (value : α) : (pure value : Parser α).Steady :=
  fun _ cursor => ⟨cursor.index, rfl⟩

theorem Steady.bind {first : Parser α} {next : α → Parser β}
    (firstSteady : first.Steady) (nextSteady : ∀ value, (next value).Steady) :
    (first >>= next).Steady := by
  intro tracking cursor
  have firstReply := firstSteady tracking cursor
  rw [bind_apply]
  cases replied : first tracking cursor with
  | ok value middle =>
      rw [replied] at firstReply
      obtain ⟨index, rfl⟩ := firstReply
      exact (nextSteady value tracking _).ofMoveTo
  | failed failure middle =>
      rw [replied] at firstReply
      cases failure with
      | rejected error => exact firstReply
      | unbalanced use => exact firstReply

theorem Steady.look (view : Cursor → α) : (look view).Steady :=
  fun _ cursor => ⟨cursor.index, rfl⟩

theorem Steady.move {step : Cursor → Cursor}
    (moves : ∀ cursor, ∃ index, step cursor = Cursor.moveTo cursor index) :
    (move step).Steady :=
  fun _ cursor => moves cursor

theorem Steady.advance : advance.Steady := .move Cursor.advance_eq_moveTo

theorem Steady.skipLineBreaks : skipLineBreaks.Steady :=
  .move Cursor.skipLineBreaks_eq_moveTo

theorem Steady.joinUntil (stops : KindSet) : (joinUntil stops).Steady :=
  fun _ cursor => ⟨cursor.index + (cursor.run stops).length, rfl⟩

theorem Steady.accept (kind : TokenKind) : (accept kind).Steady := by
  intro tracking cursor
  show ∃ index, (cursor.accept kind).2 = cursor.moveTo index
  unfold Cursor.accept
  split
  · exact cursor.advance_eq_moveTo
  · exact ⟨cursor.index, rfl⟩

theorem Steady.acceptValue (value : String) : (acceptValue value).Steady := by
  intro tracking cursor
  show ∃ index, (cursor.acceptValue value).2 = cursor.moveTo index
  unfold Cursor.acceptValue
  split
  · exact cursor.advance_eq_moveTo
  · exact ⟨cursor.index, rfl⟩

theorem Steady.consume (kind : TokenKind) : (consume kind).Steady := by
  intro tracking cursor
  unfold Parser.consume Cursor.consume
  split
  · next taken =>
      split at taken
      · cases taken
        exact cursor.advance_eq_moveTo
      · cases taken
  · exact ⟨cursor.index, rfl⟩

theorem Steady.consumeValue (kind : TokenKind) (value : String) :
    (consumeValue kind value).Steady := by
  intro tracking cursor
  unfold Parser.consumeValue Cursor.consumeValue
  split
  · next taken =>
      split at taken
      · cases taken
        exact cursor.advance_eq_moveTo
      · cases taken
  · exact ⟨cursor.index, rfl⟩

theorem Steady.expecting (kind : TokenKind) : (expecting kind : Parser α).Steady :=
  fun _ cursor => ⟨cursor.index, rfl⟩

theorem Steady.positionsSince (start : Nat) : (positionsSince start).Steady :=
  fun _ cursor => ⟨cursor.index, rfl⟩

theorem Releases.drop_bind {next : Unit → Parser α} (nextSteady : (next ()).Steady) :
    (drop >>= next).Releases := by
  intro tracking cursor index
  exact nextSteady tracking cursor

theorem Releases.rollback_bind {next : Unit → Parser α} (nextSteady : (next ()).Steady) :
    (rollback >>= next).Releases := by
  intro tracking cursor index
  exact (nextSteady tracking (cursor.moveTo index)).ofMoveTo

/-- In front of the use of a save point stand steps that succeed. -/
theorem Releases.bind {first : Parser β} {next : β → Parser α} (firstSteady : first.Steady)
    (succeeds : ∀ tracking cursor, ∃ value after, first tracking cursor = .ok value after)
    (nextReleases : ∀ value, (next value).Releases) : (first >>= next).Releases := by
  intro tracking cursor index
  have firstReply := firstSteady tracking (cursor.withSavePoint index)
  obtain ⟨value, after, replied⟩ := succeeds tracking (cursor.withSavePoint index)
  rw [replied] at firstReply
  obtain ⟨target, rfl⟩ := firstReply
  rw [bind_apply, replied]
  exact (nextReleases value tracking (cursor.moveTo target) index).ofMoveTo

theorem Steady.push_bind {next : Unit → Parser α} (nextReleases : (next ()).Releases) :
    (push >>= next).Steady :=
  fun tracking cursor => nextReleases tracking cursor cursor.index

/-- What `attempt` makes of the reply of its body: the value and the place that the
body reached, or its error and the place where it started. -/
theorem attempt_eq {body : Parser α} (bodySteady : body.Steady)
    (tracking : Tracking) (cursor : Cursor) :
    attempt body tracking cursor =
      match body tracking cursor.push with
      | .ok value next => .ok (.ok value) (cursor.moveTo next.index)
      | .failed (.rejected error) _ => .ok (.error error) cursor
      | .failed (.unbalanced use) next => .failed (.unbalanced use) next := by
  have bodyReply := bodySteady tracking cursor.push
  unfold attempt
  cases replied : body tracking cursor.push with
  | ok value next =>
      rw [replied] at bodyReply
      obtain ⟨index, rfl⟩ := bodyReply
      rfl
  | failed failure next =>
      cases failure with
      | rejected error =>
          rw [replied] at bodyReply
          obtain ⟨index, rfl⟩ := bodyReply
          rfl
      | unbalanced use => rfl

theorem Steady.attempt {body : Parser α} (bodySteady : body.Steady) :
    (attempt body).Steady := by
  intro tracking cursor
  have bodyReply := bodySteady tracking cursor.push
  rw [attempt_eq bodySteady]
  cases replied : body tracking cursor.push with
  | ok value next => exact ⟨next.index, rfl⟩
  | failed failure next =>
      cases failure with
      | rejected error => exact ⟨cursor.index, rfl⟩
      | unbalanced use =>
          rw [replied] at bodyReply
          exact bodyReply.elim

theorem Steady.gatherWithin {round : Parser (Round α β)} (roundSteady : round.Steady)
    (fuel : Nat) : (gatherWithin round fuel).Steady := by
  induction fuel with
  | zero => exact .expecting .finish
  | succ fuel induction =>
      refine .bind roundSteady fun outcome => ?_
      cases outcome with
      | item value => exact .bind induction fun _ => .pure _
      | done result => exact .pure _

theorem Steady.gather {round : Parser (Round α β)} (roundSteady : round.Steady) :
    (gather round).Steady :=
  .bind (.look _) fun _ => .gatherWithin roundSteady _

end Parser

end Docblock
