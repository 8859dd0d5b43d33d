import Docblock.Proofs.Trail
import Docblock.Proofs.Windows

/-!
# Going back

Whatever is done with a cursor, it stays on a token of its list, and so do its save points: the
last token ends the input, and no operation gets past it.  Save points nest.  A block of operations
is balanced if it takes off the stack what it has put there and nothing else, which can be told
from the operations alone.  Such a block never misses a save point and leaves those that it found
untouched, so a rollback behind it goes back to the place in front of it.
-/

namespace Docblock

/-- The ways to move a cursor; those that look for a token leave it where it is if the token is
another one. -/
inductive Move
  | advance
  | consume (kind : TokenKind)
  | consumeValue (kind : TokenKind) (value : String)
  | accept (kind : TokenKind)
  | acceptValue (value : String)
  | joinUntil (stops : KindSet)
  | fastForward
  deriving DecidableEq, Repr

/-- What can be done with a cursor: moving it, and using its save points. -/
inductive Operation
  | move (move : Move)
  | push
  | drop
  | rollback
  deriving DecidableEq, Repr

namespace Operation

/-- The number of save points after an operation, if there were `count` of them before; none if
the operation misses one. -/
def countAfter : Nat → Operation → Option Nat
  | count, move _ => some count
  | count, push => some (count + 1)
  | count + 1, drop => some count
  | count + 1, rollback => some count
  | 0, drop => none
  | 0, rollback => none

/-- Whether a block takes off the stack the save points that it has put there and no others. -/
def IsBalanced (block : List Operation) : Prop := block.foldlM countAfter 0 = some 0

instance (block : List Operation) : Decidable (IsBalanced block) :=
  inferInstanceAs (Decidable (_ = _))

end Operation

namespace Cursor

/-- The cursor after a move. -/
def moved (cursor : Cursor) : Move → Cursor
  | .advance => cursor.advance
  | .consume kind =>
      match cursor.consume kind with
      | .ok (_, next) => next
      | .error _ => cursor
  | .consumeValue kind value =>
      match cursor.consumeValue kind value with
      | .ok next => next
      | .error _ => cursor
  | .accept kind => (cursor.accept kind).2
  | .acceptValue value => (cursor.acceptValue value).2
  | .joinUntil stops => (cursor.joinUntil stops).2
  | .fastForward => cursor.fastForward

/-- The cursor after an operation, unless a save point is missing. -/
def perform (cursor : Cursor) : Operation → Except SavePointUse Cursor
  | .move move => .ok (cursor.moved move)
  | .push => .ok cursor.push
  | .drop => cursor.drop
  | .rollback => cursor.rollback

/-- The cursor after one operation after the other. -/
def performAll (cursor : Cursor) (operations : List Operation) : Except SavePointUse Cursor :=
  operations.foldlM perform cursor

variable {start cursor next : Cursor} {operation : Operation} {operations : List Operation}

theorem performAll_cons (cursor : Cursor) (operation : Operation) (operations : List Operation) :
    cursor.performAll (operation :: operations) =
      (cursor.perform operation).bind (performAll · operations) := rfl

theorem performAll_append (cursor : Cursor) (front rest : List Operation) :
    cursor.performAll (front ++ rest) =
      (cursor.performAll front).bind (performAll · rest) := List.foldlM_append

/-- A move goes nowhere, one step, to a stop, or to the end. -/
theorem moved_cases (cursor : Cursor) (move : Move) :
    cursor.moved move = cursor ∨ cursor.moved move = cursor.advance ∨
      (∃ stops, cursor.moved move = (cursor.joinUntil stops).2) ∨
        cursor.moved move = cursor.fastForward := by
  cases move with
  | advance => exact .inr (.inl rfl)
  | consume kind =>
      cases isAt : cursor.isAt kind with
      | true => exact .inr (.inl (by simp [moved, consume, isAt]))
      | false => exact .inl (by simp [moved, consume, isAt])
  | consumeValue kind value =>
      cases isAt : cursor.isAt kind && cursor.isAtValue value with
      | true => exact .inr (.inl (by rw [moved, consumeValue, if_pos isAt]))
      | false => exact .inl (by simp [moved, consumeValue, isAt])
  | accept kind =>
      cases isAt : cursor.isAt kind with
      | true => exact .inr (.inl (by simp [moved, accept, isAt]))
      | false => exact .inl (by simp [moved, accept, isAt])
  | acceptValue value =>
      cases isAt : cursor.isAtValue value with
      | true => exact .inr (.inl (by simp [moved, acceptValue, isAt]))
      | false => exact .inl (by simp [moved, acceptValue, isAt])
  | joinUntil stops => exact .inr (.inr (.inl ⟨stops, rfl⟩))
  | fastForward => exact .inr (.inr (.inr rfl))

theorem moved_eq_moveTo (cursor : Cursor) (move : Move) :
    ∃ place, cursor.moved move = cursor.moveTo place := by
  rcases cursor.moved_cases move with isSame | isNext | ⟨stops, isStop⟩ | isLast
  · exact ⟨cursor.index, isSame⟩
  · rw [isNext]
    exact cursor.advance_eq_moveTo
  · exact ⟨_, isStop⟩
  · exact ⟨_, isLast⟩

section Places

/-- A run of tokens ends in front of the token that ends the input. -/
theorem runWithin_inside (isSealed : cursor.IsSealed) (stops : KindSet) (fuel : Nat) {place : Nat}
    (inside : place < cursor.tokens.size) :
    place + (cursor.runWithin stops fuel place).length < cursor.tokens.size := by
  induction fuel generalizing place with
  | zero => exact inside
  | succ fuel induction =>
      rw [runWithin]
      split
      · exact inside
      · next goesOn =>
          have unfinished : (cursor.tokenAt place).kind ≠ .finish := by
            intro isFinish
            simp [isFinish] at goesOn
          have further := induction (isSealed place unfinished)
          rw [List.length_cons]
          omega

theorem advance_inside (inside : cursor.index < cursor.tokens.size) :
    cursor.advance.index < cursor.tokens.size := by
  simp only [advance]
  split
  · exact inside
  · split
    · next passed => exact passed.2
    · next notLast _ => exact Nat.not_le.mp notLast

/-- A move stays on the tokens. -/
theorem moved_inside (isSealed : cursor.IsSealed) (inside : cursor.index < cursor.tokens.size)
    (move : Move) : (cursor.moved move).index < cursor.tokens.size := by
  rcases cursor.moved_cases move with isSame | isNext | ⟨stops, isStop⟩ | isLast
  · rwa [isSame]
  · rw [isNext]
    exact advance_inside inside
  · rw [isStop]
    exact runWithin_inside isSealed stops _ inside
  · rw [isLast]
    exact Nat.sub_one_lt_of_lt inside

/-- The cursor `start` with other places of its list. -/
structure Inside (start cursor : Cursor) : Prop where
  same : cursor = start.standing cursor.index cursor.savePoints
  index : cursor.index < start.tokens.size
  savePoints : ∀ place ∈ cursor.savePoints, place < start.tokens.size

theorem Inside.outer (inside : start.Inside cursor) {place : Nat} {outer : List Nat}
    (isSaved : cursor.savePoints = place :: outer) :
    place < start.tokens.size ∧ ∀ other ∈ outer, other < start.tokens.size :=
  List.forall_mem_cons.mp (isSaved ▸ inside.savePoints)

theorem Inside.moved (isSealed : start.IsSealed) (inside : start.Inside cursor) (move : Move) :
    start.Inside (cursor.moved move) := by
  have sealed : cursor.IsSealed := by
    rw [inside.same]
    exact isSealed
  have same : cursor.tokens = start.tokens := by rw [inside.same]; rfl
  have isIndex := moved_inside sealed (same ▸ inside.index) move
  obtain ⟨place, isMoved⟩ := cursor.moved_eq_moveTo move
  rw [isMoved] at isIndex ⊢
  exact ⟨by rw [inside.same]; rfl, same ▸ isIndex, inside.savePoints⟩

/-- One operation leaves all places on the tokens. -/
theorem Inside.perform (isSealed : start.IsSealed) (inside : start.Inside cursor)
    (performed : cursor.perform operation = .ok next) : start.Inside next := by
  cases operation with
  | move move =>
      obtain rfl : cursor.moved move = next := Except.ok.inj performed
      exact inside.moved isSealed move
  | push =>
      obtain rfl : cursor.push = next := Except.ok.inj performed
      exact ⟨by rw [inside.same]; rfl, inside.index,
        List.forall_mem_cons.mpr ⟨inside.index, inside.savePoints⟩⟩
  | drop =>
      rw [Cursor.perform, drop] at performed
      split at performed
      · cases performed
      · next place outer isSaved =>
          obtain rfl := Except.ok.inj performed
          exact ⟨by rw [inside.same]; rfl, inside.index, (inside.outer isSaved).2⟩
  | rollback =>
      rw [Cursor.perform, rollback] at performed
      split at performed
      · cases performed
      · next place outer isSaved =>
          obtain rfl := Except.ok.inj performed
          have saved := inside.outer isSaved
          exact ⟨by rw [inside.same]; rfl, saved.1, saved.2⟩

/-- All operations leave all places on the tokens. -/
theorem Inside.performAll (isSealed : start.IsSealed) (inside : start.Inside cursor)
    (performed : cursor.performAll operations = .ok next) : start.Inside next := by
  induction operations generalizing cursor with
  | nil =>
      obtain rfl : cursor = next := Except.ok.inj performed
      exact inside
  | cons operation operations induction =>
      rw [performAll_cons] at performed
      cases first : cursor.perform operation with
      | error use =>
          rw [first] at performed
          cases performed
      | ok between =>
          rw [first] at performed
          exact induction (inside.perform isSealed first) performed

end Places

section Nesting

variable {own below : List Nat} {count : Nat} {block : List Operation}

/-- One operation uses the innermost save points only. -/
theorem perform_own (isSaved : cursor.savePoints = own ++ below)
    (counted : operation.countAfter own.length = some count) :
    ∃ place own', cursor.perform operation = .ok (cursor.standing place (own' ++ below)) ∧
      own'.length = count := by
  cases operation with
  | move move =>
      obtain ⟨place, isMoved⟩ := cursor.moved_eq_moveTo move
      refine ⟨place, own, ?_, Option.some.inj counted⟩
      rw [perform, isMoved, ← isSaved]
      rfl
  | push =>
      refine ⟨cursor.index, cursor.index :: own, ?_, Option.some.inj counted⟩
      rw [List.cons_append, ← isSaved]
      rfl
  | drop =>
      cases own with
      | nil => cases counted
      | cons place own =>
          refine ⟨cursor.index, own, ?_, Option.some.inj counted⟩
          simp only [perform, drop, isSaved, List.cons_append]
          rfl
  | rollback =>
      cases own with
      | nil => cases counted
      | cons place own =>
          refine ⟨place, own, ?_, Option.some.inj counted⟩
          simp only [perform, rollback, isSaved, List.cons_append]
          rfl

/-- A block of operations uses as many of the innermost save points as are its own. -/
theorem performAll_own (isSaved : cursor.savePoints = own ++ below)
    (counted : block.foldlM Operation.countAfter own.length = some count) :
    ∃ place own', cursor.performAll block = .ok (cursor.standing place (own' ++ below)) ∧
      own'.length = count := by
  induction block generalizing cursor own with
  | nil =>
      refine ⟨cursor.index, own, ?_, Option.some.inj counted⟩
      rw [← isSaved]
      rfl
  | cons operation block induction =>
      rw [List.foldlM_cons] at counted
      obtain ⟨between, first, counted⟩ := Option.bind_eq_some_iff.mp counted
      obtain ⟨place, own', performed, rfl⟩ := perform_own isSaved first
      rw [performAll_cons, performed]
      exact induction rfl counted

/-- A balanced block moves the cursor and leaves the save points that it found. -/
theorem performAll_balanced (cursor : Cursor) (balanced : Operation.IsBalanced block) :
    ∃ place, cursor.performAll block = .ok (cursor.moveTo place) := by
  have isSaved : cursor.savePoints = [] ++ cursor.savePoints := rfl
  obtain ⟨place, own, performed, isEmpty⟩ := performAll_own isSaved balanced
  obtain rfl := List.length_eq_zero_iff.mp isEmpty
  exact ⟨place, performed⟩

/-- No part of a balanced block gets at the save points that the block found. -/
theorem performAll_front (cursor : Cursor) {front rest : List Operation}
    (balanced : Operation.IsBalanced (front ++ rest)) :
    ∃ next, cursor.performAll front = .ok next ∧ cursor.savePoints <:+ next.savePoints := by
  rw [Operation.IsBalanced, List.foldlM_append] at balanced
  obtain ⟨between, counted, -⟩ := Option.bind_eq_some_iff.mp balanced
  have isSaved : cursor.savePoints = [] ++ cursor.savePoints := rfl
  obtain ⟨place, own, performed, -⟩ := performAll_own isSaved counted
  exact ⟨_, performed, List.suffix_append own cursor.savePoints⟩

/-- A rollback behind a balanced block goes back to the place in front of it. -/
theorem performAll_rollback (cursor : Cursor) (balanced : Operation.IsBalanced block) :
    cursor.performAll (.push :: block ++ [.rollback]) = .ok cursor := by
  obtain ⟨place, performed⟩ := cursor.push.performAll_balanced balanced
  have pushed : cursor.perform .push = .ok cursor.push := rfl
  rw [List.cons_append, performAll_cons, pushed]
  show cursor.push.performAll (block ++ [.rollback]) = _
  rw [performAll_append, performed]
  rfl

end Nesting

section Lists

variable {tokens : List Token}

/-- The reading of a list starts on one of its tokens. -/
theorem inside_ofTokens (tokens : List Token) : (ofTokens tokens).Inside (ofTokens tokens) where
  same := rfl
  index := by
    obtain ⟨first, rest, isSealed⟩ := List.exists_cons_of_ne_nil (TokenList.sealed_ne_nil tokens)
    by_cases isBlank : first.kind = .blank
    · -- a blank does not end the input, so there is a token behind it
      have further := isSealed_ofTokens tokens 0 (by simp [tokenAt, ofTokens, isSealed, isBlank])
      simpa [ofTokens, isSealed, isBlank] using further
    · simp [ofTokens, isSealed, isBlank]
  savePoints := by simp [ofTokens]

theorem Inside.tokens_eq (inside : (ofTokens tokens).Inside cursor) :
    cursor.tokens.toList = TokenList.sealed tokens := by
  rw [inside.same]
  rfl

theorem Inside.offset_eq (inside : (ofTokens tokens).Inside cursor) :
    cursor.offset = (TokenList.text (cursor.tokens.toList.take cursor.index)).utf8ByteSize := by
  have isIndex : cursor.index < (TokenList.sealed tokens).length := by
    simpa [ofTokens] using inside.index
  have isOffset : cursor.offset =
      ((TokenList.offsetsFrom 0 (TokenList.sealed tokens))[cursor.index]?).getD 0 := by
    rw [inside.same]
    simp [offset, standing, ofTokens]
  rw [isOffset, TokenList.getElem?_offsetsFrom, List.getElem?_eq_getElem isIndex, inside.tokens_eq]
  simp

end Lists

end Cursor

/-- Whatever is done with a cursor over a list of tokens, as long as no save point is missing, the
cursor and its save points stay on tokens of the list, the last of which ends the input, and the
byte offset of the cursor is the size of the text in front of it.  A balanced block misses no save
point, keeps those that it finds all the time, and a rollback behind it undoes it. -/
theorem performAll_inside_and_nested {tokens : List Token} {operations : List Operation}
    {cursor : Cursor}
    (performed : (Cursor.ofTokens tokens).performAll operations = .ok cursor) :
    (cursor.tokens.toList = TokenList.sealed tokens ∧
      cursor.tokens.back?.map Token.kind = some .finish ∧
      cursor.index < cursor.tokens.size ∧
      (∀ place ∈ cursor.savePoints, place < cursor.tokens.size) ∧
      cursor.offset = (TokenList.text (cursor.tokens.toList.take cursor.index)).utf8ByteSize) ∧
    ∀ block, Operation.IsBalanced block →
      (∃ next, cursor.performAll block = .ok next ∧ next.savePoints = cursor.savePoints) ∧
      (∀ front rest, block = front ++ rest →
        ∃ next, cursor.performAll front = .ok next ∧ cursor.savePoints <:+ next.savePoints) ∧
      cursor.performAll (.push :: block ++ [.rollback]) = .ok cursor := by
  have inside := (Cursor.inside_ofTokens tokens).performAll (Cursor.isSealed_ofTokens tokens)
    performed
  have size : cursor.tokens.size = (Cursor.ofTokens tokens).tokens.size := by
    rw [inside.same]
    rfl
  refine ⟨⟨inside.tokens_eq, ?_, size ▸ inside.index, size ▸ inside.savePoints, inside.offset_eq⟩,
    fun block balanced => ⟨?_, ?_, cursor.performAll_rollback balanced⟩⟩
  · rw [← Array.getLast?_toList, inside.tokens_eq, TokenList.getLast?_sealed]
  · obtain ⟨place, moved⟩ := cursor.performAll_balanced balanced
    exact ⟨_, moved, rfl⟩
  · rintro front rest rfl
    exact cursor.performAll_front balanced

/-- The list has an end of input in its middle, which stops a run but not a jump.  The save point
of the first push is still there behind a rollback, and a block goes back and forth. -/
theorem performAll_inside_and_nested_unsealed :
    let tokens : List Token := [⟨.blank, " ", 1⟩, Token.finish 1, ⟨.identifier, "é", 1⟩]
    let block : List Operation :=
      [.push, .move .advance, .push, .move .fastForward, .drop, .rollback, .move .fastForward]
    ∃ cursor, (Cursor.ofTokens tokens).performAll [.push, .move (.joinUntil .empty),
          .push, .move .fastForward, .rollback, .move .advance] = .ok cursor ∧
      cursor.index = 2 ∧ cursor.savePoints = [1] ∧ cursor.tokens.size = 4 ∧ cursor.offset = 1 ∧
      (∃ next, cursor.performAll block = .ok next ∧ next.savePoints = [1]) ∧
      cursor.performAll (.push :: block ++ [.rollback]) = .ok cursor := by
  intro tokens block
  obtain ⟨cursor, performed, isIndex, isSaved⟩ : ∃ cursor,
      (Cursor.ofTokens tokens).performAll [.push, .move (.joinUntil .empty),
          .push, .move .fastForward, .rollback, .move .advance] = .ok cursor ∧
        cursor.index = 2 ∧ cursor.savePoints = [1] := ⟨_, rfl, by decide, by decide⟩
  obtain ⟨⟨isSealed, -, -, -, isOffset⟩, nests⟩ := performAll_inside_and_nested performed
  obtain ⟨⟨next, moved, isKept⟩, -, undone⟩ := nests block (by decide)
  rw [isSealed, isIndex] at isOffset
  refine ⟨cursor, performed, isIndex, isSaved, ?_, ?_, ⟨next, moved, isKept.trans isSaved⟩, undone⟩
  · rw [← Array.length_toList, isSealed]
    rfl
  · rw [isOffset]
    rfl

end Docblock
