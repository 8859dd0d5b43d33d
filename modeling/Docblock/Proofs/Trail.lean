import Docblock.Proofs.Tandem
import Mathlib.Data.Nat.Find
import Mathlib.Data.Nat.Init
import Mathlib.Logic.Function.Iterate

/-!
# Parsers that walk abreast

From a given place on, the steps of the cursor lead through the input from *station* to
station.  Blanks lie between the stations, so two lists of tokens that differ in their blanks
have the same tokens at the same stations, although at different places.  A *trail* is such a
pair of lists, up to the first token that ends the input.  Parsers walk *abreast* if they stop
at the same station with the same value, each on its list.

The blank in front of a station can be asked for.  On a trail this tells the lists apart only
where no rule asks: in front of most kinds of tokens, and behind a line break.

For the tokens between two stations the trail keeps account of brackets and line breaks.  With
the same list on both sides this says what the tokens are that a rule has taken.

Positions are not recorded on a trail, since the places differ.
-/

namespace Docblock

/-- The bracket that closes an opening one. -/
def TokenKind.closing? : TokenKind → Option TokenKind
  | .openParen => some .closeParen
  | .openAngle => some .closeAngle
  | .openSquare => some .closeSquare
  | .openCurly => some .closeCurly
  | _ => none

/-- Whether tokens of this kind are neither brackets nor line breaks. -/
def TokenKind.isPlain (kind : TokenKind) : Bool :=
  !([.openParen, .closeParen, .openAngle, .closeAngle, .openSquare, .closeSquare, .openCurly,
    .closeCurly, .lineBreak].contains kind)

/-- The kinds of tokens in front of which a blank can make a difference: it ends the name of a
class constant, and it keeps a brace from opening a shape. -/
def TokenKind.heedsBlank (kind : TokenKind) : Bool :=
  [.openCurly, .identifier, .wildcard].contains kind

/-- Every bracket is closed by its counterpart, and of two pairs of brackets one lies in the
other or they are apart.  Line breaks stand between brackets, unless `inside` tells that there
are brackets around the whole. -/
inductive Balanced : Bool → List Token → Prop
  | nil {inside : Bool} : Balanced inside []
  | plain {inside : Bool} {token : Token} {rest : List Token}
      (isPlain : token.kind.isPlain = true) (others : Balanced inside rest) :
      Balanced inside (token :: rest)
  | lineBreak {token : Token} {rest : List Token} (isBreak : token.kind = .lineBreak)
      (others : Balanced true rest) : Balanced true (token :: rest)
  | pair {inside : Bool} {opening closing : Token} {inner rest : List Token}
      (matching : opening.kind.closing? = some closing.kind) (within : Balanced true inner)
      (others : Balanced inside rest) :
      Balanced inside (opening :: (inner ++ closing :: rest))

namespace Balanced

variable {inside : Bool} {tokens others blanks : List Token}

theorem append (first : Balanced inside tokens) (second : Balanced inside others) :
    Balanced inside (tokens ++ others) := by
  induction first with
  | nil => exact second
  | plain isPlain _ induction => exact .plain isPlain (induction second)
  | lineBreak isBreak _ induction => exact .lineBreak isBreak (induction second)
  | pair matching within _ _ induction =>
      rw [List.cons_append, List.append_assoc, List.cons_append]
      exact .pair matching within (induction second)

/-- What is balanced on its own is so inside of brackets. -/
theorem widen (balanced : Balanced false tokens) : Balanced inside tokens := by
  generalize isOutside : false = outside at balanced
  induction balanced with
  | nil => exact .nil
  | plain isPlain _ induction => exact .plain isPlain (induction isOutside)
  | lineBreak => cases isOutside
  | pair matching within _ _ induction => exact .pair matching within (induction isOutside)

theorem of_blanks (allBlank : ∀ token ∈ blanks, token.kind = .blank) : Balanced inside blanks := by
  induction blanks with
  | nil => exact .nil
  | cons token blanks induction =>
      obtain ⟨isBlank, others⟩ := List.forall_mem_cons.mp allBlank
      exact .plain (by rw [isBlank]; rfl) (induction others)

end Balanced

/-- A token between others lies in a pair of brackets that are among them; what the brackets
enclose is balanced. -/
def Enclosed (front : List Token) (token : Token) (back : List Token) : Prop :=
  ∃ before opening inner inner' closing behind, front = before ++ opening :: inner ∧
    back = inner' ++ closing :: behind ∧ opening.kind.closing? = some closing.kind ∧
    Balanced true (inner ++ token :: inner')

theorem Enclosed.prepend {front back : List Token} {token : Token}
    (enclosed : Enclosed front token back) (before : List Token) :
    Enclosed (before ++ front) token back := by
  obtain ⟨outer, opening, inner, inner', closing, behind, rfl, rfl, matching, within⟩ := enclosed
  exact ⟨before ++ outer, opening, inner, inner', closing, behind, by simp, rfl, matching, within⟩

theorem TokenKind.ne_lineBreak_of_closing? {opening closing : TokenKind}
    (matching : opening.closing? = some closing) :
    opening ≠ .lineBreak ∧ closing ≠ .lineBreak := by
  cases opening <;> cases matching <;> decide

/-- Where line breaks do not stand on their own, each of them is enclosed. -/
theorem Balanced.enclosed {tokens front back : List Token} {token : Token}
    (balanced : Balanced false tokens) (isSplit : tokens = front ++ token :: back)
    (isBreak : token.kind = .lineBreak) : Enclosed front token back := by
  generalize isOutside : false = outside at balanced
  induction balanced generalizing front with
  | nil => simp at isSplit
  | lineBreak => cases isOutside
  | @plain _ first rest isPlain _ induction =>
      cases front with
      | nil =>
          obtain ⟨rfl, -⟩ := List.cons.inj isSplit
          rw [isBreak] at isPlain
          cases isPlain
      | cons other front =>
          obtain ⟨rfl, isRest⟩ := List.cons.inj isSplit
          exact (induction isRest isOutside).prepend [first]
  | @pair _ opening closing inner rest matching within _ _ induction =>
      obtain ⟨openingSolid, closingSolid⟩ := TokenKind.ne_lineBreak_of_closing? matching
      cases front with
      | nil =>
          obtain ⟨rfl, -⟩ := List.cons.inj isSplit
          exact absurd isBreak openingSolid
      | cons other front =>
          obtain ⟨rfl, isInner⟩ := List.cons.inj isSplit
          -- The line break stands behind the closing bracket or in front of it.
          rcases List.append_eq_append_iff.mp isInner with ⟨more, rfl, isMore⟩ | ⟨more, rfl, isMore⟩
          · cases more with
            | nil =>
                obtain ⟨rfl, -⟩ := List.cons.inj isMore
                exact absurd isBreak closingSolid
            | cons first more =>
                obtain ⟨rfl, isRest⟩ := List.cons.inj isMore
                have enclosed := (induction isRest isOutside).prepend (opening :: inner ++ [closing])
                simpa using enclosed
          · cases more with
            | nil =>
                obtain ⟨rfl, -⟩ := List.cons.inj isMore
                exact absurd isBreak closingSolid
            | cons first more =>
                obtain ⟨rfl, rfl⟩ := List.cons.inj isMore
                exact ⟨[], opening, front, more, closing, rest, rfl, rfl, matching, within⟩

namespace Cursor

variable {cursor : Cursor} {place start middle stop : Nat}

/-- The tokens from `start` on and in front of `stop`. -/
def between (cursor : Cursor) (start stop : Nat) : List Token :=
  (cursor.tokens.extract start stop).toList

/-- The place to which the given number of steps leads. -/
def after (cursor : Cursor) (steps : Nat) : Nat := cursor.next^[steps] cursor.index

/-- Behind every token that does not end the input there is another one. -/
def IsSealed (cursor : Cursor) : Prop :=
  ∀ place, (cursor.tokenAt place).kind ≠ .finish → place + 1 < cursor.tokens.size

theorem after_succ (cursor : Cursor) (steps : Nat) :
    cursor.after (steps + 1) = cursor.next (cursor.after steps) :=
  Function.iterate_succ_apply' _ _ _

theorem isSealed_ofTokens (tokens : List Token) : (ofTokens tokens).IsSealed := by
  intro place unfinished
  by_contra beyond
  have last := TokenList.getLast?_sealed tokens
  simp only [tokenAt, ofTokens, List.getElem?_toArray, List.size_toArray] at unfinished beyond
  by_cases inside : place < (TokenList.sealed tokens).length
  · rw [List.getLast?_eq_getElem?, show (TokenList.sealed tokens).length - 1 = place by omega,
      List.getElem?_eq_getElem inside, Option.map_some, Option.some.injEq] at last
    rw [List.getElem?_eq_getElem inside] at unfinished
    exact unfinished last
  · rw [List.getElem?_eq_none (by omega)] at unfinished
    exact unfinished rfl

theorem between_self (cursor : Cursor) (place : Nat) : cursor.between place place = [] := by
  simp [between]

theorem between_append (cursor : Cursor) (first : start ≤ middle) (second : middle ≤ stop) :
    cursor.between start middle ++ cursor.between middle stop = cursor.between start stop := by
  rw [between, between, ← Array.toList_append, Array.extract_append_extract,
    Nat.min_eq_left first, Nat.max_eq_right second, between]

theorem between_succ (inside : place < cursor.tokens.size) :
    cursor.between place (place + 1) = [cursor.tokenAt place] := by
  rw [between, tokenAt, Array.getElem?_eq_getElem inside, Array.toList_extract,
    List.extract_eq_take_drop, Nat.add_sub_cancel_left, List.drop_eq_getElem_cons inside]
  rfl

theorem le_next (cursor : Cursor) (place : Nat) : place ≤ cursor.next place := by
  unfold next
  split
  · exact Nat.le_refl _
  · split <;> omega

theorem lt_next (more : place + 1 < cursor.tokens.size) : place < cursor.next place := by
  rw [next, if_neg (by omega)]
  split <;> omega

/-- A step takes one token, and perhaps a blank behind it. -/
theorem between_next (more : place + 1 < cursor.tokens.size) :
    ∃ blanks : List Token, (∀ token ∈ blanks, token.kind = .blank) ∧
      cursor.between place (cursor.next place) = cursor.tokenAt place :: blanks := by
  rw [next, if_neg (by omega)]
  split
  · next passed =>
      refine ⟨[cursor.tokenAt (place + 1)], by simpa using passed.1, ?_⟩
      rw [← cursor.between_append (Nat.le_add_right place 1) (Nat.le_succ (place + 1)),
        between_succ (by omega), between_succ more]
      rfl
  · exact ⟨[], by simp, between_succ (by omega)⟩

theorem after_mono (cursor : Cursor) {steps further : Nat} (more : steps ≤ further) :
    cursor.after steps ≤ cursor.after further := by
  induction more with
  | refl => exact Nat.le_refl _
  | step _ induction =>
      rw [after_succ]
      exact Nat.le_trans induction (cursor.le_next _)

/-- As long as the input does not end, every step leads over a further token. -/
theorem IsSealed.length_le_remaining (isSealed : cursor.IsSealed) {length steps : Nat}
    (unfinished : ∀ steps < length, (cursor.tokenAt (cursor.after steps)).kind ≠ .finish)
    (within : steps ≤ length) : length - steps ≤ cursor.tokens.size - cursor.after steps := by
  induction within using Nat.decreasingInduction with
  | self => omega
  | of_succ steps before induction =>
      have more := isSealed _ (unfinished steps before)
      have further := lt_next more
      rw [after_succ] at induction
      omega

/-- The steps lead to the end of the input. -/
theorem IsSealed.exists_finish (isSealed : cursor.IsSealed) :
    ∃ steps, (cursor.tokenAt (cursor.after steps)).kind = .finish := by
  by_contra endless
  have unfinished := not_exists.mp endless
  have bound := isSealed.length_le_remaining (fun steps _ => unfinished steps)
    (Nat.zero_le (cursor.tokens.size + 1))
  omega

theorem skipLineBreaksWithin_none (cursor : Cursor) (fuel : Nat)
    (notBreak : cursor.current.kind ≠ .lineBreak) :
    skipLineBreaksWithin fuel cursor = cursor := by
  cases fuel with
  | zero => rfl
  | succ fuel => rw [skipLineBreaksWithin, isAt, if_neg (by simpa using notBreak)]

theorem skipLineBreaksWithin_succ (cursor : Cursor) (fuel : Nat)
    (isBreak : cursor.current.kind = .lineBreak) :
    skipLineBreaksWithin (fuel + 1) cursor = skipLineBreaksWithin fuel cursor.advance := by
  rw [skipLineBreaksWithin, isAt, if_pos (by simpa using isBreak)]

end Cursor

/-- Errors that differ in their byte offsets only. -/
def SyntaxError.Resembles (error other : SyntaxError) : Prop :=
  error.foundValue = other.foundValue ∧ error.foundKind = other.foundKind ∧
    error.line = other.line ∧ error.expected = other.expected

/-- Two cursors from which the steps lead through the same tokens, up to the first one that
ends the input. -/
structure Trail where
  first : Cursor
  second : Cursor
  length : Nat
  firstSealed : first.IsSealed
  secondSealed : second.IsSealed
  tokens : ∀ station ≤ length,
    first.tokenAt (first.after station) = second.tokenAt (second.after station)
  unfinished : ∀ station < length, (first.tokenAt (first.after station)).kind ≠ .finish
  finished : (first.tokenAt (first.after length)).kind = .finish
  gaps : ∀ station < length, (first.tokenAt (first.after station)).kind ≠ .lineBreak →
    (first.tokenAt (first.after (station + 1))).kind.heedsBlank = true →
    (first.standing (first.after (station + 1)) []).isAfterBlank =
      (second.standing (second.after (station + 1)) []).isAfterBlank

/-- Every list has the same tokens as itself. -/
theorem Cursor.IsSealed.exists_trail {cursor : Cursor} (isSealed : cursor.IsSealed) :
    ∃ trail : Trail, trail.first = cursor ∧ trail.second = cursor := by
  have ends := isSealed.exists_finish
  exact ⟨{
    first := cursor
    second := cursor
    length := Nat.find ends
    firstSealed := isSealed
    secondSealed := isSealed
    tokens := fun _ _ => rfl
    unfinished := fun _ before => Nat.find_min ends before
    finished := Nat.find_spec ends
    gaps := fun _ _ _ _ => rfl }, rfl, rfl⟩

namespace Trail

/-- The first cursor at a station, with the given save points. -/
def here (trail : Trail) (station : Nat) (saved : List Nat) : Cursor :=
  trail.first.standing (trail.first.after station) saved

/-- The second cursor at a station, with the given save points. -/
def there (trail : Trail) (station : Nat) (saved : List Nat) : Cursor :=
  trail.second.standing (trail.second.after station) saved

/-- The token at a station. -/
def token (trail : Trail) (station : Nat) : Token :=
  trail.first.tokenAt (trail.first.after station)

/-- The kind of the token at a station. -/
def kind (trail : Trail) (station : Nat) : TokenKind := (trail.token station).kind

/-- The tokens from one station to another are balanced on the first list. -/
def Spans (trail : Trail) (inside : Bool) (start stop : Nat) : Prop :=
  start ≤ stop ∧
    Balanced inside (trail.first.between (trail.first.after start) (trail.first.after stop))

/-- The tokens from one station to another are balanced, and there is one. -/
def Passes (trail : Trail) (inside : Bool) (start stop : Nat) : Prop :=
  start < stop ∧ trail.Spans inside start stop

/-- At `start` there is a token of the given kind, and `stop` is the next station. -/
def Takes (trail : Trail) (kind : TokenKind) (start stop : Nat) : Prop :=
  start < trail.length ∧ trail.kind start = kind ∧ start + 1 = stop

/-- The tokens from one station to another are balanced but for the last one, which is of the
given kind. -/
def Closes (trail : Trail) (close : TokenKind) (start stop : Nat) : Prop :=
  ∃ last, trail.Spans true start last ∧ trail.Takes close last stop

variable {trail : Trail} {inside : Bool} {taken closing : TokenKind} {start middle stop : Nat}

theorem lt_length (within : start ≤ trail.length) (unfinished : trail.kind start ≠ .finish) :
    start < trail.length := by
  refine Nat.lt_of_le_of_ne within ?_
  rintro rfl
  exact unfinished trail.finished

theorem more (before : start < trail.length) :
    trail.first.after start + 1 < trail.first.tokens.size :=
  trail.firstSealed _ (trail.unfinished start before)

/-- Both cursors are at the same token. -/
theorem current_there (trail : Trail) {station : Nat} (within : station ≤ trail.length)
    {saved : List Nat} : (trail.there station saved).current = trail.token station :=
  (trail.tokens station within).symm

theorem length_le_first (trail : Trail) {station : Nat} (within : station ≤ trail.length) :
    trail.length - station ≤ trail.first.tokens.size - trail.first.after station :=
  trail.firstSealed.length_le_remaining trail.unfinished within

theorem length_le_second (trail : Trail) {station : Nat} (within : station ≤ trail.length) :
    trail.length - station ≤ trail.second.tokens.size - trail.second.after station := by
  refine trail.secondSealed.length_le_remaining (fun station before => ?_) within
  rw [← trail.tokens station (Nat.le_of_lt before)]
  exact trail.unfinished station before

theorem advance_here (trail : Trail) (station : Nat) (saved : List Nat) :
    (trail.here station saved).advance = trail.here (station + 1) saved := by
  rw [here, Cursor.advance_standing, here, Cursor.after_succ]

theorem advance_there (trail : Trail) (station : Nat) (saved : List Nat) :
    (trail.there station saved).advance = trail.there (station + 1) saved := by
  rw [there, Cursor.advance_standing, there, Cursor.after_succ]

theorem Spans.refl : trail.Spans inside start start := by
  refine ⟨Nat.le_refl _, ?_⟩
  rw [Cursor.between_self]
  exact .nil

theorem Spans.trans (first : trail.Spans inside start middle)
    (second : trail.Spans inside middle stop) : trail.Spans inside start stop := by
  refine ⟨Nat.le_trans first.1 second.1, ?_⟩
  rw [← trail.first.between_append (trail.first.after_mono first.1)
    (trail.first.after_mono second.1)]
  exact first.2.append second.2

theorem Spans.widen (spans : trail.Spans false start stop) : trail.Spans inside start stop :=
  ⟨spans.1, spans.2.widen⟩

theorem Spans.passes (first : trail.Spans inside start middle)
    (second : trail.Passes inside middle stop) : trail.Passes inside start stop :=
  ⟨Nat.lt_of_le_of_lt first.1 second.1, first.trans second.2⟩

theorem Passes.spans (first : trail.Passes inside start middle)
    (second : trail.Spans inside middle stop) : trail.Passes inside start stop :=
  ⟨Nat.lt_of_lt_of_le first.1 second.1, first.2.trans second⟩

theorem Passes.trans (first : trail.Passes inside start middle)
    (second : trail.Passes inside middle stop) : trail.Passes inside start stop :=
  first.spans second.2

theorem Passes.widen (passes : trail.Passes false start stop) : trail.Passes inside start stop :=
  ⟨passes.1, passes.2.widen⟩

/-- The tokens up to the next station are a token and perhaps a blank. -/
theorem Takes.between (takes : trail.Takes taken start stop) :
    ∃ blanks : List Token, (∀ token ∈ blanks, token.kind = .blank) ∧
      trail.first.between (trail.first.after start) (trail.first.after stop) =
        trail.token start :: blanks := by
  obtain ⟨before, -, rfl⟩ := takes
  rw [Cursor.after_succ]
  exact Cursor.between_next (more before)

theorem Takes.lt (takes : trail.Takes taken start stop) : start < stop := by
  obtain ⟨-, -, rfl⟩ := takes
  exact Nat.lt_succ_self start

theorem Takes.passes (takes : trail.Takes taken start stop) (isPlain : taken.isPlain = true) :
    trail.Passes inside start stop := by
  obtain ⟨blanks, allBlank, isBetween⟩ := takes.between
  refine ⟨takes.lt, Nat.le_of_lt takes.lt, ?_⟩
  rw [isBetween]
  exact .plain (by rw [← takes.2.1] at isPlain; exact isPlain) (.of_blanks allBlank)

theorem Takes.spans_lineBreak (takes : trail.Takes .lineBreak start stop) :
    trail.Spans true start stop := by
  obtain ⟨blanks, allBlank, isBetween⟩ := takes.between
  refine ⟨Nat.le_of_lt takes.lt, ?_⟩
  rw [isBetween]
  exact .lineBreak takes.2.1 (.of_blanks allBlank)

theorem Spans.close (spans : trail.Spans true start middle)
    (closed : trail.Takes closing middle stop) : trail.Closes closing start stop :=
  ⟨middle, spans, closed⟩

theorem Spans.closes (spans : trail.Spans true start middle)
    (closes : trail.Closes closing middle stop) : trail.Closes closing start stop := by
  obtain ⟨last, inner, closed⟩ := closes
  exact ⟨last, spans.trans inner, closed⟩

theorem Closes.lt (closes : trail.Closes closing start stop) : start < stop := by
  obtain ⟨last, inner, closed⟩ := closes
  exact Nat.lt_of_le_of_lt inner.1 closed.lt

/-- A pair of brackets is balanced. -/
theorem Takes.pair (opened : trail.Takes taken start middle)
    (closes : trail.Closes closing middle stop) (matching : taken.closing? = some closing) :
    trail.Passes inside start stop := by
  have order := trail.first.after_mono (Nat.le_of_lt opened.lt)
  have further := Nat.lt_trans opened.lt closes.lt
  obtain ⟨last, inner, closed⟩ := closes
  obtain ⟨blanks, allBlank, isOpening⟩ := opened.between
  obtain ⟨blanks', allBlank', isClosing⟩ := closed.between
  refine ⟨further, Nat.le_of_lt further, ?_⟩
  have isSplit : trail.first.between (trail.first.after start) (trail.first.after stop) =
      trail.token start :: ((blanks ++
        trail.first.between (trail.first.after middle) (trail.first.after last)) ++
          trail.token last :: blanks') := by
    rw [← isClosing, ← List.cons_append, ← List.cons_append, ← isOpening,
      trail.first.between_append order (trail.first.after_mono inner.1),
      trail.first.between_append (Nat.le_trans order (trail.first.after_mono inner.1))
        (trail.first.after_mono (Nat.le_of_lt closed.lt))]
  rw [isSplit]
  refine .pair ?_ ((Balanced.of_blanks allBlank).append inner.2) (.of_blanks allBlank')
  rw [← opened.2.1, ← closed.2.1] at matching
  exact matching

/-- Line breaks are skipped alike on both lists. -/
theorem skipLineBreaksWithin_same {fuel fuel' : Nat} (within : start ≤ trail.length)
    (enough : trail.length - start ≤ fuel) (enough' : trail.length - start ≤ fuel')
    (saved saved' : List Nat) : ∃ stop ≤ trail.length, trail.Spans true start stop ∧
      Cursor.skipLineBreaksWithin fuel (trail.here start saved) = trail.here stop saved ∧
      Cursor.skipLineBreaksWithin fuel' (trail.there start saved') = trail.there stop saved' := by
  have stays {station : Nat} (within : station ≤ trail.length)
      (notBreak : trail.kind station ≠ .lineBreak) (fuel fuel' : Nat) :
      ∃ stop ≤ trail.length, trail.Spans true station stop ∧
        Cursor.skipLineBreaksWithin fuel (trail.here station saved) = trail.here stop saved ∧
        Cursor.skipLineBreaksWithin fuel' (trail.there station saved') =
          trail.there stop saved' := by
    refine ⟨station, within, .refl, (trail.here station saved).skipLineBreaksWithin_none _ notBreak,
      (trail.there station saved').skipLineBreaksWithin_none _ ?_⟩
    rwa [trail.current_there within]
  -- From the end of the trail backwards: there the token is no line break.
  induction within using Nat.decreasingInduction generalizing fuel fuel' with
  | self => exact stays (Nat.le_refl _) (by rw [kind, token, trail.finished]; decide) fuel fuel'
  | of_succ station before induction =>
      by_cases isBreak : trail.kind station = .lineBreak
      · obtain ⟨fuel, rfl⟩ := Nat.exists_eq_succ_of_ne_zero (show fuel ≠ 0 by omega)
        obtain ⟨fuel', rfl⟩ := Nat.exists_eq_succ_of_ne_zero (show fuel' ≠ 0 by omega)
        obtain ⟨stop, stopWithin, spans, isFirst, isSecond⟩ :=
          @induction fuel fuel' (by omega) (by omega)
        have takes : trail.Takes .lineBreak station (station + 1) := ⟨before, isBreak, rfl⟩
        refine ⟨stop, stopWithin, takes.spans_lineBreak.trans spans, ?_, ?_⟩
        · rw [(trail.here station saved).skipLineBreaksWithin_succ _ isBreak, advance_here, isFirst]
        · rw [(trail.there station saved').skipLineBreaksWithin_succ, advance_there, isSecond]
          rwa [trail.current_there (Nat.le_of_lt before)]
      · exact stays (Nat.le_of_lt before) isBreak fuel fuel'

end Trail

namespace Reply

variable {α : Type}

/-- Two replies are abreast if they stop at the same station with the same value, and value and
station are `good`; or if they are errors that resemble each other, provided that failure is
allowed by `bad`.  The save points are as given. -/
inductive Abreast (trail : Trail) (saved saved' : List Nat) (good : α → Nat → Prop) (bad : Prop) :
    Reply α → Reply α → Prop
  | ok {value : α} {stop : Nat} (within : stop ≤ trail.length) (isGood : good value stop) :
      Abreast trail saved saved' good bad (.ok value (trail.here stop saved))
        (.ok value (trail.there stop saved'))
  | rejected {error error' : SyntaxError} {stop : Nat} (within : stop ≤ trail.length)
      (resembles : error.Resembles error') (isBad : bad) :
      Abreast trail saved saved' good bad (.failed (.rejected error) (trail.here stop saved))
        (.failed (.rejected error') (trail.there stop saved'))

variable {trail : Trail} {saved saved' : List Nat} {good : α → Nat → Prop} {bad : Prop}
  {reply reply' : Reply α}

theorem Abreast.of_eq {value : α} {stop : Nat} (within : stop ≤ trail.length)
    (isGood : good value stop) (isFirst : reply = .ok value (trail.here stop saved))
    (isSecond : reply' = .ok value (trail.there stop saved')) :
    Abreast trail saved saved' good bad reply reply' := by
  rw [isFirst, isSecond]
  exact .ok within isGood

/-- What replies that are abreast can be. -/
theorem Abreast.cases (abreast : Abreast trail saved saved' good bad reply reply') :
    (∃ value, ∃ stop ≤ trail.length, good value stop ∧
      reply = .ok value (trail.here stop saved) ∧
      reply' = .ok value (trail.there stop saved')) ∨
    ∃ error error', ∃ stop ≤ trail.length, bad ∧ error.Resembles error' ∧
      reply = .failed (.rejected error) (trail.here stop saved) ∧
      reply' = .failed (.rejected error') (trail.there stop saved') := by
  cases abreast with
  | ok within isGood => exact .inl ⟨_, _, within, isGood, rfl, rfl⟩
  | rejected within resembles isBad => exact .inr ⟨_, _, _, within, isBad, resembles, rfl, rfl⟩

end Reply

namespace Parser

variable {α β : Type}

/-- Both parsers start at the same station, each on its list, and give replies that are
abreast. -/
def Abreast (trail : Trail) (parser parser' : Parser α) (station : Nat)
    (good : α → Nat → Prop) (bad : Prop) : Prop :=
  station ≤ trail.length → ∀ saved saved', Reply.Abreast trail saved saved' good bad
    (parser .off (trail.here station saved)) (parser' .off (trail.there station saved'))

/-- Like `Abreast`, but the parsers start with an innermost save point at the station `origin`,
which they take off the stack. -/
def HoldingAbreast (trail : Trail) (origin : Nat) (parser parser' : Parser α) (station : Nat)
    (good : α → Nat → Prop) (bad : Prop) : Prop :=
  origin ≤ trail.length → station ≤ trail.length → ∀ saved saved',
    Reply.Abreast trail saved saved' good bad
      (parser .off (trail.here station (trail.first.after origin :: saved)))
      (parser' .off (trail.there station (trail.second.after origin :: saved')))

section Combinators

variable {trail : Trail} {parser parser' : Parser α} {next next' : α → Parser β}
  {station origin : Nat} {good : α → Nat → Prop} {bad : Prop}

theorem Abreast.within
    (abreast : station ≤ trail.length → parser.Abreast trail parser' station good bad) :
    parser.Abreast trail parser' station good bad :=
  fun within => abreast within within

theorem Abreast.mono {good' : α → Nat → Prop} {bad' : Prop}
    (abreast : parser.Abreast trail parser' station good bad)
    (goodImp : ∀ value stop, good value stop → good' value stop) (badImp : bad → bad') :
    parser.Abreast trail parser' station good' bad' := by
  intro within saved saved'
  rcases (abreast within saved saved').cases with
    ⟨value, stop, stopWithin, isGood, isFirst, isSecond⟩ |
      ⟨error, error', stop, stopWithin, isBad, resembles, isFirst, isSecond⟩
  · rw [isFirst, isSecond]
    exact .ok stopWithin (goodImp value stop isGood)
  · rw [isFirst, isSecond]
    exact .rejected stopWithin resembles (badImp isBad)

theorem Abreast.pure {value : α} (isGood : good value station) :
    (pure value : Parser α).Abreast trail (pure value) station good bad :=
  fun within _ _ => .ok within isGood

theorem Abreast.bind {good : β → Nat → Prop} {middle : α → Nat → Prop}
    (first : parser.Abreast trail parser' station middle bad)
    (second : ∀ value stop, middle value stop →
      (next value).Abreast trail (next' value) stop good bad) :
    (parser >>= next).Abreast trail (parser' >>= next') station good bad := by
  intro within saved saved'
  rw [bind_apply, bind_apply]
  rcases (first within saved saved').cases with
    ⟨value, stop, stopWithin, reached, isFirst, isSecond⟩ |
      ⟨error, error', stop, stopWithin, isBad, resembles, isFirst, isSecond⟩
  · rw [isFirst, isSecond]
    exact second value stop reached stopWithin saved saved'
  · rw [isFirst, isSecond]
    exact .rejected stopWithin resembles isBad

/-- What stands between a save point and its use cannot fail. -/
theorem HoldingAbreast.bind {good : β → Nat → Prop} {middle : α → Nat → Prop}
    (first : parser.Abreast trail parser' station middle False)
    (second : ∀ value stop, middle value stop →
      (next value).HoldingAbreast trail origin (next' value) stop good bad) :
    (parser >>= next).HoldingAbreast trail origin (parser' >>= next') station good bad := by
  intro originWithin within saved saved'
  rw [bind_apply, bind_apply]
  rcases (first within (trail.first.after origin :: saved)
      (trail.second.after origin :: saved')).cases with
    ⟨value, stop, stopWithin, reached, isFirst, isSecond⟩ | ⟨_, _, _, _, impossible, _⟩
  · rw [isFirst, isSecond]
    exact second value stop reached originWithin stopWithin saved saved'
  · exact impossible.elim

theorem Abreast.push_bind {next next' : Unit → Parser α}
    (opened : (next ()).HoldingAbreast trail station (next' ()) station good bad) :
    (push >>= next).Abreast trail (push >>= next') station good bad :=
  fun within saved saved' => opened within within saved saved'

theorem HoldingAbreast.drop_bind {next next' : Unit → Parser α}
    (closed : (next ()).Abreast trail (next' ()) station good bad) :
    (drop >>= next).HoldingAbreast trail origin (drop >>= next') station good bad :=
  fun _ within saved saved' => closed within saved saved'

theorem HoldingAbreast.rollback_bind {next next' : Unit → Parser α}
    (closed : (next ()).Abreast trail (next' ()) origin good bad) :
    (rollback >>= next).HoldingAbreast trail origin (rollback >>= next') station good bad :=
  fun originWithin _ saved saved' => closed originWithin saved saved'

/-- An attempt that failed is back where it started, and what comes next does not depend on the
error. -/
theorem Abreast.attempt_bind {next next' : Except SyntaxError α → Parser β}
    {good : β → Nat → Prop} {middle : α → Nat → Prop}
    (body : parser.Abreast trail parser' station middle True)
    (found : ∀ value stop, middle value stop →
      (next (.ok value)).Abreast trail (next' (.ok value)) stop good bad)
    (missed : ∀ error error',
      (next (.error error)).Abreast trail (next' (.error error')) station good bad) :
    (attempt parser >>= next).Abreast trail (attempt parser' >>= next') station good bad := by
  intro within saved saved'
  have pushHere : (trail.here station saved).push =
      trail.here station (trail.first.after station :: saved) := rfl
  have pushThere : (trail.there station saved').push =
      trail.there station (trail.second.after station :: saved') := rfl
  rw [bind_apply, bind_apply, Parser.attempt, Parser.attempt, pushHere, pushThere]
  rcases (body within (trail.first.after station :: saved)
      (trail.second.after station :: saved')).cases with
    ⟨value, stop, stopWithin, reached, isFirst, isSecond⟩ |
      ⟨error, error', stop, stopWithin, -, -, isFirst, isSecond⟩
  · rw [isFirst, isSecond]
    exact found value stop reached stopWithin saved saved'
  · rw [isFirst, isSecond]
    exact missed error error' within saved saved'

end Combinators

section Steps

variable {trail : Trail} {station : Nat} {bad : Prop} {kind : TokenKind} {value : String}

/-- A view of the current token. -/
theorem Abreast.lookToken {α : Type} (view : Token → α) :
    (look (view ·.current)).Abreast trail (look (view ·.current)) station
      (fun found stop => found = view (trail.token station) ∧ station = stop) bad := by
  intro within saved saved'
  rw [look, look, trail.current_there within]
  exact .ok within ⟨rfl, rfl⟩

/-- A rule that remembers where it starts: the places differ. -/
theorem Abreast.marked {α : Type} {next next' : Nat → Parser α} {good : α → Nat → Prop}
    (rest : ∀ start start', (next start).Abreast trail (next' start') station good bad) :
    (mark >>= next).Abreast trail (mark >>= next') station good bad :=
  rest _ _

theorem Abreast.current :
    current.Abreast trail current station
      (fun token stop => token = trail.token station ∧ station = stop) bad :=
  .lookToken id

theorem Abreast.isAt :
    (isAt kind).Abreast trail (isAt kind) station
      (fun found stop => found = decide (trail.kind station = kind) ∧ station = stop) bad :=
  .lookToken fun token => decide (token.kind = kind)

theorem Abreast.isAtAny {kinds : KindSet} :
    (isAtAny kinds).Abreast trail (isAtAny kinds) station (fun _ stop => station = stop) bad :=
  (Abreast.lookToken fun token => kinds.contains token.kind).mono
    (fun _ _ reached => reached.2) id

theorem Abreast.isAtWord :
    (isAtWord kind value).Abreast trail (isAtWord kind value) station
      (fun found stop => (found = true → trail.kind station = kind) ∧ station = stop) bad := by
  refine (Abreast.lookToken fun token =>
    decide (token.kind = kind) && decide (token.value = value)).mono ?_ id
  rintro _ _ ⟨rfl, rfl⟩
  exact ⟨fun found => of_decide_eq_true (Bool.and_eq_true_iff.mp found).1, rfl⟩

/-- In front of some kinds of tokens, but behind a line break, a blank stands on both lists or
on none. -/
theorem Abreast.isAfterBlank (solid : trail.kind station ≠ .lineBreak)
    (heeds : (trail.kind (station + 1)).heedsBlank = true) :
    isAfterBlank.Abreast trail isAfterBlank (station + 1)
      (fun _ stop => station + 1 = stop) bad := by
  intro within saved saved'
  have same : (trail.here (station + 1) saved).isAfterBlank =
      (trail.there (station + 1) saved').isAfterBlank :=
    trail.gaps station within solid heeds
  rw [Parser.isAfterBlank, look, look, same]
  exact .ok within rfl

/-- The two bounds differ, and both are large enough for the trail. -/
theorem Abreast.remaining_bind {α : Type} {next next' : Nat → Parser α} {good : α → Nat → Prop}
    (each : ∀ bound bound', trail.length - station ≤ bound → trail.length - station ≤ bound' →
      (next bound).Abreast trail (next' bound') station good bad) :
    (look Cursor.remaining >>= next).Abreast trail (look Cursor.remaining >>= next')
      station good bad :=
  .within fun within => each _ _ (trail.length_le_first within) (trail.length_le_second within)

theorem Abreast.advance (unfinished : trail.kind station ≠ .finish) :
    advance.Abreast trail advance station
      (fun _ stop => trail.Takes (trail.kind station) station stop) bad := by
  intro within saved saved'
  have before := Trail.lt_length within unfinished
  rw [Parser.advance, move, move, trail.advance_here, trail.advance_there]
  exact .ok before ⟨before, rfl, rfl⟩

theorem Abreast.unexpected {α : Type} {good : α → Nat → Prop} {expected : Expected} :
    (unexpected expected : Parser α).Abreast trail (unexpected expected) station good True := by
  intro within saved saved'
  have same := trail.tokens station within
  exact .rejected within ⟨congrArg Token.value same, congrArg Token.kind same,
    congrArg Token.line same, rfl⟩ trivial

theorem Abreast.expecting {α : Type} {good : α → Nat → Prop} :
    (expecting kind : Parser α).Abreast trail (expecting kind) station good True := .unexpected

theorem Abreast.ite {α : Type} {good : α → Nat → Prop} {condition : Bool}
    {yes no yes' no' : Parser α} (ofYes : condition = true → yes.Abreast trail yes' station good bad)
    (ofNo : condition = false → no.Abreast trail no' station good bad) :
    (if condition then yes else no).Abreast trail (if condition then yes' else no')
      station good bad := by
  cases condition with
  | false => exact ofNo rfl
  | true => exact ofYes rfl

/-- A rule that goes on according to the kind of the current token. -/
theorem Abreast.ifAt {α : Type} {good : α → Nat → Prop} {yes no yes' no' : Parser α}
    (ofYes : trail.kind station = kind → yes.Abreast trail yes' station good bad)
    (ofNo : trail.kind station ≠ kind → no.Abreast trail no' station good bad) :
    (Parser.isAt kind >>= fun found => if found then yes else no).Abreast trail
      (Parser.isAt kind >>= fun found => if found then yes' else no') station good bad := by
  refine .bind .isAt ?_
  rintro _ _ ⟨rfl, rfl⟩
  exact .ite (fun found => ofYes (of_decide_eq_true found))
    fun missing => ofNo (of_decide_eq_false missing)

theorem HoldingAbreast.ite {α : Type} {good : α → Nat → Prop} {origin : Nat} {condition : Bool}
    {yes no yes' no' : Parser α}
    (ofYes : condition = true → yes.HoldingAbreast trail origin yes' station good bad)
    (ofNo : condition = false → no.HoldingAbreast trail origin no' station good bad) :
    (if condition then yes else no).HoldingAbreast trail origin (if condition then yes' else no')
      station good bad := by
  cases condition with
  | false => exact ofNo rfl
  | true => exact ofYes rfl

theorem HoldingAbreast.ifAt {α : Type} {good : α → Nat → Prop} {origin : Nat}
    {yes no yes' no' : Parser α}
    (ofYes : trail.kind station = kind → yes.HoldingAbreast trail origin yes' station good bad)
    (ofNo : trail.kind station ≠ kind → no.HoldingAbreast trail origin no' station good bad) :
    (Parser.isAt kind >>= fun found => if found then yes else no).HoldingAbreast trail origin
      (Parser.isAt kind >>= fun found => if found then yes' else no') station good bad := by
  refine .bind .isAt ?_
  rintro _ _ ⟨rfl, rfl⟩
  exact .ite (fun found => ofYes (of_decide_eq_true found))
    fun missing => ofNo (of_decide_eq_false missing)

theorem Abreast.accept (unfinished : kind ≠ .finish) :
    (accept kind).Abreast trail (accept kind) station
      (fun taken stop => (taken = true ∧ trail.Takes kind station stop) ∨
        (taken = false ∧ trail.kind station ≠ kind ∧ station = stop)) bad := by
  rw [accept_eq]
  refine .ifAt (fun isKind => ?_) fun notKind => .pure (.inr ⟨rfl, notKind, rfl⟩)
  refine .bind (.advance (by rwa [isKind])) ?_
  rintro _ stop takes
  exact .pure (.inl ⟨rfl, isKind ▸ takes⟩)

theorem Abreast.consume (unfinished : kind ≠ .finish) :
    (consume kind).Abreast trail (consume kind) station
      (fun _ stop => trail.Takes kind station stop) True := by
  rw [consume_eq]
  refine .bind .current ?_
  rintro _ _ ⟨rfl, rfl⟩
  refine .ite (fun found => ?_) fun _ => .expecting
  have isKind : trail.kind station = kind := of_decide_eq_true found
  refine .bind (.advance (by rwa [isKind])) ?_
  rintro _ stop takes
  exact .pure (isKind ▸ takes)

theorem Abreast.consumeValue (unfinished : kind ≠ .finish) :
    (consumeValue kind value).Abreast trail (consumeValue kind value) station
      (fun _ stop => trail.Takes kind station stop) True := by
  rw [consumeValue_eq]
  refine .bind .isAtWord ?_
  rintro found _ ⟨isKind, rfl⟩
  refine .ite (fun isFound => ?_) fun _ => .unexpected
  obtain rfl := isKind isFound
  exact .advance unfinished

theorem Abreast.acceptWord (unfinished : kind ≠ .finish) :
    (acceptWord kind value).Abreast trail (acceptWord kind value) station
      (fun _ stop => trail.Takes kind station stop ∨ station = stop) bad := by
  refine .ifAt (fun isKind => ?_) fun _ => .pure (.inr rfl)
  rw [acceptValue_eq]
  refine .bind .current ?_
  rintro _ _ ⟨rfl, rfl⟩
  refine .ite (fun _ => ?_) fun _ => .pure (.inr rfl)
  refine .bind (.advance (by rwa [isKind])) ?_
  rintro _ stop takes
  exact .pure (.inl (isKind ▸ takes))

theorem Abreast.expectFinish :
    expectFinish.Abreast trail expectFinish station (fun _ stop => station = stop) True :=
  .ifAt (fun _ => .pure rfl) fun _ => .expecting

theorem Abreast.skipLineBreaks :
    skipLineBreaks.Abreast trail skipLineBreaks station
      (fun _ stop => trail.Spans true station stop) bad := by
  intro within saved saved'
  obtain ⟨stop, stopWithin, spans, isFirst, isSecond⟩ := trail.skipLineBreaksWithin_same within
    (trail.length_le_first within) (trail.length_le_second within) saved saved'
  rw [Parser.skipLineBreaks, move, move, Cursor.skipLineBreaks, Cursor.skipLineBreaks]
  exact .of_eq stopWithin spans (congrArg (Reply.ok ()) isFirst) (congrArg (Reply.ok ()) isSecond)

/-- A rule that ends with positions, which are not recorded. -/
theorem Abreast.positioned {α : Type} {form : Attributes → α} {good : α → Nat → Prop}
    {start start' : Nat} (isGood : ∀ attributes, good (form attributes) station) :
    (positionsSince start >>= fun attributes => Pure.pure (form attributes)).Abreast trail
      (positionsSince start' >>= fun attributes => Pure.pure (form attributes))
      station good bad :=
  fun within _ _ => .ok within (isGood Attributes.empty)

end Steps

section Bodies

variable {trail : Trail} {station : Nat} {bad : Prop}

/-- What a loop does, from what one of its rounds does: a round that gives an item gets further,
so neither loop runs out of rounds. -/
theorem Abreast.gatherWithin {round round' : Parser (Round α β)} (safe final : Nat → Prop)
    (each : ∀ here, station ≤ here → safe here → round.Abreast trail round' here
      (fun outcome stop =>
        match outcome with
        | .item _ => here < stop ∧ safe stop
        | .done _ => final stop) bad)
    {fuel fuel' here : Nat} (behind : station ≤ here) (isSafe : safe here)
    (enough : trail.length - here < fuel) (enough' : trail.length - here < fuel') :
    (gatherWithin round fuel).Abreast trail (gatherWithin round' fuel') here
      (fun _ stop => final stop) bad := by
  induction fuel generalizing fuel' here with
  | zero => omega
  | succ fuel induction =>
      obtain ⟨fuel', rfl⟩ := Nat.exists_eq_succ_of_ne_zero (Nat.ne_zero_of_lt enough')
      refine .within fun within => .bind (each here behind isSafe) fun outcome stop happened => ?_
      cases outcome with
      | item value =>
          obtain ⟨further, stopSafe⟩ := happened
          refine .within fun stopWithin => ?_
          refine .bind (induction (by omega) stopSafe (by omega) (by omega)) ?_
          intro gathered last reached
          exact .pure reached
      | done result => exact .pure happened

theorem Abreast.gather {round round' : Parser (Round α β)} (safe final : Nat → Prop)
    (start : safe station)
    (each : ∀ here, station ≤ here → safe here → round.Abreast trail round' here
      (fun outcome stop =>
        match outcome with
        | .item _ => here < stop ∧ safe stop
        | .done _ => final stop) bad) :
    (gather round).Abreast trail (gather round') station (fun _ stop => final stop) bad :=
  .remaining_bind fun _ _ enough enough' =>
    .gatherWithin safe final each (Nat.le_refl _) start (by omega) (by omega)

/-- What a loop over items does, from what the reading of one item does. -/
theorem Abreast.many {item? item?' : Parser (Option α)} (safe final : Nat → Prop)
    (start : safe station)
    (each : ∀ here, station ≤ here → safe here → item?.Abreast trail item?' here
      (fun found stop =>
        match found with
        | some _ => here < stop ∧ safe stop
        | none => final stop) bad) :
    (many item?).Abreast trail (many item?') station (fun _ stop => final stop) bad := by
  refine .bind (.gather safe final start fun here behind isSafe => ?_)
    fun gathered stop reached => .pure reached
  refine .bind (each here behind isSafe) fun found stop happened => ?_
  cases found with
  | some value => exact .pure happened
  | none => exact .pure happened

theorem Abreast.toEnd {body body' : Parser α} {good : α → Nat → Prop}
    (abreast : body.Abreast trail body' station good True) :
    (toEnd body).Abreast trail (toEnd body') station good True := by
  refine .bind abreast fun value stop isGood => .bind .expectFinish ?_
  rintro _ _ rfl
  exact .pure isGood

/-- What a parser takes that walks abreast with itself. -/
theorem Abreast.balanced {parser : Parser α} {cursor next : Cursor} {saved : List Nat} {value : α}
    (abreast : ∀ trail : Trail,
      parser.Abreast trail parser 0 (fun _ => trail.Passes false 0) True)
    (isSealed : cursor.IsSealed)
    (read : parser .off (cursor.standing cursor.index saved) = .ok value next) :
    cursor.index < next.index ∧ Balanced false (cursor.between cursor.index next.index) := by
  obtain ⟨trail, rfl, isSecond⟩ := isSealed.exists_trail
  rcases (abreast trail (Nat.zero_le _) saved saved).cases with
    ⟨value, stop, within, passed, isHere, -⟩ | ⟨_, _, _, -, -, -, impossible, -⟩
  · obtain ⟨-, rfl⟩ := Reply.ok.inj (read.symm.trans isHere)
    have before : 0 < trail.length := Nat.lt_of_lt_of_le passed.1 within
    have first := Cursor.lt_next (Trail.more before)
    rw [← Cursor.after_succ] at first
    exact ⟨Nat.lt_of_lt_of_le first (trail.first.after_mono passed.1), passed.2.2⟩
  · cases read.symm.trans impossible

end Bodies

end Parser

end Docblock
