import Docblock.Proofs.Outline

/-!
# Parsers that go onward

A parser goes *onward* if it never stops in front of the place where it started, be it with a
value or with an error, and leaves the save points as they were.  What it has read is described by
a property of its value and of the place where it stopped.

Going onward is not a matter of course: a rollback moves the cursor back, and at the end of the
input a step leads nowhere.  A rollback leads to the place of its save point, and between the two
no rule can fail; and whatever takes a token of a given kind is not at the end of the input.
-/

namespace Docblock

namespace Course

variable {course : Course} {place stop : Nat}

theorem next_le_size (inside : place ≤ course.size) : course.cursor.next place ≤ course.size := by
  unfold Cursor.next
  split
  · exact inside
  · split
    · next passed => exact Nat.le_of_lt passed.2
    · next notLast _ => exact Nat.le_of_lt (Nat.not_le.mp notLast)

theorem lt_next (unfinished : course.kind place ≠ .finish) : place < course.cursor.next place :=
  Cursor.lt_next (course.isSealed place unfinished)

theorem unfinished_of_content (content : (course.kind place).isContent = true) :
    course.kind place ≠ .finish := by
  intro isFinish
  rw [isFinish] at content
  cases content

theorem Solid.of_content (content : (course.kind place).isContent = true) : course.Solid place := by
  refine ⟨Nat.lt_of_succ_lt (course.isSealed place (unfinished_of_content content)), ?_⟩
  cases isKind : course.kind place <;> rw [isKind] at content <;> first | rfl | cases content

theorem Read.of_content (content : (course.kind place).isContent = true) (further : place < stop) :
    course.Read [] place stop := ⟨.of_content content, further, .nil⟩

theorem skipLineBreaksWithin_onward (fuel : Nat) (inside : place ≤ course.size)
    (saved : List Nat) : ∃ stop ≤ course.size, place ≤ stop ∧
      Cursor.skipLineBreaksWithin fuel (course.cursor.standing place saved) =
        course.cursor.standing stop saved := by
  induction fuel generalizing place with
  | zero => exact ⟨place, inside, Nat.le_refl place, rfl⟩
  | succ fuel induction =>
      rw [Cursor.skipLineBreaksWithin]
      cases (course.cursor.standing place saved).isAt .lineBreak with
      | true =>
          obtain ⟨stop, stopInside, further, isStop⟩ := induction (next_le_size inside)
          refine ⟨stop, stopInside, Nat.le_trans (course.cursor.le_next place) further, ?_⟩
          rw [if_pos rfl, Cursor.advance_standing, isStop]
      | false => exact ⟨place, inside, Nat.le_refl place, rfl⟩

theorem run_length_le (inside : place ≤ course.size) (stops : KindSet) (saved : List Nat) :
    place + ((course.cursor.standing place saved).run stops).length ≤ course.size := by
  rw [Cursor.run_eq_takeWhile]
  have within := (List.takeWhile_sublist
    (l := (course.cursor.standing place saved).tokensFrom place)
    fun token => !(stops.insert .finish).contains token.kind).length_le
  have isLength : ((course.cursor.standing place saved).tokensFrom place).length =
      course.size - place := by
    simp [Cursor.tokensFrom, Cursor.standing, size]
  rw [isLength] at within
  calc _ ≤ place + (course.size - place) := Nat.add_le_add_left within place
    _ = course.size := Nat.add_sub_cancel' inside

end Course

namespace Reply

variable {α : Type}

/-- The reply is a value, and the value and the place where reading stopped are `good`; or it is a
syntax error, provided that failure is allowed by `bad`.  Reading stopped no earlier than `place`,
and the save points are as given. -/
inductive Onward (course : Course) (place : Nat) (saved : List Nat) (good : α → Nat → Prop)
    (bad : Prop) : Reply α → Prop
  | ok {value : α} {stop : Nat} (further : place ≤ stop) (inside : stop ≤ course.size)
      (isGood : good value stop) :
      Onward course place saved good bad (.ok value (course.cursor.standing stop saved))
  | rejected {error : SyntaxError} {stop : Nat} (further : place ≤ stop) (isBad : bad) :
      Onward course place saved good bad
        (.failed (.rejected error) (course.cursor.standing stop saved))

variable {course : Course} {place start : Nat} {saved : List Nat} {good : α → Nat → Prop}
  {bad : Prop} {reply : Reply α}

theorem Onward.of_eq {value : α} {stop : Nat} (further : place ≤ stop) (inside : stop ≤ course.size)
    (isGood : good value stop) (isReply : reply = .ok value (course.cursor.standing stop saved)) :
    Onward course place saved good bad reply := by
  rw [isReply]
  exact .ok further inside isGood

/-- What replies can be. -/
theorem Onward.cases (onward : Onward course place saved good bad reply) :
    (∃ value stop, place ≤ stop ∧ stop ≤ course.size ∧ good value stop ∧
      reply = .ok value (course.cursor.standing stop saved)) ∨
    ∃ error stop, place ≤ stop ∧ bad ∧
      reply = .failed (.rejected error) (course.cursor.standing stop saved) := by
  cases onward with
  | ok further inside isGood => exact .inl ⟨_, _, further, inside, isGood, rfl⟩
  | rejected further isBad => exact .inr ⟨_, _, further, isBad, rfl⟩

theorem Onward.behind (onward : Onward course place saved good bad reply)
    (further : start ≤ place) : Onward course start saved good bad reply := by
  cases onward with
  | ok further' inside isGood => exact .ok (Nat.le_trans further further') inside isGood
  | rejected further' isBad => exact .rejected (Nat.le_trans further further') isBad

/-- The cursor of the reply is not in front of the place. -/
theorem Onward.le_index (onward : Onward course place saved good bad reply) :
    place ≤ reply.cursor.index := by
  cases onward with
  | ok further _ _ => exact further
  | rejected further _ => exact further

theorem Onward.good_of_ok (onward : Onward course place saved good bad reply) {value : α}
    {next : Cursor} (isOk : reply = .ok value next) : good value next.index := by
  cases onward with
  | ok _ _ isGood =>
      obtain ⟨rfl, rfl⟩ := Reply.ok.inj isOk
      exact isGood
  | rejected _ _ => cases isOk

end Reply

namespace Parser

variable {α β : Type}

/-- Started at `place`, the parser gives a reply that is onward. -/
def Onward (course : Course) (parser : Parser α) (place : Nat) (good : α → Nat → Prop)
    (bad : Prop) : Prop :=
  place ≤ course.size → ∀ saved, Reply.Onward course place saved good bad
    (parser course.tracking (course.cursor.standing place saved))

/-- Like `Onward`, but the parser starts with an innermost save point at `origin`, which it takes
off the stack, and may go back to it. -/
def HoldingOnward (course : Course) (origin : Nat) (parser : Parser α) (place : Nat)
    (good : α → Nat → Prop) (bad : Prop) : Prop :=
  origin ≤ place → place ≤ course.size → ∀ saved, Reply.Onward course origin saved good bad
    (parser course.tracking (course.cursor.standing place (origin :: saved)))

section Combinators

variable {course : Course} {parser : Parser α} {next : α → Parser β} {place origin : Nat}
  {good : α → Nat → Prop} {bad : Prop}

theorem Onward.mono {good' : α → Nat → Prop} {bad' : Prop}
    (onward : parser.Onward course place good bad)
    (goodImp : ∀ value stop, place ≤ stop → good value stop → good' value stop)
    (badImp : bad → bad') : parser.Onward course place good' bad' := by
  intro inside saved
  rcases (onward inside saved).cases with
    ⟨value, stop, further, stopInside, isGood, isReply⟩ | ⟨error, stop, further, isBad, isReply⟩
  · rw [isReply]
    exact .ok further stopInside (goodImp value stop further isGood)
  · rw [isReply]
    exact .rejected further (badImp isBad)

theorem Onward.pure {value : α} (isGood : good value place) :
    (pure value : Parser α).Onward course place good bad :=
  fun inside _ => .ok (Nat.le_refl place) inside isGood

theorem Onward.bind {good : β → Nat → Prop} {middle : α → Nat → Prop}
    (first : parser.Onward course place middle bad)
    (second : ∀ value stop, place ≤ stop → middle value stop →
      (next value).Onward course stop good bad) :
    (parser >>= next).Onward course place good bad := by
  intro inside saved
  rw [bind_apply]
  rcases (first inside saved).cases with
    ⟨value, stop, further, stopInside, reached, isReply⟩ | ⟨error, stop, further, isBad, isReply⟩
  · rw [isReply]
    exact (second value stop further reached stopInside saved).behind further
  · rw [isReply]
    exact .rejected further isBad

/-- What stands between a save point and its use cannot fail. -/
theorem HoldingOnward.bind {good : β → Nat → Prop} {middle : α → Nat → Prop}
    (first : parser.Onward course place middle False)
    (second : ∀ value stop, place ≤ stop → middle value stop →
      (next value).HoldingOnward course origin stop good bad) :
    (parser >>= next).HoldingOnward course origin place good bad := by
  intro behind inside saved
  rw [bind_apply]
  rcases (first inside (origin :: saved)).cases with
    ⟨value, stop, further, stopInside, reached, isReply⟩ | ⟨_, _, _, impossible, _⟩
  · rw [isReply]
    exact second value stop further reached (Nat.le_trans behind further) stopInside saved
  · exact impossible.elim

theorem Onward.push_bind {next : Unit → Parser α}
    (opened : (next ()).HoldingOnward course place place good bad) :
    (push >>= next).Onward course place good bad :=
  fun inside saved => opened (Nat.le_refl place) inside saved

theorem HoldingOnward.drop_bind {next : Unit → Parser α}
    (closed : (next ()).Onward course place good bad) :
    (drop >>= next).HoldingOnward course origin place good bad :=
  fun behind inside saved => (closed inside saved).behind behind

theorem HoldingOnward.rollback_bind {next : Unit → Parser α}
    (closed : (next ()).Onward course origin good bad) :
    (rollback >>= next).HoldingOnward course origin place good bad :=
  fun behind inside saved => closed (Nat.le_trans behind inside) saved

/-- An attempt does not fail, and if its body did, it is back where it started. -/
theorem Onward.attempt {middle : α → Nat → Prop} (body : parser.Onward course place middle True) :
    (attempt parser).Onward course place
      (fun outcome stop => (∃ value, outcome = .ok value ∧ middle value stop) ∨
        ∃ error, outcome = .error error ∧ place = stop) bad := by
  intro inside saved
  have isPush : (course.cursor.standing place saved).push =
      course.cursor.standing place (place :: saved) := rfl
  rw [Parser.attempt, isPush]
  rcases (body inside (place :: saved)).cases with
    ⟨value, stop, further, stopInside, reached, isReply⟩ | ⟨error, stop, further, -, isReply⟩
  · rw [isReply]
    exact .ok further stopInside (.inl ⟨value, rfl, reached⟩)
  · rw [isReply]
    exact .ok (Nat.le_refl place) inside (.inr ⟨error, rfl, rfl⟩)

theorem Onward.attempt_bind {next : Except SyntaxError α → Parser β} {good : β → Nat → Prop}
    {middle : α → Nat → Prop} (body : parser.Onward course place middle True)
    (found : ∀ value stop, place ≤ stop → middle value stop →
      (next (.ok value)).Onward course stop good bad)
    (missed : ∀ error, (next (.error error)).Onward course place good bad) :
    (Parser.attempt parser >>= next).Onward course place good bad := by
  refine .bind (.attempt body) ?_
  rintro _ stop further (⟨value, rfl, reached⟩ | ⟨error, rfl, rfl⟩)
  · exact found value stop further reached
  · exact missed error

end Combinators

section Steps

variable {course : Course} {place start : Nat} {bad : Prop} {kind : TokenKind} {value : String}

/-- A view of the current token. -/
theorem Onward.lookToken {α : Type} (view : Token → α) :
    (look (view ·.current)).Onward course place
      (fun found stop => found = view (course.cursor.tokenAt place) ∧ place = stop) bad :=
  fun inside _ => .ok (Nat.le_refl place) inside ⟨rfl, rfl⟩

/-- A view of the cursor that may be anything. -/
theorem Onward.look_bind {α γ : Type} {view : Cursor → α} {next : α → Parser γ}
    {good : γ → Nat → Prop} (each : ∀ value, (next value).Onward course place good bad) :
    (look view >>= next).Onward course place good bad :=
  fun inside saved => each _ inside saved

theorem HoldingOnward.look_bind {α γ : Type} {view : Cursor → α} {next : α → Parser γ}
    {good : γ → Nat → Prop} {origin : Nat}
    (each : ∀ value, (next value).HoldingOnward course origin place good bad) :
    (look view >>= next).HoldingOnward course origin place good bad :=
  fun behind inside saved => each _ behind inside saved

/-- A rule that remembers where it starts. -/
theorem Onward.marked {α : Type} {next : Nat → Parser α} {good : α → Nat → Prop}
    (rest : (next place).Onward course place good bad) :
    (mark >>= next).Onward course place good bad :=
  fun inside saved => rest inside saved

/-- A rule that goes on according to the kind of the current token. -/
theorem Onward.current_bind {α : Type} {next : Token → Parser α} {good : α → Nat → Prop}
    (rest : ∀ token : Token, token.kind = course.kind place →
      (next token).Onward course place good bad) :
    (current >>= next).Onward course place good bad :=
  fun inside saved => rest (course.cursor.tokenAt place) rfl inside saved

theorem Onward.isAt :
    (isAt kind).Onward course place
      (fun found stop => found = decide (course.kind place = kind) ∧ place = stop) bad :=
  .lookToken fun token => decide (token.kind = kind)

theorem Onward.ite {α : Type} {good : α → Nat → Prop} {condition : Bool} {yes no : Parser α}
    (ofYes : condition = true → yes.Onward course place good bad)
    (ofNo : condition = false → no.Onward course place good bad) :
    (if condition then yes else no).Onward course place good bad := by
  cases condition with
  | false => exact ofNo rfl
  | true => exact ofYes rfl

theorem HoldingOnward.ite {α : Type} {good : α → Nat → Prop} {origin : Nat} {condition : Bool}
    {yes no : Parser α} (ofYes : condition = true → yes.HoldingOnward course origin place good bad)
    (ofNo : condition = false → no.HoldingOnward course origin place good bad) :
    (if condition then yes else no).HoldingOnward course origin place good bad := by
  cases condition with
  | false => exact ofNo rfl
  | true => exact ofYes rfl

theorem Onward.ifAt {α : Type} {good : α → Nat → Prop} {yes no : Parser α}
    (ofYes : course.kind place = kind → yes.Onward course place good bad)
    (ofNo : course.kind place ≠ kind → no.Onward course place good bad) :
    (Parser.isAt kind >>= fun found => if found then yes else no).Onward course place good bad := by
  refine .bind .isAt ?_
  rintro _ _ - ⟨rfl, rfl⟩
  exact .ite (fun found => ofYes (of_decide_eq_true found))
    fun missing => ofNo (of_decide_eq_false missing)

theorem HoldingOnward.ifAt {α : Type} {good : α → Nat → Prop} {origin : Nat} {yes no : Parser α}
    (ofYes : course.kind place = kind → yes.HoldingOnward course origin place good bad)
    (ofNo : course.kind place ≠ kind → no.HoldingOnward course origin place good bad) :
    (Parser.isAt kind >>= fun found => if found then yes else no).HoldingOnward course origin place
      good bad := by
  refine .bind .isAt ?_
  rintro _ _ - ⟨rfl, rfl⟩
  exact .ite (fun found => ofYes (of_decide_eq_true found))
    fun missing => ofNo (of_decide_eq_false missing)

theorem Onward.advance :
    advance.Onward course place (fun _ stop => course.cursor.next place = stop) bad :=
  fun inside saved => .of_eq (course.cursor.le_next place) (Course.next_le_size inside) rfl
    (congrArg (Reply.ok ()) (course.cursor.advance_standing place saved))

theorem Onward.advance_unfinished (unfinished : course.kind place ≠ .finish) :
    Parser.advance.Onward course place (fun _ stop => place < stop) bad := by
  refine Onward.advance.mono ?_ id
  rintro _ _ - rfl
  exact Course.lt_next unfinished

theorem Onward.advance_content (isKind : course.kind place = kind)
    (content : kind.isContent = true) :
    Parser.advance.Onward course place (fun _ stop => course.Read [] place stop) bad := by
  subst isKind
  exact (Onward.advance_unfinished (Course.unfinished_of_content content)).mono
    (fun _ _ _ further => .of_content content further) id

theorem Onward.unexpected {α : Type} {good : α → Nat → Prop} {expected : Expected} :
    (unexpected expected : Parser α).Onward course place good True :=
  fun _ _ => .rejected (Nat.le_refl place) trivial

theorem Onward.expecting {α : Type} {good : α → Nat → Prop} :
    (expecting kind : Parser α).Onward course place good True := .unexpected

theorem Onward.accept_unfinished (unfinished : kind ≠ .finish) :
    (accept kind).Onward course place
      (fun taken stop => taken = true ∧ course.kind place = kind ∧ place < stop ∨
        taken = false ∧ place = stop) bad := by
  rw [accept_eq]
  refine .ifAt (fun isKind => ?_) fun _ => .pure (.inr ⟨rfl, rfl⟩)
  refine .bind (.advance_unfinished (by rwa [isKind])) fun _ stop _ further => ?_
  exact .pure (.inl ⟨rfl, isKind, further⟩)

theorem Onward.accept (content : kind.isContent = true) :
    (accept kind).Onward course place
      (fun taken stop => taken = true ∧ course.Read [] place stop ∨
        taken = false ∧ place = stop) bad := by
  refine (Onward.accept_unfinished (by rintro rfl; cases content)).mono ?_ id
  rintro taken stop - (⟨isTaken, isKind, further⟩ | stays)
  · exact .inl ⟨isTaken, .of_content (by rwa [isKind]) further⟩
  · exact .inr stays

theorem Onward.acceptValue : (acceptValue value).Onward course place (fun _ _ => True) bad := by
  rw [acceptValue_eq]
  exact .current_bind fun _ _ => .ite
    (fun _ => .bind .advance fun _ _ _ _ => .pure trivial) fun _ => .pure trivial

theorem Onward.acceptWord : (acceptWord kind value).Onward course place (fun _ _ => True) bad :=
  .ifAt (fun _ => .acceptValue) fun _ => .pure trivial

theorem Onward.consume_unfinished (unfinished : kind ≠ .finish) :
    (consume kind).Onward course place
      (fun _ stop => course.kind place = kind ∧ place < stop) True := by
  rw [consume_eq]
  refine .current_bind fun token isCurrent => .ite (fun found => ?_) fun _ => .expecting
  have isKind : course.kind place = kind := isCurrent.symm.trans (of_decide_eq_true found)
  refine .bind (.advance_unfinished (by rwa [isKind])) fun _ stop _ further => ?_
  exact .pure ⟨isKind, further⟩

theorem Onward.consume (content : kind.isContent = true) :
    (consume kind).Onward course place (fun _ stop => course.Read [] place stop) True := by
  refine (Onward.consume_unfinished (by rintro rfl; cases content)).mono ?_ id
  rintro _ stop - ⟨isKind, further⟩
  exact .of_content (by rwa [isKind]) further

theorem Onward.consumeValue (content : kind.isContent = true) :
    (consumeValue kind value).Onward course place (fun _ stop => course.Read [] place stop)
      True := by
  rw [consumeValue_eq]
  refine .bind (.lookToken fun token =>
    decide (token.kind = kind) && decide (token.value = value)) ?_
  rintro _ _ - ⟨rfl, rfl⟩
  refine .ite (fun found => .advance_content ?_ content) fun _ => .unexpected
  exact of_decide_eq_true (Bool.and_eq_true_iff.mp found).1

theorem Onward.expectFinish :
    expectFinish.Onward course place (fun _ stop => place = stop) True :=
  .ifAt (fun _ => .pure rfl) fun _ => .expecting

theorem Onward.skipLineBreaks :
    skipLineBreaks.Onward course place (fun _ _ => True) bad := by
  intro inside saved
  obtain ⟨stop, stopInside, further, isStop⟩ :=
    Course.skipLineBreaksWithin_onward (course.size - place) inside saved
  exact .of_eq further stopInside trivial (congrArg (Reply.ok ()) isStop)

theorem Onward.joinUntil {stops : KindSet} :
    (joinUntil stops).Onward course place (fun _ _ => True) bad :=
  fun inside saved =>
    .ok (Nat.le_add_right place _) (Course.run_length_le inside stops saved) trivial

theorem Onward.positionsSince :
    (positionsSince start).Onward course place
      (fun attributes stop => place = stop ∧ course.Frames attributes start stop) bad := by
  intro inside saved
  have isLast : (course.cursor.standing place saved).lastRelevant =
      course.lastSolid (place - 1) :=
    course.cursor.lastSolid_standing place saved (place - 1)
  simp only [Parser.positionsSince, isLast]
  exact .ok (Nat.le_refl place) inside ⟨rfl, Course.frames_positions inside⟩

/-- A rule that ends with the positions of what it read. -/
theorem Onward.positioned {α : Type} {form : Attributes → α} {good : α → Nat → Prop}
    (isGood : ∀ attributes, course.Frames attributes start place → good (form attributes) place) :
    (Parser.positionsSince start >>= fun attributes => Pure.pure (form attributes)).Onward course
      place good bad := by
  refine .bind .positionsSince ?_
  rintro attributes _ - ⟨rfl, frames⟩
  exact .pure (isGood attributes frames)

end Steps

section Loops

variable {course : Course} {place : Nat} {round : Parser (Round α β)}
  {item? : Parser (Option α)} {outline : α → Outline}

/-- A round that gives an item makes a `step` with it. -/
def RoundSteps (step : Nat → α → Nat → Prop) (start : Nat) : Round α β → Nat → Prop
  | .item value, stop => step start value stop
  | .done _, _ => True

/-- If there is an item, it makes a `step`. -/
def ItemSteps (step : Nat → α → Nat → Prop) (start : Nat) : Option α → Nat → Prop
  | some value, stop => step start value stop
  | none, _ => True

/-- What a loop does, from what one of its rounds does. -/
theorem Onward.gather {step : Nat → α → Nat → Prop}
    (each : ∀ here, place ≤ here → round.Onward course here (RoundSteps step here) True) :
    (gather round).Onward course place
      (fun gathered stop => Rounds (fun here value stop => here ≤ stop ∧ step here value stop)
        (fun here _ stop => here ≤ stop) place gathered.1 gathered.2 stop) True := by
  refine .look_bind fun bound => ?_
  -- How many rounds are allowed does not matter: without any the loop fails where it stands.
  generalize bound + 1 = fuel
  induction fuel generalizing place with
  | zero => exact .expecting
  | succ fuel induction =>
      refine .bind (each place (Nat.le_refl place)) fun outcome middle further happened => ?_
      cases outcome with
      | item value =>
          have later (here : Nat) (behind : middle ≤ here) :=
            each here (Nat.le_trans further behind)
          refine .bind (induction later) fun gathered stop _ rounds => ?_
          exact .pure (.item ⟨further, happened⟩ rounds)
      | done result => exact .pure (.done further)

theorem Onward.many {step : Nat → α → Nat → Prop}
    (each : ∀ here, place ≤ here → item?.Onward course here (ItemSteps step here) True) :
    (many item?).Onward course place
      (fun values stop => Rounds (fun here value stop => here ≤ stop ∧ step here value stop)
        (fun here (_ : Unit) stop => here ≤ stop) place values () stop) True := by
  refine .bind (.gather fun here behind => ?_) fun gathered stop _ rounds => .pure rounds
  refine .bind (each here behind) fun found stop _ happened => ?_
  cases found with
  | some value => exact .pure happened
  | none => exact .pure trivial

/-- The items of a loop lie in a row. -/
theorem Rounds.row {values : List α} {result : β} {stop : Nat}
    (rounds : Rounds (fun here value stop => here ≤ stop ∧ course.Adds (outline value) here stop)
      (fun here _ stop => here ≤ stop) place values result stop) :
    place ≤ stop ∧ Outline.Row course (values.map outline) place stop := by
  induction rounds with
  | done final => exact ⟨final, .nil⟩
  | item first _ induction =>
      obtain ⟨further, -, row⟩ := first
      exact ⟨Nat.le_trans further induction.1, row.append induction.2 further induction.1⟩

theorem Onward.gather_row
    (each : ∀ here, place ≤ here → round.Onward course here
      (RoundSteps (fun here value stop => course.Adds (outline value) here stop) here) True) :
    (Parser.gather round).Onward course place
      (fun gathered stop => Outline.Row course (gathered.1.map outline) place stop) True :=
  (Onward.gather each).mono (fun _ _ _ rounds => rounds.row.2) id

theorem Onward.many_row
    (each : ∀ here, place ≤ here → item?.Onward course here
      (ItemSteps (fun here value stop => course.Adds (outline value) here stop) here) True) :
    (Parser.many item?).Onward course place
      (fun values stop => Outline.Row course (values.map outline) place stop) True :=
  (Onward.many each).mono (fun _ _ _ rounds => rounds.row.2) id

theorem Onward.toEnd {body : Parser α} {good : α → Nat → Prop}
    (onward : body.Onward course place good True) :
    (toEnd body).Onward course place good True := by
  refine .bind onward fun value stop _ isGood => .bind .expectFinish ?_
  rintro _ _ - rfl
  exact .pure isGood

end Loops

end Parser

end Docblock
