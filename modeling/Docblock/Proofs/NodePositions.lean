import Docblock.Proofs.TypeExpr.Rules
import Docblock.Token.Scan

/-!
# The positions of nodes are nested

Every rule for constants and types gives a node that occupies tokens in front of the place where
the rule stopped and from the place on where it started, its parts inside of it one behind the
other.
-/

namespace Docblock

open Docblock.Parser

/-- The node that a rule gives is what has been read. -/
def Course.Reads {α : Type} (course : Course) (outline : α → Outline) (start : Nat) (value : α)
    (stop : Nat) : Prop := course.Read [outline value] start stop

namespace ConstExpr

variable {course : Course} {place : Nat} {nested : Parser ConstExpr}

theorem nextNamePart_onward {next : TokenKind} (isPart : next.isContent = true) :
    (nextNamePart next).Onward course place (ItemSteps (fun start _ stop => start < stop) place)
      True := by
  refine .look_bind fun spaced => .ite (fun _ => .pure trivial) fun _ => ?_
  refine .ifAt (fun _ => ?_) fun _ => .pure trivial
  exact .bind (.consume isPart) fun _ _ _ read => .pure read.further

section Nested

variable (each : ∀ here, nested.Onward course here (course.Reads outline here) True)

include each

theorem readItem_onward :
    (readItem nested).Onward course place (course.Reads ConstItem.outline place) True := by
  refine .marked (.bind (each place) fun first middle _ readFirst => ?_)
  refine .bind (.accept rfl) ?_
  rintro _ next - (⟨rfl, arrow⟩ | ⟨rfl, rfl⟩)
  · refine .bind (each next) fun value stop _ readValue => .positioned fun _ frames => ?_
    exact frames _ ((readFirst.trans arrow).trans readValue)
  · exact .positioned fun _ frames => frames _ readFirst

theorem nextItem_onward {close : TokenKind} (isClose : close.isContent = true) :
    (nextItem nested close).Onward course place
      (ItemSteps (fun start item stop => course.Adds item.outline start stop) place) True := by
  refine .bind (.accept rfl) ?_
  rintro _ next - (⟨rfl, comma⟩ | ⟨rfl, rfl⟩)
  · refine .bind (.accept isClose) ?_
    rintro _ last further (⟨rfl, -⟩ | ⟨rfl, rfl⟩)
    · exact .pure trivial
    · refine .bind (readItem_onward each) fun item stop _ read => ?_
      exact .pure (read.adds (Nat.le_of_lt comma.further))
  · exact .bind (.consume isClose) fun _ _ _ _ => .pure trivial

theorem readItems_onward {close : TokenKind} (isClose : close.isContent = true) :
    (readItems nested close).Onward course place
      (fun items stop => Outline.Row course (ConstItem.outlines items) place stop) True := by
  refine .bind (.accept isClose) ?_
  rintro _ middle - (⟨rfl, -⟩ | ⟨rfl, rfl⟩)
  · exact .pure .nil
  refine .bind (readItem_onward each) fun first middle _ readFirst => ?_
  refine .bind (.many_row fun here _ => nextItem_onward each isClose) ?_
  intro rest stop further row
  rw [← ConstItem.outlines_eq_map] at row
  exact .pure (readFirst.add further row).row

theorem readNamed_onward :
    (readNamed nested).Onward course place
      (fun form stop => course.Read form.outlines place stop) True := by
  refine .bind (.consume rfl) fun name middle _ read => .bind (.accept rfl) ?_
  rintro _ next further (⟨rfl, -⟩ | ⟨rfl, rfl⟩)
  · refine .bind (readConstantName_built.forward course next) fun constant stop further' _ => ?_
    exact .pure (read.skip (Nat.le_trans further further'))
  simp only [Bool.false_eq_true, if_false]
  split
  · exact .pure read
  split
  · exact .pure read
  split
  · exact .pure read
  split
  · refine .bind (.accept rfl) ?_
    rintro _ next - (⟨rfl, opened⟩ | ⟨rfl, rfl⟩)
    · refine .bind (readItems_onward each rfl) fun items stop further row => ?_
      exact .pure ((read.trans opened).add further row)
    · exact .pure read
  · exact .pure read

theorem readForm_onward :
    (readForm nested).Onward course place
      (fun form stop => course.Read form.outlines place stop) True := by
  have literal {kind : TokenKind} {literalKind : LiteralKind} (isLiteral : kind.isContent = true) :
      (consume kind >>= fun lexeme => pure (.literal literalKind lexeme) : Parser ConstForm).Onward
        course place (fun form stop => course.Read form.outlines place stop) True :=
    .bind (.consume isLiteral) fun _ _ _ read => .pure read
  refine .current_bind fun token isCurrent => ?_
  unfold readFormAt
  split
  · exact literal rfl
  · exact literal rfl
  · exact literal rfl
  · exact literal rfl
  · next isMinus =>
      have isKind := isCurrent.symm.trans isMinus
      refine .bind (.advance_content isKind rfl) fun _ middle _ sign => ?_
      exact .bind (each middle) fun operand stop _ read => .pure (sign.trans read)
  · next isOpen =>
      have isKind := isCurrent.symm.trans isOpen
      refine .bind (.advance_content isKind rfl) fun _ middle _ opened => ?_
      refine .bind (readItems_onward each rfl) fun items stop further row => ?_
      exact .pure (opened.add further row)
  · exact readNamed_onward each
  · exact .expecting

end Nested

theorem parserWithin_onward (depth : Nat) :
    (parserWithin depth).Onward course place (course.Reads outline place) True := by
  induction depth generalizing place with
  | zero => exact .expecting
  | succ depth induction =>
      refine .marked (.bind (readForm_onward fun _ => induction) fun form stop _ read => ?_)
      exact .positioned fun _ frames => frames _ read

theorem parser_onward : parser.Onward course place (course.Reads outline place) True :=
  .look_bind fun bound => parserWithin_onward (bound + 1)

end ConstExpr

namespace TypeExpr

variable {course : Course} {place start : Nat} {bad : Prop} {nested : Goal → Parser TypeExpr}

/-- The place where the type that a goal leads to starts. -/
def Goal.origin (place : Nat) : Goal → Nat
  | .condition _ start => start
  | _ => place

/-- The subject of a condition has been read. -/
def Goal.Begun (course : Course) (place : Nat) : Goal → Prop
  | .condition subject start => course.Read subject.outlines start place
  | _ => True

theorem node_onward {form : TypeForm} (read : course.Read form.outlines start place) :
    (node form start).Onward course place (course.Reads outline start) bad :=
  .positioned fun _ frames => frames _ read

/-- A sign between two parts, which may have line breaks in front of it and behind it. -/
theorem sign_onward {α : Type} {kind : TokenKind} {parts : List Outline} {next : Unit → Parser α}
    {good : α → Nat → Prop} (content : kind.isContent = true)
    (began : course.Read parts start place)
    (rest : ∀ stop, course.Read parts start stop → (next ()).Onward course stop good True) :
    (skipLineBreaks >>= fun _ => consume kind >>= fun _ => skipLineBreaks >>= next).Onward course
      place good True := by
  refine .bind .skipLineBreaks fun _ here skipped _ => ?_
  refine .bind (.consume content) fun _ here' _ sign => ?_
  refine .bind .skipLineBreaks fun _ stop skipped' _ => rest stop ?_
  exact ((began.skip skipped).skip (Nat.le_of_lt sign.further)).skip skipped'

theorem isAtOperator_onward {operator : TokenKind} {multiline : Bool} :
    (isAtOperator operator multiline).Onward course place
      (fun found stop => found = true → course.kind stop = operator) bad := by
  refine .ifAt (fun isKind => .pure fun _ => isKind) fun _ => ?_
  refine .ite (fun _ => .pure nofun) fun _ => .look_bind fun broken => ?_
  refine .ite (fun _ => .pure nofun) fun _ => .push_bind ?_
  refine .bind .skipLineBreaks fun _ stop _ _ => ?_
  exact .ifAt (fun isKind => .drop_bind (.pure fun _ => isKind)) fun _ =>
    .rollback_bind (.pure nofun)

section Chain

variable {operator : TokenKind} {multiline : Bool} {operand : Parser TypeExpr}

theorem nextOperand_onward (isOperator : operator.isContent = true)
    (each : ∀ here, operand.Onward course here (course.Reads outline here) True) :
    (nextOperand operator multiline operand).Onward course place
      (ItemSteps (fun start type stop => course.Adds type.outline start stop) place) True := by
  refine .bind isAtOperator_onward fun found here further isKind => ?_
  refine .ite (fun isFound => ?_) fun _ => .pure trivial
  refine .bind (.advance_content (isKind isFound) isOperator) fun _ next _ passed => ?_
  refine .bind ((skipLineBreaksIf_built multiline).forward course next) fun _ next' skipped _ => ?_
  refine .bind (each next') fun type stop _ read => .pure (read.adds ?_)
  exact Nat.le_trans further (Nat.le_trans (Nat.le_of_lt passed.further) skipped)

theorem chain_onward {combine : List TypeExpr → TypeForm} (isOperator : operator.isContent = true)
    (combineParts : ∀ operands, (combine operands).outlines = outlines operands)
    (each : ∀ here, operand.Onward course here (course.Reads outline here) True) :
    (chain operator combine multiline operand).Onward course place (course.Reads outline place)
      True := by
  refine .marked (.bind (each place) fun first middle _ readFirst => ?_)
  refine .bind (.many_row fun here _ => nextOperand_onward isOperator each) ?_
  intro rest stop further row
  refine .ite (fun _ => .pure (readFirst.skip further)) fun _ => node_onward ?_
  rw [combineParts, outlines_eq_map]
  exact readFirst.add further row

end Chain

section Separated

variable {α : Type} {item : Parser α} {outline : α → Outline} {close : TokenKind}

theorem nextSeparated_onward
    (each : ∀ here, item.Onward course here (course.Reads outline here) True) :
    (nextSeparated item close).Onward course place
      (ItemSteps (fun start value stop => course.Adds (outline value) start stop) place) True := by
  refine .bind (.accept rfl) ?_
  rintro _ next - (⟨rfl, comma⟩ | ⟨rfl, rfl⟩)
  · refine .bind .skipLineBreaks fun _ next' skipped _ => .ifAt (fun _ => .pure trivial) fun _ => ?_
    refine .bind (each next') fun value last _ read => ?_
    refine .bind .skipLineBreaks fun _ stop skipped' _ => .pure ?_
    exact Course.Read.adds (read.skip skipped')
      (Nat.le_trans (Nat.le_of_lt comma.further) skipped)
  · exact .pure trivial

theorem commaSeparated_onward
    (each : ∀ here, item.Onward course here (course.Reads outline here) True) :
    (commaSeparated item close).Onward course place
      (fun values stop => course.Read (values.map outline) place stop) True := by
  refine .bind (each place) fun first middle _ readFirst => ?_
  refine .bind .skipLineBreaks fun _ middle' skipped _ => ?_
  refine .bind (.many_row fun here _ => nextSeparated_onward each) ?_
  intro rest stop further row
  exact .pure ((Course.Read.skip readFirst skipped).add further row)

end Separated

theorem readConstant_onward :
    readConstant.Onward course place (course.Reads outline place) True := by
  refine .look_bind fun _ => .ite (fun _ => .marked ?_) fun _ => .expecting
  exact .bind ConstExpr.parser_onward fun expr stop _ read => node_onward read

theorem readShapeKey_onward :
    readShapeKey.Onward course place (fun key stop => course.Read key.outlines place stop)
      True := by
  have literal {kind : LiteralKind} {value : String}
      {token : TokenKind} (isKind : course.kind place = token) (content : token.isContent = true) :
      (do advance
          pure (.constant ⟨.literal kind value, ← positionsSince place⟩) :
        Parser ShapeKey).Onward course place (fun key stop => course.Read key.outlines place stop)
          True :=
    .bind (.advance_content isKind content) fun _ stop _ read => .positioned fun _ frames =>
      frames _ read
  refine .marked (.current_bind fun token isCurrent => ?_)
  split
  · next isInteger => exact literal (isCurrent.symm.trans isInteger) rfl
  · next isQuoted => exact literal (isCurrent.symm.trans isQuoted) rfl
  · next isQuoted => exact literal (isCurrent.symm.trans isQuoted) rfl
  · next isName =>
      refine .bind (.advance_content (isCurrent.symm.trans isName) rfl) ?_
      exact fun _ stop _ read => .pure read
  · exact .expecting

theorem readShapeLabel_onward :
    readShapeLabel.Onward course place (fun label stop => course.Read label.1.outlines place stop)
      True := by
  refine .bind readShapeKey_onward fun key next _ read => ?_
  refine .bind (.accept rfl) fun isOptional next' marked _ => ?_
  refine .bind (.consume rfl) fun _ stop _ colon => .pure ?_
  exact read.skip (Nat.le_trans marked (Nat.le_of_lt colon.further))

theorem readArraySuffix_onward :
    (readArraySuffix start).Onward course place
      (ItemSteps (fun here attributes stop => here < stop ∧
        ∀ parts, course.Read parts start here → course.Read [⟨attributes, parts⟩] start stop) place)
      True := by
  refine .ifAt (fun isOpen => .push_bind ?_) fun _ => .pure trivial
  refine .bind (.advance_content isOpen rfl) fun _ next _ opened => ?_
  refine .bind (.accept rfl) ?_
  rintro _ stop - (⟨rfl, closed⟩ | ⟨rfl, rfl⟩)
  · refine .drop_bind (.positioned fun attributes frames => ?_)
    have further := (opened.trans closed).further
    exact ⟨further, fun parts read => frames parts (read.skip (Nat.le_of_lt further))⟩
  · exact .rollback_bind (.pure trivial)

/-- Every pair of brackets puts a node around what stands in front of it. -/
theorem read_arrays {suffixes : List Attributes} {result : Unit} {stop : Nat} {type : TypeExpr}
    (rounds : Rounds (fun here attributes stop => here ≤ stop ∧ here < stop ∧
        ∀ parts, course.Read parts start here → course.Read [⟨attributes, parts⟩] start stop)
      (fun here _ stop => here ≤ stop) place suffixes result stop)
    (read : course.Read [type.outline] start place) :
    course.Read [(suffixes.foldl (fun inner attributes => ⟨.array inner, attributes⟩) type).outline]
      start stop := by
  induction rounds generalizing type with
  | done final => exact read.skip final
  | item first _ induction => exact induction (first.2.2 _ read)

section Nested

variable (each : ∀ (goal : Goal) here, goal.Begun course here →
  (nested goal).Onward course here (course.Reads outline (goal.origin here)) True)

include each

theorem readGeneric_onward {base : TypeExpr} (began : course.Read [base.outline] start place) :
    (readGeneric nested base start).Onward course place (course.Reads outline start) True := by
  refine .bind (.consume rfl) fun _ next _ opened => ?_
  refine .bind .skipLineBreaks fun _ next' skipped _ => ?_
  refine .bind (commaSeparated_onward fun here => each (.union false) here trivial) ?_
  intro arguments next'' _ read
  refine .bind (.consume rfl) fun _ stop _ closed => node_onward ?_
  show course.Read (base.outline :: outlines arguments) start stop
  rw [outlines_eq_map]
  exact (((began.trans opened).skip skipped).trans read).skip (Nat.le_of_lt closed.further)

theorem readParameter_onward :
    (readParameter nested).Onward course place (course.Reads CallableParameter.outline place)
      True := by
  refine .marked (.bind (each (.union false) place trivial) fun type next _ read => ?_)
  refine .bind (.accept rfl) fun isReference next' further _ => ?_
  refine .bind (.accept rfl) fun isVariadic next'' further' _ => ?_
  refine .bind (readVariableName?_built.forward course next'') fun name last named _ => ?_
  refine .bind (.accept rfl) fun isOptional stop marked _ => .positioned fun _ frames => ?_
  exact frames _ ((((Course.Read.skip read further).skip further').skip named).skip marked)

theorem readParameters_onward :
    (readParameters nested).Onward course place
      (fun parameters stop => Outline.Row course (CallableParameter.outlines parameters) place stop)
      True := by
  refine .ifAt (fun _ => .pure .nil) fun _ => ?_
  refine (commaSeparated_onward fun here => readParameter_onward each).mono ?_ id
  intro parameters stop _ read
  rw [CallableParameter.outlines_eq_map]
  exact read.row

theorem readCallable_onward {identifier : TypeExpr}
    (began : course.Read [identifier.outline] start place) :
    (readCallable nested identifier start).Onward course place (course.Reads outline start)
      True := by
  refine .bind (.consume rfl) fun _ next _ opened => ?_
  refine .bind .skipLineBreaks fun _ next' skipped _ => ?_
  refine .bind (readParameters_onward each) fun parameters next'' further row => ?_
  refine .bind (.consume rfl) fun _ next₃ _ closed => .bind (.consume rfl) fun _ next₄ _ colon => ?_
  refine .bind (each .operand next₄ trivial) fun returnType stop _ read => node_onward ?_
  exact (((began.trans opened).skip skipped).add further row).trans
    ((closed.trans colon).trans read)

theorem readShapeItem_onward :
    (readShapeItem nested).Onward course place (course.Reads ShapeItem.outline place) True := by
  refine .marked (.attempt_bind readShapeLabel_onward ?_ fun error => ?_)
  · rintro ⟨key, isOptional⟩ next _ label
    refine .bind (each (.union false) next trivial) fun value stop _ read => ?_
    exact .positioned fun _ frames => frames _ (label.trans read)
  · refine .bind (each (.union false) place trivial) fun value stop _ read => ?_
    exact .positioned fun _ frames => frames _ read

theorem readShapeEntry_onward :
    (readShapeEntry nested).Onward course place
      (RoundSteps (fun start item stop => course.Adds (ShapeItem.outline item) start stop) place)
      True := by
  refine .bind .skipLineBreaks fun _ next skipped _ => .bind (.accept rfl) ?_
  rintro _ next' - (⟨rfl, -⟩ | ⟨rfl, rfl⟩)
  · exact .pure trivial
  refine .bind (.accept rfl) ?_
  rintro _ next' - (⟨rfl, -⟩ | ⟨rfl, rfl⟩)
  · refine .bind .skipLineBreaks fun _ behindDots _ _ => ?_
    refine .bind (.accept rfl) fun _ behindComma _ _ => ?_
    refine .bind .skipLineBreaks fun _ last _ _ => ?_
    exact .bind (.consume rfl) fun _ _ _ _ => .pure trivial
  · refine .bind (readShapeItem_onward each) fun item stop _ read => ?_
    exact .pure (Course.Read.adds read skipped)

theorem nextEntry_onward :
    (nextEntry nested).Onward course place
      (RoundSteps (fun start item stop => course.Adds (ShapeItem.outline item) start stop) place)
      True := by
  refine .bind .skipLineBreaks fun _ next skipped _ => .bind (.accept rfl) ?_
  rintro _ next' - (⟨rfl, comma⟩ | ⟨rfl, rfl⟩)
  · refine (readShapeEntry_onward each).mono ?_ id
    rintro (item | closed) stop further adds
    · have behind := Nat.le_trans skipped (Nat.le_of_lt comma.further)
      exact ⟨Nat.lt_of_le_of_lt behind adds.further, adds.row.widen behind (Nat.le_refl stop)⟩
    · trivial
  · exact .bind (.consume rfl) fun _ _ _ _ => .pure trivial

theorem readShape_onward {kind : ShapeKind} (began : course.Read [] start place) :
    (readShape nested kind start).Onward course place (course.Reads outline start) True := by
  refine .bind (.consume rfl) fun _ next _ opened => ?_
  refine .bind (readShapeEntry_onward each) ?_
  rintro (first | closed) next' further adds
  · refine .bind (.gather_row fun here _ => nextEntry_onward each) ?_
    rintro ⟨rest, closed⟩ stop further' row
    refine node_onward ?_
    show course.Read (ShapeItem.outlines (first :: rest)) start stop
    rw [ShapeItem.outlines_eq_map]
    exact ((began.trans opened).add further adds.row).add further' row
  · exact node_onward ((began.trans opened).skip further)

theorem readNameTail_onward {name : String} {identifier : TypeExpr}
    (began : course.Read [identifier.outline] start place) :
    (readNameTail nested name identifier start).Onward course place (course.Reads outline start)
      True := by
  refine .ifAt (fun _ => readGeneric_onward each began) fun _ => .ifAt (fun _ => ?_) fun _ => ?_
  -- If the parameters cannot be read, the name alone is the type.
  · exact .attempt_bind (readCallable_onward each began) (fun _ _ _ read => .pure read)
      fun _ => .pure began
  split
  · exact .pure began
  · exact .ifAt (fun _ => .look_bind fun _ => .ite (fun _ => .pure began)
      fun _ => readShape_onward each began.forget) fun _ => .pure began

theorem readIdentifier_onward (isIdentifier : course.kind place = .identifier) :
    (readIdentifier nested).Onward course place (course.Reads outline place) True := by
  refine .marked (.push_bind (.look_bind fun token => ?_))
  refine .bind (.advance_content isIdentifier rfl) fun _ next _ read => ?_
  -- In front of two colons the name is given back, and the constant starts where the name did.
  refine .ifAt (fun _ => .rollback_bind readConstant_onward) fun _ => .drop_bind ?_
  exact .bind (node_onward read) fun identifier _ further began =>
    readNameTail_onward each began

theorem readSubject_onward :
    (readSubject nested).Onward course place (course.Reads outline place) True := by
  refine .marked (.bind (each (.union true) place trivial) fun subject next _ read => ?_)
  refine .look_bind fun _ => .ite (fun _ => ?_) fun _ => .pure read
  exact each (.condition (.type subject) place) next read

theorem readCondition_onward {subject : ConditionalSubject}
    (began : course.Read subject.outlines start place) :
    (readCondition nested subject start).Onward course place (course.Reads outline start)
      True := by
  refine .bind (.consumeValue rfl) fun _ next _ is => ?_
  refine .bind .acceptWord fun negated next' negation _ => ?_
  refine .bind (each (.union true) next' trivial) fun target _ _ readTarget => ?_
  have readCondition := ((began.trans is).skip negation).trans readTarget
  refine sign_onward rfl readCondition fun next asked => ?_
  refine .bind (each (.union true) next trivial) fun ifType _ _ readIf => ?_
  refine sign_onward rfl (asked.trans readIf) fun next chosen => ?_
  refine .bind (readSubject_onward each) fun elseType stop _ readElse => node_onward ?_
  have readAll := chosen.trans readElse
  show course.Read
    (subject.outlines ++ [target.outline, ifType.outline, elseType.outline]) start stop
  simpa using readAll

theorem readEnclosed_onward :
    (readEnclosed nested).Onward course place (course.Reads outline place) True := by
  refine .ifAt (fun _ => .marked ?_) fun _ => readSubject_onward each
  exact .bind (.consume rfl) fun token next _ read =>
    each (.condition (.parameter (variableName token)) place) next read

theorem readParenthesized_onward :
    (readParenthesized nested).Onward course place (course.Reads outline place) True := by
  refine .bind (.consume rfl) fun _ next _ opened => ?_
  refine .bind .skipLineBreaks fun _ next₁ skipped _ => ?_
  refine .bind (readEnclosed_onward each) fun type next₂ _ read => ?_
  refine .bind .skipLineBreaks fun _ next₃ skipped' _ => ?_
  refine .bind (.consume rfl) fun _ stop _ closed => .pure ?_
  exact (((opened.skip skipped).trans read).skip skipped').skip (Nat.le_of_lt closed.further)

theorem readPrimary_onward :
    (readPrimary nested).Onward course place (course.Reads outline place) True := by
  refine .current_bind fun token isCurrent => ?_
  unfold readPrimaryAt
  split
  · exact readParenthesized_onward each
  · next isThis =>
      have isKind := isCurrent.symm.trans isThis
      exact .marked (.bind (.advance_content isKind rfl) fun _ stop _ read => node_onward read)
  · next isIdentifier => exact readIdentifier_onward each (by rw [← isCurrent, isIdentifier])
  · exact readConstant_onward

theorem readAtomic_onward :
    (readAtomic nested).Onward course place (course.Reads outline place) True := by
  refine .marked (.bind (readPrimary_onward each) fun primary next _ read => ?_)
  refine .bind (.many fun here _ => readArraySuffix_onward) fun suffixes stop _ rounds => ?_
  exact .pure (read_arrays rounds read)

theorem readOperand_onward :
    (readOperand nested).Onward course place (course.Reads outline place) True := by
  refine .marked (.bind (.accept rfl) ?_)
  rintro _ next - (⟨rfl, marked⟩ | ⟨rfl, rfl⟩)
  · refine .bind (readAtomic_onward each) fun inner stop _ read => node_onward ?_
    exact marked.trans read
  · exact readAtomic_onward each

theorem readGoal_onward {wanted : Goal} (began : wanted.Begun course place) :
    (readGoal nested wanted).Onward course place (course.Reads outline (wanted.origin place))
      True := by
  cases wanted with
  | union multiline =>
      exact chain_onward rfl (fun _ => rfl) fun _ => chain_onward rfl (fun _ => rfl) fun _ =>
        readOperand_onward each
  | operand => exact readOperand_onward each
  | condition subject start => exact readCondition_onward each began

end Nested

theorem goalWithin_onward {depth : Nat} {wanted : Goal} (began : wanted.Begun course place) :
    (goalWithin depth wanted).Onward course place (course.Reads outline (wanted.origin place))
      True := by
  induction depth generalizing wanted place with
  | zero => exact .expecting
  | succ depth induction => exact readGoal_onward (fun _ _ => induction) began

theorem goal_onward {wanted : Goal} (began : wanted.Begun course place) :
    (goal wanted).Onward course place (course.Reads outline (wanted.origin place)) True :=
  .look_bind fun _ => goalWithin_onward began

theorem parser_onward : parser.Onward course place (course.Reads outline place) True :=
  goal_onward trivial

end TypeExpr

namespace Outline

/-- The indexes of the first and the last token of a node, as they are recorded with it. -/
def interval? (node : Outline) : Option (Nat × Nat) :=
  match node.attributes.get? Attributes.startIndex, node.attributes.get? Attributes.endIndex with
  | some (.index first), some (.index last) => some (first, last)
  | _, _ => none

/-- The interval of the one node lies in that of the other. -/
def Within (part whole : Outline) : Prop :=
  ∃ first last start stop, part.interval? = some (first, last) ∧
    whole.interval? = some (start, stop) ∧ start ≤ first ∧ last ≤ stop

/-- The interval of the one node ends in front of that of the other. -/
def Before (part other : Outline) : Prop :=
  ∃ first last start stop, part.interval? = some (first, last) ∧
    other.interval? = some (start, stop) ∧ last < start

mutual

/-- The node itself and all nodes below it. -/
def nodes : Outline → List Outline
  | ⟨attributes, parts⟩ => ⟨attributes, parts⟩ :: nodesOf parts

def nodesOf : List Outline → List Outline
  | [] => []
  | part :: rest => part.nodes ++ nodesOf rest

end

/-- A node has recorded the interval of its tokens among all tokens, and so have its parts: inside
of its own interval, one behind the other. -/
structure Placed (tracking : Tracking) (tokens : List Token) (node : Outline) : Prop where
  recorded : ∃ first last opening closing, node.interval? = some (first, last) ∧ first ≤ last ∧
    tokens[first]? = some opening ∧ tokens[last]? = some closing ∧
    opening.kind ∉ [.blank, .lineBreak] ∧ closing.kind ∉ [.blank, .lineBreak] ∧
    (tracking.lines = true →
      node.attributes.get? Attributes.startLine = some (.line opening.line) ∧
        node.attributes.get? Attributes.endLine = some (.line closing.line))
  nested : ∀ part ∈ node.parts, part.Within node
  ordered : node.parts.Pairwise Before

variable {course : Course} {node : Outline} {parts : List Outline} {first last start stop : Nat}

mutual

/-- What is true of the root is true of every node. -/
theorem Occupies.of_mem_nodes : ∀ {whole : Outline} {first last : Nat},
    whole.Occupies course first last → node ∈ whole.nodes →
      ∃ first last, node.Occupies course first last
  | ⟨_, parts⟩, first, last, occupies, isNode => by
      rw [nodes, List.mem_cons] at isNode
      rcases isNode with rfl | isBelow
      · exact ⟨first, last, occupies⟩
      · cases occupies with
        | node _ _ _ row => exact row.of_mem_nodesOf isBelow

theorem Row.of_mem_nodesOf : ∀ {parts : List Outline} {start stop : Nat},
    Row course parts start stop → node ∈ nodesOf parts →
      ∃ first last, node.Occupies course first last
  | [], _, _, _, isNode => by cases isNode
  | part :: rest, _, _, row, isNode => by
      rw [nodesOf, List.mem_append] at isNode
      cases row with
      | cons _ occupies _ others =>
          rcases isNode with isPart | isRest
          · exact occupies.of_mem_nodes isPart
          · exact others.of_mem_nodesOf isRest

end

section Indexed

variable (indexed : course.tracking.indexes = true)

include indexed

theorem Occupies.interval?_eq (occupies : node.Occupies course first last) :
    node.interval? = some (first, last) := by
  rw [interval?, occupies.attributes_eq, course.get?_startIndex first last indexed,
    course.get?_endIndex first last indexed]

theorem Row.pairwise_before (row : Row course parts start stop) : parts.Pairwise Before := by
  induction parts generalizing start with
  | nil => exact .nil
  | cons part rest induction =>
      cases row with
      | cons _ occupies _ others =>
          refine .cons (fun other isRest => ?_) (induction others)
          obtain ⟨first', last', behind, -, occupies'⟩ := others.of_mem isRest
          exact ⟨_, _, first', last', occupies.interval?_eq indexed,
            occupies'.interval?_eq indexed, behind⟩

theorem Occupies.placed (occupies : node.Occupies course first last) :
    node.Placed course.tracking course.cursor.tokens.toList := by
  have isInterval := occupies.interval?_eq indexed
  have isRecorded := occupies.attributes_eq
  cases occupies with
  | node fromSolid toSolid ordered row =>
      obtain ⟨opening, isOpening, openingSolid, openingLine⟩ := fromSolid.exists_token
      obtain ⟨closing, isClosing, closingSolid, closingLine⟩ := toSolid.exists_token
      refine ⟨⟨first, last, opening, closing, isInterval, ordered, isOpening, isClosing,
        openingSolid, closingSolid, fun lined => ⟨?_, ?_⟩⟩, fun part isPart => ?_,
        row.pairwise_before indexed⟩
      · rw [isRecorded, course.get?_startLine first last lined, openingLine]
      · rw [isRecorded, course.get?_endLine first last lined, closingLine]
      · obtain ⟨first', last', behind, before, occupies⟩ := row.of_mem isPart
        exact ⟨first', last', first, last, occupies.interval?_eq indexed, isInterval, behind,
          Nat.le_of_lt_succ before⟩

end Indexed

end Outline

/-- All nodes of a tree that a rule gives are placed. -/
theorem Parser.Onward.nodes_placed {α : Type} {parser : Parser α} {outline : α → Outline}
    {tracking : Tracking} (indexed : tracking.indexes = true) {tokens : List Token} {place : Nat}
    (inside : place ≤ (TokenList.sealed tokens).length) {saved : List Nat}
    (onward : parser.Onward (Course.ofTokens tracking tokens) place
      ((Course.ofTokens tracking tokens).Reads outline place) True)
    {value : α} {next : Cursor}
    (read : parser tracking ((Cursor.ofTokens tokens).standing place saved) = .ok value next) :
    ∀ node ∈ (outline value).nodes, node.Placed tracking (TokenList.sealed tokens) := by
  intro node isNode
  have row := ((onward inside saved).good_of_ok read).row
  obtain ⟨first, last, -, -, occupies⟩ := row.of_mem (List.mem_singleton_self _)
  obtain ⟨first', last', occupies'⟩ := occupies.of_mem_nodes isNode
  have isPlaced := @Outline.Occupies.placed (Course.ofTokens tracking tokens) node first' last'
  exact isPlaced indexed occupies'

/-- Positions are complete and nested.  When a type or a constant is read, from whatever place in
whatever list of tokens, every node of its tree has recorded its first and its last token, which
are in the list in this order and are not spacing, and with lines their lines; a node lies in the
one above it, and of two nodes side by side the first one ends in front of the second one. -/
theorem positions_nested (tracking : Tracking) (indexed : tracking.indexes = true)
    (tokens : List Token) (place : Nat) (inside : place < (TokenList.sealed tokens).length)
    (saved : List Nat) :
    let cursor := (Cursor.ofTokens tokens).standing place saved
    (∀ type next, TypeExpr.parser tracking cursor = .ok type next →
      ∀ node ∈ type.outline.nodes, node.Placed tracking (TokenList.sealed tokens)) ∧
    (∀ expr next, ConstExpr.parser tracking cursor = .ok expr next →
      ∀ node ∈ expr.outline.nodes, node.Placed tracking (TokenList.sealed tokens)) :=
  ⟨fun _ _ read => TypeExpr.parser_onward.nodes_placed indexed (Nat.le_of_lt inside) read,
    fun _ _ read => ConstExpr.parser_onward.nodes_placed indexed (Nat.le_of_lt inside) read⟩

/-- The nodes of a conditional type on two lines: the parentheses around it belong to none, and
the shape ends behind its last item. -/
theorem positions_nested_conditional :
    let tokens := tokenize "(T is array\x7b'k': ?A[]\n, ...\x7d ? B : -1)"
    let cursor := (Cursor.ofTokens tokens).standing 0 []
    Tracking.full.indexes = true ∧ 0 < (TokenList.sealed tokens).length ∧
      ∃ type next, TypeExpr.parser .full cursor = .ok type next ∧
        type.outline.nodes.map Outline.interval? =
          [some (1, 26), some (1, 1), some (5, 18), some (7, 13), some (7, 7), some (10, 13),
            some (11, 13), some (11, 11), some (22, 22), some (26, 26), some (26, 26)] ∧
        ∀ node ∈ type.outline.nodes, node.Placed .full (TokenList.sealed tokens) := by
  intro tokens cursor
  have inside : 0 < (TokenList.sealed tokens).length := by decide +kernel
  have isRead : (match TypeExpr.parser .full cursor with
      | .ok type _ => type.outline.nodes.map Outline.interval?
      | .failed _ _ => []) =
        [some (1, 26), some (1, 1), some (5, 18), some (7, 13), some (7, 7), some (10, 13),
          some (11, 13), some (11, 11), some (22, 22), some (26, 26), some (26, 26)] := by
    decide +kernel
  refine ⟨rfl, inside, ?_⟩
  split at isRead
  · next type next read =>
      exact ⟨type, next, read, isRead,
        (positions_nested .full rfl tokens 0 inside []).1 type next read⟩
  · cases isRead

end Docblock
