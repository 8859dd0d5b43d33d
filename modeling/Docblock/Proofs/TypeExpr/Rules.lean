import Docblock.Proofs.ConstExpr.Rules
import Docblock.TypeExpr.Grammar

/-!
# The rules for types are built from steps

A rule that reads nested goals is built from steps if the parser of the nested goals is, on goals
that differ in attributes only.  The induction on the depth of nesting is at the end.
-/

namespace Docblock.TypeExpr

open Docblock.Parser

/-- The goal without attributes in it. -/
def Goal.bare : Goal → Goal
  | .union multiline => .union multiline
  | .operand => .operand
  | .condition subject start => .condition subject.bare start

theorem node_built {form form' : TypeForm} (same : form.bare = form'.bare) (start : Nat) :
    Built bare (node form start) (node form' start) :=
  .positioned start fun _ _ => by simp only [bare, same]

theorem isAtOperator_built (operator : TokenKind) (multiline : Bool) :
    Built id (isAtOperator operator multiline) (isAtOperator operator multiline) := by
  apply Built.step_bind (.look _)
  intro found
  apply Built.ite (.pure rfl)
  apply Built.ite (.pure rfl)
  apply Built.step_bind (.look _)
  intro broken
  apply Built.ite (.pure rfl)
  apply Built.push_bind
  apply BuiltHolding.step_bind .skipLineBreaks
  intro _
  apply BuiltHolding.step_bind (.look _)
  intro foundBehind
  apply BuiltHolding.ite
  · exact .drop_bind (.pure rfl)
  · exact .rollback_bind (.pure rfl)

theorem skipLineBreaksIf_built (multiline : Bool) :
    Built id (skipLineBreaksIf multiline) (skipLineBreaksIf multiline) :=
  .ite (.step .skipLineBreaks) (.pure rfl)

section Lists

variable {operand : Parser TypeExpr}

theorem nextOperand_built (operandBuilt : Built bare operand operand) (operator : TokenKind)
    (multiline : Bool) :
    Built (Option.map bare) (nextOperand operator multiline operand)
      (nextOperand operator multiline operand) := by
  apply Built.bind_same (isAtOperator_built operator multiline)
  intro more
  apply Built.ite _ (.pure rfl)
  apply Built.step_bind .advance
  intro _
  apply Built.bind_same (skipLineBreaksIf_built multiline)
  intro _
  apply Built.bind operandBuilt
  intro next next' same
  exact .pure (congrArg some same)

theorem chain_built (operandBuilt : Built bare operand operand) (operator : TokenKind)
    {combine : List TypeExpr → TypeForm} (multiline : Bool)
    (combineBare : ∀ operands operands', operands.map bare = operands'.map bare →
      (combine operands).bare = (combine operands').bare) :
    Built bare (chain operator combine multiline operand)
      (chain operator combine multiline operand) := by
  apply Built.step_bind (.look _)
  intro start
  apply Built.bind operandBuilt
  intro first first' sameFirst
  apply Built.bind (.many (nextOperand_built operandBuilt operator multiline))
  intro rest rest' sameRest
  have sameEmpty : rest.isEmpty = rest'.isEmpty := by
    simpa using congrArg List.isEmpty sameRest
  rw [sameEmpty]
  apply Built.ite (.pure sameFirst)
  apply node_built
  apply combineBare
  simp only [List.map_cons, sameFirst, sameRest]

variable {α γ : Type} {view : α → γ} {item : Parser α}

theorem nextSeparated_built (itemBuilt : Built view item item) (close : TokenKind) :
    Built (Option.map view) (nextSeparated item close) (nextSeparated item close) := by
  apply Built.step_bind (.accept .comma)
  intro more
  apply Built.ite _ (.pure rfl)
  apply Built.step_bind .skipLineBreaks
  intro _
  apply Built.step_bind (.look _)
  intro closed
  apply Built.ite (.pure rfl)
  apply Built.bind itemBuilt
  intro next next' same
  apply Built.step_bind .skipLineBreaks
  intro _
  exact .pure (congrArg some same)

theorem commaSeparated_built (itemBuilt : Built view item item) (close : TokenKind) :
    Built (List.map view) (commaSeparated item close) (commaSeparated item close) := by
  apply Built.bind itemBuilt
  intro first first' sameFirst
  apply Built.step_bind .skipLineBreaks
  intro _
  apply Built.bind (.many (nextSeparated_built itemBuilt close))
  intro rest rest' sameRest
  exact .pure (by simp only [List.map_cons, sameFirst, sameRest])

end Lists

theorem readConstant_built : Built bare readConstant readConstant := by
  apply Built.step_bind (.look _)
  intro isConstant
  apply Built.ite _ (.expecting .identifier)
  apply Built.step_bind (.look _)
  intro start
  apply Built.bind ConstExpr.parser_built
  intro expr expr' same
  exact node_built (by simp only [TypeForm.bare, same]) start

theorem readVariableName?_built : Built id readVariableName? readVariableName? := by
  apply Built.step_bind (.look _)
  intro isNamed
  apply Built.ite _ (.pure rfl)
  apply Built.bind_same (.consume .namedVariable)
  intro token
  exact .pure rfl

theorem readShapeKey_built : Built ShapeKey.bare readShapeKey readShapeKey := by
  apply Built.step_bind (.look _)
  intro start
  apply Built.step_bind (.look _)
  intro token
  have literal (kind : LiteralKind) :
      Built ShapeKey.bare
        (do advance; pure (.constant ⟨.literal kind token.value, ← positionsSince start⟩))
        (do advance; pure (.constant ⟨.literal kind token.value, ← positionsSince start⟩)) := by
    apply Built.step_bind .advance
    intro _
    exact .positioned start fun _ _ => rfl
  split
  · exact literal .integer
  · exact literal .string
  · exact literal .string
  · apply Built.step_bind .advance
    intro _
    exact .pure rfl
  · exact .expecting .identifier

theorem readShapeLabel_built :
    Built (Prod.map ShapeKey.bare id) readShapeLabel readShapeLabel := by
  apply Built.bind readShapeKey_built
  intro key key' same
  apply Built.step_bind (.accept .nullable)
  intro isOptional
  apply Built.bind_same (.consume .colon)
  intro _
  exact .pure (by simp only [Prod.map, same])

theorem readArraySuffix_built (start : Nat) :
    Built (Option.map fun _ => ()) (readArraySuffix start) (readArraySuffix start) := by
  apply Built.step_bind (.look _)
  intro isOpen
  apply Built.ite _ (.pure rfl)
  apply Built.push_bind
  apply BuiltHolding.step_bind .advance
  intro _
  apply BuiltHolding.step_bind (.accept .closeSquare)
  intro isClosed
  apply BuiltHolding.ite
  · exact .drop_bind (.positioned start fun _ _ => rfl)
  · exact .rollback_bind (.pure rfl)

/-- The attributes of the arrays around a type are not seen, only how many arrays there are. -/
theorem bare_foldl_array (suffixes suffixes' : List Attributes) {type type' : TypeExpr}
    (sameCount : suffixes.map (fun _ => ()) = suffixes'.map fun _ => ())
    (same : type.bare = type'.bare) :
    (suffixes.foldl (fun inner attributes => ⟨.array inner, attributes⟩) type).bare =
      (suffixes'.foldl (fun inner attributes => ⟨.array inner, attributes⟩) type').bare := by
  induction suffixes generalizing suffixes' type type' with
  | nil =>
      cases suffixes' with
      | nil => exact same
      | cons attributes' suffixes' => simp at sameCount
  | cons attributes suffixes induction =>
      cases suffixes' with
      | nil => simp at sameCount
      | cons attributes' suffixes' =>
          apply induction suffixes' (List.cons.inj sameCount).2
          simp only [bare, TypeForm.bare, same]

section Nested

variable {nested : Goal → Parser TypeExpr}

/-- The parser of nested goals is built in the same way on goals that differ in attributes only. -/
def GoalsBuilt (nested : Goal → Parser TypeExpr) : Prop :=
  ∀ goal goal' : Goal, goal.bare = goal'.bare → Built bare (nested goal) (nested goal')

theorem readGeneric_built (nestedBuilt : GoalsBuilt nested) {base base' : TypeExpr}
    (sameBase : base.bare = base'.bare) (start : Nat) :
    Built bare (readGeneric nested base start) (readGeneric nested base' start) := by
  apply Built.bind_same (.consume .openAngle)
  intro _
  apply Built.step_bind .skipLineBreaks
  intro _
  apply Built.bind (commaSeparated_built (nestedBuilt _ _ rfl) .closeAngle)
  intro arguments arguments' same
  apply Built.bind_same (.consume .closeAngle)
  intro _
  exact node_built (by simp only [TypeForm.bare, bareAll_eq_map, sameBase, same]) start

theorem readParameter_built (nestedBuilt : GoalsBuilt nested) :
    Built CallableParameter.bare (readParameter nested) (readParameter nested) := by
  apply Built.step_bind (.look _)
  intro start
  apply Built.bind (nestedBuilt _ _ rfl)
  intro type type' same
  apply Built.step_bind (.accept .reference)
  intro isReference
  apply Built.step_bind (.accept .variadic)
  intro isVariadic
  apply Built.bind_same readVariableName?_built
  intro name
  apply Built.step_bind (.accept .equal)
  intro isOptional
  exact .positioned start fun _ _ => by simp only [CallableParameter.bare, same]

theorem readParameters_built (nestedBuilt : GoalsBuilt nested) :
    Built (List.map CallableParameter.bare) (readParameters nested) (readParameters nested) := by
  apply Built.step_bind (.look _)
  intro none
  exact .ite (.pure rfl) (commaSeparated_built (readParameter_built nestedBuilt) .closeParen)

theorem readCallable_built (nestedBuilt : GoalsBuilt nested) {identifier identifier' : TypeExpr}
    (sameIdentifier : identifier.bare = identifier'.bare) (start : Nat) :
    Built bare (readCallable nested identifier start) (readCallable nested identifier' start) := by
  apply Built.bind_same (.consume .openParen)
  intro _
  apply Built.step_bind .skipLineBreaks
  intro _
  apply Built.bind (readParameters_built nestedBuilt)
  intro parameters parameters' sameParameters
  apply Built.bind_same (.consume .closeParen)
  intro _
  apply Built.bind_same (.consume .colon)
  intro _
  apply Built.bind (nestedBuilt .operand .operand rfl)
  intro returnType returnType' sameReturn
  apply node_built
  simp only [TypeForm.bare, CallableParameter.bareAll_eq_map, sameIdentifier, sameParameters,
    sameReturn]

theorem readShapeItem_built (nestedBuilt : GoalsBuilt nested) :
    Built ShapeItem.bare (readShapeItem nested) (readShapeItem nested) := by
  apply Built.step_bind (.look _)
  intro start
  apply Built.attempt_bind readShapeLabel_built
  · rintro ⟨key, isOptional⟩ ⟨key', isOptional'⟩ sameLabel
    obtain ⟨sameKey, sameMark⟩ := Prod.mk.inj sameLabel
    obtain rfl : isOptional = isOptional' := sameMark
    apply Built.bind (nestedBuilt _ _ rfl)
    intro value value' same
    exact .positioned start fun _ _ => by
      simp only [ShapeItem.bare, Option.map_some, sameKey, same]
  · intro error
    apply Built.bind (nestedBuilt _ _ rfl)
    intro value value' same
    exact .positioned start fun _ _ => by simp only [ShapeItem.bare, same]

theorem readShapeEntry_built (nestedBuilt : GoalsBuilt nested) :
    Built (Round.map ShapeItem.bare) (readShapeEntry nested) (readShapeEntry nested) := by
  apply Built.step_bind .skipLineBreaks
  intro _
  apply Built.step_bind (.accept .closeCurly)
  intro isClosed
  apply Built.ite (.pure rfl)
  apply Built.step_bind (.accept .variadic)
  intro isOpen
  apply Built.ite
  · apply Built.step_bind .skipLineBreaks
    intro _
    apply Built.step_bind (.accept .comma)
    intro _
    apply Built.step_bind .skipLineBreaks
    intro _
    apply Built.bind_same (.consume .closeCurly)
    intro _
    exact .pure rfl
  · apply Built.bind (readShapeItem_built nestedBuilt)
    intro item item' same
    exact .pure (congrArg Round.item same)

theorem nextEntry_built (nestedBuilt : GoalsBuilt nested) :
    Built (Round.map ShapeItem.bare) (nextEntry nested) (nextEntry nested) := by
  apply Built.step_bind .skipLineBreaks
  intro _
  apply Built.step_bind (.accept .comma)
  intro more
  apply Built.ite (readShapeEntry_built nestedBuilt)
  apply Built.bind_same (.consume .closeCurly)
  intro _
  exact .pure rfl

theorem readShape_built (nestedBuilt : GoalsBuilt nested) (kind : ShapeKind) (start : Nat) :
    Built bare (readShape nested kind start) (readShape nested kind start) := by
  apply Built.bind_same (.consume .openCurly)
  intro _
  apply Built.bind (readShapeEntry_built nestedBuilt)
  intro entry entry' sameEntry
  obtain ⟨first, first', rfl, rfl, sameFirst⟩ | ⟨closed, rfl, rfl⟩ :=
    Round.cases_of_map_eq sameEntry
  · apply Built.bind (.gather (nextEntry_built nestedBuilt))
    rintro ⟨rest, closed⟩ ⟨rest', closed'⟩ sameRest
    obtain ⟨sameItems, sameClosed⟩ := Prod.mk.inj sameRest
    obtain rfl : closed = closed' := sameClosed
    apply node_built
    simp only [TypeForm.bare, ShapeItem.bareAll_eq_map, List.map_cons, sameFirst, sameItems]
  · exact node_built rfl start

theorem readNameTail_built (nestedBuilt : GoalsBuilt nested) (name : String)
    {identifier identifier' : TypeExpr} (same : identifier.bare = identifier'.bare)
    (start : Nat) :
    Built bare (readNameTail nested name identifier start)
      (readNameTail nested name identifier' start) := by
  apply Built.step_bind (.look _)
  intro isGeneric
  apply Built.ite (readGeneric_built nestedBuilt same start)
  apply Built.step_bind (.look _)
  intro isCallable
  apply Built.ite
  · apply Built.attempt_bind (readCallable_built nestedBuilt same start)
    · intro callable callable' sameCallable
      exact .pure sameCallable
    · intro error
      exact .pure same
  split
  · exact .pure same
  · apply Built.step_bind (.look _)
    intro isShape
    apply Built.ite _ (.pure same)
    apply Built.step_bind (.look _)
    intro spaced
    exact .ite (.pure same) (readShape_built nestedBuilt _ start)

theorem readIdentifier_built (nestedBuilt : GoalsBuilt nested) :
    Built bare (readIdentifier nested) (readIdentifier nested) := by
  apply Built.step_bind (.look _)
  intro start
  apply Built.push_bind
  apply BuiltHolding.step_bind (.look _)
  intro token
  apply BuiltHolding.step_bind .advance
  intro _
  apply BuiltHolding.step_bind (.look _)
  intro isConstant
  apply BuiltHolding.ite
  · exact .rollback_bind readConstant_built
  · apply BuiltHolding.drop_bind
    apply Built.bind (node_built rfl start)
    intro identifier identifier' same
    exact readNameTail_built nestedBuilt _ same start

theorem readSubject_built (nestedBuilt : GoalsBuilt nested) :
    Built bare (readSubject nested) (readSubject nested) := by
  apply Built.step_bind (.look _)
  intro start
  apply Built.bind (nestedBuilt (.union true) (.union true) rfl)
  intro subject subject' same
  apply Built.step_bind (.look _)
  intro isSubject
  apply Built.ite _ (.pure same)
  apply nestedBuilt
  simp only [Goal.bare, ConditionalSubject.bare, same]

theorem readCondition_built (nestedBuilt : GoalsBuilt nested)
    {subject subject' : ConditionalSubject} (sameSubject : subject.bare = subject'.bare)
    (start : Nat) :
    Built bare (readCondition nested subject start) (readCondition nested subject' start) := by
  apply Built.bind_same (.consumeValue .identifier "is")
  intro _
  apply Built.bind_same (.acceptWord .identifier "not")
  intro negated
  apply Built.bind (nestedBuilt (.union true) (.union true) rfl)
  intro target target' sameTarget
  apply Built.step_bind .skipLineBreaks
  intro _
  apply Built.bind_same (.consume .nullable)
  intro _
  apply Built.step_bind .skipLineBreaks
  intro _
  apply Built.bind (nestedBuilt (.union true) (.union true) rfl)
  intro ifType ifType' sameIf
  apply Built.step_bind .skipLineBreaks
  intro _
  apply Built.bind_same (.consume .colon)
  intro _
  apply Built.step_bind .skipLineBreaks
  intro _
  apply Built.bind (readSubject_built nestedBuilt)
  intro elseType elseType' sameElse
  apply node_built
  simp only [TypeForm.bare, sameSubject, sameTarget, sameIf, sameElse]

theorem readEnclosed_built (nestedBuilt : GoalsBuilt nested) :
    Built bare (readEnclosed nested) (readEnclosed nested) := by
  apply Built.step_bind (.look _)
  intro isNamed
  apply Built.ite _ (readSubject_built nestedBuilt)
  apply Built.step_bind (.look _)
  intro start
  apply Built.bind_same (.consume .namedVariable)
  intro token
  exact nestedBuilt _ _ rfl

theorem readParenthesized_built (nestedBuilt : GoalsBuilt nested) :
    Built bare (readParenthesized nested) (readParenthesized nested) := by
  apply Built.bind_same (.consume .openParen)
  intro _
  apply Built.step_bind .skipLineBreaks
  intro _
  apply Built.bind (readEnclosed_built nestedBuilt)
  intro type type' same
  apply Built.step_bind .skipLineBreaks
  intro _
  apply Built.bind_same (.consume .closeParen)
  intro _
  exact .pure same

theorem readPrimary_built (nestedBuilt : GoalsBuilt nested) :
    Built bare (readPrimary nested) (readPrimary nested) := by
  apply Built.step_bind (.look _)
  intro token
  unfold readPrimaryAt
  split
  · exact readParenthesized_built nestedBuilt
  · apply Built.step_bind (.look _)
    intro start
    apply Built.step_bind .advance
    intro _
    exact node_built rfl start
  · exact readIdentifier_built nestedBuilt
  · exact readConstant_built

theorem readAtomic_built (nestedBuilt : GoalsBuilt nested) :
    Built bare (readAtomic nested) (readAtomic nested) := by
  apply Built.step_bind (.look _)
  intro start
  apply Built.bind (readPrimary_built nestedBuilt)
  intro primary primary' same
  apply Built.bind (.many (readArraySuffix_built start))
  intro suffixes suffixes' sameCount
  exact .pure (bare_foldl_array suffixes suffixes' sameCount same)

theorem readOperand_built (nestedBuilt : GoalsBuilt nested) :
    Built bare (readOperand nested) (readOperand nested) := by
  apply Built.step_bind (.look _)
  intro start
  apply Built.step_bind (.accept .nullable)
  intro isNullable
  apply Built.ite _ (readAtomic_built nestedBuilt)
  apply Built.bind (readAtomic_built nestedBuilt)
  intro inner inner' same
  exact node_built (by simp only [TypeForm.bare, same]) start

theorem readUnion_built (nestedBuilt : GoalsBuilt nested) (multiline : Bool) :
    Built bare (readGoal nested (.union multiline)) (readGoal nested (.union multiline)) := by
  apply chain_built
  · apply chain_built (readOperand_built nestedBuilt)
    intro operands operands' same
    simp only [TypeForm.bare, bareAll_eq_map, same]
  · intro operands operands' same
    simp only [TypeForm.bare, bareAll_eq_map, same]

theorem readGoal_built (nestedBuilt : GoalsBuilt nested) : GoalsBuilt (readGoal nested) := by
  intro goal goal' same
  cases goal with
  | union multiline =>
      cases goal' with
      | union multiline' =>
          obtain rfl : multiline = multiline' := Goal.union.inj same
          exact readUnion_built nestedBuilt multiline
      | operand => cases same
      | condition subject' start' => cases same
  | operand =>
      cases goal' with
      | union multiline' => cases same
      | operand => exact readOperand_built nestedBuilt
      | condition subject' start' => cases same
  | condition subject start =>
      cases goal' with
      | union multiline' => cases same
      | operand => cases same
      | condition subject' start' =>
          obtain ⟨sameSubject, rfl⟩ := Goal.condition.inj same
          exact readCondition_built nestedBuilt sameSubject start

end Nested

theorem goalWithin_built (depth : Nat) : GoalsBuilt (goalWithin depth) := by
  induction depth with
  | zero => exact fun _ _ _ => .expecting .identifier
  | succ depth induction => exact readGoal_built induction

theorem goal_built : GoalsBuilt goal := by
  intro wanted wanted' same
  apply Built.step_bind (.look _)
  intro bound
  exact goalWithin_built (bound + 1) wanted wanted' same

theorem parser_built : Built bare TypeExpr.parser TypeExpr.parser :=
  goal_built (.union false) (.union false) rfl

theorem genericParser_built : Built bare genericParser genericParser := by
  apply Built.step_bind (.look _)
  intro start
  apply Built.bind_same (.consume .identifier)
  intro name
  apply Built.bind (node_built rfl start)
  intro base base' same
  exact readGeneric_built goal_built same start

end Docblock.TypeExpr
