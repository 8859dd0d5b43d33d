import Docblock.Proofs.Document.Sameness
import Docblock.Proofs.TypeExpr.Rules
import Docblock.TagValue.Grammar

/-!
# The rules for free text and for the values of tags are built from steps
-/

namespace Docblock

open Docblock.Parser

namespace Prose

theorem readLine_built : Built id readLine readLine := by
  apply Built.step_bind (.joinUntil lineEnds)
  intro line
  exact .pure rfl

theorem continues_built : Built id continues continues := by
  apply Built.step_bind (.look _)
  intro broken
  apply Built.ite _ (.pure rfl)
  apply Built.push_bind
  apply BuiltHolding.step_bind .advance
  intro _
  apply BuiltHolding.step_bind (.look _)
  intro ends
  apply BuiltHolding.ite
  · exact .rollback_bind (.pure rfl)
  · exact .drop_bind (.pure rfl)

theorem nextLine_built : Built id nextLine nextLine := by
  apply Built.bind_same continues_built
  intro more
  apply Built.ite _ (.pure rfl)
  apply Built.bind_same readLine_built
  intro line
  exact .pure rfl

theorem parser_built : Built id Prose.parser Prose.parser := by
  apply Built.step_bind (.look _)
  intro broken
  apply Built.ite (.pure rfl)
  apply Built.bind_same readLine_built
  intro first
  apply Built.bind_same (.many_same nextLine_built)
  intro rest
  exact .pure rfl

end Prose

namespace TagValue

theorem readVariableName_built : Built id readVariableName readVariableName := by
  apply Built.bind_same (.consume .namedVariable)
  intro token
  exact .pure rfl

theorem readVar_built : Built VarTag.bare readVar readVar := by
  apply Built.bind TypeExpr.parser_built
  intro type type' same
  apply Built.bind_same TypeExpr.readVariableName?_built
  intro variableName
  apply Built.bind_same Prose.parser_built
  intro description
  exact .pure (by simp only [VarTag.bare, same])

theorem readParam_built : Built ParamTag.bare readParam readParam := by
  apply Built.bind TypeExpr.parser_built
  intro type type' same
  apply Built.step_bind (.accept .reference)
  intro isReference
  apply Built.step_bind (.accept .variadic)
  intro isVariadic
  apply Built.bind_same readVariableName_built
  intro name
  apply Built.bind_same Prose.parser_built
  intro description
  exact .pure (by simp only [ParamTag.bare, same])

theorem readRoleType_built (role : TypedRole) :
    Built TypeExpr.bare (readRoleType role) (readRoleType role) := by
  cases role with
  | returned | thrown | mixin => exact TypeExpr.parser_built
  | parent | interface | trait => exact TypeExpr.genericParser_built

theorem readTyped_built (role : TypedRole) :
    Built TypedTag.bare (readTyped role) (readTyped role) := by
  apply Built.bind (readRoleType_built role)
  intro type type' same
  apply Built.bind_same Prose.parser_built
  intro description
  exact .pure (by simp only [TypedTag.bare, same])

theorem readProperty_built : Built PropertyTag.bare readProperty readProperty := by
  apply Built.bind TypeExpr.parser_built
  intro type type' same
  apply Built.bind_same readVariableName_built
  intro name
  apply Built.bind_same Prose.parser_built
  intro description
  exact .pure (by simp only [PropertyTag.bare, same])

theorem readParameterType?_built :
    Built (Option.map TypeExpr.bare) readParameterType? readParameterType? := by
  apply Built.step_bind (.look _)
  intro untyped
  apply Built.ite (.pure rfl)
  apply Built.bind TypeExpr.parser_built
  intro type type' same
  exact .pure (congrArg some same)

theorem readDefaultValue?_built :
    Built (Option.map ConstExpr.bare) readDefaultValue? readDefaultValue? := by
  apply Built.step_bind (.accept .equal)
  intro hasDefault
  apply Built.ite _ (.pure rfl)
  apply Built.bind ConstExpr.parser_built
  intro expr expr' same
  exact .pure (congrArg some same)

theorem readMethodParameter_built :
    Built MethodParameter.bare readMethodParameter readMethodParameter := by
  apply Built.step_bind (.look _)
  intro start
  apply Built.bind readParameterType?_built
  intro type type' sameType
  apply Built.step_bind (.accept .reference)
  intro isReference
  apply Built.step_bind (.accept .variadic)
  intro isVariadic
  apply Built.bind_same readVariableName_built
  intro name
  apply Built.bind readDefaultValue?_built
  intro default default' sameDefault
  exact .positioned start fun _ _ => by simp only [MethodParameter.bare, sameType, sameDefault]

theorem nextParameter_built :
    Built (Option.map MethodParameter.bare) nextParameter nextParameter := by
  apply Built.step_bind (.accept .comma)
  intro more
  apply Built.ite _ (.pure rfl)
  apply Built.bind readMethodParameter_built
  intro next next' same
  exact .pure (congrArg some same)

theorem readMethodParameterList_built :
    Built (List.map MethodParameter.bare) readMethodParameterList readMethodParameterList := by
  apply Built.step_bind (.look _)
  intro none
  apply Built.ite (.pure rfl)
  apply Built.bind readMethodParameter_built
  intro first first' sameFirst
  apply Built.bind (.many nextParameter_built)
  intro rest rest' sameRest
  exact .pure (by simp only [List.map_cons, sameFirst, sameRest])

theorem readMethodParameters_built :
    Built (List.map MethodParameter.bare) readMethodParameters readMethodParameters := by
  apply Built.bind_same (.consume .openParen)
  intro _
  apply Built.bind readMethodParameterList_built
  intro parameters parameters' same
  apply Built.bind_same (.consume .closeParen)
  intro _
  exact .pure same

theorem readStatic?_built : Built (Option.map TypeExpr.bare) readStatic? readStatic? := by
  apply Built.step_bind (.look _)
  intro start
  apply Built.bind_same (.acceptWord .identifier "static")
  intro isStatic
  apply Built.ite _ (.pure rfl)
  apply Built.bind (TypeExpr.node_built rfl start)
  intro type type' same
  exact .pure (congrArg some same)

/-- What a method starts with, without attributes. -/
def bareHead : Bool × Option TypeExpr × String → Bool × Option TypeExpr × String
  | (isStatic, returnType, name) => (isStatic, returnType.map TypeExpr.bare, name)

theorem readTypeAndName_built {static static' : Option TypeExpr}
    (sameStatic : static.map TypeExpr.bare = static'.map TypeExpr.bare) :
    Built bareHead (readTypeAndName static) (readTypeAndName static') := by
  apply Built.bind TypeExpr.parser_built
  intro type type' sameType
  apply Built.step_bind (.look _)
  intro isTyped
  apply Built.ite
  · have sameMark : static.isSome = static'.isSome := by
      simpa using congrArg Option.isSome sameStatic
    apply Built.bind_same (.consume .identifier)
    intro name
    exact .pure (by simp only [bareHead, sameMark, Option.map_some, sameType])
  · rw [← type.identifierName?_bare, sameType, type'.identifierName?_bare]
    split
    · exact .pure (by simp only [bareHead, sameStatic])
    · exact .expecting .identifier

theorem readMethodHead_built : Built bareHead readMethodHead readMethodHead := by
  apply Built.bind readStatic?_built
  intro static static' sameStatic
  exact readTypeAndName_built sameStatic

theorem readMethod_built : Built MethodTag.bare readMethod readMethod := by
  apply Built.bind readMethodHead_built
  rintro ⟨isStatic, returnType, name⟩ ⟨isStatic', returnType', name'⟩ sameHead
  apply Built.bind readMethodParameters_built
  intro parameters parameters' sameParameters
  apply Built.bind_same Prose.parser_built
  intro description
  simp only [bareHead, Prod.mk.injEq] at sameHead
  exact .pure (by simp only [MethodTag.bare, sameHead, sameParameters])

/-- A type behind a word or a sign that has been taken. -/
theorem some_type_built :
    Built (Option.map TypeExpr.bare) (TypeExpr.parser >>= fun type => pure (some type))
      (TypeExpr.parser >>= fun type => pure (some type)) := by
  apply Built.bind TypeExpr.parser_built
  intro type type' same
  exact .pure (congrArg some same)

theorem readBound_built : Built (Option.map TypeExpr.bare) readBound readBound := by
  apply Built.step_bind (.acceptValue "of")
  intro isOf
  apply Built.ite some_type_built
  apply Built.step_bind (.acceptValue "as")
  intro isAs
  exact .ite some_type_built (.pure rfl)

theorem readDefaultType?_built :
    Built (Option.map TypeExpr.bare) readDefaultType? readDefaultType? := by
  apply Built.step_bind (.accept .equal)
  intro hasDefault
  exact .ite some_type_built (.pure rfl)

theorem readTemplate_built : Built TemplateTag.bare readTemplate readTemplate := by
  apply Built.bind_same (.consume .identifier)
  intro name
  apply Built.bind readBound_built
  intro bound bound' sameBound
  apply Built.bind readDefaultType?_built
  intro default default' sameDefault
  apply Built.bind_same Prose.parser_built
  intro description
  exact .pure (by simp only [TemplateTag.bare, sameBound, sameDefault])

theorem readAlias_built : Built AliasTag.bare readAlias readAlias := by
  apply Built.bind_same (.consume .identifier)
  intro name
  apply Built.step_bind (.accept .equal)
  intro _
  apply Built.bind TypeExpr.parser_built
  intro type type' same
  exact .pure (by simp only [AliasTag.bare, same])

theorem readLocalName?_built : Built id readLocalName? readLocalName? := by
  apply Built.bind_same (.acceptWord .identifier "as")
  intro isNamed
  apply Built.ite _ (.pure rfl)
  apply Built.bind_same (.consume .identifier)
  intro chosen
  exact .pure rfl

theorem readImport_built : Built ImportTag.bare readImport readImport := by
  apply Built.bind_same (.consume .identifier)
  intro name
  apply Built.bind_same (.consumeValue .identifier "from")
  intro _
  apply Built.step_bind (.look _)
  intro start
  apply Built.bind_same (.consume .identifier)
  intro className
  apply Built.bind (TypeExpr.node_built rfl start)
  intro source source' same
  apply Built.bind_same readLocalName?_built
  intro localName
  exact .pure (by simp only [ImportTag.bare, same])

/-- A rule whose value becomes that of a tag. -/
theorem tagged_built {α : Type} {view : α → α} {rule : Parser α} {tag : α → TagValue}
    (ruleBuilt : Built view rule rule)
    (tagBare : ∀ value, (tag value).bare = tag (view value)) :
    Built bare (rule >>= fun value => pure (tag value)) (rule >>= fun value => pure (tag value)) := by
  apply Built.bind ruleBuilt
  intro value value' same
  exact .pure (by rw [tagBare, tagBare, same])

theorem readRule_built (rule : TagRule) : Built bare (readRule rule) (readRule rule) := by
  cases rule with
  | var => exact tagged_built readVar_built fun _ => rfl
  | param => exact tagged_built readParam_built fun _ => rfl
  | typed role => exact tagged_built (readTyped_built role) fun _ => rfl
  | deprecated =>
      apply Built.bind_same Prose.parser_built
      intro text
      exact .pure rfl
  | property => exact tagged_built readProperty_built fun _ => rfl
  | method => exact tagged_built readMethod_built fun _ => rfl
  | template => exact tagged_built readTemplate_built fun _ => rfl
  | typeAlias => exact tagged_built readAlias_built fun _ => rfl
  | imported => exact tagged_built readImport_built fun _ => rfl

theorem readWholeRule_built (rule : TagRule) :
    Built bare (readWholeRule rule) (readWholeRule rule) := by
  apply Built.bind (readRule_built rule)
  intro value value' same
  apply Built.step_bind (.look _)
  intro atEnd
  exact .ite (.pure same) (.expecting .lineBreak)

theorem parser_built (name : String) :
    Built bare (TagValue.parser name) (TagValue.parser name) := by
  apply Built.step_bind (.look _)
  intro start
  split
  · apply Built.bind_same Prose.parser_built
    intro text
    exact .positioned start fun _ _ => rfl
  -- The rule may have gone far ahead before it failed; free text is then read from the start.
  · apply Built.attempt_bind (readWholeRule_built _)
    · intro value value' same
      exact .positioned start fun _ _ => by rw [bare_withAttributes, bare_withAttributes, same]
    · intro error
      apply Built.bind_same Prose.parser_built
      intro text
      exact .positioned start fun _ _ => rfl

end TagValue

end Docblock
