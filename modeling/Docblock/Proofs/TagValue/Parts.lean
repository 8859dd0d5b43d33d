import Docblock.TagValue.Grammar

/-!
# Values of tags and their descriptions

A rule reads the parts of a value and then, unless it gives a type a name, a description.  The two
are taken apart here: what is said of the parts does not depend on the text behind them, and the
description is free text as it is read anywhere else.
-/

namespace Docblock

open Docblock.Parser

namespace Parser

variable {α β γ : Type}

theorem bind_assoc (first : Parser α) (second : α → Parser β) (third : β → Parser γ) :
    (first >>= second) >>= third = first >>= fun value => second value >>= third := by
  funext tracking cursor
  simp only [bind_apply]
  cases first tracking cursor <;> rfl

theorem pure_bind (value : α) (next : α → Parser β) : pure value >>= next = next value := rfl

end Parser

/-- Whether a description can follow the parts that the rule reads. -/
def TagRule.isDescribed : TagRule → Bool
  | .typeAlias => false
  | .imported => false
  | _ => true

namespace TagValue

/-- The value with the text as its description.  The text of a deprecated tag is its only part. -/
def describe (text : String) : TagValue → TagValue
  | var value => var { value with description := text }
  | param value => param { value with description := text }
  | typed role value => typed role { value with description := text }
  | deprecated value => deprecated { value with text }
  | property value => property { value with description := text }
  | method value => method { value with description := text }
  | template value => template { value with description := text }
  | value => value

/-- The parts that a rule describes, in front of the description. -/
def readParts : TagRule → Parser TagValue
  | .var => do
      let type ← TypeExpr.parser
      let variableName ← TypeExpr.readVariableName?
      pure (.var ⟨type, variableName, "", .empty⟩)
  | .param => do
      let type ← TypeExpr.parser
      let isReference ← accept .reference
      let isVariadic ← accept .variadic
      let name ← readVariableName
      pure (.param ⟨type, isReference, isVariadic, name, "", .empty⟩)
  | .typed role => do
      let type ← readRoleType role
      pure (.typed role ⟨type, "", .empty⟩)
  | .deprecated => pure (.deprecated ⟨"", .empty⟩)
  | .property => do
      let type ← TypeExpr.parser
      let name ← readVariableName
      pure (.property ⟨type, name, "", .empty⟩)
  | .method => do
      let (isStatic, returnType, name) ← readMethodHead
      let parameters ← readMethodParameters
      pure (.method ⟨isStatic, returnType, name, parameters, "", .empty⟩)
  | .template => do
      let name ← consume .identifier
      let bound ← readBound
      let default ← readDefaultType?
      pure (.template ⟨name, bound, default, "", .empty⟩)
  | .typeAlias => do
      let value ← readAlias
      pure (.typeAlias value)
  | .imported => do
      let value ← readImport
      pure (.imported value)

/-- The description behind the parts that a rule describes, if there is a place for one. -/
def readDescription (rule : TagRule) (parts : TagValue) : Parser TagValue :=
  if rule.isDescribed then do
    let text ← Prose.parser
    pure (parts.describe text)
  else pure parts

theorem readRule_eq (rule : TagRule) : readRule rule = readParts rule >>= readDescription rule := by
  cases rule <;>
    simp only [readRule, readParts, readDescription, readVar, readParam, readTyped, readProperty,
      readMethod, readTemplate, TagRule.isDescribed, describe, bind_assoc, pure_bind, if_true,
      Bool.false_eq_true, if_false]

theorem describe_describe (text text' : String) (value : TagValue) :
    (value.describe text).describe text' = value.describe text' := by
  cases value <;> rfl

end TagValue

end Docblock
