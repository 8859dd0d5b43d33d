import Docblock.Prose
import Docblock.TagValue
import Docblock.TypeExpr.Grammar

/-!
# Reading the values of tags

The name of a tag selects the rule for its value.  A value must reach to the end
of its line; when its rule fails, the text is read again as free text and kept
together with the error, so that an error in one tag never reaches the others.
-/

namespace Docblock

/-- The rules for values of tags. -/
inductive TagRule
  | var
  | param
  | typed (role : TypedRole)
  | deprecated
  | property
  | method
  | template
  | typeAlias
  | imported
  deriving DecidableEq, Repr

namespace TagRule

/-- The tag names that have a rule of their own. -/
def table : List (String × TagRule) :=
  [("@param", param), ("@phpstan-param", param), ("@psalm-param", param),
    ("@var", var), ("@phpstan-var", var), ("@psalm-var", var),
    ("@return", typed .returned), ("@phpstan-return", typed .returned),
    ("@psalm-return", typed .returned),
    ("@throws", typed .thrown), ("@phpstan-throws", typed .thrown),
    ("@mixin", typed .mixin),
    ("@deprecated", deprecated),
    ("@property", property), ("@property-read", property), ("@property-write", property),
    ("@phpstan-property", property), ("@phpstan-property-read", property),
    ("@phpstan-property-write", property),
    ("@psalm-property", property), ("@psalm-property-read", property),
    ("@psalm-property-write", property),
    ("@method", method), ("@phpstan-method", method), ("@psalm-method", method),
    ("@template", template), ("@template-covariant", template),
    ("@template-contravariant", template),
    ("@phpstan-template", template), ("@phpstan-template-covariant", template),
    ("@phpstan-template-contravariant", template),
    ("@psalm-template", template), ("@psalm-template-covariant", template),
    ("@psalm-template-contravariant", template),
    ("@extends", typed .parent), ("@phpstan-extends", typed .parent),
    ("@template-extends", typed .parent),
    ("@implements", typed .interface), ("@phpstan-implements", typed .interface),
    ("@template-implements", typed .interface),
    ("@use", typed .trait), ("@uses", typed .trait), ("@phpstan-use", typed .trait),
    ("@template-use", typed .trait),
    ("@phpstan-type", typeAlias), ("@psalm-type", typeAlias),
    ("@phpstan-import-type", imported), ("@psalm-import-type", imported)]

/-- The rule that a tag name selects, its at sign included. -/
def ofName? (name : String) : Option TagRule := table.lookup name

end TagRule

namespace TagValue

open Docblock.Parser

/-- The name of a variable, which must be there. -/
def readVariableName : Parser String := do
  let token ← consume .namedVariable
  pure (TypeExpr.variableName token)

/-- A type, a variable that may be absent, and a description. -/
def readVar : Parser VarTag := do
  let type ← TypeExpr.parser
  let variableName ← TypeExpr.readVariableName?
  let description ← Prose.parser
  pure ⟨type, variableName, description, .empty⟩

/-- A type, a parameter with its marks, and a description. -/
def readParam : Parser ParamTag := do
  let type ← TypeExpr.parser
  let isReference ← accept .reference
  let isVariadic ← accept .variadic
  let name ← readVariableName
  let description ← Prose.parser
  pure ⟨type, isReference, isVariadic, name, description, .empty⟩

/-- The type in the given role.  What is extended, implemented or used must be a
generic type. -/
def readRoleType : TypedRole → Parser TypeExpr
  | .returned | .thrown | .mixin => TypeExpr.parser
  | .parent | .interface | .trait => TypeExpr.genericParser

/-- A type with a description. -/
def readTyped (role : TypedRole) : Parser TypedTag := do
  let type ← readRoleType role
  let description ← Prose.parser
  pure ⟨type, description, .empty⟩

/-- A type, a property, and a description. -/
def readProperty : Parser PropertyTag := do
  let type ← TypeExpr.parser
  let name ← readVariableName
  let description ← Prose.parser
  pure ⟨type, name, description, .empty⟩

/-- The kinds of tokens with which a parameter without type starts. -/
def untypedStarts : KindSet := .ofList [.reference, .variadic, .namedVariable]

/-- The type of a parameter of a method, which may be absent. -/
def readParameterType? : Parser (Option TypeExpr) := do
  if ← isAtAny untypedStarts then pure none
  else
    let type ← TypeExpr.parser
    pure (some type)

/-- The default value of a parameter of a method, which may be absent. -/
def readDefaultValue? : Parser (Option ConstExpr) := do
  if ← accept .equal then
    let expr ← ConstExpr.parser
    pure (some expr)
  else pure none

/-- A parameter of a method: its type and its default value may be absent. -/
def readMethodParameter : Parser MethodParameter := do
  let start ← mark
  let type ← readParameterType?
  let isReference ← accept .reference
  let isVariadic ← accept .variadic
  let name ← readVariableName
  let default ← readDefaultValue?
  pure ⟨type, isReference, isVariadic, name, default, ← positionsSince start⟩

/-- The next parameter of a method, behind a comma. -/
def nextParameter : Parser (Option MethodParameter) := do
  if ← accept .comma then
    let next ← readMethodParameter
    pure (some next)
  else pure none

/-- The parameters of a method up to the closing parenthesis. -/
def readMethodParameterList : Parser (List MethodParameter) := do
  if ← isAt .closeParen then pure []
  else
    let first ← readMethodParameter
    let rest ← many nextParameter
    pure (first :: rest)

/-- The parameters of a method with their parentheses. -/
def readMethodParameters : Parser (List MethodParameter) := do
  let _ ← consume .openParen
  let parameters ← readMethodParameterList
  let _ ← consume .closeParen
  pure parameters

/-- The word `static` as a type, if it is next. -/
def readStatic? : Parser (Option TypeExpr) := do
  let start ← mark
  if ← acceptWord .identifier "static" then
    let type ← TypeExpr.node (.identifier "static") start
    pure (some type)
  else pure none

/-- The return type and the name of a method behind the word `static`, if that is
there.  A single identifier is the name, and then the word is the return type. -/
def readTypeAndName (static : Option TypeExpr) :
    Parser (Bool × Option TypeExpr × String) := do
  let typeOrName ← TypeExpr.parser
  if ← isAt .identifier then
    let name ← consume .identifier
    pure (static.isSome, some typeOrName, name)
  else
    match typeOrName.identifierName? with
    | some name => pure (false, static, name)
    | none => expecting .identifier

/-- What stands in front of the parameters of a method: whether it is static, its
return type and its name. -/
def readMethodHead : Parser (Bool × Option TypeExpr × String) := do
  let static ← readStatic?
  readTypeAndName static

/-- A method: what stands in front of its parameters, the parameters, and a
description. -/
def readMethod : Parser MethodTag := do
  let (isStatic, returnType, name) ← readMethodHead
  let parameters ← readMethodParameters
  let description ← Prose.parser
  pure ⟨isStatic, returnType, name, parameters, description, .empty⟩

/-- The bound of a type variable behind one of the two words for it. -/
def readBound : Parser (Option TypeExpr) := do
  if ← acceptValue "of" then
    let type ← TypeExpr.parser
    pure (some type)
  else if ← acceptValue "as" then
    let type ← TypeExpr.parser
    pure (some type)
  else pure none

/-- The default type of a type variable, which may be absent. -/
def readDefaultType? : Parser (Option TypeExpr) := do
  if ← accept .equal then
    let type ← TypeExpr.parser
    pure (some type)
  else pure none

/-- A type variable, its bound and its default type, and a description. -/
def readTemplate : Parser TemplateTag := do
  let name ← consume .identifier
  let bound ← readBound
  let default ← readDefaultType?
  let description ← Prose.parser
  pure ⟨name, bound, default, description, .empty⟩

/-- A new name and its type; an equals sign may stand between them. -/
def readAlias : Parser AliasTag := do
  let name ← consume .identifier
  let _ ← accept .equal
  let type ← TypeExpr.parser
  pure ⟨name, type, .empty⟩

/-- The name that a type taken over from a class has here, if it has one of its own. -/
def readLocalName? : Parser (Option String) := do
  if ← acceptWord .identifier "as" then
    let chosen ← consume .identifier
    pure (some chosen)
  else pure none

/-- A name, the class that it is taken from, and the name that it has here. -/
def readImport : Parser ImportTag := do
  let name ← consume .identifier
  consumeValue .identifier "from"
  let start ← mark
  let className ← consume .identifier
  let source ← TypeExpr.node (.identifier className) start
  let localName ← readLocalName?
  pure ⟨name, source, localName, .empty⟩

/-- The value that a rule describes. -/
def readRule : TagRule → Parser TagValue
  | .var => do
      let value ← readVar
      pure (.var value)
  | .param => do
      let value ← readParam
      pure (.param value)
  | .typed role => do
      let value ← readTyped role
      pure (.typed role value)
  | .deprecated => do
      let text ← Prose.parser
      pure (.deprecated ⟨text, .empty⟩)
  | .property => do
      let value ← readProperty
      pure (.property value)
  | .method => do
      let value ← readMethod
      pure (.method value)
  | .template => do
      let value ← readTemplate
      pure (.template value)
  | .typeAlias => do
      let value ← readAlias
      pure (.typeAlias value)
  | .imported => do
      let value ← readImport
      pure (.imported value)

/-- The value that a rule describes, up to the end of the line. -/
def readWholeRule (rule : TagRule) : Parser TagValue := do
  let value ← readRule rule
  if ← isAtAny Prose.lineEnds then pure value else expecting .lineBreak

/-- Reads the value of the tag with the given name. -/
def parser (name : String) : Parser TagValue := do
  let start ← mark
  match TagRule.ofName? name with
  | none =>
      let text ← Prose.parser
      pure (.generic ⟨text, ← positionsSince start⟩)
  | some rule =>
      match ← attempt (readWholeRule rule) with
      | .ok value =>
          let attributes ← positionsSince start
          pure (value.withAttributes attributes)
      | .error error =>
          let text ← Prose.parser
          let attributes ← positionsSince start
          pure (.invalid ⟨text, error.message,
            attributes.set Attributes.errorKey (.error error)⟩)

end TagValue

end Docblock
