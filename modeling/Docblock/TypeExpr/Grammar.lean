import Docblock.ConstExpr.Grammar
import Docblock.TypeExpr

/-!
# Reading type expressions

```text
type         = intersection { "|" intersection }
intersection = operand { "&" operand }
operand      = [ "?" ] atomic
atomic       = primary { "[" "]" }
primary      = "(" inner ")" | "$this" | constant
             | identifier [ generic | callable | shape ]
inner        = "$parameter" condition | type [ condition ]
condition    = "is" [ "not" ] type "?" type ":" type [ condition ]
```

Line breaks may stand inside brackets and, where the brackets are parentheses,
also in front of an operator.  The rules refer to each other only behind a token
that they have read; the places where they do so are the *goals*, and the parser
for all goals is the limit of a sequence of parsers each of which reads nested
goals with its predecessor.
-/

namespace Docblock.TypeExpr

open Docblock.Parser

/-- The parts of a type expression that other parts are made of. -/
inductive Goal
  /-- A union, or what is left of one without its operator; `multiline` lets line
  breaks stand in front of and behind operators. -/
  | union (multiline : Bool)
  /-- What may stand between operators. -/
  | operand
  /-- The rest of a conditional type behind its subject, which started at token
  `start`. -/
  | condition (subject : ConditionalSubject) (start : Nat)

/-- The name of a variable without its dollar sign. -/
def variableName (token : String) : String :=
  match token.toList with
  | '$' :: name => String.ofList name
  | _ => token

/-- A node with the given form that started at token `start`. -/
def node (form : TypeForm) (start : Nat) : Parser TypeExpr := do
  pure ⟨form, ← positionsSince start⟩

/-- Whether the cursor is at an operator.  Line breaks in front of it are passed
over if `multiline` allows it and the operator follows them. -/
def isAtOperator (operator : TokenKind) (multiline : Bool) : Parser Bool := do
  if ← isAt operator then pure true
  else if !multiline then pure false
  else if !(← isAt .lineBreak) then pure false
  else
    push
    skipLineBreaks
    if ← isAt operator then
      drop
      pure true
    else
      rollback
      pure false

/-- Forward over line breaks, if they may stand here. -/
def skipLineBreaksIf (multiline : Bool) : Parser Unit :=
  if multiline then skipLineBreaks else pure ()

/-- The next operand, with the operator in front of it. -/
def nextOperand (operator : TokenKind) (multiline : Bool) (operand : Parser TypeExpr) :
    Parser (Option TypeExpr) := do
  if ← isAtOperator operator multiline then
    advance
    skipLineBreaksIf multiline
    let next ← operand
    pure (some next)
  else pure none

/-- Operands with an operator between them; a single operand stays as it is. -/
def chain (operator : TokenKind) (combine : List TypeExpr → TypeForm)
    (multiline : Bool) (operand : Parser TypeExpr) : Parser TypeExpr := do
  let start ← mark
  let first ← operand
  let rest ← many (nextOperand operator multiline operand)
  if rest.isEmpty then pure first else node (combine (first :: rest)) start

/-- The next item behind a comma; a comma may follow the last item. -/
def nextSeparated {α : Type} (item : Parser α) (close : TokenKind) : Parser (Option α) := do
  if ← accept .comma then
    skipLineBreaks
    if ← isAt close then pure none
    else
      let next ← item
      skipLineBreaks
      pure (some next)
  else pure none

/-- Items separated by commas, with line breaks around them. -/
def commaSeparated {α : Type} (item : Parser α) (close : TokenKind) : Parser (List α) := do
  let first ← item
  skipLineBreaks
  let rest ← many (nextSeparated item close)
  pure (first :: rest)

/-- The kinds of tokens with which a constant in the place of a type starts. -/
def constantStarts : KindSet :=
  .ofList [.integer, .float, .singleQuoted, .doubleQuoted, .minus, .identifier]

/-- A constant in the place of a type. -/
def readConstant : Parser TypeExpr := do
  if ← isAtAny constantStarts then
    let start ← mark
    let expr ← ConstExpr.parser
    node (.constant expr) start
  else expecting .identifier

/-- The arguments of a generic type with the given base. -/
def readGeneric (nested : Goal → Parser TypeExpr) (base : TypeExpr) (start : Nat) :
    Parser TypeExpr := do
  let _ ← consume .openAngle
  skipLineBreaks
  let arguments ← commaSeparated (nested (.union false)) .closeAngle
  let _ ← consume .closeAngle
  node (.generic base arguments) start

/-- The name of a variable, which may be absent. -/
def readVariableName? : Parser (Option String) := do
  if ← isAt .namedVariable then
    let token ← consume .namedVariable
    pure (some (variableName token))
  else pure none

/-- A parameter of a callable type. -/
def readParameter (nested : Goal → Parser TypeExpr) : Parser CallableParameter := do
  let start ← mark
  let type ← nested (.union false)
  let isReference ← accept .reference
  let isVariadic ← accept .variadic
  let name ← readVariableName?
  let isOptional ← accept .equal
  pure ⟨type, isReference, isVariadic, name, isOptional, ← positionsSince start⟩

/-- The parameters of a callable type, up to the closing parenthesis. -/
def readParameters (nested : Goal → Parser TypeExpr) : Parser (List CallableParameter) := do
  if ← isAt .closeParen then pure []
  else commaSeparated (readParameter nested) .closeParen

/-- The parameters and the return type of a callable type. -/
def readCallable (nested : Goal → Parser TypeExpr) (identifier : TypeExpr) (start : Nat) :
    Parser TypeExpr := do
  let _ ← consume .openParen
  skipLineBreaks
  let parameters ← readParameters nested
  let _ ← consume .closeParen
  let _ ← consume .colon
  let returnType ← nested .operand
  node (.callable identifier parameters returnType) start

/-- The key of an item of a shape. -/
def readShapeKey : Parser ShapeKey := do
  let start ← mark
  let token ← current
  match token.kind with
  | .integer =>
      advance
      pure (.constant ⟨.literal .integer token.value, ← positionsSince start⟩)
  | .singleQuoted | .doubleQuoted =>
      advance
      pure (.constant ⟨.literal .string token.value, ← positionsSince start⟩)
  | .identifier =>
      advance
      pure (.name token.value)
  | _ => expecting .identifier

/-- The key of an item of a shape, whether it is marked as optional, and the colon. -/
def readShapeLabel : Parser (ShapeKey × Bool) := do
  let key ← readShapeKey
  let isOptional ← accept .nullable
  let _ ← consume .colon
  pure (key, isOptional)

/-- An item of a shape.  What does not start with a key is a type alone. -/
def readShapeItem (nested : Goal → Parser TypeExpr) : Parser ShapeItem := do
  let start ← mark
  match ← attempt readShapeLabel with
  | .ok (key, isOptional) =>
      let value ← nested (.union false)
      pure ⟨some key, isOptional, value, ← positionsSince start⟩
  | .error _ =>
      let value ← nested (.union false)
      pure ⟨none, false, value, ← positionsSince start⟩

/-- An item of a shape, or its end.  The end tells whether the shape is closed. -/
def readShapeEntry (nested : Goal → Parser TypeExpr) : Parser (Round ShapeItem Bool) := do
  skipLineBreaks
  if ← accept .closeCurly then pure (.done true)
  else if ← accept .variadic then
    skipLineBreaks
    let _ ← accept .comma
    skipLineBreaks
    let _ ← consume .closeCurly
    pure (.done false)
  else
    let item ← readShapeItem nested
    pure (.item item)

/-- What stands behind an item of a shape: a comma and the next item, or the end. -/
def nextEntry (nested : Goal → Parser TypeExpr) : Parser (Round ShapeItem Bool) := do
  skipLineBreaks
  if ← accept .comma then readShapeEntry nested
  else
    let _ ← consume .closeCurly
    pure (.done true)

/-- A shape behind its opening word. -/
def readShape (nested : Goal → Parser TypeExpr) (kind : ShapeKind) (start : Nat) :
    Parser TypeExpr := do
  let _ ← consume .openCurly
  match ← readShapeEntry nested with
  | .done closed => node (.shape kind [] closed) start
  | .item first =>
      let rest ← gather (nextEntry nested)
      node (.shape kind (first :: rest.1) rest.2) start

/-- What follows an identifier that starts a type.  In front of a parenthesis that
does not open the parameters of a callable it stands for itself. -/
def readNameTail (nested : Goal → Parser TypeExpr) (name : String) (identifier : TypeExpr)
    (start : Nat) : Parser TypeExpr := do
  if ← isAt .openAngle then readGeneric nested identifier start
  else if ← isAt .openParen then
    match ← attempt (readCallable nested identifier start) with
    | .ok callable => pure callable
    | .error _ => pure identifier
  else
    match ShapeKind.ofWord? name with
    | none => pure identifier
    | some kind =>
        if ← isAt .openCurly then
          if ← isAfterBlank then pure identifier else readShape nested kind start
        else pure identifier

/-- A type that starts with an identifier.  An identifier in front of a double
colon starts a class constant. -/
def readIdentifier (nested : Goal → Parser TypeExpr) : Parser TypeExpr := do
  let start ← mark
  push
  let name := (← current).value
  advance
  if ← isAt .doubleColon then
    rollback
    readConstant
  else
    drop
    let identifier ← node (.identifier name) start
    readNameTail nested name identifier start

/-- Whether the word that opens a condition is next. -/
def isAtCondition : Parser Bool := isAtWord .identifier "is"

/-- A type, and the conditional type of which it turns out to be the subject. -/
def readSubject (nested : Goal → Parser TypeExpr) : Parser TypeExpr := do
  let start ← mark
  let subject ← nested (.union true)
  if ← isAtCondition then nested (.condition (.type subject) start)
  else pure subject

/-- The rest of a conditional type behind its subject. -/
def readCondition (nested : Goal → Parser TypeExpr) (subject : ConditionalSubject)
    (start : Nat) : Parser TypeExpr := do
  consumeValue .identifier "is"
  let negated ← acceptWord .identifier "not"
  let target ← nested (.union true)
  skipLineBreaks
  let _ ← consume .nullable
  skipLineBreaks
  let ifType ← nested (.union true)
  skipLineBreaks
  let _ ← consume .colon
  skipLineBreaks
  let elseType ← readSubject nested
  node (.conditional subject negated target ifType elseType) start

/-- What may stand in parentheses: a conditional type about a parameter, or a type
that may be the subject of one. -/
def readEnclosed (nested : Goal → Parser TypeExpr) : Parser TypeExpr := do
  if ← isAt .namedVariable then
    let start ← mark
    let token ← consume .namedVariable
    nested (.condition (.parameter (variableName token)) start)
  else readSubject nested

/-- A type or a conditional type in parentheses. -/
def readParenthesized (nested : Goal → Parser TypeExpr) : Parser TypeExpr := do
  let _ ← consume .openParen
  skipLineBreaks
  let type ← readEnclosed nested
  skipLineBreaks
  let _ ← consume .closeParen
  pure type

/-- A pair of square brackets behind a type that started at token `start`: the
attributes of the array type that it makes. -/
def readArraySuffix (start : Nat) : Parser (Option Attributes) := do
  if ← isAt .openSquare then
    push
    advance
    if ← accept .closeSquare then
      drop
      let attributes ← positionsSince start
      pure (some attributes)
    else
      rollback
      pure none
  else pure none

/-- A type without operators and array brackets whose first token has the given
kind. -/
def readPrimaryAt (nested : Goal → Parser TypeExpr) : TokenKind → Parser TypeExpr
  | .openParen => readParenthesized nested
  | .thisVariable => do
      let start ← mark
      advance
      node .this start
  | .identifier => readIdentifier nested
  | _ => readConstant

/-- A type without operators and array brackets. -/
def readPrimary (nested : Goal → Parser TypeExpr) : Parser TypeExpr := do
  readPrimaryAt nested (← current).kind

/-- A type that no operator divides. -/
def readAtomic (nested : Goal → Parser TypeExpr) : Parser TypeExpr := do
  let start ← mark
  let primary ← readPrimary nested
  let suffixes ← many (readArraySuffix start)
  pure (suffixes.foldl (fun inner attributes => ⟨.array inner, attributes⟩) primary)

/-- What may stand between operators.  A question mark applies to the type right
behind it. -/
def readOperand (nested : Goal → Parser TypeExpr) : Parser TypeExpr := do
  let start ← mark
  if ← accept .nullable then
    let inner ← readAtomic nested
    node (.nullable inner) start
  else readAtomic nested

/-- The rule for each goal. -/
def readGoal (nested : Goal → Parser TypeExpr) : Goal → Parser TypeExpr
  | .union multiline =>
      chain .union .union multiline
        (chain .intersection .intersection multiline (readOperand nested))
  | .operand => readOperand nested
  | .condition subject start => readCondition nested subject start

/-- Goals with at most `depth` levels of nesting. -/
def goalWithin : Nat → Goal → Parser TypeExpr
  | 0, _ => expecting .identifier
  | depth + 1, goal => readGoal (goalWithin depth) goal

/-- Reads one goal. -/
def goal (wanted : Goal) : Parser TypeExpr := do
  let bound ← look Cursor.remaining
  goalWithin (bound + 1) wanted

/-- Reads one type expression. -/
def parser : Parser TypeExpr := goal (.union false)

/-- Reads a generic type: an identifier with its arguments. -/
def genericParser : Parser TypeExpr := do
  let start ← mark
  let name ← consume .identifier
  let base ← node (.identifier name) start
  readGeneric goal base start

/-- Reads the rest of the input as a type.  If it is no type, its text is kept
together with the error. -/
def lenientParser : Parser TypeExpr := do
  let start ← mark
  match ← attempt (toEnd parser) with
  | .ok type => pure type
  | .error error =>
      let rest ← look (·.tokensFrom start)
      move Cursor.fastForward
      let raw := Text.trimEnd Text.isWhiteSpace (TokenList.text rest)
      let attributes ← positionsSince start
      pure ⟨.invalid raw error.message, attributes.set Attributes.errorKey (.error error)⟩

end Docblock.TypeExpr
