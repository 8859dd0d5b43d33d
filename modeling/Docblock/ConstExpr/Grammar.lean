import Docblock.ConstExpr
import Docblock.Parser
import Docblock.Text.Spacing

/-!
# Reading constant expressions

The parser for a constant expression is the limit of a sequence of parsers: each
of them reads the nested expressions with its predecessor.  A nested expression
starts behind at least one token of the expression around it, so the number of
remaining tokens tells which member of the sequence to use.
-/

namespace Docblock.ConstExpr

open Docblock.Parser

/-- The next part of the name of a class constant, if there is one: a token of the
kind `next`, directly behind the part in front of it. -/
def nextNamePart (next : TokenKind) : Parser (Option String) := do
  if ← isAfterBlank then pure none
  else if ← isAt next then
    let value ← consume next
    pure (some (if next = .identifier then value else "*"))
  else pure none

/-- The further parts of the name of a class constant: identifiers and wildcards
alternate, and `next` may come next. -/
def readNameParts : Nat → TokenKind → Parser String
  | 0, _ => pure ""
  | fuel + 1, next => do
      match ← nextNamePart next with
      | some part =>
          let rest ← readNameParts fuel (if next = .identifier then .wildcard else .identifier)
          pure (part ++ rest)
      | none => pure ""

/-- The name of a class constant: an identifier, a wildcard, or a mixture. -/
def readConstantName : Parser String := do
  let bound ← look Cursor.remaining
  if ← isAt .identifier then
    let value ← consume .identifier
    let rest ← readNameParts bound .wildcard
    pure (value ++ rest)
  else if ← accept .wildcard then
    let rest ← readNameParts bound .identifier
    pure ("*" ++ rest)
  else expecting .wildcard

/-- An entry of an array. -/
def readItem (nested : Parser ConstExpr) : Parser ConstItem := do
  let start ← mark
  let first ← nested
  if ← accept .doubleArrow then
    let value ← nested
    pure ⟨some first, value, ← positionsSince start⟩
  else
    pure ⟨none, first, ← positionsSince start⟩

/-- The next entry of an array, or the end of the array; a comma may follow the last
entry. -/
def nextItem (nested : Parser ConstExpr) (close : TokenKind) : Parser (Option ConstItem) := do
  if ← accept .comma then
    if ← accept close then pure none
    else
      let next ← readItem nested
      pure (some next)
  else
    let _ ← consume close
    pure none

/-- The entries of an array up to `close`. -/
def readItems (nested : Parser ConstExpr) (close : TokenKind) : Parser (List ConstItem) := do
  if ← accept close then pure []
  else
    let first ← readItem nested
    let rest ← many (nextItem nested close)
    pure (first :: rest)

/-- A constant that starts with an identifier: a class constant, a keyword, an
array in the long spelling, or a global constant. -/
def readNamed (nested : Parser ConstExpr) : Parser ConstForm := do
  let name ← consume .identifier
  if ← accept .doubleColon then
    let constant ← readConstantName
    pure (.fetch (some name) constant)
  else
    let word := Text.lowercase name
    if word = "true" then pure (.literal .trueWord name)
    else if word = "false" then pure (.literal .falseWord name)
    else if word = "null" then pure (.literal .nullWord name)
    else if word = "array" then
      if ← accept .openParen then
        let entries ← readItems nested .closeParen
        pure (.array entries true)
      else pure (.fetch none name)
    else pure (.fetch none name)

/-- The form of an expression whose first token has the given kind. -/
def readFormAt (nested : Parser ConstExpr) : TokenKind → Parser ConstForm
  | .integer => do
      let lexeme ← consume .integer
      pure (.literal .integer lexeme)
  | .float => do
      let lexeme ← consume .float
      pure (.literal .float lexeme)
  | .singleQuoted => do
      let lexeme ← consume .singleQuoted
      pure (.literal .string lexeme)
  | .doubleQuoted => do
      let lexeme ← consume .doubleQuoted
      pure (.literal .string lexeme)
  | .minus => do
      advance
      let operand ← nested
      pure (.minus operand)
  | .openSquare => do
      advance
      let entries ← readItems nested .closeSquare
      pure (.array entries false)
  | .identifier => readNamed nested
  | _ => expecting .identifier

/-- The form of the expression at the cursor. -/
def readForm (nested : Parser ConstExpr) : Parser ConstForm := do
  readFormAt nested (← current).kind

/-- Expressions with at most `depth` levels of nesting. -/
def parserWithin : Nat → Parser ConstExpr
  | 0 => expecting .identifier
  | depth + 1 => do
      let start ← mark
      let form ← readForm (parserWithin depth)
      pure ⟨form, ← positionsSince start⟩

/-- Reads one constant expression. -/
def parser : Parser ConstExpr := do
  let bound ← look Cursor.remaining
  parserWithin (bound + 1)

end Docblock.ConstExpr
