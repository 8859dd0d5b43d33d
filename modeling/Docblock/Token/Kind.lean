/-!
# Kinds of tokens

A documentation comment is cut into tokens of 34 kinds.  Spacing and line
breaks are kinds of their own, so that the values of the tokens of a text
always add up to that text.  This file lists the kinds in their fixed order,
with the two names under which they appear in output: the bare name used when
tokens are listed, and the wording used in error messages.
-/

namespace Docblock

/-- The kinds of tokens, in their fixed order. -/
inductive TokenKind
  /-- An ampersand in front of a parameter. -/
  | reference
  | union
  /-- An ampersand between two types. -/
  | intersection
  | nullable
  | minus
  | openParen
  | closeParen
  | openAngle
  | closeAngle
  | openSquare
  | closeSquare
  | openCurly
  | closeCurly
  | comma
  | variadic
  | doubleColon
  | doubleArrow
  | equal
  | colon
  /-- The marker that opens a comment. -/
  | openDoc
  /-- The marker that closes a comment. -/
  | closeDoc
  /-- A tag name with its at sign. -/
  | tag
  /-- A line feed together with the star gutter of the line it starts. -/
  | lineBreak
  | float
  | integer
  | singleQuoted
  | doubleQuoted
  | identifier
  /-- The variable that stands for the current object. -/
  | thisVariable
  | namedVariable
  /-- A run of spaces and tabs. -/
  | blank
  | wildcard
  /-- Text that no other rule accepts. -/
  | other
  /-- The end of the input. -/
  | finish
  deriving DecidableEq, Repr, Inhabited

namespace TokenKind

/-- All kinds, in their fixed order. -/
def all : List TokenKind :=
  [reference, union, intersection, nullable, minus, openParen, closeParen,
    openAngle, closeAngle, openSquare, closeSquare, openCurly, closeCurly,
    comma, variadic, doubleColon, doubleArrow, equal, colon, openDoc,
    closeDoc, tag, lineBreak, float, integer, singleQuoted, doubleQuoted,
    identifier, thisVariable, namedVariable, blank, wildcard, other, finish]

/-- The number of kinds. -/
def count : Nat := all.length

/-- The position of a kind in the fixed order. -/
def index (kind : TokenKind) : Nat := all.idxOf kind

/-- The bare name of a kind. -/
def name : TokenKind → String
  | reference => "Reference"
  | union => "Union"
  | intersection => "Intersection"
  | nullable => "Nullable"
  | minus => "Minus"
  | openParen => "OpenParen"
  | closeParen => "CloseParen"
  | openAngle => "OpenAngle"
  | closeAngle => "CloseAngle"
  | openSquare => "OpenSquare"
  | closeSquare => "CloseSquare"
  | openCurly => "OpenCurly"
  | closeCurly => "CloseCurly"
  | comma => "Comma"
  | variadic => "Variadic"
  | doubleColon => "DoubleColon"
  | doubleArrow => "DoubleArrow"
  | equal => "Equal"
  | colon => "Colon"
  | openDoc => "OpenPhpDoc"
  | closeDoc => "ClosePhpDoc"
  | tag => "PhpDocTag"
  | lineBreak => "PhpDocEol"
  | float => "Float"
  | integer => "Integer"
  | singleQuoted => "SingleQuotedString"
  | doubleQuoted => "DoubleQuotedString"
  | identifier => "Identifier"
  | thisVariable => "ThisVariable"
  | namedVariable => "Variable"
  | blank => "HorizontalWhitespace"
  | wildcard => "Wildcard"
  | other => "Other"
  | finish => "End"

/-- The kind with the given bare name. -/
def ofName? (text : String) : Option TokenKind :=
  all.find? fun kind => kind.name == text

/-- The wording of a kind in error messages. -/
def displayName : TokenKind → String
  | reference => "`&`"
  | union => "`|`"
  | intersection => "`&`"
  | nullable => "`?`"
  | minus => "`-`"
  | openParen => "`(`"
  | closeParen => "`)`"
  | openAngle => "`<`"
  | closeAngle => "`>`"
  | openSquare => "`[`"
  | closeSquare => "`]`"
  | openCurly => "`\x7b`"
  | closeCurly => "`\x7d`"
  | comma => "`,`"
  | variadic => "`...`"
  | doubleColon => "`::`"
  | doubleArrow => "`=>`"
  | equal => "`=`"
  | colon => "`:`"
  | openDoc => "`/**`"
  | closeDoc => "`*/`"
  | tag => "tag"
  | lineBreak => "end of line"
  | float => "float"
  | integer => "integer"
  | singleQuoted => "string"
  | doubleQuoted => "string"
  | identifier => "type"
  | thisVariable => "`$this`"
  | namedVariable => "variable"
  | blank => "whitespace"
  | wildcard => "`*`"
  | other => "text"
  | finish => "end of input"

/-- Spacing: a blank or a line break. -/
def isTrivia : TokenKind → Bool
  | blank | lineBreak => true
  | _ => false

theorem mem_all (kind : TokenKind) : kind ∈ all := by
  cases kind <;> decide

theorem index_lt_count (kind : TokenKind) : kind.index < count := by
  cases kind <;> decide

theorem index_injective {first second : TokenKind}
    (same : first.index = second.index) : first = second := by
  revert same
  cases first <;> cases second <;> decide

theorem ofName?_name (kind : TokenKind) : ofName? kind.name = some kind := by
  cases kind <;> decide

end TokenKind

end Docblock
