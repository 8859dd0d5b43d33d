import Docblock.Token.Kind

/-!
# Numbers in source text

A number is a run of digits, in which a single underscore may stand between
two digits, with an optional fraction and an optional exponent; a zero may be
followed by a letter that selects binary, octal or hexadecimal digits.  The
functions of this file measure the number at the start of a text.

Three malformed endings are cut in a way of their own.  A trailing underscore
belongs to the number; a point in front of an exponent letter without digits
makes the number an integer that keeps the point; and whenever the digits of
such a number are a negative zero, or a negative zero is followed by a radix or
exponent letter without digits, what is cut off counts as a minus sign.
-/

namespace Docblock.Number

/-- A digit of a binary number. -/
def isBinaryDigit (char : Char) : Bool := char = '0' || char = '1'

/-- A digit of an octal number. -/
def isOctalDigit (char : Char) : Bool := '0' ≤ char && char ≤ '7'

/-- A digit of a hexadecimal number. -/
def isHexDigit (char : Char) : Bool :=
  char.isDigit || ('a' ≤ char && char ≤ 'f') || ('A' ≤ char && char ≤ 'F')

/-- The letter in front of an exponent. -/
def isExponentLetter (char : Char) : Bool := char = 'e' || char = 'E'

/-- The letters that can follow a zero inside a number. -/
def isZeroContinuation (char : Char) : Bool :=
  isExponentLetter char || char = 'x' || char = 'X' || char = 'b' || char = 'B' ||
    char = 'o' || char = 'O'

/-- The length of the longest continuation of a run of digits: digits, each with
at most one underscore in front of it. -/
def moreDigits (isDigit : Char → Bool) : List Char → Nat
  | [] => 0
  | char :: rest =>
      if isDigit char then moreDigits isDigit rest + 1
      else if char = '_' then
        match rest with
        | [] => 0
        | digit :: others =>
            if isDigit digit then moreDigits isDigit others + 2 else 0
      else 0

/-- The length of the longest run of digits at the start of a text. -/
def digits (isDigit : Char → Bool) : List Char → Nat
  | [] => 0
  | char :: rest => if isDigit char then moreDigits isDigit rest + 1 else 0

/-- The length of a marker in front of `count` digits, zero if there is no digit. -/
def marked (marker count : Nat) : Nat :=
  if count = 0 then 0 else marker + count

/-- The length of the exponent at the start of a text, zero if there is none. -/
def exponent : List Char → Nat
  | [] => 0
  | letter :: rest =>
      if isExponentLetter letter then
        match rest with
        | '-' :: others => marked 2 (digits Char.isDigit others)
        | others => marked 1 (digits Char.isDigit others)
      else 0

/-- The length of a radix letter and its digits, zero if there is none. -/
def radix : List Char → Nat
  | [] => 0
  | letter :: rest =>
      if letter = 'b' || letter = 'B' then marked 1 (digits isBinaryDigit rest)
      else if letter = 'o' || letter = 'O' then marked 1 (digits isOctalDigit rest)
      else if letter = 'x' || letter = 'X' then marked 1 (digits isHexDigit rest)
      else 0

/-- The kind and length of a number without whole part: a point, digits and an
optional exponent. -/
def fraction? : List Char → Option (TokenKind × Nat)
  | '.' :: rest =>
      let decimals := digits Char.isDigit rest
      if decimals = 0 then none
      else some (.float, 1 + decimals + exponent (rest.drop decimals))
  | _ => none

/-- The kind and length of a number behind its whole part of `whole` digits.
The kind `cut` is given to a malformed number. -/
def afterWhole (cut : TokenKind) (whole : Nat) : List Char → TokenKind × Nat
  | [] => (.integer, whole)
  | next :: rest =>
      if next = '.' then
        let decimals := digits Char.isDigit rest
        let power := exponent (rest.drop decimals)
        if decimals = 0 ∧ power = 0 ∧ rest.head?.any isExponentLetter then (cut, whole + 1)
        else (.float, whole + 1 + decimals + power)
      else if next = '_' then (cut, whole + 1)
      else
        let power := exponent (next :: rest)
        if power ≠ 0 then (.float, whole + power)
        else if isZeroContinuation next then (cut, whole)
        else (.integer, whole)

/-- The kind and length of the number at the start of a text; `negative` tells
that a minus sign stands in front of it. -/
def scan? (negative : Bool) (text : List Char) : Option (TokenKind × Nat) :=
  let whole := digits Char.isDigit text
  let rest := text.drop whole
  if whole = 0 then fraction? text
  else if text.take whole = ['0'] ∧ radix rest ≠ 0 then some (.integer, 1 + radix rest)
  else
    let cut := if negative ∧ text.take whole = ['0'] then .minus else .integer
    some (afterWhole cut whole rest)

end Docblock.Number
