import Docblock.Text.Spacing
import Docblock.Token.Number

/-!
# Lexemes

The first character of a text decides which rule applies to it, and each rule
takes the longest piece of text that it accepts.  Where no rule accepts the
text, a run of characters up to the next space character or the next close
marker is taken as it stands, so every text that is not empty starts with a
lexeme.
-/

namespace Docblock

/-- The piece of text at the start of a text that is not empty: its kind, and
the number of characters that it has after the first one. -/
structure Lexeme where
  kind : TokenKind
  extra : Nat
  deriving DecidableEq, Repr

namespace Lexeme

open Text

/-- A letter, an underscore or any character outside ASCII starts a name. -/
def isNameStart (char : Char) : Bool :=
  char.isAlpha || char = '_' || 0x80 ≤ char.toNat

/-- A name of a variable goes on with these characters. -/
def isVariablePart (char : Char) : Bool :=
  isNameStart char || char.isDigit

/-- A segment of an identifier may also contain hyphens. -/
def isNamePart (char : Char) : Bool :=
  isVariablePart char || char = '-'

/-- The characters of a tag name behind its first letter. -/
def isTagPart (char : Char) : Bool :=
  char.isAlphanum || char = '-' || char = '\\'

/-- A carriage return or a line feed. -/
def isLineEnd (char : Char) : Bool :=
  char = '\r' || char = '\n'

/-- The length of the longest run of characters that satisfy `keep`. -/
def runLength (keep : Char → Bool) (text : List Char) : Nat :=
  (text.takeWhile keep).length

/-- The length of the longest continuation of an identifier: characters of the
current segment, and backslashes that open a new one. -/
def nameTail : List Char → Nat
  | [] => 0
  | char :: rest =>
      if isNamePart char then nameTail rest + 1
      else if char = '\\' then
        match rest with
        | [] => 0
        | start :: others => if isNameStart start then nameTail others + 2 else 0
      else 0

/-- The length of a quoted text behind its opening quote, the closing quote
included.  A backslash takes the next character with it, and a quoted text ends
before its line does. -/
def quotedTail? (quote : Char) : List Char → Option Nat
  | [] => none
  | char :: rest =>
      if char = quote then some 1
      else if isLineEnd char then none
      else if char = '\\' then
        match rest with
        | [] => none
        | escaped :: others =>
            if isLineEnd escaped then none
            else (quotedTail? quote others).map (· + 2)
      else (quotedTail? quote rest).map (· + 1)

/-- Whether a text starts with the close marker. -/
def startsWithClose : List Char → Bool
  | '*' :: '/' :: _ => true
  | _ => false

/-- The length of the run up to the next space character or close marker. -/
def otherTail : List Char → Nat
  | [] => 0
  | char :: rest =>
      if isSpace char || startsWithClose (char :: rest) then 0 else otherTail rest + 1

/-- The length of the spacing behind a line feed, with the star of the gutter
unless that star belongs to a close marker. -/
def gutter (text : List Char) : Nat :=
  let spacing := runLength isBlank text
  let rest := text.drop spacing
  if rest.head? = some '*' ∧ startsWithClose rest = false then spacing + 1 else spacing

/-- Whether the text behind a dollar sign spells `this`, in any letter case, and
no longer name. -/
def spellsThis (text : List Char) : Bool :=
  (text.take 4).map Char.toLower = ['t', 'h', 'i', 's'] &&
    !(text.drop 4).head?.any isVariablePart

/-- An ampersand marks a reference when a parameter, an ellipsis, an equals
sign, a comma or a closing parenthesis follows, and an intersection otherwise. -/
def ampersandKind (text : List Char) : TokenKind :=
  match text.dropWhile isSpace with
  | [] => .intersection
  | next :: rest =>
      if next = '.' || next = ',' || next = '=' || next = ')' then .reference
      else if next = '$' && !spellsThis rest then .reference
      else .intersection

/-- The lexeme behind a dollar sign: a name of a variable. -/
def dollar? (text : List Char) : Option Lexeme :=
  if text.head?.any isNameStart then
    let size := runLength isVariablePart text
    if (text.take size).map Char.toLower = ['t', 'h', 'i', 's'] then some ⟨.thisVariable, size⟩
    else some ⟨.namedVariable, size⟩
  else none

/-- The kind of a character that is a lexeme wherever it stands. -/
def punctuation? (char : Char) : Option TokenKind :=
  match char with
  | '|' => some .union
  | '?' => some .nullable
  | '(' => some .openParen
  | ')' => some .closeParen
  | '<' => some .openAngle
  | '>' => some .closeAngle
  | '[' => some .openSquare
  | ']' => some .closeSquare
  | '\x7b' => some .openCurly
  | '\x7d' => some .closeCurly
  | ',' => some .comma
  | _ => none

/-- The number at the start of a text that is not empty, as a lexeme. -/
def number? (first : Char) (rest : List Char) : Option Lexeme :=
  (Number.scan? false (first :: rest)).map fun found => ⟨found.1, found.2 - 1⟩

/-- The lexeme behind a minus sign: a negative number or the sign alone. -/
def minus (text : List Char) : Lexeme :=
  match Number.scan? true text with
  | some found => ⟨found.1, found.2⟩
  | none => ⟨.minus, 0⟩

/-- The lexeme that one of the rules finds at `first :: rest`. -/
def rule? (first : Char) (rest : List Char) : Option Lexeme :=
  if isBlank first then some ⟨.blank, runLength isBlank rest⟩
  else if isNameStart first then some ⟨.identifier, nameTail rest⟩
  else if first.isDigit then number? first rest
  else
    match first with
    | '\n' => some ⟨.lineBreak, gutter rest⟩
    | '\r' =>
        match rest with
        | '\n' :: others => some ⟨.lineBreak, 1 + gutter others⟩
        | _ => none
    | '&' => some ⟨ampersandKind rest, 0⟩
    | '-' => some (minus rest)
    | '.' =>
        match rest with
        | '.' :: '.' :: _ => some ⟨.variadic, 2⟩
        | _ => number? first rest
    | ':' => if rest.head? = some ':' then some ⟨.doubleColon, 1⟩ else some ⟨.colon, 0⟩
    | '=' => if rest.head? = some '>' then some ⟨.doubleArrow, 1⟩ else some ⟨.equal, 0⟩
    | '*' => if rest.head? = some '/' then some ⟨.closeDoc, 1⟩ else some ⟨.wildcard, 0⟩
    | '/' =>
        match rest with
        | '*' :: '*' :: next :: _ => if isSpace next then some ⟨.openDoc, 2⟩ else none
        | _ => none
    | '@' =>
        if rest.head?.any Char.isAlpha then some ⟨.tag, runLength isTagPart rest⟩ else none
    | '$' => dollar? rest
    | '\\' =>
        match rest with
        | start :: others =>
            if isNameStart start then some ⟨.identifier, 1 + nameTail others⟩ else none
        | [] => none
    | '\x27' => (quotedTail? first rest).map fun size => ⟨.singleQuoted, size⟩
    | '\x22' => (quotedTail? first rest).map fun size => ⟨.doubleQuoted, size⟩
    | _ => (punctuation? first).map fun kind => ⟨kind, 0⟩

/-- The lexeme at `first :: rest`. -/
def first (char : Char) (rest : List Char) : Lexeme :=
  match rule? char rest with
  | some lexeme => lexeme
  | none => ⟨.other, if isSpace char then 0 else otherTail rest⟩

end Lexeme

end Docblock
