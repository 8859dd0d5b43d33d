import Docblock.Attributes
import Docblock.Cursor
import Docblock.Tracking

/-!
# Parsers over a cursor

A parser reads tokens from a cursor and replies with a value or a failure, and
in both cases with the cursor where reading stopped.  A failure is either a
syntax error or the use of a save point that does not exist; the two are kept
apart because only the first is a property of the input.  Going back to an
earlier place is always done through save points.

Loops are written with a single combinator, `gather`, whose number of rounds is
bounded by the number of remaining tokens.
-/

namespace Docblock

/-- Why a parser stopped without a value. -/
inductive Failure
  | rejected (error : SyntaxError)
  | unbalanced (use : SavePointUse)
  deriving DecidableEq, Repr

/-- What a parser replies with: a value or a failure, and the cursor. -/
inductive Reply (α : Type)
  | ok (value : α) (cursor : Cursor)
  | failed (failure : Failure) (cursor : Cursor)

namespace Reply

/-- The cursor where reading stopped. -/
def cursor {α : Type} : Reply α → Cursor
  | ok _ cursor => cursor
  | failed _ cursor => cursor

/-- The value or the failure, without the cursor. -/
def result {α : Type} : Reply α → Except Failure α
  | ok value _ => .ok value
  | failed failure _ => .error failure

end Reply

/-- A parser: it knows which positions to record, and reads from a cursor. -/
def Parser (α : Type) : Type := Tracking → Cursor → Reply α

namespace Parser

variable {α β : Type}

/-- The parser that reads nothing and gives a value. -/
protected def pure (value : α) : Parser α := fun _ cursor => .ok value cursor

/-- One parser, then another that depends on the value of the first. -/
protected def bind (first : Parser α) (next : α → Parser β) : Parser β :=
  fun tracking cursor =>
    match first tracking cursor with
    | .ok value cursor => next value tracking cursor
    | .failed failure cursor => .failed failure cursor

instance : Monad Parser where
  pure := Parser.pure
  bind := Parser.bind

@[simp] theorem pure_apply (value : α) (tracking : Tracking) (cursor : Cursor) :
    (pure value : Parser α) tracking cursor = .ok value cursor := rfl

@[simp] theorem bind_apply (first : Parser α) (next : α → Parser β)
    (tracking : Tracking) (cursor : Cursor) :
    (first >>= next) tracking cursor =
      match first tracking cursor with
      | .ok value cursor => next value tracking cursor
      | .failed failure cursor => .failed failure cursor := rfl

/-- A view of the cursor. -/
def look (view : Cursor → α) : Parser α := fun _ cursor => .ok (view cursor) cursor

/-- A step of the cursor. -/
def move (step : Cursor → Cursor) : Parser Unit := fun _ cursor => .ok () (step cursor)

/-- A step of the cursor that gives a value. -/
def step (run : Cursor → α × Cursor) : Parser α := fun _ cursor =>
  let next := run cursor
  .ok next.1 next.2

/-- A use of the innermost save point. -/
def useSavePoint (use : Cursor → Except SavePointUse Cursor) : Parser Unit :=
  fun _ cursor =>
    match use cursor with
    | .ok next => .ok () next
    | .error missing => .failed (.unbalanced missing) cursor

/-- Stops at the current token because something else was expected. -/
def unexpected (expected : Expected) : Parser α := fun _ cursor =>
  .failed (.rejected (cursor.unexpected expected)) cursor

/-- Stops at the current token because another kind of token was expected. -/
def expecting (kind : TokenKind) : Parser α := unexpected ⟨kind, none⟩

/-- The current token. -/
def current : Parser Token := look Cursor.current

/-- The index of the current token, to be remembered as the start of a node. -/
def mark : Parser Nat := look Cursor.index

/-- Whether the current token has the given kind. -/
def isAt (kind : TokenKind) : Parser Bool := look (·.isAt kind)

/-- Whether the kind of the current token is in the set. -/
def isAtAny (kinds : KindSet) : Parser Bool := look (·.isAtAny kinds)

/-- Whether the current token has the given kind and text. -/
def isAtWord (kind : TokenKind) (value : String) : Parser Bool :=
  look fun cursor => cursor.isAt kind && cursor.isAtValue value

/-- Whether a blank stands directly in front of the cursor. -/
def isAfterBlank : Parser Bool := look Cursor.isAfterBlank

/-- One token forward. -/
def advance : Parser Unit := move Cursor.advance

/-- Forward over line breaks. -/
def skipLineBreaks : Parser Unit := move Cursor.skipLineBreaks

/-- Puts the current place on the stack of save points. -/
def push : Parser Unit := move Cursor.push

/-- Takes the innermost save point off the stack. -/
def drop : Parser Unit := useSavePoint Cursor.drop

/-- Goes back to the innermost save point and takes it off the stack. -/
def rollback : Parser Unit := useSavePoint Cursor.rollback

/-- The text of the tokens up to a stop. -/
def joinUntil (stops : KindSet) : Parser String := step (·.joinUntil stops)

/-- Takes a token of the given kind if there is one, and tells whether there was. -/
def accept (kind : TokenKind) : Parser Bool := step (·.accept kind)

/-- Takes a token of the given text if there is one, and tells whether there was. -/
def acceptValue (value : String) : Parser Bool := step (·.acceptValue value)

/-- Takes a token of the given kind and gives its text. -/
def consume (kind : TokenKind) : Parser String := fun _ cursor =>
  match cursor.consume kind with
  | .ok (value, next) => .ok value next
  | .error error => .failed (.rejected error) cursor

/-- Takes a token of the given kind and text. -/
def consumeValue (kind : TokenKind) (value : String) : Parser Unit := fun _ cursor =>
  match cursor.consumeValue kind value with
  | .ok next => .ok () next
  | .error error => .failed (.rejected error) cursor

/-- Takes a token of the given kind and text if there is one, and tells whether
there was. -/
def acceptWord (kind : TokenKind) (value : String) : Parser Bool := do
  if ← isAt kind then acceptValue value else pure false

/-- Succeeds only at the end of the input. -/
def expectFinish : Parser Unit := do
  if ← isAt .finish then pure () else expecting .finish

/-- The attributes of a fresh node that started at token `start` and ends in front
of the cursor. -/
def positionsSince (start : Nat) : Parser Attributes := fun tracking cursor =>
  let last := cursor.lastRelevant
  let withLines :=
    if tracking.lines then
      (Attributes.empty.set Attributes.startLine (.line (cursor.lineAt start))).set
        Attributes.endLine (.line (cursor.lineAt last))
    else Attributes.empty
  let withIndexes :=
    if tracking.indexes then
      (withLines.set Attributes.startIndex (.index start)).set
        Attributes.endIndex (.index last)
    else withLines
  .ok withIndexes cursor

/-- Runs a parser and gives its value or its syntax error; in the second case the
cursor is back where it was. -/
def attempt (body : Parser α) : Parser (Except SyntaxError α) := fun tracking cursor =>
  match body tracking cursor.push with
  | .ok value next => (drop >>= fun _ => pure (.ok value)) tracking next
  | .failed (.rejected error) next =>
      (rollback >>= fun _ => pure (.error error)) tracking next
  | .failed (.unbalanced use) next => .failed (.unbalanced use) next

/-- One round of a loop: a further item, or the end with a result. -/
inductive Round (α β : Type)
  | item (value : α)
  | done (result : β)

/-- At most `fuel` rounds of a loop; a loop that needs more stops at the current
token. -/
def gatherWithin (round : Parser (Round α β)) : Nat → Parser (List α × β)
  | 0 => expecting .finish
  | fuel + 1 => do
      match ← round with
      | .item value =>
          let rest ← gatherWithin round fuel
          pure (value :: rest.1, rest.2)
      | .done result => pure ([], result)

/-- Rounds of a loop until one is the last: the items, and the result of the last
round.  Every round that gives an item must take a token, so there are at most as
many of them as remaining tokens. -/
def gather (round : Parser (Round α β)) : Parser (List α × β) := do
  let bound ← look Cursor.remaining
  gatherWithin round (bound + 1)

/-- The round of a loop that ends when there is no further item. -/
def roundOf (item? : Parser (Option α)) : Parser (Round α Unit) := do
  match ← item? with
  | some value => pure (.item value)
  | none => pure (.done ())

/-- Items until there is none. -/
def many (item? : Parser (Option α)) : Parser (List α) := do
  let gathered ← gather (roundOf item?)
  pure gathered.1

/-- The value of a parser and of a check that the input ends behind it. -/
def toEnd (body : Parser α) : Parser α := do
  let value ← body
  expectFinish
  pure value

/-- Runs a parser on a list of tokens. -/
def run (body : Parser α) (tracking : Tracking) (tokens : List Token) : Reply α :=
  body tracking (Cursor.ofTokens tokens)

end Parser

end Docblock
