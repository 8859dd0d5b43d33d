import Docblock.SyntaxError
import Docblock.Token
import Docblock.Token.KindSet

/-!
# A cursor over tokens

The grammars read tokens through a cursor.  Every step forward also passes over
one blank, so that a grammar need not mention spacing; where spacing matters the
cursor can be asked what stands in front of it.  A stack of save points records
places to which reading can go back.  The cursor stays on the last token, which
marks the end of the input, once it has arrived there.
-/

namespace Docblock

/-- A place in a list of tokens, with the byte offset of every token and the
stack of save points, the innermost first. -/
structure Cursor where
  tokens : Array Token
  offsets : Array Nat
  index : Nat
  savePoints : List Nat
  deriving DecidableEq, Repr

/-- The operations that need a save point. -/
inductive SavePointUse
  | drop
  | rollback
  deriving DecidableEq, Repr

namespace SavePointUse

/-- The message when there is no save point to use. -/
def message : SavePointUse → String
  | drop => "drop_save_point without a save point: save point calls are unbalanced"
  | rollback => "rollback without a save point: save point calls are unbalanced"

end SavePointUse

namespace Cursor

/-- A cursor at the start of a list, behind one leading blank. -/
def ofTokens (tokens : List Token) : Cursor :=
  let all := TokenList.sealed tokens
  { tokens := all.toArray
    offsets := (TokenList.offsetsFrom 0 all).toArray
    index := if all.head?.any (·.kind = .blank) then 1 else 0
    savePoints := [] }

/-- The token at an index; beyond the last token stands an end of input. -/
def tokenAt (cursor : Cursor) (index : Nat) : Token :=
  cursor.tokens[index]?.getD (Token.finish 1)

/-- The current token. -/
def current (cursor : Cursor) : Token := cursor.tokenAt cursor.index

/-- The byte offset of the current token. -/
def offset (cursor : Cursor) : Nat := cursor.offsets[cursor.index]?.getD 0

/-- The number of tokens from the current one on. -/
def remaining (cursor : Cursor) : Nat := cursor.tokens.size - cursor.index

/-- The tokens from an index on. -/
def tokensFrom (cursor : Cursor) (index : Nat) : List Token :=
  (cursor.tokens.extract index cursor.tokens.size).toList

/-- The line of the token at an index, or of the last token beyond it. -/
def lineAt (cursor : Cursor) (index : Nat) : UInt32 :=
  match cursor.tokens[index]? with
  | some token => token.line
  | none => cursor.tokens.back?.elim 1 Token.line

/-- Whether the current token has the given kind. -/
def isAt (cursor : Cursor) (kind : TokenKind) : Bool :=
  cursor.current.kind = kind

/-- Whether the current token has the given text. -/
def isAtValue (cursor : Cursor) (value : String) : Bool :=
  cursor.current.value = value

/-- Whether the kind of the current token is in the set. -/
def isAtAny (cursor : Cursor) (kinds : KindSet) : Bool :=
  kinds.contains cursor.current.kind

/-- Whether a blank stands directly in front of the cursor. -/
def isAfterBlank (cursor : Cursor) : Bool :=
  match cursor.index with
  | 0 => false
  | before + 1 => (cursor.tokenAt before).kind = .blank

/-- The last index up to the given one, and above zero, whose token is not
spacing; zero if there is none. -/
def lastSolid (cursor : Cursor) : Nat → Nat
  | 0 => 0
  | index + 1 =>
      if (cursor.tokenAt (index + 1)).kind.isTrivia then cursor.lastSolid index
      else index + 1

/-- The index of the last token in front of the cursor that is not spacing. -/
def lastRelevant (cursor : Cursor) : Nat := cursor.lastSolid (cursor.index - 1)

/-- One token forward, and over one blank behind it. -/
def advance (cursor : Cursor) : Cursor :=
  let next := cursor.index + 1
  if cursor.tokens.size ≤ next then cursor
  else if (cursor.tokenAt next).kind = .blank ∧ next + 1 < cursor.tokens.size then
    { cursor with index := next + 1 }
  else { cursor with index := next }

/-- Forward to the last token. -/
def fastForward (cursor : Cursor) : Cursor :=
  { cursor with index := cursor.tokens.size - 1 }

/-- Forward over line breaks, for at most `fuel` steps. -/
def skipLineBreaksWithin : Nat → Cursor → Cursor
  | 0, cursor => cursor
  | fuel + 1, cursor =>
      if cursor.isAt .lineBreak then skipLineBreaksWithin fuel cursor.advance else cursor

/-- Forward over line breaks. -/
def skipLineBreaks (cursor : Cursor) : Cursor :=
  skipLineBreaksWithin cursor.remaining cursor

/-- At most `fuel` tokens from an index on, up to the first one whose kind is in
the set or that ends the input. -/
def runWithin (cursor : Cursor) (stops : KindSet) : Nat → Nat → List Token
  | 0, _ => []
  | fuel + 1, index =>
      let token := cursor.tokenAt index
      if (stops.insert .finish).contains token.kind then []
      else token :: cursor.runWithin stops fuel (index + 1)

/-- The tokens from the current one on, up to the first one whose kind is in the set
or that ends the input. -/
def run (cursor : Cursor) (stops : KindSet) : List Token :=
  cursor.runWithin stops cursor.remaining cursor.index

/-- The text of the tokens up to a stop, and the cursor at that stop.  No blank is
passed over. -/
def joinUntil (cursor : Cursor) (stops : KindSet) : String × Cursor :=
  let taken := cursor.run stops
  (TokenList.text taken, { cursor with index := cursor.index + taken.length })

/-- Puts the current place on the stack of save points. -/
def push (cursor : Cursor) : Cursor :=
  { cursor with savePoints := cursor.index :: cursor.savePoints }

/-- Takes the innermost save point off the stack and stays where it is. -/
def drop (cursor : Cursor) : Except SavePointUse Cursor :=
  match cursor.savePoints with
  | [] => .error .drop
  | _ :: outer => .ok { cursor with savePoints := outer }

/-- Takes the innermost save point off the stack and goes back to it. -/
def rollback (cursor : Cursor) : Except SavePointUse Cursor :=
  match cursor.savePoints with
  | [] => .error .rollback
  | index :: outer => .ok { cursor with index := index, savePoints := outer }

/-- The number of save points. -/
def depth (cursor : Cursor) : Nat := cursor.savePoints.length

/-- The error that the current token is not what was expected. -/
def unexpected (cursor : Cursor) (expected : Expected) : SyntaxError :=
  { foundValue := cursor.current.value
    foundKind := cursor.current.kind
    offset := cursor.offset
    line := cursor.current.line
    expected := expected }

/-- Takes a token of the given kind and gives its text. -/
def consume (cursor : Cursor) (kind : TokenKind) : Except SyntaxError (String × Cursor) :=
  if cursor.isAt kind then .ok (cursor.current.value, cursor.advance)
  else .error (cursor.unexpected ⟨kind, none⟩)

/-- Takes a token of the given kind and text. -/
def consumeValue (cursor : Cursor) (kind : TokenKind) (value : String) :
    Except SyntaxError Cursor :=
  if cursor.isAt kind && cursor.isAtValue value then .ok cursor.advance
  else .error (cursor.unexpected ⟨kind, some value⟩)

/-- Takes a token of the given kind if there is one, and tells whether there was. -/
def accept (cursor : Cursor) (kind : TokenKind) : Bool × Cursor :=
  if cursor.isAt kind then (true, cursor.advance) else (false, cursor)

/-- Takes a token of the given text if there is one, and tells whether there was. -/
def acceptValue (cursor : Cursor) (value : String) : Bool × Cursor :=
  if cursor.isAtValue value then (true, cursor.advance) else (false, cursor)

/-- The tokens from an index on are the token there and the tokens behind it. -/
theorem tokensFrom_of_lt (cursor : Cursor) {index : Nat}
    (inside : index < cursor.tokens.size) :
    cursor.tokensFrom index = cursor.tokenAt index :: cursor.tokensFrom (index + 1) := by
  simp only [tokensFrom, tokenAt, Array.toList_extract, List.extract_eq_take_drop]
  rw [Array.getElem?_eq_getElem inside, Option.getD_some]
  rw [List.take_of_length_le (by simp), List.take_of_length_le (by simp)]
  exact List.drop_eq_getElem_cons inside

/-- The run of tokens in front of a stop, in terms of the list of tokens. -/
theorem run_eq_takeWhile (cursor : Cursor) (stops : KindSet) :
    cursor.run stops =
      (cursor.tokensFrom cursor.index).takeWhile fun token =>
        !(stops.insert .finish).contains token.kind := by
  have general : ∀ fuel index, fuel = cursor.tokens.size - index →
      cursor.runWithin stops fuel index =
        (cursor.tokensFrom index).takeWhile fun token =>
          !(stops.insert .finish).contains token.kind := by
    intro fuel
    induction fuel with
    | zero =>
        intro index bound
        have empty : cursor.tokensFrom index = [] := by
          simp [tokensFrom]
          omega
        simp [runWithin, empty]
    | succ fuel induction =>
        intro index bound
        have inside : index < cursor.tokens.size := by omega
        rw [tokensFrom_of_lt cursor inside, List.takeWhile_cons]
        simp only [runWithin]
        rw [induction (index + 1) (by omega)]
        cases (stops.insert .finish).contains (cursor.tokenAt index).kind <;> simp
  exact general _ _ rfl

end Cursor

end Docblock
