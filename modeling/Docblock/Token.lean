import Docblock.Text.Quoted
import Docblock.Token.Kind

/-!
# Tokens and token lists

A token is a piece of source text with its kind and the line on which it
starts.  A list of tokens is sealed when it ends with the token that marks the
end of the input; sealing is what makes it possible to look at the current
token without asking whether there is one.
-/

namespace Docblock

/-- A piece of source text.  Lines are counted from one. -/
structure Token where
  kind : TokenKind
  value : String
  line : UInt32
  deriving DecidableEq, Repr, Inhabited

namespace Token

/-- The empty token at the end of the input. -/
def finish (line : UInt32) : Token := ⟨.finish, "", line⟩

/-- The length of the text in UTF-8 bytes. -/
def size (token : Token) : Nat := token.value.utf8ByteSize

/-- Whether the text is empty. -/
def isEmpty (token : Token) : Bool := token.size = 0

/-- The line of what follows the token: a line break starts a new one. -/
def nextLine (token : Token) : UInt32 :=
  if token.kind = .lineBreak then token.line + 1 else token.line

/-- A token in listings. -/
def describe (token : Token) : String :=
  token.kind.name ++ "(" ++ Text.quoted token.value ++ ") @ line " ++
    toString token.line.toNat

end Token

namespace TokenList

/-- Adds the end of the input unless the list already ends with it. -/
def sealed (tokens : List Token) : List Token :=
  match tokens.getLast? with
  | none => [Token.finish 1]
  | some last =>
      if last.kind = .finish then tokens
      else tokens ++ [Token.finish last.nextLine]

/-- The text from which the tokens were cut. -/
def text (tokens : List Token) : String :=
  String.join (tokens.map Token.value)

/-- The byte offset of each token, the first one starting at `start`. -/
def offsetsFrom (start : Nat) : List Token → List Nat
  | [] => []
  | token :: rest => start :: offsetsFrom (start + token.size) rest

/-- A list of tokens in listings. -/
def describe (tokens : List Token) : String :=
  "[" ++ String.intercalate ", " (tokens.map Token.describe) ++ "]"

/-- A sealed list is not empty. -/
theorem sealed_ne_nil (tokens : List Token) : sealed tokens ≠ [] := by
  unfold sealed
  split
  · simp
  · split
    · intro empty
      simp_all
    · simp

end TokenList

end Docblock
