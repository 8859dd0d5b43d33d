import Docblock.Document.Grammar
import Docblock.Token.Scan

/-!
# Reading texts

The entry points of the library: a text or a list of tokens is read as a
documentation comment, as a type expression or as a constant expression.  Only a
comment may be followed by further text.
-/

namespace Docblock

namespace TypeExpr

/-- Reads tokens that must be exactly one type expression. -/
def ofTokens (tracking : Tracking) (tokens : List Token) : Except Failure TypeExpr :=
  ((Parser.toEnd parser).run tracking tokens).result

/-- Reads tokens as one type expression; what is no type is kept as it stands. -/
def ofTokensLenient (tracking : Tracking) (tokens : List Token) : Except Failure TypeExpr :=
  (lenientParser.run tracking tokens).result

/-- Reads a text that must be exactly one type expression. -/
def ofText (source : String) : Except Failure TypeExpr := ofTokens .off (tokenize source)

end TypeExpr

namespace ConstExpr

/-- Reads tokens that must be exactly one constant expression. -/
def ofTokens (tracking : Tracking) (tokens : List Token) : Except Failure ConstExpr :=
  ((Parser.toEnd parser).run tracking tokens).result

/-- Reads a text that must be exactly one constant expression. -/
def ofText (source : String) : Except Failure ConstExpr := ofTokens .off (tokenize source)

end ConstExpr

namespace Document

/-- Reads the documentation comment at the start of a list of tokens. -/
def ofTokens (tracking : Tracking) (tokens : List Token) : Except Failure Document :=
  (parser.run tracking tokens).result

/-- Reads the documentation comment at the start of a text. -/
def ofText (source : String) : Except Failure Document := ofTokens .off (tokenize source)

end Document

end Docblock
