import Docblock.Attributes

/-!
# Constant expressions

Literals, arrays, constants and negations.  A literal keeps the text with which
it was written, so a number prints with its own base and grouping and a keyword
with its own letter case.
-/

namespace Docblock

/-- The kinds of literals. -/
inductive LiteralKind
  | integer
  | float
  | string
  | trueWord
  | falseWord
  | nullWord
  deriving DecidableEq, Repr

mutual

/-- A constant expression: its form and its attributes. -/
structure ConstExpr where
  form : ConstForm
  attributes : Attributes

/-- The forms of constant expressions. -/
inductive ConstForm
  /-- A literal as it was written. -/
  | literal (kind : LiteralKind) (lexeme : String)
  /-- An array, in brackets or in the long spelling. -/
  | array (items : List ConstItem) (long : Bool)
  /-- A constant of a class, whose name may have wildcards, or a global one. -/
  | fetch (className : Option String) (name : String)
  | minus (operand : ConstExpr)

/-- An entry of an array. -/
structure ConstItem where
  key : Option ConstExpr
  value : ConstExpr
  attributes : Attributes

end

instance : Inhabited ConstExpr := ⟨⟨.literal .nullWord "null", .empty⟩⟩

mutual

/-- Equality of expressions, attributes aside. -/
def ConstExpr.same : ConstExpr → ConstExpr → Bool
  | ⟨first, _⟩, ⟨second, _⟩ => first.same second

/-- Equality of forms, attributes aside. -/
def ConstForm.same : ConstForm → ConstForm → Bool
  | .literal kind lexeme, .literal kind' lexeme' => kind == kind' && lexeme == lexeme'
  | .array items long, .array items' long' => ConstItem.sameAll items items' && long == long'
  | .fetch className name, .fetch className' name' => className == className' && name == name'
  | .minus operand, .minus operand' => operand.same operand'
  | _, _ => false

/-- Equality of entries, attributes aside. -/
def ConstItem.same : ConstItem → ConstItem → Bool
  | ⟨none, value, _⟩, ⟨none, value', _⟩ => value.same value'
  | ⟨some key, value, _⟩, ⟨some key', value', _⟩ => key.same key' && value.same value'
  | _, _ => false

/-- Equality of lists of entries, attributes aside. -/
def ConstItem.sameAll : List ConstItem → List ConstItem → Bool
  | [], [] => true
  | item :: rest, item' :: rest' => item.same item' && ConstItem.sameAll rest rest'
  | _, _ => false

end

instance : BEq ConstExpr := ⟨ConstExpr.same⟩

instance : BEq ConstItem := ⟨ConstItem.same⟩

namespace ConstExpr

/-- Whether an expression is an array. -/
def isArray (expr : ConstExpr) : Bool :=
  match expr.form with
  | .array _ _ => true
  | _ => false

/-- Whether an expression is a number literal, whose text may start with a sign. -/
def isNumber (expr : ConstExpr) : Bool :=
  match expr.form with
  | .literal .integer _ => true
  | .literal .float _ => true
  | _ => false

end ConstExpr

mutual

/-- The printed form of an expression. -/
def ConstExpr.print : ConstExpr → String
  | ⟨form, _⟩ => form.print

/-- The printed form of a form.  A minus sign keeps its distance from a number,
because the two together would be read as one negative number. -/
def ConstForm.print : ConstForm → String
  | .literal _ lexeme => lexeme
  | .array items true => "array(" ++ String.intercalate ", " (ConstItem.printAll items) ++ ")"
  | .array items false => "[" ++ String.intercalate ", " (ConstItem.printAll items) ++ "]"
  | .fetch (some className) name => className ++ "::" ++ name
  | .fetch none name => name
  | .minus operand =>
      if operand.isNumber then "- " ++ operand.print else "-" ++ operand.print

/-- The printed form of an entry. -/
def ConstItem.print : ConstItem → String
  | ⟨none, value, _⟩ => value.print
  | ⟨some key, value, _⟩ => key.print ++ " => " ++ value.print

/-- The printed forms of a list of entries. -/
def ConstItem.printAll : List ConstItem → List String
  | [] => []
  | item :: rest => item.print :: ConstItem.printAll rest

end

end Docblock
