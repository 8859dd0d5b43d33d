import Docblock.TypeExpr

/-!
# Printing type expressions

Operators bind with different strength: a union binds loosest, then an
intersection, then a nullable type or a callable type, which both extend to the
right, and everything else binds tightest.  An operand is put in parentheses when
it binds looser than its place requires.
-/

namespace Docblock

namespace TypeForm

/-- How tight a form binds; a higher number binds tighter. -/
def strength : TypeForm → Nat
  | union _ => 0
  | intersection _ => 1
  | nullable _ => 2
  | callable _ _ _ => 2
  | _ => 3

/-- Whether a form is a nullable type. -/
def isNullable : TypeForm → Bool
  | nullable _ => true
  | _ => false

end TypeForm

/-- A text in parentheses, if they are needed. -/
def parenthesizedIf (needed : Bool) (text : String) : String :=
  if needed then "(" ++ text ++ ")" else text

/-- The printed form of a key. -/
def ShapeKey.print : ShapeKey → String
  | .name text => text
  | .constant expr => expr.print

/-- The marks and the name behind the type of a parameter of a callable. -/
def parameterTail (isReference isVariadic : Bool) (name : Option String) : String :=
  if isReference || isVariadic || name.isSome then
    " " ++ (if isReference then "&" else "") ++ (if isVariadic then "..." else "") ++
      name.elim "" ("$" ++ ·)
  else ""

/-- The printed form of a shape from the printed forms of its items. -/
def printShape (kind : ShapeKind) (items : List String) (closed : Bool) : String :=
  let entries := if closed then items else items ++ ["..."]
  kind.word ++ "\x7b" ++ String.intercalate ", " entries ++ "\x7d"

mutual

/-- The printed form of a type expression. -/
def TypeExpr.print : TypeExpr → String
  | ⟨form, _⟩ => form.print

/-- The printed form of an operand in a place that requires strength `least`. -/
def TypeExpr.printOperand (least : Nat) : TypeExpr → String
  | ⟨form, _⟩ => parenthesizedIf (form.strength < least) form.print

/-- The printed form of a form.  Of two nested nullable types the inner one is put
in parentheses, because the marks may not stand next to each other. -/
def TypeForm.print : TypeForm → String
  | .identifier name => name
  | .this => "$this"
  | .nullable inner =>
      "?" ++ inner.printOperand (if inner.form.isNullable then 3 else 2)
  | .array inner => inner.printOperand 3 ++ "[]"
  | .generic base arguments =>
      base.print ++ "<" ++ String.intercalate ", " (TypeExpr.printOperands 0 arguments) ++ ">"
  | .union operands => String.intercalate "|" (TypeExpr.printOperands 1 operands)
  | .intersection operands => String.intercalate "&" (TypeExpr.printOperands 2 operands)
  | .callable identifier parameters returnType =>
      identifier.print ++ "(" ++ String.intercalate ", " (CallableParameter.printAll parameters) ++
        "): " ++ returnType.printOperand 2
  | .shape kind items closed => printShape kind (ShapeItem.printAll items) closed
  | .conditional subject negated target ifType elseType =>
      "(" ++ subject.print ++ (if negated then " is not " else " is ") ++ target.print ++
        " ? " ++ ifType.print ++ " : " ++ elseType.print ++ ")"
  | .constant expr => expr.print
  | .invalid raw _ => raw

/-- The printed forms of operands in places that require strength `least`. -/
def TypeExpr.printOperands (least : Nat) : List TypeExpr → List String
  | [] => []
  | operand :: rest => operand.printOperand least :: TypeExpr.printOperands least rest

/-- The printed form of a parameter. -/
def CallableParameter.print : CallableParameter → String
  | ⟨type, isReference, isVariadic, name, isOptional, _⟩ =>
      type.print ++ parameterTail isReference isVariadic name ++
        (if isOptional then "=" else "")

/-- The printed forms of parameters. -/
def CallableParameter.printAll : List CallableParameter → List String
  | [] => []
  | parameter :: rest => parameter.print :: CallableParameter.printAll rest

/-- The printed form of an item; only a key can be marked as optional. -/
def ShapeItem.print : ShapeItem → String
  | ⟨none, _, value, _⟩ => value.print
  | ⟨some key, isOptional, value, _⟩ =>
      key.print ++ (if isOptional then "?: " else ": ") ++ value.print

/-- The printed forms of items. -/
def ShapeItem.printAll : List ShapeItem → List String
  | [] => []
  | item :: rest => item.print :: ShapeItem.printAll rest

/-- The printed form of a subject. -/
def ConditionalSubject.print : ConditionalSubject → String
  | .type expr => expr.print
  | .parameter name => "$" ++ name

end

theorem TypeExpr.printOperand_eq (least : Nat) (type : TypeExpr) : type.printOperand least =
    parenthesizedIf (type.form.strength < least) type.print := by
  cases type
  rw [TypeExpr.printOperand, TypeExpr.print]

theorem TypeExpr.printOperands_eq_map (least : Nat) (operands : List TypeExpr) :
    TypeExpr.printOperands least operands = operands.map (TypeExpr.printOperand least) := by
  induction operands with
  | nil => rw [TypeExpr.printOperands, List.map_nil]
  | cons operand operands induction =>
      rw [TypeExpr.printOperands, induction, List.map_cons]

theorem CallableParameter.printAll_eq_map (parameters : List CallableParameter) :
    CallableParameter.printAll parameters = parameters.map CallableParameter.print := by
  induction parameters with
  | nil => rw [CallableParameter.printAll, List.map_nil]
  | cons parameter parameters induction =>
      rw [CallableParameter.printAll, induction, List.map_cons]

theorem ShapeItem.printAll_eq_map (items : List ShapeItem) :
    ShapeItem.printAll items = items.map ShapeItem.print := by
  induction items with
  | nil => rw [ShapeItem.printAll, List.map_nil]
  | cons item items induction => rw [ShapeItem.printAll, induction, List.map_cons]

namespace TypeForm

theorem print_union (operands : List TypeExpr) : (TypeForm.union operands).print =
    String.intercalate "|" (operands.map (TypeExpr.printOperand 1)) := by
  rw [TypeForm.print, TypeExpr.printOperands_eq_map]

theorem print_intersection (operands : List TypeExpr) : (TypeForm.intersection operands).print =
    String.intercalate "&" (operands.map (TypeExpr.printOperand 2)) := by
  rw [TypeForm.print, TypeExpr.printOperands_eq_map]

/-- The arguments of a generic type never need parentheses. -/
theorem print_generic (base : TypeExpr) (arguments : List TypeExpr) :
    (TypeForm.generic base arguments).print =
      base.print ++ "<" ++ String.intercalate ", " (arguments.map TypeExpr.print) ++ ">" := by
  have bare : TypeExpr.printOperand 0 = TypeExpr.print := by
    funext argument
    rw [TypeExpr.printOperand_eq, parenthesizedIf, if_neg (by simp)]
  rw [TypeForm.print, TypeExpr.printOperands_eq_map, bare]

theorem print_callable (identifier : TypeExpr) (parameters : List CallableParameter)
    (returnType : TypeExpr) : (TypeForm.callable identifier parameters returnType).print =
      identifier.print ++ "(" ++
        String.intercalate ", " (parameters.map CallableParameter.print) ++ "): " ++
        returnType.printOperand 2 := by
  rw [TypeForm.print, CallableParameter.printAll_eq_map]

theorem print_shape (kind : ShapeKind) (items : List ShapeItem) (closed : Bool) :
    (TypeForm.shape kind items closed).print =
      printShape kind (items.map ShapeItem.print) closed := by
  rw [TypeForm.print, ShapeItem.printAll_eq_map]

end TypeForm

end Docblock
