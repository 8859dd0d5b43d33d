import Docblock.ConstExpr
import Docblock.Text.Spacing

/-!
# Type expressions

The tree of a type expression, and equality of trees without regard to their
attributes.  Unions and intersections are flat lists of operands.
-/

namespace Docblock

/-- The two words that open a shape. -/
inductive ShapeKind
  | array
  | list
  deriving DecidableEq, Repr

namespace ShapeKind

/-- The word that opens a shape of this kind. -/
def word : ShapeKind → String
  | array => "array"
  | list => "list"

/-- The kind of shape that a word opens, in any letter case. -/
def ofWord? (name : String) : Option ShapeKind :=
  if Text.equalIgnoringCase name "array" then some array
  else if Text.equalIgnoringCase name "list" then some list
  else none

end ShapeKind

/-- The key of an item of a shape: a name, or an integer or string literal. -/
inductive ShapeKey
  | name (text : String)
  | constant (expr : ConstExpr)

mutual

/-- A type expression: its form and its attributes. -/
structure TypeExpr where
  form : TypeForm
  attributes : Attributes

/-- The forms of type expressions. -/
inductive TypeForm
  | identifier (name : String)
  /-- The type of the current object. -/
  | this
  | nullable (inner : TypeExpr)
  | array (inner : TypeExpr)
  | generic (base : TypeExpr) (arguments : List TypeExpr)
  | union (operands : List TypeExpr)
  | intersection (operands : List TypeExpr)
  | callable (identifier : TypeExpr) (parameters : List CallableParameter)
      (returnType : TypeExpr)
  /-- A shape; a shape that is not closed admits further items. -/
  | shape (kind : ShapeKind) (items : List ShapeItem) (closed : Bool)
  | conditional (subject : ConditionalSubject) (negated : Bool)
      (target ifType elseType : TypeExpr)
  /-- A literal or a class constant in the place of a type. -/
  | constant (expr : ConstExpr)
  /-- Text that could not be read as a type, and the message of the error. -/
  | invalid (raw message : String)

/-- A parameter of a callable type. -/
structure CallableParameter where
  type : TypeExpr
  isReference : Bool
  isVariadic : Bool
  name : Option String
  isOptional : Bool
  attributes : Attributes

/-- An item of a shape. -/
structure ShapeItem where
  key : Option ShapeKey
  isOptional : Bool
  value : TypeExpr
  attributes : Attributes

/-- What a conditional type asks about: a type or a parameter. -/
inductive ConditionalSubject
  | type (expr : TypeExpr)
  | parameter (name : String)

end

instance : Inhabited TypeExpr := ⟨⟨.this, .empty⟩⟩

/-- Equality of keys, attributes aside. -/
def ShapeKey.same : ShapeKey → ShapeKey → Bool
  | .name text, .name text' => text == text'
  | .constant expr, .constant expr' => expr.same expr'
  | _, _ => false

instance : BEq ShapeKey := ⟨ShapeKey.same⟩

mutual

/-- Equality of type expressions, attributes aside. -/
def TypeExpr.same : TypeExpr → TypeExpr → Bool
  | ⟨first, _⟩, ⟨second, _⟩ => first.same second

/-- Equality of forms, attributes aside. -/
def TypeForm.same : TypeForm → TypeForm → Bool
  | .identifier name, .identifier name' => name == name'
  | .this, .this => true
  | .nullable inner, .nullable inner' => inner.same inner'
  | .array inner, .array inner' => inner.same inner'
  | .generic base arguments, .generic base' arguments' =>
      base.same base' && TypeExpr.sameAll arguments arguments'
  | .union operands, .union operands' => TypeExpr.sameAll operands operands'
  | .intersection operands, .intersection operands' => TypeExpr.sameAll operands operands'
  | .callable identifier parameters returnType,
      .callable identifier' parameters' returnType' =>
      identifier.same identifier' && CallableParameter.sameAll parameters parameters' &&
        returnType.same returnType'
  | .shape kind items closed, .shape kind' items' closed' =>
      kind == kind' && ShapeItem.sameAll items items' && closed == closed'
  | .conditional subject negated target ifType elseType,
      .conditional subject' negated' target' ifType' elseType' =>
      subject.same subject' && negated == negated' && target.same target' &&
        ifType.same ifType' && elseType.same elseType'
  | .constant expr, .constant expr' => expr.same expr'
  | .invalid raw message, .invalid raw' message' => raw == raw' && message == message'
  | _, _ => false

/-- Equality of lists of type expressions, attributes aside. -/
def TypeExpr.sameAll : List TypeExpr → List TypeExpr → Bool
  | [], [] => true
  | first :: rest, first' :: rest' => first.same first' && TypeExpr.sameAll rest rest'
  | _, _ => false

/-- Equality of parameters, attributes aside. -/
def CallableParameter.same : CallableParameter → CallableParameter → Bool
  | ⟨type, isReference, isVariadic, name, isOptional, _⟩,
      ⟨type', isReference', isVariadic', name', isOptional', _⟩ =>
      type.same type' && isReference == isReference' && isVariadic == isVariadic' &&
        name == name' && isOptional == isOptional'

/-- Equality of lists of parameters, attributes aside. -/
def CallableParameter.sameAll : List CallableParameter → List CallableParameter → Bool
  | [], [] => true
  | first :: rest, first' :: rest' =>
      first.same first' && CallableParameter.sameAll rest rest'
  | _, _ => false

/-- Equality of items, attributes aside. -/
def ShapeItem.same : ShapeItem → ShapeItem → Bool
  | ⟨key, isOptional, value, _⟩, ⟨key', isOptional', value', _⟩ =>
      key == key' && isOptional == isOptional' && value.same value'

/-- Equality of lists of items, attributes aside. -/
def ShapeItem.sameAll : List ShapeItem → List ShapeItem → Bool
  | [], [] => true
  | first :: rest, first' :: rest' => first.same first' && ShapeItem.sameAll rest rest'
  | _, _ => false

/-- Equality of subjects, attributes aside. -/
def ConditionalSubject.same : ConditionalSubject → ConditionalSubject → Bool
  | .type expr, .type expr' => expr.same expr'
  | .parameter name, .parameter name' => name == name'
  | _, _ => false

end

instance : BEq TypeExpr := ⟨TypeExpr.same⟩

namespace TypeExpr

/-- The name of a type expression that is nothing but an identifier. -/
def identifierName? (type : TypeExpr) : Option String :=
  match type.form with
  | .identifier name => some name
  | _ => none

end TypeExpr

end Docblock
