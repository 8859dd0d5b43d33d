import Docblock.TypeExpr.Print

/-!
# Trees without attributes

Trees are compared without their attributes.  This file removes the attributes from a tree:
two trees are the same exactly if they are equal without attributes, so that sameness is an
equivalence, and printing does not see the difference.
-/

namespace Docblock

mutual

/-- The expression without its attributes. -/
def ConstExpr.bare : ConstExpr → ConstExpr
  | ⟨form, _⟩ => ⟨form.bare, .empty⟩

/-- The form without the attributes in it. -/
def ConstForm.bare : ConstForm → ConstForm
  | .literal kind lexeme => .literal kind lexeme
  | .array items long => .array (ConstItem.bareAll items) long
  | .fetch className name => .fetch className name
  | .minus operand => .minus operand.bare

/-- The entry without its attributes. -/
def ConstItem.bare : ConstItem → ConstItem
  | ⟨none, value, _⟩ => ⟨none, value.bare, .empty⟩
  | ⟨some key, value, _⟩ => ⟨some key.bare, value.bare, .empty⟩

/-- The entries without their attributes. -/
def ConstItem.bareAll : List ConstItem → List ConstItem
  | [] => []
  | item :: rest => item.bare :: ConstItem.bareAll rest

end

mutual

theorem ConstExpr.same_iff : ∀ first second : ConstExpr,
    first.same second = true ↔ first.bare = second.bare
  | ⟨form, _⟩, ⟨form', _⟩ => by
      simp [ConstExpr.same, ConstExpr.bare, ConstForm.same_iff form form']

theorem ConstForm.same_iff : ∀ first second : ConstForm,
    first.same second = true ↔ first.bare = second.bare
  | .literal kind lexeme, second => by
      cases second <;> simp [ConstForm.same, ConstForm.bare]
  | .array items long, second => by
      cases second with
      | array items' long' =>
          simp [ConstForm.same, ConstForm.bare, ConstItem.sameAll_iff items items']
      | _ => simp [ConstForm.same, ConstForm.bare]
  | .fetch className name, second => by
      cases second <;> simp [ConstForm.same, ConstForm.bare]
  | .minus operand, second => by
      cases second with
      | minus operand' => simp [ConstForm.same, ConstForm.bare, ConstExpr.same_iff operand operand']
      | _ => simp [ConstForm.same, ConstForm.bare]

theorem ConstItem.same_iff : ∀ first second : ConstItem,
    first.same second = true ↔ first.bare = second.bare
  | ⟨none, value, _⟩, ⟨none, value', _⟩ => by
      simp [ConstItem.same, ConstItem.bare, ConstExpr.same_iff value value']
  | ⟨some key, value, _⟩, ⟨some key', value', _⟩ => by
      simp [ConstItem.same, ConstItem.bare, ConstExpr.same_iff key key',
        ConstExpr.same_iff value value']
  | ⟨none, value, _⟩, ⟨some key', value', _⟩ => by simp [ConstItem.same, ConstItem.bare]
  | ⟨some key, value, _⟩, ⟨none, value', _⟩ => by simp [ConstItem.same, ConstItem.bare]

theorem ConstItem.sameAll_iff : ∀ first second : List ConstItem,
    ConstItem.sameAll first second = true ↔ ConstItem.bareAll first = ConstItem.bareAll second
  | [], second => by cases second <;> simp [ConstItem.sameAll, ConstItem.bareAll]
  | item :: rest, [] => by simp [ConstItem.sameAll, ConstItem.bareAll]
  | item :: rest, item' :: rest' => by
      simp [ConstItem.sameAll, ConstItem.bareAll, ConstItem.same_iff item item',
        ConstItem.sameAll_iff rest rest']

end

theorem ConstItem.bareAll_eq_map (items : List ConstItem) :
    ConstItem.bareAll items = items.map ConstItem.bare := by
  induction items with
  | nil => rw [ConstItem.bareAll, List.map_nil]
  | cons item items induction => rw [ConstItem.bareAll, induction, List.map_cons]

/-- The key without its attributes. -/
def ShapeKey.bare : ShapeKey → ShapeKey
  | .name text => .name text
  | .constant expr => .constant expr.bare

theorem ShapeKey.same_iff (first second : ShapeKey) :
    first.same second = true ↔ first.bare = second.bare := by
  cases first <;> cases second <;>
    simp [ShapeKey.same, ShapeKey.bare, ConstExpr.same_iff]

theorem ShapeKey.beq_option_iff (first second : Option ShapeKey) :
    (first == second) = true ↔ first.map ShapeKey.bare = second.map ShapeKey.bare := by
  cases first with
  | none => cases second <;> simp
  | some key =>
      cases second with
      | none => simp
      | some key' =>
          have same : (key == key') = key.same key' := rfl
          simp [same, ShapeKey.same_iff]

mutual

/-- The type expression without its attributes. -/
def TypeExpr.bare : TypeExpr → TypeExpr
  | ⟨form, _⟩ => ⟨form.bare, .empty⟩

/-- The form without the attributes in it. -/
def TypeForm.bare : TypeForm → TypeForm
  | .identifier name => .identifier name
  | .this => .this
  | .nullable inner => .nullable inner.bare
  | .array inner => .array inner.bare
  | .generic base arguments => .generic base.bare (TypeExpr.bareAll arguments)
  | .union operands => .union (TypeExpr.bareAll operands)
  | .intersection operands => .intersection (TypeExpr.bareAll operands)
  | .callable identifier parameters returnType =>
      .callable identifier.bare (CallableParameter.bareAll parameters) returnType.bare
  | .shape kind items closed => .shape kind (ShapeItem.bareAll items) closed
  | .conditional subject negated target ifType elseType =>
      .conditional subject.bare negated target.bare ifType.bare elseType.bare
  | .constant expr => .constant expr.bare
  | .invalid raw message => .invalid raw message

/-- The type expressions without their attributes. -/
def TypeExpr.bareAll : List TypeExpr → List TypeExpr
  | [] => []
  | type :: rest => type.bare :: TypeExpr.bareAll rest

/-- The parameter without its attributes. -/
def CallableParameter.bare : CallableParameter → CallableParameter
  | ⟨type, isReference, isVariadic, name, isOptional, _⟩ =>
      ⟨type.bare, isReference, isVariadic, name, isOptional, .empty⟩

/-- The parameters without their attributes. -/
def CallableParameter.bareAll : List CallableParameter → List CallableParameter
  | [] => []
  | parameter :: rest => parameter.bare :: CallableParameter.bareAll rest

/-- The item without its attributes. -/
def ShapeItem.bare : ShapeItem → ShapeItem
  | ⟨key, isOptional, value, _⟩ => ⟨key.map ShapeKey.bare, isOptional, value.bare, .empty⟩

/-- The items without their attributes. -/
def ShapeItem.bareAll : List ShapeItem → List ShapeItem
  | [] => []
  | item :: rest => item.bare :: ShapeItem.bareAll rest

/-- The subject without its attributes. -/
def ConditionalSubject.bare : ConditionalSubject → ConditionalSubject
  | .type expr => .type expr.bare
  | .parameter name => .parameter name

end

mutual

theorem TypeExpr.same_iff : ∀ first second : TypeExpr,
    first.same second = true ↔ first.bare = second.bare
  | ⟨form, _⟩, ⟨form', _⟩ => by
      simp [TypeExpr.same, TypeExpr.bare, TypeForm.same_iff form form']

theorem TypeForm.same_iff : ∀ first second : TypeForm,
    first.same second = true ↔ first.bare = second.bare
  | .identifier name, second => by cases second <;> simp [TypeForm.same, TypeForm.bare]
  | .this, second => by cases second <;> simp [TypeForm.same, TypeForm.bare]
  | .nullable inner, second => by
      cases second with
      | nullable inner' => simp [TypeForm.same, TypeForm.bare, TypeExpr.same_iff inner inner']
      | _ => simp [TypeForm.same, TypeForm.bare]
  | .array inner, second => by
      cases second with
      | array inner' => simp [TypeForm.same, TypeForm.bare, TypeExpr.same_iff inner inner']
      | _ => simp [TypeForm.same, TypeForm.bare]
  | .generic base arguments, second => by
      cases second with
      | generic base' arguments' =>
          simp [TypeForm.same, TypeForm.bare, TypeExpr.same_iff base base',
            TypeExpr.sameAll_iff arguments arguments']
      | _ => simp [TypeForm.same, TypeForm.bare]
  | .union operands, second => by
      cases second with
      | union operands' =>
          simp [TypeForm.same, TypeForm.bare, TypeExpr.sameAll_iff operands operands']
      | _ => simp [TypeForm.same, TypeForm.bare]
  | .intersection operands, second => by
      cases second with
      | intersection operands' =>
          simp [TypeForm.same, TypeForm.bare, TypeExpr.sameAll_iff operands operands']
      | _ => simp [TypeForm.same, TypeForm.bare]
  | .callable identifier parameters returnType, second => by
      cases second with
      | callable identifier' parameters' returnType' =>
          simp [TypeForm.same, TypeForm.bare, TypeExpr.same_iff identifier identifier',
            CallableParameter.sameAll_iff parameters parameters',
            TypeExpr.same_iff returnType returnType', and_assoc]
      | _ => simp [TypeForm.same, TypeForm.bare]
  | .shape kind items closed, second => by
      cases second with
      | shape kind' items' closed' =>
          simp [TypeForm.same, TypeForm.bare, ShapeItem.sameAll_iff items items', and_assoc]
      | _ => simp [TypeForm.same, TypeForm.bare]
  | .conditional subject negated target ifType elseType, second => by
      cases second with
      | conditional subject' negated' target' ifType' elseType' =>
          simp [TypeForm.same, TypeForm.bare, ConditionalSubject.same_iff subject subject',
            TypeExpr.same_iff target target', TypeExpr.same_iff ifType ifType',
            TypeExpr.same_iff elseType elseType', and_assoc]
      | _ => simp [TypeForm.same, TypeForm.bare]
  | .constant expr, second => by
      cases second <;> simp [TypeForm.same, TypeForm.bare, ConstExpr.same_iff]
  | .invalid raw message, second => by cases second <;> simp [TypeForm.same, TypeForm.bare]

theorem TypeExpr.sameAll_iff : ∀ first second : List TypeExpr,
    TypeExpr.sameAll first second = true ↔ TypeExpr.bareAll first = TypeExpr.bareAll second
  | [], second => by cases second <;> simp [TypeExpr.sameAll, TypeExpr.bareAll]
  | type :: rest, [] => by simp [TypeExpr.sameAll, TypeExpr.bareAll]
  | type :: rest, type' :: rest' => by
      simp [TypeExpr.sameAll, TypeExpr.bareAll, TypeExpr.same_iff type type',
        TypeExpr.sameAll_iff rest rest']

theorem CallableParameter.same_iff : ∀ first second : CallableParameter,
    first.same second = true ↔ first.bare = second.bare
  | ⟨type, _, _, _, _, _⟩, ⟨type', _, _, _, _, _⟩ => by
      simp [CallableParameter.same, CallableParameter.bare, TypeExpr.same_iff type type', and_assoc]

theorem CallableParameter.sameAll_iff : ∀ first second : List CallableParameter,
    CallableParameter.sameAll first second = true ↔
      CallableParameter.bareAll first = CallableParameter.bareAll second
  | [], second => by cases second <;> simp [CallableParameter.sameAll, CallableParameter.bareAll]
  | parameter :: rest, [] => by simp [CallableParameter.sameAll, CallableParameter.bareAll]
  | parameter :: rest, parameter' :: rest' => by
      simp [CallableParameter.sameAll, CallableParameter.bareAll,
        CallableParameter.same_iff parameter parameter', CallableParameter.sameAll_iff rest rest']

theorem ShapeItem.same_iff : ∀ first second : ShapeItem,
    first.same second = true ↔ first.bare = second.bare
  | ⟨key, _, value, _⟩, ⟨key', _, value', _⟩ => by
      simp [ShapeItem.same, ShapeItem.bare, ShapeKey.beq_option_iff key key',
        TypeExpr.same_iff value value', and_assoc]

theorem ShapeItem.sameAll_iff : ∀ first second : List ShapeItem,
    ShapeItem.sameAll first second = true ↔ ShapeItem.bareAll first = ShapeItem.bareAll second
  | [], second => by cases second <;> simp [ShapeItem.sameAll, ShapeItem.bareAll]
  | item :: rest, [] => by simp [ShapeItem.sameAll, ShapeItem.bareAll]
  | item :: rest, item' :: rest' => by
      simp [ShapeItem.sameAll, ShapeItem.bareAll, ShapeItem.same_iff item item',
        ShapeItem.sameAll_iff rest rest']

theorem ConditionalSubject.same_iff : ∀ first second : ConditionalSubject,
    first.same second = true ↔ first.bare = second.bare
  | .type expr, .type expr' => by
      simp [ConditionalSubject.same, ConditionalSubject.bare, TypeExpr.same_iff expr expr']
  | .type expr, .parameter name' => by simp [ConditionalSubject.same, ConditionalSubject.bare]
  | .parameter name, second => by
      cases second <;> simp [ConditionalSubject.same, ConditionalSubject.bare]

end

theorem TypeExpr.bareAll_eq_map (types : List TypeExpr) :
    TypeExpr.bareAll types = types.map TypeExpr.bare := by
  induction types with
  | nil => rw [TypeExpr.bareAll, List.map_nil]
  | cons type types induction => rw [TypeExpr.bareAll, induction, List.map_cons]

theorem CallableParameter.bareAll_eq_map (parameters : List CallableParameter) :
    CallableParameter.bareAll parameters = parameters.map CallableParameter.bare := by
  induction parameters with
  | nil => rw [CallableParameter.bareAll, List.map_nil]
  | cons parameter parameters induction =>
      rw [CallableParameter.bareAll, induction, List.map_cons]

theorem ShapeItem.bareAll_eq_map (items : List ShapeItem) :
    ShapeItem.bareAll items = items.map ShapeItem.bare := by
  induction items with
  | nil => rw [ShapeItem.bareAll, List.map_nil]
  | cons item items induction => rw [ShapeItem.bareAll, induction, List.map_cons]

theorem TypeExpr.same_comm (first second : TypeExpr) :
    first.same second = true ↔ second.same first = true := by
  rw [TypeExpr.same_iff, TypeExpr.same_iff]
  exact eq_comm

/-- Whether a type is nothing but a name does not depend on attributes. -/
theorem TypeExpr.identifierName?_bare (type : TypeExpr) :
    type.bare.identifierName? = type.identifierName? := by
  obtain ⟨form, _⟩ := type
  cases form <;> rw [TypeExpr.bare, TypeForm.bare] <;> rfl

theorem ConstExpr.isNumber_bare (expr : ConstExpr) : expr.bare.isNumber = expr.isNumber := by
  obtain ⟨form, attributes⟩ := expr
  cases form <;> simp [ConstExpr.bare, ConstForm.bare, ConstExpr.isNumber]

mutual

theorem ConstExpr.print_bare : ∀ expr : ConstExpr, expr.bare.print = expr.print
  | ⟨form, _⟩ => by rw [ConstExpr.bare, ConstExpr.print, ConstExpr.print, form.print_bare]

theorem ConstForm.print_bare : ∀ form : ConstForm, form.bare.print = form.print
  | .literal kind lexeme => by rw [ConstForm.bare]
  | .array items long => by
      cases long <;> rw [ConstForm.bare, ConstForm.print, ConstForm.print,
        ConstItem.printAll_bare items]
  | .fetch className name => by rw [ConstForm.bare]
  | .minus operand => by
      rw [ConstForm.bare, ConstForm.print, ConstForm.print, operand.isNumber_bare,
        operand.print_bare]

theorem ConstItem.print_bare : ∀ item : ConstItem, item.bare.print = item.print
  | ⟨none, value, _⟩ => by rw [ConstItem.bare, ConstItem.print, ConstItem.print, value.print_bare]
  | ⟨some key, value, _⟩ => by
      rw [ConstItem.bare, ConstItem.print, ConstItem.print, key.print_bare, value.print_bare]

theorem ConstItem.printAll_bare : ∀ items : List ConstItem,
    ConstItem.printAll (ConstItem.bareAll items) = ConstItem.printAll items
  | [] => by rw [ConstItem.bareAll]
  | item :: rest => by
      rw [ConstItem.bareAll, ConstItem.printAll, ConstItem.printAll, item.print_bare,
        ConstItem.printAll_bare rest]

end

theorem ShapeKey.print_bare (key : ShapeKey) : key.bare.print = key.print := by
  cases key with
  | name text => rfl
  | constant expr => exact expr.print_bare

theorem TypeForm.strength_bare (form : TypeForm) : form.bare.strength = form.strength := by
  cases form <;> rw [TypeForm.bare] <;> rfl

theorem TypeExpr.isNullable_bare (type : TypeExpr) :
    type.bare.form.isNullable = type.form.isNullable := by
  obtain ⟨form, _⟩ := type
  cases form <;> rw [TypeExpr.bare, TypeForm.bare] <;> rfl

mutual

theorem TypeExpr.print_bare : ∀ type : TypeExpr, type.bare.print = type.print
  | ⟨form, _⟩ => by rw [TypeExpr.bare, TypeExpr.print, TypeExpr.print, form.print_bare]

theorem TypeExpr.printOperand_bare (least : Nat) : ∀ type : TypeExpr,
    type.bare.printOperand least = type.printOperand least
  | ⟨form, _⟩ => by
      rw [TypeExpr.bare, TypeExpr.printOperand, TypeExpr.printOperand, form.strength_bare,
        form.print_bare]

theorem TypeForm.print_bare : ∀ form : TypeForm, form.bare.print = form.print
  | .identifier name => by rw [TypeForm.bare]
  | .this => by rw [TypeForm.bare]
  | .nullable inner => by
      rw [TypeForm.bare, TypeForm.print, TypeForm.print, inner.isNullable_bare,
        inner.printOperand_bare]
  | .array inner => by
      rw [TypeForm.bare, TypeForm.print, TypeForm.print, inner.printOperand_bare]
  | .generic base arguments => by
      rw [TypeForm.bare, TypeForm.print, TypeForm.print, base.print_bare,
        TypeExpr.printOperands_bare 0 arguments]
  | .union operands => by
      rw [TypeForm.bare, TypeForm.print, TypeForm.print, TypeExpr.printOperands_bare 1 operands]
  | .intersection operands => by
      rw [TypeForm.bare, TypeForm.print, TypeForm.print, TypeExpr.printOperands_bare 2 operands]
  | .callable identifier parameters returnType => by
      rw [TypeForm.bare, TypeForm.print, TypeForm.print, identifier.print_bare,
        CallableParameter.printAll_bare parameters, returnType.printOperand_bare]
  | .shape kind items closed => by
      rw [TypeForm.bare, TypeForm.print, TypeForm.print, ShapeItem.printAll_bare items]
  | .conditional subject negated target ifType elseType => by
      rw [TypeForm.bare, TypeForm.print, TypeForm.print, subject.print_bare, target.print_bare,
        ifType.print_bare, elseType.print_bare]
  | .constant expr => by rw [TypeForm.bare, TypeForm.print, TypeForm.print, expr.print_bare]
  | .invalid raw message => by rw [TypeForm.bare]

theorem TypeExpr.printOperands_bare (least : Nat) : ∀ operands : List TypeExpr,
    TypeExpr.printOperands least (TypeExpr.bareAll operands) =
      TypeExpr.printOperands least operands
  | [] => by rw [TypeExpr.bareAll]
  | operand :: rest => by
      rw [TypeExpr.bareAll, TypeExpr.printOperands, TypeExpr.printOperands,
        operand.printOperand_bare, TypeExpr.printOperands_bare least rest]

theorem CallableParameter.print_bare : ∀ parameter : CallableParameter,
    parameter.bare.print = parameter.print
  | ⟨type, isReference, isVariadic, name, isOptional, _⟩ => by
      rw [CallableParameter.bare, CallableParameter.print, CallableParameter.print, type.print_bare]

theorem CallableParameter.printAll_bare : ∀ parameters : List CallableParameter,
    CallableParameter.printAll (CallableParameter.bareAll parameters) =
      CallableParameter.printAll parameters
  | [] => by rw [CallableParameter.bareAll]
  | parameter :: rest => by
      rw [CallableParameter.bareAll, CallableParameter.printAll, CallableParameter.printAll,
        parameter.print_bare, CallableParameter.printAll_bare rest]

theorem ShapeItem.print_bare : ∀ item : ShapeItem, item.bare.print = item.print
  | ⟨none, isOptional, value, _⟩ => by
      rw [ShapeItem.bare, Option.map_none, ShapeItem.print, ShapeItem.print, value.print_bare]
  | ⟨some key, isOptional, value, _⟩ => by
      rw [ShapeItem.bare, Option.map_some, ShapeItem.print, ShapeItem.print, key.print_bare,
        value.print_bare]

theorem ShapeItem.printAll_bare : ∀ items : List ShapeItem,
    ShapeItem.printAll (ShapeItem.bareAll items) = ShapeItem.printAll items
  | [] => by rw [ShapeItem.bareAll]
  | item :: rest => by
      rw [ShapeItem.bareAll, ShapeItem.printAll, ShapeItem.printAll, item.print_bare,
        ShapeItem.printAll_bare rest]

theorem ConditionalSubject.print_bare : ∀ subject : ConditionalSubject,
    subject.bare.print = subject.print
  | .type expr => by
      rw [ConditionalSubject.bare, ConditionalSubject.print, ConditionalSubject.print,
        expr.print_bare]
  | .parameter name => by rw [ConditionalSubject.bare]

end

end Docblock
