import Docblock.Document
import Docblock.Proofs.Sameness

/-!
# Comments without attributes

The values of tags and whole comments are compared without their attributes, as types are.
Removing the attributes from each of them gives a view that decides comparison: two comments
compare equal exactly if they are equal without attributes, and both then print the same.
-/

namespace Docblock

/-- The view takes from a value exactly what comparison looks at. -/
def Decisive {α γ : Type} [BEq α] (view : α → γ) : Prop :=
  ∀ first second : α, (first == second) = true ↔ view first = view second

namespace Decisive

variable {α γ : Type} [BEq α] {view : α → γ}

theorem option (decisive : Decisive view) : Decisive (Option.map view) := by
  intro first second
  cases first with
  | none => cases second <;> simp
  | some value =>
      cases second with
      | none => simp
      | some value' => simpa using decisive value value'

theorem list (decisive : Decisive view) : Decisive (List.map view) := by
  intro first
  induction first with
  | nil => intro second; cases second <;> simp
  | cons value rest induction =>
      intro second
      cases second with
      | nil => simp
      | cons value' rest' => simp [decisive value value', induction rest']

end Decisive

theorem ConstExpr.decisive_bare : Decisive ConstExpr.bare := ConstExpr.same_iff

theorem TypeExpr.decisive_bare : Decisive TypeExpr.bare := TypeExpr.same_iff

/-- The value without its attributes. -/
def VarTag.bare (tag : VarTag) : VarTag :=
  { tag with type := tag.type.bare, attributes := .empty }

theorem VarTag.decisive_bare : Decisive VarTag.bare := by
  intro first second
  have compared : (first == second) = (first.type == second.type &&
      (first.variableName == second.variableName && (first.description == second.description &&
        true))) := rfl
  simp [compared, TypeExpr.decisive_bare first.type, VarTag.bare]

theorem VarTag.print_bare (tag : VarTag) : tag.bare.print = tag.print := by
  simp [VarTag.print, VarTag.bare, TypeExpr.print_bare]

/-- The value without its attributes. -/
def ParamTag.bare (tag : ParamTag) : ParamTag :=
  { tag with type := tag.type.bare, attributes := .empty }

theorem ParamTag.decisive_bare : Decisive ParamTag.bare := by
  intro first second
  have compared : (first == second) = (first.type == second.type &&
      (first.isReference == second.isReference && (first.isVariadic == second.isVariadic &&
        (first.name == second.name && (first.description == second.description &&
          true))))) := rfl
  simp [compared, TypeExpr.decisive_bare first.type, ParamTag.bare]

theorem ParamTag.print_bare (tag : ParamTag) : tag.bare.print = tag.print := by
  simp [ParamTag.print, ParamTag.bare, TypeExpr.print_bare]

/-- The value without its attributes. -/
def TypedTag.bare (tag : TypedTag) : TypedTag :=
  { tag with type := tag.type.bare, attributes := .empty }

theorem TypedTag.decisive_bare : Decisive TypedTag.bare := by
  intro first second
  have compared : (first == second) = (first.type == second.type &&
      (first.description == second.description && true)) := rfl
  simp [compared, TypeExpr.decisive_bare first.type, TypedTag.bare]

theorem TypedTag.print_bare (tag : TypedTag) : tag.bare.print = tag.print := by
  simp [TypedTag.print, TypedTag.bare, TypeExpr.print_bare]

/-- The text without its attributes. -/
def TextTag.bare (tag : TextTag) : TextTag := { tag with attributes := .empty }

theorem TextTag.decisive_bare : Decisive TextTag.bare := by
  intro first second
  have compared : (first == second) = (first.text == second.text && true) := rfl
  simp [compared, TextTag.bare]

/-- The value without its attributes. -/
def PropertyTag.bare (tag : PropertyTag) : PropertyTag :=
  { tag with type := tag.type.bare, attributes := .empty }

theorem PropertyTag.decisive_bare : Decisive PropertyTag.bare := by
  intro first second
  have compared : (first == second) = (first.type == second.type &&
      (first.name == second.name && (first.description == second.description && true))) := rfl
  simp [compared, TypeExpr.decisive_bare first.type, PropertyTag.bare]

theorem PropertyTag.print_bare (tag : PropertyTag) : tag.bare.print = tag.print := by
  simp [PropertyTag.print, PropertyTag.bare, TypeExpr.print_bare]

/-- The parameter without its attributes. -/
def MethodParameter.bare (parameter : MethodParameter) : MethodParameter :=
  { parameter with
    type := parameter.type.map TypeExpr.bare
    default := parameter.default.map ConstExpr.bare
    attributes := .empty }

theorem MethodParameter.decisive_bare : Decisive MethodParameter.bare := by
  intro first second
  have compared : (first == second) = (first.type == second.type &&
      (first.isReference == second.isReference && (first.isVariadic == second.isVariadic &&
        (first.name == second.name && (first.default == second.default && true))))) := rfl
  simp [compared, TypeExpr.decisive_bare.option first.type,
    ConstExpr.decisive_bare.option first.default, MethodParameter.bare]

/-- A type that may be absent prints the same without its attributes. -/
theorem printOptional_bare (type : Option TypeExpr) :
    printOptional (type.map TypeExpr.bare) = printOptional type := by
  cases type with
  | none => rfl
  | some type => exact type.print_bare

theorem MethodParameter.print_bare (parameter : MethodParameter) :
    parameter.bare.print = parameter.print := by
  obtain ⟨type, isReference, isVariadic, name, default, attributes⟩ := parameter
  cases default <;>
    simp [MethodParameter.print, MethodParameter.bare, printOptional_bare, ConstExpr.print_bare]

/-- The value without its attributes. -/
def MethodTag.bare (tag : MethodTag) : MethodTag :=
  { tag with
    returnType := tag.returnType.map TypeExpr.bare
    parameters := tag.parameters.map MethodParameter.bare
    attributes := .empty }

theorem MethodTag.decisive_bare : Decisive MethodTag.bare := by
  intro first second
  have compared : (first == second) = (first.isStatic == second.isStatic &&
      (first.returnType == second.returnType && (first.name == second.name &&
        (first.parameters == second.parameters && (first.description == second.description &&
          true))))) := rfl
  simp [compared, TypeExpr.decisive_bare.option first.returnType,
    MethodParameter.decisive_bare.list first.parameters, MethodTag.bare]

theorem MethodTag.printSignature_bare (tag : MethodTag) :
    tag.bare.printSignature = tag.printSignature := by
  have parameters : MethodParameter.print ∘ MethodParameter.bare = MethodParameter.print :=
    funext MethodParameter.print_bare
  simp [MethodTag.printSignature, MethodTag.bare, parameters]

theorem MethodTag.print_bare (tag : MethodTag) : tag.bare.print = tag.print := by
  rw [MethodTag.print, MethodTag.print, tag.printSignature_bare, MethodTag.bare,
    printOptional_bare]

/-- The value without its attributes. -/
def TemplateTag.bare (tag : TemplateTag) : TemplateTag :=
  { tag with
    bound := tag.bound.map TypeExpr.bare
    default := tag.default.map TypeExpr.bare
    attributes := .empty }

theorem TemplateTag.decisive_bare : Decisive TemplateTag.bare := by
  intro first second
  have compared : (first == second) = (first.name == second.name &&
      (first.bound == second.bound && (first.default == second.default &&
        (first.description == second.description && true)))) := rfl
  simp [compared, TypeExpr.decisive_bare.option first.bound,
    TypeExpr.decisive_bare.option first.default, TemplateTag.bare]

theorem TemplateTag.print_bare (tag : TemplateTag) : tag.bare.print = tag.print := by
  obtain ⟨name, bound, default, description, attributes⟩ := tag
  cases bound <;> cases default <;>
    simp [TemplateTag.print, TemplateTag.bare, TypeExpr.print_bare]

/-- The value without its attributes. -/
def AliasTag.bare (tag : AliasTag) : AliasTag :=
  { tag with type := tag.type.bare, attributes := .empty }

theorem AliasTag.decisive_bare : Decisive AliasTag.bare := by
  intro first second
  have compared : (first == second) = (first.name == second.name &&
      (first.type == second.type && true)) := rfl
  simp [compared, TypeExpr.decisive_bare first.type, AliasTag.bare]

theorem AliasTag.print_bare (tag : AliasTag) : tag.bare.print = tag.print := by
  simp [AliasTag.print, AliasTag.bare, TypeExpr.print_bare]

/-- The value without its attributes. -/
def ImportTag.bare (tag : ImportTag) : ImportTag :=
  { tag with source := tag.source.bare, attributes := .empty }

theorem ImportTag.decisive_bare : Decisive ImportTag.bare := by
  intro first second
  have compared : (first == second) = (first.name == second.name &&
      (first.source == second.source && (first.localName == second.localName && true))) := rfl
  simp [compared, TypeExpr.decisive_bare first.source, ImportTag.bare]

theorem ImportTag.print_bare (tag : ImportTag) : tag.bare.print = tag.print := by
  simp [ImportTag.print, ImportTag.bare, TypeExpr.print_bare]

/-- The text and the message without their attributes. -/
def InvalidTag.bare (tag : InvalidTag) : InvalidTag := { tag with attributes := .empty }

theorem InvalidTag.decisive_bare : Decisive InvalidTag.bare := by
  intro first second
  have compared : (first == second) = (first.value == second.value &&
      (first.message == second.message && true)) := rfl
  simp [compared, InvalidTag.bare]

/-- The value without its attributes. -/
def TagValue.bare : TagValue → TagValue
  | .var value => .var value.bare
  | .param value => .param value.bare
  | .typed role value => .typed role value.bare
  | .deprecated value => .deprecated value.bare
  | .property value => .property value.bare
  | .method value => .method value.bare
  | .template value => .template value.bare
  | .typeAlias value => .typeAlias value.bare
  | .imported value => .imported value.bare
  | .generic value => .generic value.bare
  | .invalid value => .invalid value.bare

theorem TagValue.decisive_bare : Decisive TagValue.bare := by
  intro first second
  cases first with
  | var value =>
      cases second with
      | var value' =>
          rw [TagValue.bare, TagValue.bare, TagValue.var.injEq]
          exact VarTag.decisive_bare value value'
      | _ => exact iff_of_false Bool.false_ne_true nofun
  | param value =>
      cases second with
      | param value' =>
          rw [TagValue.bare, TagValue.bare, TagValue.param.injEq]
          exact ParamTag.decisive_bare value value'
      | _ => exact iff_of_false Bool.false_ne_true nofun
  | typed role value =>
      cases second with
      | typed role' value' =>
          have compared : (TagValue.typed role value == TagValue.typed role' value') =
              (role == role' && value == value') := rfl
          simp [compared, TagValue.bare, TypedTag.decisive_bare value value']
      | _ => exact iff_of_false Bool.false_ne_true nofun
  | deprecated value =>
      cases second with
      | deprecated value' =>
          rw [TagValue.bare, TagValue.bare, TagValue.deprecated.injEq]
          exact TextTag.decisive_bare value value'
      | _ => exact iff_of_false Bool.false_ne_true nofun
  | property value =>
      cases second with
      | property value' =>
          rw [TagValue.bare, TagValue.bare, TagValue.property.injEq]
          exact PropertyTag.decisive_bare value value'
      | _ => exact iff_of_false Bool.false_ne_true nofun
  | method value =>
      cases second with
      | method value' =>
          rw [TagValue.bare, TagValue.bare, TagValue.method.injEq]
          exact MethodTag.decisive_bare value value'
      | _ => exact iff_of_false Bool.false_ne_true nofun
  | template value =>
      cases second with
      | template value' =>
          rw [TagValue.bare, TagValue.bare, TagValue.template.injEq]
          exact TemplateTag.decisive_bare value value'
      | _ => exact iff_of_false Bool.false_ne_true nofun
  | typeAlias value =>
      cases second with
      | typeAlias value' =>
          rw [TagValue.bare, TagValue.bare, TagValue.typeAlias.injEq]
          exact AliasTag.decisive_bare value value'
      | _ => exact iff_of_false Bool.false_ne_true nofun
  | imported value =>
      cases second with
      | imported value' =>
          rw [TagValue.bare, TagValue.bare, TagValue.imported.injEq]
          exact ImportTag.decisive_bare value value'
      | _ => exact iff_of_false Bool.false_ne_true nofun
  | generic value =>
      cases second with
      | generic value' =>
          rw [TagValue.bare, TagValue.bare, TagValue.generic.injEq]
          exact TextTag.decisive_bare value value'
      | _ => exact iff_of_false Bool.false_ne_true nofun
  | invalid value =>
      cases second with
      | invalid value' =>
          rw [TagValue.bare, TagValue.bare, TagValue.invalid.injEq]
          exact InvalidTag.decisive_bare value value'
      | _ => exact iff_of_false Bool.false_ne_true nofun

theorem TagValue.print_bare (value : TagValue) : value.bare.print = value.print := by
  cases value with
  | var value => exact value.print_bare
  | param value => exact value.print_bare
  | typed role value => exact value.print_bare
  | deprecated value => rfl
  | property value => exact value.print_bare
  | method value => exact value.print_bare
  | template value => exact value.print_bare
  | typeAlias value => exact value.print_bare
  | imported value => exact value.print_bare
  | generic value => rfl
  | invalid value => rfl

/-- Attributes that are put on a value are gone again when all attributes are. -/
@[simp] theorem TagValue.bare_withAttributes (attributes : Attributes) (value : TagValue) :
    (value.withAttributes attributes).bare = value.bare := by
  cases value <;> rfl

/-- The run of text without its attributes. -/
def TextNode.bare (node : TextNode) : TextNode := { node with attributes := .empty }

theorem TextNode.decisive_bare : Decisive TextNode.bare := by
  intro first second
  have compared : (first == second) = (first.text == second.text && true) := rfl
  simp [compared, TextNode.bare]

/-- The tag without its attributes. -/
def TagNode.bare (node : TagNode) : TagNode :=
  { node with value := node.value.bare, attributes := .empty }

theorem TagNode.decisive_bare : Decisive TagNode.bare := by
  intro first second
  have compared : (first == second) = (first.name == second.name &&
      (first.value == second.value && true)) := rfl
  simp [compared, TagValue.decisive_bare first.value, TagNode.bare]

/-- The child without its attributes. -/
def Child.bare : Child → Child
  | .text node => .text node.bare
  | .tag node => .tag node.bare

theorem Child.decisive_bare : Decisive Child.bare := by
  intro first second
  cases first with
  | text node =>
      cases second with
      | text node' =>
          rw [Child.bare, Child.bare, Child.text.injEq]
          exact TextNode.decisive_bare node node'
      | tag node' => exact iff_of_false Bool.false_ne_true nofun
  | tag node =>
      cases second with
      | text node' => exact iff_of_false Bool.false_ne_true nofun
      | tag node' =>
          rw [Child.bare, Child.bare, Child.tag.injEq]
          exact TagNode.decisive_bare node node'

theorem Child.print_bare (child : Child) : child.bare.print = child.print := by
  cases child with
  | text node => rfl
  | tag node =>
      simp [Child.bare, Child.print, TagNode.print, TagNode.bare, TagValue.print_bare]

/-- The comment without its attributes. -/
def Document.bare (document : Document) : Document :=
  { children := document.children.map Child.bare, attributes := .empty }

theorem Document.decisive_bare : Decisive Document.bare := by
  intro first second
  have compared : (first == second) = (first.children == second.children && true) := rfl
  simp [compared, Child.decisive_bare.list first.children, Document.bare]

/-- Printing a comment does not see its attributes. -/
theorem Document.print_bare (document : Document) : document.bare.print = document.print := by
  have children : (fun child => behindGutter (Child.print child)) ∘ Child.bare =
      fun child => behindGutter child.print :=
    funext fun child => congrArg behindGutter child.print_bare
  simp [Document.print, Document.bare, children]

end Docblock
