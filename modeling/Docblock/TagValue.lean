import Docblock.TypeExpr

/-!
# Values of tags

The value of a tag is what stands behind its name: a type with a variable, a
method signature, plain text, and so on.  A tag whose name is not known has a
generic value, and one whose value could not be read keeps its text as an invalid
value.
-/

namespace Docblock

/-- The value of a tag about a variable. -/
structure VarTag where
  type : TypeExpr
  variableName : Option String
  description : String
  attributes : Attributes
  deriving BEq

/-- The value of a tag about a parameter. -/
structure ParamTag where
  type : TypeExpr
  isReference : Bool
  isVariadic : Bool
  name : String
  description : String
  attributes : Attributes
  deriving BEq

/-- What a type with a description is about. -/
inductive TypedRole
  | returned
  | thrown
  | mixin
  /-- The class that is extended. -/
  | parent
  /-- An interface that is implemented. -/
  | interface
  /-- A trait that is used. -/
  | trait
  deriving DecidableEq, Repr

/-- A type with a description. -/
structure TypedTag where
  type : TypeExpr
  description : String
  attributes : Attributes
  deriving BEq

/-- Plain text. -/
structure TextTag where
  text : String
  attributes : Attributes
  deriving BEq

/-- The value of a tag about a property. -/
structure PropertyTag where
  type : TypeExpr
  name : String
  description : String
  attributes : Attributes
  deriving BEq

/-- A parameter of a method. -/
structure MethodParameter where
  type : Option TypeExpr
  isReference : Bool
  isVariadic : Bool
  name : String
  default : Option ConstExpr
  attributes : Attributes
  deriving BEq

/-- The value of a tag about a method. -/
structure MethodTag where
  isStatic : Bool
  returnType : Option TypeExpr
  name : String
  parameters : List MethodParameter
  description : String
  attributes : Attributes
  deriving BEq

/-- The value of a tag about a type variable. -/
structure TemplateTag where
  name : String
  bound : Option TypeExpr
  default : Option TypeExpr
  description : String
  attributes : Attributes
  deriving BEq

/-- The value of a tag that gives a type a name. -/
structure AliasTag where
  name : String
  type : TypeExpr
  attributes : Attributes
  deriving BEq

/-- The value of a tag that takes over the name of a type from a class. -/
structure ImportTag where
  name : String
  source : TypeExpr
  localName : Option String
  attributes : Attributes
  deriving BEq

/-- Text that could not be read as the value of its tag, and the message of the
error. -/
structure InvalidTag where
  value : String
  message : String
  attributes : Attributes
  deriving BEq

/-- The value of a tag. -/
inductive TagValue
  | var (value : VarTag)
  | param (value : ParamTag)
  | typed (role : TypedRole) (value : TypedTag)
  | deprecated (value : TextTag)
  | property (value : PropertyTag)
  | method (value : MethodTag)
  | template (value : TemplateTag)
  | typeAlias (value : AliasTag)
  | imported (value : ImportTag)
  | generic (value : TextTag)
  | invalid (value : InvalidTag)
  deriving BEq

namespace TagValue

/-- The type that a value is about, if there is exactly one. -/
def type? : TagValue → Option TypeExpr
  | var value => some value.type
  | param value => some value.type
  | typed _ value => some value.type
  | property value => some value.type
  | typeAlias value => some value.type
  | _ => none

/-- Whether the text of the tag could not be read. -/
def isInvalid : TagValue → Bool
  | invalid _ => true
  | _ => false

/-- The attributes of a value. -/
def attributes : TagValue → Attributes
  | var value => value.attributes
  | param value => value.attributes
  | typed _ value => value.attributes
  | deprecated value => value.attributes
  | property value => value.attributes
  | method value => value.attributes
  | template value => value.attributes
  | typeAlias value => value.attributes
  | imported value => value.attributes
  | generic value => value.attributes
  | invalid value => value.attributes

/-- A value with other attributes. -/
def withAttributes (attributes : Attributes) : TagValue → TagValue
  | var value => var { value with attributes }
  | param value => param { value with attributes }
  | typed role value => typed role { value with attributes }
  | deprecated value => deprecated { value with attributes }
  | property value => property { value with attributes }
  | method value => method { value with attributes }
  | template value => template { value with attributes }
  | typeAlias value => typeAlias { value with attributes }
  | imported value => imported { value with attributes }
  | generic value => generic { value with attributes }
  | invalid value => invalid { value with attributes }

@[simp] theorem attributes_withAttributes (attributes : Attributes) (value : TagValue) :
    (value.withAttributes attributes).attributes = attributes := by
  cases value <;> rfl

end TagValue

end Docblock
