import Docblock.TagValue
import Docblock.TypeExpr.Print

/-!
# Printing the values of tags

The parts of a value are written in the order in which they are read, with one
space between them; parts that are absent leave no gap.
-/

namespace Docblock

/-- The marks of a parameter and its name. -/
def printParameterName (isReference isVariadic : Bool) (name : String) : String :=
  (if isReference then "&" else "") ++ (if isVariadic then "..." else "") ++ "$" ++ name

/-- The printed form of a type that may be absent. -/
def printOptional (type : Option TypeExpr) : String :=
  type.elim "" TypeExpr.print

/-- The type, the variable and the description. -/
def VarTag.print (tag : VarTag) : String :=
  Text.spaced [tag.type.print, tag.variableName.elim "" ("$" ++ ·), tag.description]

/-- The type, the parameter and the description. -/
def ParamTag.print (tag : ParamTag) : String :=
  Text.spaced [tag.type.print, printParameterName tag.isReference tag.isVariadic tag.name,
    tag.description]

/-- The type and the description. -/
def TypedTag.print (tag : TypedTag) : String :=
  Text.spaced [tag.type.print, tag.description]

/-- The type, the property and the description. -/
def PropertyTag.print (tag : PropertyTag) : String :=
  Text.spaced [tag.type.print, "$" ++ tag.name, tag.description]

/-- The type, the parameter and its default value. -/
def MethodParameter.print (parameter : MethodParameter) : String :=
  Text.spaced [printOptional parameter.type,
      printParameterName parameter.isReference parameter.isVariadic parameter.name] ++
    parameter.default.elim "" (" = " ++ ·.print)

/-- The name of a method with its parameters. -/
def MethodTag.printSignature (tag : MethodTag) : String :=
  tag.name ++ "(" ++ String.intercalate ", " (tag.parameters.map MethodParameter.print) ++ ")"

/-- The word for a static method, the return type, the signature and the description. -/
def MethodTag.print (tag : MethodTag) : String :=
  Text.spaced [if tag.isStatic then "static" else "", printOptional tag.returnType,
    tag.printSignature, tag.description]

/-- The name, the bound, the default type and the description. -/
def TemplateTag.print (tag : TemplateTag) : String :=
  Text.spaced [tag.name, tag.bound.elim "" ("of " ++ ·.print),
    tag.default.elim "" ("= " ++ ·.print), tag.description]

/-- The new name and the type. -/
def AliasTag.print (tag : AliasTag) : String :=
  tag.name ++ " " ++ tag.type.print

/-- The name, the class it is taken from and the name it has here. -/
def ImportTag.print (tag : ImportTag) : String :=
  tag.name ++ " from " ++ tag.source.print ++ tag.localName.elim "" (" as " ++ ·)

/-- The printed form of a value. -/
def TagValue.print : TagValue → String
  | .var value => value.print
  | .param value => value.print
  | .typed _ value => value.print
  | .deprecated value => value.text
  | .property value => value.print
  | .method value => value.print
  | .template value => value.print
  | .typeAlias value => value.print
  | .imported value => value.print
  | .generic value => value.text
  | .invalid value => value.value

end Docblock
