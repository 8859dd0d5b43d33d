import Docblock.TagValue.Print

/-!
# Documentation comments

A documentation comment is a list of children, each of which is a run of free
text or a tag with its value.  An empty text stands for a blank line.
-/

namespace Docblock

/-- A run of free text. -/
structure TextNode where
  text : String
  attributes : Attributes
  deriving BEq

/-- A tag: its name with the at sign, and its value. -/
structure TagNode where
  name : String
  value : TagValue
  attributes : Attributes
  deriving BEq

/-- A part of a documentation comment. -/
inductive Child
  | text (node : TextNode)
  | tag (node : TagNode)
  deriving BEq

/-- A documentation comment. -/
structure Document where
  children : List Child
  attributes : Attributes
  deriving BEq

/-- The printed form of a tag. -/
def TagNode.print (node : TagNode) : String :=
  if node.value.print.isEmpty then node.name else node.name ++ " " ++ node.value.print

namespace Child

/-- The printed form of a child, without the gutter of the comment. -/
def print : Child → String
  | text node => node.text
  | tag node => node.print

/-- The attributes of a child. -/
def attributes : Child → Attributes
  | text node => node.attributes
  | tag node => node.attributes

/-- A child with other attributes. -/
def withAttributes (attributes : Attributes) : Child → Child
  | text node => text { node with attributes }
  | tag node => tag { node with attributes }

/-- The tag, if the child is one. -/
def tag? : Child → Option TagNode
  | tag node => some node
  | text _ => none

/-- The run of text, if the child is one. -/
def text? : Child → Option TextNode
  | text node => some node
  | tag _ => none

end Child

namespace Document

/-- A text behind the gutter of a comment: a space, then the text with a gutter in
front of each of its further lines.  An empty text leaves the gutter alone. -/
def behindGutter (text : String) : String :=
  if text.isEmpty then ""
  else
    " " ++ String.ofList (text.toList.flatMap fun char =>
      if char = '\n' then ['\n', ' ', '*', ' '] else [char])

/-- The printed form of a comment. -/
def print (document : Document) : String :=
  "/**\n *" ++
    String.intercalate "\n *" (document.children.map fun child => behindGutter child.print) ++
    "\n */"

/-- The tags, in order. -/
def tags (document : Document) : List TagNode :=
  document.children.filterMap Child.tag?

/-- The runs of text, in order. -/
def texts (document : Document) : List TextNode :=
  document.children.filterMap Child.text?

/-- The tags with the given name, its at sign included. -/
def tagsNamed (document : Document) (name : String) : List TagNode :=
  document.tags.filter fun tag => tag.name == name

/-- The values of the tags with the given name. -/
def valuesNamed (document : Document) (name : String) : List TagValue :=
  (document.tagsNamed name).map TagNode.value

/-- The values of all tags. -/
def values (document : Document) : List TagValue :=
  document.tags.map TagNode.value

/-- The values of the tags about variables. -/
def varTags (document : Document) : List VarTag :=
  document.values.filterMap fun
    | .var value => some value
    | _ => none

/-- The values of the tags about parameters. -/
def paramTags (document : Document) : List ParamTag :=
  document.values.filterMap fun
    | .param value => some value
    | _ => none

/-- The values of the tags in the given role. -/
def typedTags (document : Document) (role : TypedRole) : List TypedTag :=
  document.values.filterMap fun
    | .typed found value => if found = role then some value else none
    | _ => none

/-- The first value that tells what is returned. -/
def returnTag? (document : Document) : Option TypedTag :=
  (document.typedTags .returned).head?

/-- The values of the tags about type variables. -/
def templateTags (document : Document) : List TemplateTag :=
  document.values.filterMap fun
    | .template value => some value
    | _ => none

/-- The values of the tags about properties. -/
def propertyTags (document : Document) : List PropertyTag :=
  document.values.filterMap fun
    | .property value => some value
    | _ => none

/-- The values of the tags about methods. -/
def methodTags (document : Document) : List MethodTag :=
  document.values.filterMap fun
    | .method value => some value
    | _ => none

end Document

end Docblock
