import Docblock.Document
import Docblock.TagValue.Grammar

/-!
# Reading documentation comments

```text
document = "/**" [ break ] [ child { break child } ] [ break ] "*/"
child    = name value | text
```

What follows the close marker is left alone.
-/

namespace Docblock.Document

open Docblock.Parser

/-- A tag with its value. -/
def readTag : Parser TagNode := do
  let start ← mark
  let name := (← current).value
  advance
  let value ← TagValue.parser name
  pure ⟨name, value, ← positionsSince start⟩

/-- A run of free text. -/
def readText : Parser TextNode := do
  let start ← mark
  let text ← Prose.parser
  pure ⟨text, ← positionsSince start⟩

/-- A part of a comment. -/
def readChild : Parser Child := do
  if ← isAt .tag then
    let node ← readTag
    pure (.tag node)
  else
    let node ← readText
    pure (.text node)

/-- The next part of a comment, behind a line break. -/
def nextChild : Parser (Option Child) := do
  if ← accept .lineBreak then
    if ← isAt .closeDoc then pure none
    else
      let next ← readChild
      pure (some next)
  else pure none

/-- The parts of a comment, with a line break between two of them. -/
def readChildren : Parser (List Child) := do
  if ← isAt .closeDoc then pure []
  else
    let first ← readChild
    let rest ← many nextChild
    pure (first :: rest)

/-- A comment up to its close marker. -/
def readBody : Parser (List Child) := do
  let _ ← consume .openDoc
  let _ ← accept .lineBreak
  readChildren

/-- The close marker of a comment that started at token `start`. -/
def readClose (children : List Child) (start : Nat) : Parser Document := do
  let _ ← consume .closeDoc
  pure ⟨children, ← positionsSince start⟩

/-- Reads a documentation comment. -/
def parser : Parser Document := do
  let start ← mark
  let children ← readBody
  readClose children start

end Docblock.Document
