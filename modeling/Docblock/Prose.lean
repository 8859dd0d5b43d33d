import Docblock.Parser
import Docblock.Text.Spacing

/-!
# Reading free text

Free text goes on to the end of its line, and over the following lines until a
line that is blank or starts with a tag, or until the comment ends.  A line keeps
its inner spacing and loses the blanks at its end.
-/

namespace Docblock.Prose

open Docblock.Parser

/-- The kinds of tokens at which a line of text ends. -/
def lineEnds : KindSet := .ofList [.lineBreak, .closeDoc, .finish]

/-- The kinds of tokens that end a text when they come first on a line. -/
def textEnds : KindSet := lineEnds.insert .tag

/-- The rest of the current line. -/
def readLine : Parser String := do
  let line ← joinUntil lineEnds
  pure (Text.trimEnd Text.isBlank line)

/-- Goes to the next line if the text goes on there, and tells whether it does. -/
def continues : Parser Bool := do
  if ← isAt .lineBreak then
    push
    advance
    if ← isAtAny textEnds then
      rollback
      pure false
    else
      drop
      pure true
  else pure false

/-- The next line of a text, if the text goes on. -/
def nextLine : Parser (Option String) := do
  if ← continues then
    let line ← readLine
    pure (some line)
  else pure none

/-- Reads free text; its lines are joined by line feeds. -/
def parser : Parser String := do
  if ← isAt .lineBreak then pure ""
  else
    let first ← readLine
    let rest ← many nextLine
    pure (String.intercalate "\n" (first :: rest))

end Docblock.Prose
