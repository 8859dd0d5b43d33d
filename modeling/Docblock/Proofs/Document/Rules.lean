import Docblock.Document.Grammar
import Docblock.Proofs.TagValue.Rules

/-!
# The rules for comments are built from steps
-/

namespace Docblock.Document

open Docblock.Parser

theorem readTag_built : Built TagNode.bare readTag readTag := by
  apply Built.step_bind (.look _)
  intro start
  apply Built.step_bind (.look _)
  intro token
  apply Built.step_bind .advance
  intro _
  apply Built.bind (TagValue.parser_built token.value)
  intro value value' same
  exact .positioned start fun _ _ => by simp only [TagNode.bare, same]

theorem readText_built : Built TextNode.bare readText readText := by
  apply Built.step_bind (.look _)
  intro start
  apply Built.bind_same Prose.parser_built
  intro text
  exact .positioned start fun _ _ => rfl

theorem readChild_built : Built Child.bare readChild readChild := by
  apply Built.step_bind (.look _)
  intro isTag
  apply Built.ite
  · apply Built.bind readTag_built
    intro node node' same
    exact .pure (congrArg Child.tag same)
  · apply Built.bind readText_built
    intro node node' same
    exact .pure (congrArg Child.text same)

theorem nextChild_built : Built (Option.map Child.bare) nextChild nextChild := by
  apply Built.step_bind (.accept .lineBreak)
  intro more
  apply Built.ite _ (.pure rfl)
  apply Built.step_bind (.look _)
  intro closed
  apply Built.ite (.pure rfl)
  apply Built.bind readChild_built
  intro next next' same
  exact .pure (congrArg some same)

theorem readChildren_built : Built (List.map Child.bare) readChildren readChildren := by
  apply Built.step_bind (.look _)
  intro closed
  apply Built.ite (.pure rfl)
  apply Built.bind readChild_built
  intro first first' sameFirst
  apply Built.bind (.many nextChild_built)
  intro rest rest' sameRest
  exact .pure (by simp only [List.map_cons, sameFirst, sameRest])

theorem readBody_built : Built (List.map Child.bare) readBody readBody := by
  apply Built.bind_same (.consume .openDoc)
  intro _
  apply Built.step_bind (.accept .lineBreak)
  intro _
  exact readChildren_built

theorem readClose_built {children children' : List Child}
    (same : children.map Child.bare = children'.map Child.bare) (start : Nat) :
    Built bare (readClose children start) (readClose children' start) := by
  apply Built.bind_same (.consume .closeDoc)
  intro _
  exact .positioned start fun _ _ => by simp only [bare, same]

theorem parser_built : Built bare Document.parser Document.parser := by
  apply Built.step_bind (.look _)
  intro start
  apply Built.bind readBody_built
  intro children children' same
  exact readClose_built same start

end Docblock.Document
