import Docblock.Parse
import Docblock.Proofs.Document.Rules

/-!
# Recording positions changes nothing else

Positions are written on every node while it is read.  Every rule of the grammars agrees with
itself whatever positions are recorded: the two replies are the same up to the attributes in
their trees.  Since trees are compared and printed without attributes, recording positions
never changes a parse.
-/

namespace Docblock

open Docblock.Parser

/-- What is read leniently is built like every rule but for the step to the last token. -/
theorem TypeExpr.lenientParser_agree : Agree bare lenientParser lenientParser := by
  apply Agree.bind_same (.look _)
  intro start
  apply Agree.bind (.attempt parser_built.toEnd.agree)
  intro outcome outcome' same
  obtain ⟨type, type', rfl, rfl, sameType⟩ | ⟨error, rfl, rfl⟩ := outcome_cases_of_map_eq same
  · exact .pure sameType
  · apply Agree.bind_same (.look _)
    intro rest
    apply Agree.bind_same (.move _)
    intro _
    apply Agree.bind (.positionsSince start)
    intro attributes attributes' _
    exact .pure (by simp only [bare, TypeForm.bare])

/-- Two replies that a caller cannot tell apart: trees that compare equal and print the same
text, or the same failure, and in both cases the same cursor with the same save points. -/
def Reply.SameAs {α : Type} [BEq α] (print : α → String) : Reply α → Reply α → Prop
  | .ok tree cursor, .ok tree' cursor' =>
      (tree == tree') = true ∧ print tree = print tree' ∧ cursor = cursor'
  | .failed failure cursor, .failed failure' cursor' => failure = failure' ∧ cursor = cursor'
  | _, _ => False

/-- Parsers that agree up to attributes give replies that are alike. -/
theorem Parser.Agree.sameAs {α : Type} [BEq α] {bare : α → α} {print : α → String}
    {first second : Parser α} (agree : Agree bare first second) (decisive : Decisive bare)
    (printBare : ∀ tree, print (bare tree) = print tree) (tracking tracking' : Tracking)
    (cursor : Cursor) : (first tracking cursor).SameAs print (second tracking' cursor) := by
  obtain ⟨tree, tree', after, reply, reply', same⟩ | ⟨failure, after, reply, reply'⟩ :=
    Reply.cases_of_map_eq (agree tracking tracking' cursor)
  · rw [reply, reply']
    refine ⟨(decisive tree tree').mpr same, ?_, rfl⟩
    rw [← printBare tree, same, printBare]
  · rw [reply, reply']
    exact ⟨rfl, rfl⟩

/-- Recording positions never changes a parse.  Whatever positions two runs record, each entry
point gives replies that are alike from every place in every list of tokens; and so do the
entry points that read a list to its end. -/
theorem tracking_immaterial (tracking tracking' : Tracking) (cursor : Cursor) :
    (TypeExpr.parser tracking cursor).SameAs TypeExpr.print (TypeExpr.parser tracking' cursor) ∧
    (ConstExpr.parser tracking cursor).SameAs ConstExpr.print
      (ConstExpr.parser tracking' cursor) ∧
    (Document.parser tracking cursor).SameAs Document.print (Document.parser tracking' cursor) ∧
    (TypeExpr.lenientParser tracking cursor).SameAs TypeExpr.print
      (TypeExpr.lenientParser tracking' cursor) ∧
    (toEnd TypeExpr.parser tracking cursor).SameAs TypeExpr.print
      (toEnd TypeExpr.parser tracking' cursor) ∧
    (toEnd ConstExpr.parser tracking cursor).SameAs ConstExpr.print
      (toEnd ConstExpr.parser tracking' cursor) := by
  have types {body : Parser TypeExpr} (agree : Agree TypeExpr.bare body body) :
      (body tracking cursor).SameAs TypeExpr.print (body tracking' cursor) :=
    agree.sameAs TypeExpr.decisive_bare TypeExpr.print_bare tracking tracking' cursor
  have constants {body : Parser ConstExpr} (agree : Agree ConstExpr.bare body body) :
      (body tracking cursor).SameAs ConstExpr.print (body tracking' cursor) :=
    agree.sameAs ConstExpr.decisive_bare ConstExpr.print_bare tracking tracking' cursor
  exact ⟨types TypeExpr.parser_built.agree, constants ConstExpr.parser_built.agree,
    Document.parser_built.agree.sameAs Document.decisive_bare Document.print_bare tracking
      tracking' cursor,
    types TypeExpr.lenientParser_agree, types TypeExpr.parser_built.toEnd.agree,
    constants ConstExpr.parser_built.toEnd.agree⟩

end Docblock
