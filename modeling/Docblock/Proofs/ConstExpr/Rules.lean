import Docblock.ConstExpr.Grammar
import Docblock.Proofs.Built
import Docblock.Proofs.Sameness

/-!
# The rules for constants are built from steps
-/

namespace Docblock.ConstExpr

open Docblock.Parser

theorem nextNamePart_built (next : TokenKind) :
    Built id (nextNamePart next) (nextNamePart next) := by
  apply Built.step_bind (.look _)
  intro spaced
  apply Built.ite (.pure rfl)
  apply Built.step_bind (.look _)
  intro isNext
  apply Built.ite _ (.pure rfl)
  apply Built.bind_same (.consume next)
  intro value
  exact .pure rfl

theorem readNameParts_built (fuel : Nat) (next : TokenKind) :
    Built id (readNameParts fuel next) (readNameParts fuel next) := by
  induction fuel generalizing next with
  | zero => exact .pure rfl
  | succ fuel induction =>
      apply Built.bind_same (nextNamePart_built next)
      intro found
      cases found with
      | none => exact .pure rfl
      | some part =>
          apply Built.bind_same (induction _)
          intro rest
          exact .pure rfl

theorem readConstantName_built : Built id readConstantName readConstantName := by
  apply Built.step_bind (.look _)
  intro bound
  apply Built.step_bind (.look _)
  intro isName
  apply Built.ite
  · apply Built.bind_same (.consume .identifier)
    intro value
    apply Built.bind_same (readNameParts_built bound .wildcard)
    intro rest
    exact .pure rfl
  · apply Built.step_bind (.accept .wildcard)
    intro isWild
    apply Built.ite _ (.expecting .wildcard)
    apply Built.bind_same (readNameParts_built bound .identifier)
    intro rest
    exact .pure rfl

variable {nested : Parser ConstExpr}

theorem readItem_built (nestedBuilt : Built bare nested nested) :
    Built ConstItem.bare (readItem nested) (readItem nested) := by
  apply Built.step_bind (.look _)
  intro start
  apply Built.bind nestedBuilt
  intro first first' sameFirst
  apply Built.step_bind (.accept .doubleArrow)
  intro hasKey
  apply Built.ite
  · apply Built.bind nestedBuilt
    intro value value' sameValue
    exact .positioned start fun _ _ => by simp only [ConstItem.bare, sameFirst, sameValue]
  · exact .positioned start fun _ _ => by simp only [ConstItem.bare, sameFirst]

theorem nextItem_built (nestedBuilt : Built bare nested nested) (close : TokenKind) :
    Built (Option.map ConstItem.bare) (nextItem nested close) (nextItem nested close) := by
  apply Built.step_bind (.accept .comma)
  intro more
  apply Built.ite
  · apply Built.step_bind (.accept close)
    intro closed
    apply Built.ite (.pure rfl)
    apply Built.bind (readItem_built nestedBuilt)
    intro item item' same
    exact .pure (congrArg some same)
  · apply Built.bind_same (.consume close)
    intro _
    exact .pure rfl

theorem readItems_built (nestedBuilt : Built bare nested nested) (close : TokenKind) :
    Built (List.map ConstItem.bare) (readItems nested close) (readItems nested close) := by
  apply Built.step_bind (.accept close)
  intro closed
  apply Built.ite (.pure rfl)
  apply Built.bind (readItem_built nestedBuilt)
  intro first first' sameFirst
  apply Built.bind (.many (nextItem_built nestedBuilt close))
  intro rest rest' sameRest
  exact .pure (by simp only [List.map_cons, sameFirst, sameRest])

theorem readNamed_built (nestedBuilt : Built bare nested nested) :
    Built ConstForm.bare (readNamed nested) (readNamed nested) := by
  apply Built.bind_same (.consume .identifier)
  intro name
  apply Built.step_bind (.accept .doubleColon)
  intro isFetch
  apply Built.ite
  · apply Built.bind_same readConstantName_built
    intro constant
    exact .pure rfl
  apply Built.ite (.pure rfl)
  apply Built.ite (.pure rfl)
  apply Built.ite (.pure rfl)
  apply Built.ite _ (.pure rfl)
  apply Built.step_bind (.accept .openParen)
  intro isArray
  apply Built.ite _ (.pure rfl)
  apply Built.bind (readItems_built nestedBuilt .closeParen)
  intro items items' same
  exact .pure (by simp only [ConstForm.bare, ConstItem.bareAll_eq_map, same])

theorem readForm_built (nestedBuilt : Built bare nested nested) :
    Built ConstForm.bare (readForm nested) (readForm nested) := by
  have literal (kind : TokenKind) (literalKind : LiteralKind) :
      Built ConstForm.bare (consume kind >>= fun lexeme => pure (.literal literalKind lexeme))
        (consume kind >>= fun lexeme => pure (.literal literalKind lexeme)) := by
    apply Built.bind_same (.consume kind)
    intro lexeme
    exact .pure rfl
  apply Built.step_bind (.look _)
  intro token
  unfold readFormAt
  split
  · exact literal .integer .integer
  · exact literal .float .float
  · exact literal .singleQuoted .string
  · exact literal .doubleQuoted .string
  · apply Built.step_bind .advance
    intro _
    apply Built.bind nestedBuilt
    intro operand operand' same
    exact .pure (by simp only [ConstForm.bare, same])
  · apply Built.step_bind .advance
    intro _
    apply Built.bind (readItems_built nestedBuilt .closeSquare)
    intro items items' same
    exact .pure (by simp only [ConstForm.bare, ConstItem.bareAll_eq_map, same])
  · exact readNamed_built nestedBuilt
  · exact .expecting .identifier

theorem parserWithin_built (depth : Nat) :
    Built bare (parserWithin depth) (parserWithin depth) := by
  induction depth with
  | zero => exact .expecting .identifier
  | succ depth induction =>
      apply Built.step_bind (.look _)
      intro start
      apply Built.bind (readForm_built induction)
      intro form form' same
      exact .positioned start fun _ _ => by simp only [bare, same]

theorem parser_built : Built bare ConstExpr.parser ConstExpr.parser := by
  apply Built.step_bind (.look _)
  intro bound
  exact parserWithin_built (bound + 1)

end Docblock.ConstExpr
