import Docblock.Proofs.TypeExpr.Derivation

/-!
# Spellings stay in a line

Spellings of constant expressions and of type expressions have no words that end a line, so what is
printed of a tree that can be read again stays in one line.
-/

namespace Docblock

open Docblock.Parser

/-- No word ends a line or is unrecognised text. -/
def Unbroken (words : List Word) : Prop :=
  ∀ word ∈ words, word.kind ∉ [.lineBreak, .closeDoc, .finish, .other]

@[simp] theorem unbroken_nil : Unbroken [] := by simp [Unbroken]

@[simp] theorem unbroken_cons_iff {word : Word} {words : List Word} :
    Unbroken (word :: words) ↔
      word.kind ∉ [.lineBreak, .closeDoc, .finish, .other] ∧ Unbroken words := by
  simp [Unbroken]

@[simp] theorem unbroken_append_iff {words others : List Word} :
    Unbroken (words ++ others) ↔ Unbroken words ∧ Unbroken others := by
  simp only [Unbroken, List.mem_append, or_imp, forall_and]

section Lists

variable {parts : List (List Word)} {words marks : List Word} {closed present : Bool}
  {kind : TokenKind}

theorem Further.unbroken (further : Further parts words) (each : ∀ part ∈ parts, Unbroken part) :
    Unbroken words := by
  induction further with
  | done => simp
  | comma isComma => simp [isComma]
  | more isComma _ induction =>
      simp only [List.mem_cons, forall_eq_or_imp] at each
      simp [isComma, each.1, induction each.2]

theorem Listed.unbroken (listed : Listed kind parts words)
    (inLine : kind ∉ [.lineBreak, .closeDoc, .finish, .other])
    (each : ∀ part ∈ parts, Unbroken part) : Unbroken words := by
  cases listed with
  | none isClose => simpa [isClose] using inLine
  | some further isClose =>
      simp only [List.mem_cons, forall_eq_or_imp] at each
      simpa [isClose, each.1, further.unbroken each.2] using inLine

theorem Links.unbroken (links : Links kind parts words)
    (inLine : kind ∉ [.lineBreak, .closeDoc, .finish, .other])
    (each : ∀ part ∈ parts, Unbroken part) : Unbroken words := by
  induction links with
  | done => simp
  | more isOperator _ induction =>
      simp only [List.mem_cons, forall_eq_or_imp] at each
      simpa [isOperator, each.1, induction each.2] using inLine

theorem Mark.unbroken (mark : Mark kind present marks)
    (inLine : kind ∉ [.lineBreak, .closeDoc, .finish, .other]) : Unbroken marks := by
  cases mark with
  | absent => simp
  | present isKind => simpa [isKind] using inLine

theorem NameMark.unbroken {name : Option String} (mark : NameMark name marks) :
    Unbroken marks := by
  cases mark with
  | absent => simp
  | present isVariable => simp [isVariable]

theorem ShapeEnd.unbroken (final : ShapeEnd closed words) : Unbroken words := by
  cases final with
  | closed isClose => simp [isClose]
  | unclosed isDots mark isClose => simp [isDots, mark.unbroken (by decide), isClose]

theorem ShapeTail.unbroken (tail : ShapeTail closed parts words)
    (each : ∀ part ∈ parts, Unbroken part) : Unbroken words := by
  induction tail with
  | close isClose => simp [isClose]
  | last isComma final => simp [isComma, final.unbroken]
  | more isComma _ induction =>
      simp only [List.mem_cons, forall_eq_or_imp] at each
      simp [isComma, each.1, induction each.2]

theorem ShapeBody.unbroken (body : ShapeBody closed parts words)
    (each : ∀ part ∈ parts, Unbroken part) : Unbroken words := by
  cases body with
  | empty final => exact final.unbroken
  | items tail =>
      simp only [List.mem_cons, forall_eq_or_imp] at each
      simp [each.1, tail.unbroken each.2]

theorem Suffixes.unbroken {type outer : TypeExpr} {ending final : Ending}
    (suffixes : Suffixes type ending outer words final) : Unbroken words := by
  induction suffixes with
  | done => simp
  | more isOpen isClose _ induction => simp [isOpen, isClose, induction]

theorem NameTail.unbroken {wild final : Bool} (others : NameTail wild words final) :
    Unbroken words := by
  induction others with
  | nil => simp
  | @cons wild _ _ _ isPart _ _ induction => cases wild <;> simp_all [partKind]

end Lists

/-- Spellings of constant expressions have no line breaks. -/
theorem ConstPhrase.Spelled.unbroken {phrase : ConstPhrase} {words : List Word} {ending : Ending}
    (isSpelled : phrase.Spelled words ending) : Unbroken words := by
  induction isSpelled with
  | integer isKind => simp [isKind]
  | float isKind => simp [isKind]
  | string isQuoted => rcases isQuoted with isKind | isKind <;> simp [isKind]
  | keyword isName => simp [isName]
  | constant isName => simp [isName]
  | @classConstant _ _ _ _ wild _ _ isName isColons isPart others =>
      cases wild <;> simp_all [partKind, others.unbroken]
  | minus isMinus _ induction => simp [isMinus, induction]
  | bracketed isOpen _ listed induction =>
      simp [isOpen, listed.unbroken (by decide) (Slot.forall_words induction)]
  | longArray isName _ isOpen _ listed induction =>
      simp [isName, isOpen, listed.unbroken (by decide) (Slot.forall_words induction)]
  | value _ induction => exact induction
  | entry _ isArrow _ left right => simp [isArrow, left, right]

/-- Spellings of type expressions have no line breaks. -/
theorem TypePhrase.Spelled.unbroken {phrase : TypePhrase} {words : List Word} {ending : Ending}
    (isSpelled : phrase.Spelled words ending) : Unbroken words := by
  induction isSpelled with
  | single _ induction => exact induction
  | @joined level _ _ _ _ _ _ _ _ _ links ofFirst ofSlots =>
      have inLine : level.operator ∉ [.lineBreak, .closeDoc, .finish, .other] := by
        cases level <;> decide
      simp [ofFirst, links.unbroken inLine (Slot.forall_words ofSlots)]
  | nullable isMark _ induction => simp [isMark, induction]
  | plain _ induction => exact induction
  | suffixed _ suffixes induction => simp [induction, suffixes.unbroken]
  | callable isName isOpen _ listed isColon _ ofParameters ofResult =>
      simp [isName, isOpen, isColon, ofResult,
        listed.unbroken (by decide) (Slot.forall_words ofParameters)]
  | parenthesized isOpen _ isClose induction => simp [isOpen, isClose, induction]
  | this isThis => simp [isThis]
  | name isName => simp [isName]
  | generic isName isOpen _ _ listed induction =>
      simp [isName, isOpen, listed.unbroken (by decide) (Slot.forall_words induction)]
  | shape isName _ isOpen _ _ items induction =>
      simp [isName, isOpen, items.unbroken (Slot.forall_words induction)]
  | constant _ inner => exact inner.unbroken
  | aboutParameter isVariable _ induction => simp [isVariable, induction]
  | aboutType _ induction => exact induction
  | unconditional _ induction => exact induction
  | conditional _ _ _ ofSubject ofCondition => simp [ofSubject, ofCondition]
  | condition isCondition negation _ isQuestion _ isColon _ ofTarget ofIf ofElse =>
      cases negation with
      | absent => simp [isCondition.1, isQuestion, isColon, ofTarget, ofIf, ofElse]
      | present negates =>
          simp [isCondition.1, negates.1, isQuestion, isColon, ofTarget, ofIf, ofElse]
  | parameter _ referenceMark variadicMark nameMark optionalMark induction =>
      simp [induction, referenceMark.unbroken (by decide), variadicMark.unbroken (by decide),
        nameMark.unbroken, optionalMark.unbroken (by decide)]
  | value _ induction => exact induction
  | entry isKey mark isColon _ induction =>
      have marksUnbroken := mark.unbroken (by decide)
      cases isKey with
      | name isName => simp [isName, marksUnbroken, isColon, induction]
      | integer isInteger => simp [isInteger, marksUnbroken, isColon, induction]
      | string isQuoted =>
          rcases isQuoted with isKind | isKind <;> simp [isKind, marksUnbroken, isColon, induction]

end Docblock
