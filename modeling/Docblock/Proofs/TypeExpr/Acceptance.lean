import Docblock.Parse
import Docblock.Proofs.TypeExpr.Derivation

/-!
# Which tokens are type expressions

A list of tokens is read as a type expression exactly if the grammar derives it.
Spelled out, this needs that a blank in the list is never followed by another one:
the cursor passes over a single blank only, and the second one is a word that no
rule mentions.
-/

namespace Docblock

open Docblock.Parser

namespace TypeExpr

variable {tracking : Tracking} {tokens : List Token} {type : TypeExpr}

/-- What is read is spelled by the words up to the end of the input. -/
theorem spelled_of_ofTokens (read : ofTokens tracking tokens = .ok type) :
    ∃ used ending last rest, Consumes (Cursor.ofTokens tokens).words used (last :: rest) ∧
      last.kind = .finish ∧ (TypePhrase.chain .union type).Spelled used ending := by
  have sound := Meets.toEnd_took (parser_sound (Cursor.sealed_words_ofTokens tokens))
  obtain ⟨-, spelled⟩ := sound.of_run read
  exact spelled

/-- A spelling up to the end of the input is read as what it spells, up to attributes. -/
theorem ofTokens_of_spelled (tracking : Tracking) {used : List Word} {last : Word}
    {ending : Ending} (seen : (Cursor.ofTokens tokens).words = used ++ [last])
    (isFinish : last.kind = .finish)
    (isSpelled : (TypePhrase.chain .union type).Spelled used ending) :
    ∃ found, ofTokens tracking tokens = .ok found ∧ type.same found = true := by
  have ends : Sealed [last] := by simpa [Sealed] using isFinish
  have complete := Meets.toEnd_reads isFinish (parser_reads isSpelled
    (.of_settles ends (by rw [isFinish]; rfl) (by rw [isFinish]; decide))
    (stops_of_kind isFinish (by decide) .union false))
  rw [← seen] at complete
  obtain ⟨found, -, read, same⟩ := complete.exists_run tracking
  exact ⟨found, read, same⟩

/-- A list of tokens that has neither line breaks nor two blanks in a row is read as a type
expression exactly if the grammar derives the tokens that are no blanks. -/
theorem ofTokens_accepts_iff (tracking : Tracking) (body : List Token) (last : Token)
    (isFinish : last.kind = .finish)
    (inner : ∀ token ∈ body, token.kind ≠ .finish ∧ token.kind ≠ .lineBreak)
    (single : SingleBlanks body) :
    (∃ type, ofTokens tracking (body ++ [last]) = .ok type) ↔
      Derives true .type (solidWords false body) := by
  obtain ⟨final, seen⟩ := Cursor.words_ofTokens_concat isFinish single
  constructor
  · rintro ⟨type, read⟩
    obtain ⟨used, ending, stop, others, consumes, isStop, isSpelled⟩ := spelled_of_ofTokens read
    rw [seen] at consumes
    have split : solidWords false body ++ [⟨final, .finish, last.value⟩] =
        used ++ stop :: others := by
      refine consumes.eq_append fun word isMember => ?_
      rcases List.mem_append.mp isMember with isInner | isLast
      · obtain ⟨token, isMember, isKind⟩ := mem_solidWords isInner
        exact isKind ▸ (inner token isMember).2
      · rw [List.mem_singleton.mp isLast]
        simp
    have unfinished : ∀ word ∈ solidWords false body, word.kind ≠ .finish := by
      intro word isInner
      obtain ⟨token, isMember, isKind⟩ := mem_solidWords isInner
      exact isKind ▸ (inner token isMember).1
    rw [← eq_of_append_stop split unfinished isStop]
    exact isSpelled.derives
  · intro derivation
    obtain ⟨type, ending, isSpelled⟩ := derivation.spellable
    obtain ⟨found, read, -⟩ := ofTokens_of_spelled tracking seen rfl isSpelled
    exact ⟨found, read⟩

/-- The tokens of `(Foo::* is B ? C : D)`; the flag tells whether a blank stands between the
wildcard and the condition. -/
def wildCondition (apart : Bool) : List Token :=
  [⟨.openParen, "(", 1⟩, ⟨.identifier, "Foo", 1⟩, ⟨.doubleColon, "::", 1⟩, ⟨.wildcard, "*", 1⟩] ++
    (if apart then [⟨.blank, " ", 1⟩] else []) ++
    [⟨.identifier, "is", 1⟩, ⟨.blank, " ", 1⟩, ⟨.identifier, "B", 1⟩, ⟨.blank, " ", 1⟩,
      ⟨.nullable, "?", 1⟩, ⟨.identifier, "C", 1⟩, ⟨.colon, ":", 1⟩, ⟨.identifier, "D", 1⟩,
      ⟨.closeParen, ")", 1⟩]

/-- With a blank between them, the wildcard and the condition are derived apart. -/
theorem ofTokens_accepts_iff_wildCondition :
    Derives true .type (solidWords false (wildCondition true)) :=
  (ofTokens_accepts_iff .off (wildCondition true) (Token.finish 1) rfl (by decide)
    (by unfold SingleBlanks; decide)).mp ⟨_, rfl⟩

/-- A grammar in which the name of a class constant may stop early derives more than what is
read: the word that opens a condition is taken for a part of the name. -/
theorem wildcard_takes_condition :
    ¬∀ (body : List Token) (last : Token), last.kind = .finish →
      (∀ token ∈ body, token.kind ≠ .finish ∧ token.kind ≠ .lineBreak) → SingleBlanks body →
      ((∃ type, ofTokens .off (body ++ [last]) = .ok type) ↔
        Derives false .type (solidWords false body)) := by
  intro accepts
  have plain (word : Word) (isName : word.kind = .identifier) : Derives false .type [word] :=
    (Derives.name isName).type_of_primary
  have subject : Derives false .type
      [⟨false, .identifier, "Foo"⟩, ⟨false, .doubleColon, "::"⟩, ⟨false, .wildcard, "*"⟩] :=
    (Derives.constant (.named rfl rfl)
      (@Derives.classConstant false _ _ _ [] true true rfl rfl rfl .nil)).type_of_primary
  have condition := @Derives.condition false false ⟨false, .identifier, "is"⟩
    ⟨true, .nullable, "?"⟩ ⟨false, .colon, ":"⟩ [] _ _ _ ⟨rfl, rfl⟩
    (.absent (by simp [Word.negates])) (plain ⟨true, .identifier, "B"⟩ rfl) rfl
    (plain ⟨false, .identifier, "C"⟩ rfl) rfl
    (.unconditional (plain ⟨false, .identifier, "D"⟩ rfl))
  have derivation : Derives false .type (solidWords false (wildCondition false)) :=
    (Derives.parenthesized rfl (.aboutType (.conditional subject condition (by simp)))
      rfl).type_of_primary
  obtain ⟨type, read⟩ := (accepts (wildCondition false) (Token.finish 1) rfl (by decide)
    (by unfold SingleBlanks; decide)).mpr derivation
  have rejected : (ofTokens .off (wildCondition false ++ [Token.finish 1])).isOk = false := rfl
  rw [read] at rejected
  cases rejected

end TypeExpr

end Docblock
