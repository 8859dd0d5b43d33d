import Docblock.Parse
import Docblock.Proofs.ConstExpr.Completeness
import Docblock.Proofs.ConstExpr.Printing
import Docblock.Proofs.Sameness

/-!
# Reading printed constant expressions

A constant expression that was read from a text is printed so that reading the printed form
gives the same expression again.  The words of the text spell the expression, its printed form
is cut into words that spell it too, and a spelling is read as what it spells.  No exceptions
are needed: a minus sign keeps its distance from a number behind it, and the parts of the name
of a class constant alternate, so that no two of them become one when they are printed.
-/

namespace Docblock.ConstExpr

open Docblock.Parser

variable {tracking : Tracking} {tokens : List Token} {expr : ConstExpr}

/-- What is read is spelled by the words up to the end of the input. -/
theorem spelled_of_ofTokens (read : ofTokens tracking tokens = .ok expr) :
    ∃ used ending last rest, Consumes (Cursor.ofTokens tokens).words used (last :: rest) ∧
      last.kind = .finish ∧ (ConstPhrase.expr expr).Spelled used ending := by
  have sound := Meets.toEnd_took (parser_sound _ (Cursor.sealed_words_ofTokens tokens))
  obtain ⟨-, spelled⟩ := sound.of_run read
  exact spelled

/-- A spelling up to the end of the input is read as what it spells, up to attributes. -/
theorem ofTokens_of_spelled (tracking : Tracking) {used : List Word} {last : Word}
    {ending : Ending} (seen : (Cursor.ofTokens tokens).words = used ++ [last])
    (isFinish : last.kind = .finish) (isSpelled : (ConstPhrase.expr expr).Spelled used ending) :
    ∃ found, ofTokens tracking tokens = .ok found ∧ expr.same found = true := by
  have ends : Sealed [last] := by simpa [Sealed] using isFinish
  have settled : Settled [last] := .cons (by rw [isFinish]; rfl)
  have complete := Meets.toEnd_reads isFinish
    (parser_reads isSpelled ends (ending.allows_of_settled settled))
  rw [← seen] at complete
  obtain ⟨found, -, read, same⟩ := complete.exists_run tracking
  exact ⟨found, read, same⟩

/-- A constant expression that was read from a text whose numbers are well formed is read again
from its printed form. -/
theorem printed_rereads (source : String) (expr : ConstExpr) (read : ofText source = .ok expr)
    (numbers : WellFormedNumbers (tokenize source)) :
    ∃ found, ofText expr.print = .ok found ∧ (found == expr) = true := by
  obtain ⟨used, ending, last, rest, consumes, -, isSpelled⟩ := spelled_of_ofTokens read
  have lexical : ∀ word ∈ used, word.Lexical :=
    fun word isUsed => lexical_of_tokenize numbers word (consumes.mem isUsed)
  -- The printed form stands alone, so nothing follows the words into which it is cut.
  obtain ⟨kind, value, more, _, cut, isSpelledAgain⟩ := isSpelled.rescans lexical false
  have scanned := cut [] [] .nil .done
  rw [List.append_nil, List.append_nil] at scanned
  obtain ⟨final, isFinish, seen⟩ := scanned.words_tokenize
  obtain ⟨found, readAgain, same⟩ := ofTokens_of_spelled .off seen isFinish isSpelledAgain
  refine ⟨found, readAgain, ?_⟩
  have sameBack : found.same expr = true := by
    rw [same_iff] at same ⊢
    exact same.symm
  exact sameBack

/-- What `[- 1=>Foo::A*_B, -array(- -.5)]` is read as: minus signs in front of a number, of a
negative number and of an array, and a class constant with a wildcard inside its name. -/
def negations : ConstExpr :=
  ⟨.array
    [⟨some ⟨.minus ⟨.literal .integer "1", .empty⟩, .empty⟩,
        ⟨.fetch (some "Foo") "A*_B", .empty⟩, .empty⟩,
      ⟨none, ⟨.minus ⟨.array
        [⟨none, ⟨.minus ⟨.literal .float "-.5", .empty⟩, .empty⟩, .empty⟩] true, .empty⟩,
        .empty⟩, .empty⟩] false, .empty⟩

theorem printed_rereads_negations :
    ofText "[- 1=>Foo::A*_B, -array(- -.5)]" = .ok negations ∧
      negations.print = "[- 1 => Foo::A*_B, -array(- -.5)]" ∧
      ∃ found, ofText negations.print = .ok found ∧ (found == negations) = true := by
  have isTokenized : tokenize "[- 1=>Foo::A*_B, -array(- -.5)]" =
      [⟨.openSquare, "[", 1⟩, ⟨.minus, "-", 1⟩, ⟨.blank, " ", 1⟩, ⟨.integer, "1", 1⟩,
        ⟨.doubleArrow, "=>", 1⟩, ⟨.identifier, "Foo", 1⟩, ⟨.doubleColon, "::", 1⟩,
        ⟨.identifier, "A", 1⟩, ⟨.wildcard, "*", 1⟩, ⟨.identifier, "_B", 1⟩, ⟨.comma, ",", 1⟩,
        ⟨.blank, " ", 1⟩, ⟨.minus, "-", 1⟩, ⟨.identifier, "array", 1⟩, ⟨.openParen, "(", 1⟩,
        ⟨.minus, "-", 1⟩, ⟨.blank, " ", 1⟩, ⟨.float, "-.5", 1⟩, ⟨.closeParen, ")", 1⟩,
        ⟨.closeSquare, "]", 1⟩, Token.finish 1] := by decide +kernel
  have read : ofText "[- 1=>Foo::A*_B, -array(- -.5)]" = .ok negations := by
    rw [ofText, isTokenized]
    rfl
  have isInteger : Number.WellFormed .integer ['1'] := .unsigned (.decimal (.last rfl))
  have isFloat : Number.WellFormed .float ['-', '.', '5'] :=
    .negative (@Number.Unsigned.fraction ['5'] [] (.last rfl) (.inl rfl))
  have numbers : WellFormedNumbers (tokenize "[- 1=>Foo::A*_B, -array(- -.5)]") := by
    rw [isTokenized]
    intro token isMember isKind
    have isNumber : token = ⟨.integer, "1", 1⟩ ∨ token = ⟨.float, "-.5", 1⟩ := by
      revert token
      decide
    rcases isNumber with rfl | rfl
    · exact isInteger
    · exact isFloat
  exact ⟨read, by decide +kernel, printed_rereads _ _ read numbers⟩

end Docblock.ConstExpr
