import Docblock.Proofs.Confinement
import Docblock.Proofs.TagValue.Parts
import Docblock.Proofs.TextReading

/-!
# Values of tags stay in their window

The value of a tag is always read, up to where a line ends: what its rule does not take is read as
a text instead, and an error that is kept names a token of the window.
-/

namespace Docblock

open Docblock.Parser

namespace TagValue

variable {window : Window} {place : Nat} {bad : Prop}

theorem readVariableName_tandem :
    readVariableName.Tandem window readVariableName place (window.Behind place) True := by
  refine .bind (.consume rfl) ?_
  rintro token stop passed
  exact .pure passed

theorem readRoleType_tandem {role : TypedRole} :
    (readRoleType role).Tandem window (readRoleType role) place (window.Behind place) True := by
  cases role <;> first | exact TypeExpr.parser_tandem | exact TypeExpr.genericParser_tandem

theorem readParameterType?_tandem :
    readParameterType?.Tandem window readParameterType? place
      (fun _ stop => place ≤ stop) True := by
  refine .bind .isAtAny ?_
  rintro _ _ ⟨rfl, rfl⟩
  refine .ite (fun _ => .pure (Nat.le_refl _)) fun _ => .bind TypeExpr.parser_tandem ?_
  rintro type stop ⟨further, -⟩
  exact .pure (by omega)

theorem readDefaultValue?_tandem (onLine : place ≤ window.last) :
    readDefaultValue?.Tandem window readDefaultValue? place (window.Along place) True := by
  refine .bind (.accept rfl) ?_
  rintro _ next (⟨rfl, -, marked, -⟩ | ⟨rfl, -, rfl⟩)
  · refine .bind ConstExpr.parser_tandem ?_
    rintro expr stop ⟨further, stopOnLine⟩
    exact .pure ⟨by omega, stopOnLine⟩
  · exact .pure ⟨Nat.le_refl _, onLine⟩

theorem readMethodParameter_tandem :
    readMethodParameter.Tandem window readMethodParameter place (window.Behind place) True := by
  refine .marked fun inside => ?_
  refine .bind readParameterType?_tandem ?_
  rintro type next behind
  refine .bind (.accept rfl) ?_
  rintro isReference next₁ accepted₁
  refine .bind (.accept rfl) ?_
  rintro isVariadic next₂ accepted₂
  refine .bind readVariableName_tandem ?_
  rintro name next₃ ⟨further, onLine⟩
  refine .bind (readDefaultValue?_tandem onLine) ?_
  rintro default stop ⟨behind', stopOnLine⟩
  exact .positioned inside fun _ => ⟨by omega, stopOnLine⟩

theorem nextParameter_tandem :
    nextParameter.Tandem window nextParameter place
      (fun found stop => (found.isSome = true → place < stop) ∧ place ≤ stop) True := by
  refine .bind (.accept rfl) ?_
  rintro _ next (⟨rfl, -, comma, -⟩ | ⟨rfl, -, rfl⟩)
  · refine .bind readMethodParameter_tandem ?_
    rintro parameter stop ⟨further, -⟩
    exact .pure ⟨fun _ => by omega, by omega⟩
  · exact .pure ⟨by simp, Nat.le_refl _⟩

theorem readMethodParameterList_tandem :
    readMethodParameterList.Tandem window readMethodParameterList place
      (fun _ stop => place ≤ stop) True := by
  refine .ifAt (fun _ => .pure (Nat.le_refl _)) fun _ => .bind readMethodParameter_tandem ?_
  rintro first next ⟨further, -⟩
  refine .bind (.many_until (fun _ => True) trivial fun here after _ => ?_) ?_
  · refine nextParameter_tandem.mono ?_ id
    rintro found stop ⟨further', behind⟩
    exact ⟨further', behind, trivial⟩
  · rintro rest stop ⟨behind, -⟩
    exact .pure (by omega)

theorem readMethodParameters_tandem :
    readMethodParameters.Tandem window readMethodParameters place (window.Behind place) True := by
  refine .bind (.consume rfl) ?_
  rintro _ next ⟨opened, -⟩
  refine .bind readMethodParameterList_tandem ?_
  rintro parameters next₁ behind
  refine .bind (.consume rfl) ?_
  rintro _ stop ⟨closed, onLine⟩
  exact .pure ⟨by omega, onLine⟩

theorem readStatic?_tandem :
    readStatic?.Tandem window readStatic? place (fun _ stop => place ≤ stop) True := by
  refine .marked fun inside => ?_
  refine .bind (.acceptWord rfl) ?_
  rintro _ next (⟨rfl, further, -⟩ | ⟨rfl, rfl⟩)
  · refine .bind (TypeExpr.node_stays inside) ?_
    rintro type _ rfl
    exact .pure (by omega)
  · exact .pure (Nat.le_refl _)

theorem readMethodHead_tandem :
    readMethodHead.Tandem window readMethodHead place (window.Behind place) True := by
  refine .bind readStatic?_tandem ?_
  rintro static next behind
  refine .bind TypeExpr.parser_tandem ?_
  rintro typeOrName next₁ ⟨further, onLine⟩
  refine .ifAt (fun _ => .bind (.consume rfl) ?_) fun _ => ?_
  · rintro name stop ⟨further', stopOnLine⟩
    exact .pure ⟨by omega, stopOnLine⟩
  · split
    · exact .pure ⟨by omega, onLine⟩
    · exact .expecting

theorem readBound_tandem (onLine : place ≤ window.last) :
    readBound.Tandem window readBound place (window.Along place) True := by
  refine .bind (.acceptValue (by simp)) ?_
  rintro _ next (⟨rfl, further, -⟩ | ⟨rfl, rfl⟩)
  · refine .bind TypeExpr.parser_tandem ?_
    rintro type stop ⟨further', stopOnLine⟩
    exact .pure ⟨by omega, stopOnLine⟩
  refine .bind (.acceptValue (by simp)) ?_
  rintro _ next (⟨rfl, further, -⟩ | ⟨rfl, rfl⟩)
  · refine .bind TypeExpr.parser_tandem ?_
    rintro type stop ⟨further', stopOnLine⟩
    exact .pure ⟨by omega, stopOnLine⟩
  · exact .pure ⟨Nat.le_refl _, onLine⟩

theorem readDefaultType?_tandem (onLine : place ≤ window.last) :
    readDefaultType?.Tandem window readDefaultType? place (window.Along place) True := by
  refine .bind (.accept rfl) ?_
  rintro _ next (⟨rfl, -, marked, -⟩ | ⟨rfl, -, rfl⟩)
  · refine .bind TypeExpr.parser_tandem ?_
    rintro type stop ⟨further, stopOnLine⟩
    exact .pure ⟨by omega, stopOnLine⟩
  · exact .pure ⟨Nat.le_refl _, onLine⟩

theorem readAlias_tandem : readAlias.Tandem window readAlias place (window.Along place) True := by
  refine .bind (.consume rfl) ?_
  rintro name next ⟨further, -⟩
  refine .bind (.accept rfl) ?_
  rintro _ next₁ accepted
  refine .bind TypeExpr.parser_tandem ?_
  rintro type stop ⟨further', stopOnLine⟩
  exact .pure ⟨by omega, stopOnLine⟩

theorem readLocalName?_tandem (onLine : place ≤ window.last) :
    readLocalName?.Tandem window readLocalName? place (window.Along place) True := by
  refine .bind (.acceptWord rfl) ?_
  rintro _ next (⟨rfl, further, -⟩ | ⟨rfl, rfl⟩)
  · refine .bind (.consume rfl) ?_
    rintro chosen stop ⟨further', stopOnLine⟩
    exact .pure ⟨by omega, stopOnLine⟩
  · exact .pure ⟨Nat.le_refl _, onLine⟩

theorem readImport_tandem :
    readImport.Tandem window readImport place (window.Along place) True := by
  refine .bind (.consume rfl) ?_
  rintro name next ⟨further, -⟩
  refine .bind (.consumeValue rfl) ?_
  rintro _ next₁ ⟨further₁, -⟩
  refine .marked fun inside₁ => ?_
  refine .bind (.consume rfl) ?_
  rintro className next₂ ⟨further₂, onLine₂⟩
  refine .bind (TypeExpr.node_stays inside₁) ?_
  rintro source _ rfl
  refine .bind (readLocalName?_tandem onLine₂) ?_
  rintro localName stop ⟨behind, stopOnLine⟩
  exact .pure ⟨by omega, stopOnLine⟩

/-- Whether a value was read by the rule for its tag. -/
def isRuled : TagValue → Bool
  | generic _ => false
  | invalid _ => false
  | _ => true

theorem isRuled_withAttributes (attributes : Attributes) (value : TagValue) :
    (value.withAttributes attributes).isRuled = value.isRuled := by
  cases value <;> rfl

theorem isRuled_describe (text : String) (value : TagValue) :
    (value.describe text).isRuled = value.isRuled := by
  cases value <;> rfl

/-- The parts of a value stay on the lines of the window. -/
theorem readParts_tandem {rule : TagRule} (onLine : place ≤ window.last) :
    (readParts rule).Tandem window (readParts rule) place
      (fun value stop => window.Along place value stop ∧ value.isRuled = true) True := by
  cases rule with
  | var =>
      refine .bind TypeExpr.parser_tandem ?_
      rintro type next ⟨further, nextOnLine⟩
      refine .bind (TypeExpr.readVariableName?_tandem nextOnLine) ?_
      rintro name stop ⟨behind, stopOnLine⟩
      exact .pure ⟨⟨by omega, stopOnLine⟩, rfl⟩
  | param =>
      refine .bind TypeExpr.parser_tandem ?_
      rintro type next ⟨further, nextOnLine⟩
      refine .bind (.accept_line rfl nextOnLine) ?_
      rintro isReference next₁ ⟨behind₁, onLine₁⟩
      refine .bind (.accept_line rfl onLine₁) ?_
      rintro isVariadic next₂ ⟨behind₂, -⟩
      refine .bind readVariableName_tandem ?_
      rintro name stop ⟨further', stopOnLine⟩
      exact .pure ⟨⟨by omega, stopOnLine⟩, rfl⟩
  | typed role =>
      refine .bind readRoleType_tandem ?_
      rintro type stop ⟨further, stopOnLine⟩
      exact .pure ⟨⟨by omega, stopOnLine⟩, rfl⟩
  | deprecated => exact .pure ⟨⟨Nat.le_refl _, onLine⟩, rfl⟩
  | property =>
      refine .bind TypeExpr.parser_tandem ?_
      rintro type next ⟨further, -⟩
      refine .bind readVariableName_tandem ?_
      rintro name stop ⟨further', stopOnLine⟩
      exact .pure ⟨⟨by omega, stopOnLine⟩, rfl⟩
  | method =>
      refine .bind readMethodHead_tandem ?_
      rintro ⟨isStatic, returnType, name⟩ next ⟨further, -⟩
      refine .bind readMethodParameters_tandem ?_
      rintro parameters stop ⟨further', stopOnLine⟩
      exact .pure ⟨⟨by omega, stopOnLine⟩, rfl⟩
  | template =>
      refine .bind (.consume rfl) ?_
      rintro name next ⟨further, nextOnLine⟩
      refine .bind (readBound_tandem nextOnLine) ?_
      rintro bound next₁ ⟨behind₁, onLine₁⟩
      refine .bind (readDefaultType?_tandem onLine₁) ?_
      rintro default stop ⟨behind₂, stopOnLine⟩
      exact .pure ⟨⟨by omega, stopOnLine⟩, rfl⟩
  | typeAlias => exact .bind readAlias_tandem fun value stop along => .pure ⟨along, rfl⟩
  | imported => exact .bind readImport_tandem fun value stop along => .pure ⟨along, rfl⟩

theorem readRule_tandem {rule : TagRule} (onLine : place ≤ window.last) :
    (readRule rule).Tandem window (readRule rule) place
      (fun value stop => window.Along place value stop ∧ value.isRuled = true) True := by
  rw [readRule_eq]
  refine .bind (readParts_tandem onLine) ?_
  rintro parts next ⟨⟨behind, nextOnLine⟩, ruled⟩
  refine .ite (fun _ => .bind (Prose.parser_tandem nextOnLine) ?_) fun _ =>
    .pure ⟨⟨behind, nextOnLine⟩, ruled⟩
  rintro text stop ⟨⟨further, stopOnLine⟩, -⟩
  exact .pure ⟨⟨by omega, stopOnLine⟩, by rw [isRuled_describe, ruled]⟩

/-- A rule is taken back unless the line ends behind its value. -/
theorem readWholeRule_either {rule : TagRule} {good : TagValue → Nat → Prop}
    (read : (readRule rule).Tandem window (readRule rule) place good True) :
    (readWholeRule rule).Tandem window (readWholeRule rule) place (fun value stop =>
      good value stop ∧ Prose.lineEnds.contains (window.kind stop) = true) True := by
  refine .bind read ?_
  rintro value stop isGood
  refine .bind .isAtAny ?_
  rintro _ _ ⟨rfl, rfl⟩
  exact .ite (fun atEnd => .pure ⟨isGood, atEnd⟩) fun _ => .expecting

/-- A rule whose value always reaches to the end of a line is never taken back. -/
theorem readWholeRule_safe {rule : TagRule} {good : TagValue → Nat → Prop}
    (read : (readRule rule).Tandem window (readRule rule) place good False)
    (atEnd : ∀ value stop, good value stop → Prose.lineEnds.contains (window.kind stop) = true) :
    (readWholeRule rule).Tandem window (readWholeRule rule) place good False := by
  refine .bind read ?_
  rintro value stop isGood
  refine .bind .isAtAny ?_
  rintro _ _ ⟨rfl, rfl⟩
  rw [atEnd value stop isGood]
  exact .pure isGood

theorem readWholeRule_tandem {rule : TagRule} (onLine : place ≤ window.last) :
    (readWholeRule rule).Tandem window (readWholeRule rule) place
      (fun value stop => window.AtLineEnd place value stop ∧ value.isRuled = true) True := by
  refine (readWholeRule_either (readRule_tandem onLine)).mono ?_ id
  rintro value stop ⟨⟨along, ruled⟩, atEnd⟩
  exact ⟨⟨along, atEnd⟩, ruled⟩

/-- What the name of a tag says about its value: it is generic if there is no rule for the name,
and if the rule failed, then the error is kept and names a token of the window. -/
def Fits (window : Window) (name : String) : TagValue → Prop
  | generic _ => TagRule.ofName? name = none
  | invalid value => (TagRule.ofName? name).isSome = true ∧ ∃ error, window.Locates error ∧
      value.message = error.message ∧
      value.attributes.get? Attributes.errorKey = some (.error error)
  | _ => (TagRule.ofName? name).isSome = true

theorem fits_of_isRuled {name : String} {value : TagValue} (ruled : value.isRuled = true)
    (known : (TagRule.ofName? name).isSome = true) : value.Fits window name := by
  cases value with
  | generic _ => cases ruled
  | invalid _ => cases ruled
  | _ => exact known

/-- The value of a tag is read to the end of a line, whatever stands there. -/
theorem parser_tandem (name : String) (onLine : place ≤ window.last) :
    (parser name).Tandem window (parser name) place
      (fun value stop => window.AtLineEnd place value stop ∧ value.Fits window name) bad := by
  refine .marked fun inside => ?_
  split
  · next unknown =>
      refine .bind (Prose.parser_tandem onLine) ?_
      rintro text stop reached
      exact .positioned inside fun _ => ⟨reached, unknown⟩
  · next rule known =>
      have isKnown : (TagRule.ofName? name).isSome = true := by rw [known]; rfl
      refine .bind (.attempt (readWholeRule_tandem onLine)) ?_
      rintro (error | value) next
      · rintro ⟨rfl, located⟩
        refine .bind (Prose.parser_tandem onLine) ?_
        rintro text stop reached
        exact .positioned inside fun _ =>
          ⟨reached, isKnown, error, located, rfl, Attributes.get?_set_self _ _ _⟩
      · rintro ⟨reached, ruled⟩
        refine .bind (.positionsSince inside) ?_
        rintro attributes _ rfl
        refine .pure ⟨reached, fits_of_isRuled ?_ isKnown⟩
        rw [isRuled_withAttributes, ruled]

end TagValue

end Docblock
