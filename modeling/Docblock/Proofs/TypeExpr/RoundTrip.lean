import Docblock.Proofs.Sameness
import Docblock.Proofs.TypeExpr.Acceptance
import Docblock.Proofs.TypeExpr.Printing

/-!
# Reading printed type expressions

A type expression that was read from a text is printed so that reading the printed form
gives the same tree again, if its parts can be told from their printed forms.  The proof
follows the spelling from which the tree was read: the names, numbers and quoted texts in
the tree are words of the text, and so they are cut off the printed form as they were cut
off the text.
-/

namespace Docblock

open Text

/-- The subject of a condition can be read again from its printed form. -/
def ConditionalSubject.Reprints : ConditionalSubject → Prop
  | .type expr => expr.Reprints
  | .parameter name => IsLexeme .namedVariable ("$" ++ name).toList

namespace TypeExpr

/-- The printed form of a condition behind its subject. -/
def conditionText (negated : Bool) (target ifType elseType : TypeExpr) : String :=
  (if negated then " is not " else " is ") ++ target.print ++ " ? " ++ ifType.print ++ " : " ++
    elseType.print

theorem isLexeme_is : IsLexeme .identifier ['i', 's'] :=
  Lexeme.isLexeme_identifier (show Lexeme.rule? 'i' ['s'] = some ⟨.identifier, 1⟩ from rfl)

theorem isLexeme_not : IsLexeme .identifier ['n', 'o', 't'] :=
  Lexeme.isLexeme_identifier (show Lexeme.rule? 'n' ['o', 't'] = some ⟨.identifier, 2⟩ from rfl)

/-- The words that open a condition, in front of its target. -/
theorem exists_opening {negated : Bool} {target : TypeExpr} (reprints : target.Reprints)
    (unnegated : negated = false → ¬StartsWithNot target.print) :
    ∃ marks words ending, Negation negated marks words ∧
      (TypePhrase.chain .union target).Spelled words ending ∧
      Cut Delimited false ((if negated then " is not " else " is ").toList ++ target.print.toList)
        (⟨true, .identifier, "is"⟩ :: marks ++ words) := by
  obtain ⟨kind, value, more, ending, cut, isSpelled⟩ := reprints.union true
  have scannedIs {after : List Char} {rest : List Word} (scanned : Scanned true after rest) :
      Scanned false (' ' :: 'i' :: 's' :: ' ' :: after) (⟨true, .identifier, "is"⟩ :: rest) := by
    have scannedWord : Scanned true (['i', 's'] ++ ' ' :: after) _ :=
      isLexeme_is.scanned (by decide) (.cons (by decide)) (.space scanned)
    exact .space scannedWord
  cases negated with
  | false =>
      refine ⟨[], _, ending, .absent ?_, isSpelled, ?_⟩
      · intro word isHead negates
        obtain rfl := Option.mem_some_iff.mp isHead
        exact unnegated rfl (startsWithNot_of_cut reprints cut negates)
      · intro after rest delimited scanned
        have scannedAll := scannedIs (cut after rest delimited scanned)
        simpa using scannedAll
  | true =>
      refine ⟨[⟨true, .identifier, "not"⟩], _, ending, .present ⟨rfl, rfl⟩, isSpelled, ?_⟩
      intro after rest delimited scanned
      have scannedNot : Scanned true (['n', 'o', 't'] ++ ' ' :: _) _ :=
        isLexeme_not.scanned (by decide) (.cons (by decide))
          (.space (cut after rest delimited scanned))
      have scannedAll := scannedIs scannedNot
      simpa using scannedAll

theorem exists_condition {negated : Bool} {target ifType elseType : TypeExpr}
    (subject : ConditionalSubject) (attributes : Attributes) (ofTarget : target.Reprints)
    (ofIf : ifType.Reprints) (ofElse : elseType.Reprints)
    (unnegated : negated = false → ¬StartsWithNot target.print) :
    ∃ more ending, Cut Delimited false (conditionText negated target ifType elseType).toList
        (⟨true, .identifier, "is"⟩ :: more) ∧
      (TypePhrase.condition subject
        ⟨.conditional subject negated target ifType elseType, attributes⟩).Spelled
        (⟨true, .identifier, "is"⟩ :: more) ending := by
  obtain ⟨marks, words, _, negation, isTarget, targetCut⟩ := exists_opening ofTarget unnegated
  obtain ⟨ifKind, ifValue, ifMore, _, ifCut, isIf⟩ := ofIf.union true
  obtain ⟨elseKind, elseValue, elseMore, ending, elseCut, isElse⟩ := ofElse.union true
  refine ⟨_, ending, ?_, @TypePhrase.Spelled.condition subject negated ⟨true, .identifier, "is"⟩
    ⟨true, .nullable, "?"⟩ ⟨true, .colon, ":"⟩ target ifType elseType marks words _ _ _ _ _
    attributes ⟨rfl, rfl⟩ negation isTarget rfl isIf rfl (.unconditional isElse)⟩
  intro after rest delimited scanned
  have scannedElse : Scanned true (':' :: ' ' :: _) _ :=
    .mark rfl (by decide) (.space (elseCut after rest delimited scanned))
  have scannedIf := ifCut _ _ (.cons (by decide)) (.space scannedElse)
  have scannedQuestion : Scanned true ('?' :: ' ' :: _) _ :=
    .mark rfl (by decide) (.space scannedIf)
  have scannedAll := targetCut _ _ (.cons (by decide)) (.space scannedQuestion)
  simpa [conditionText, List.append_assoc] using scannedAll

/-- A conditional type is printed in parentheses, with a blank in front of its condition. -/
theorem reprints_conditional {subject : ConditionalSubject} {negated : Bool}
    {target ifType elseType : TypeExpr} (attributes : Attributes) (ofSubject : subject.Reprints)
    (ofTarget : target.Reprints) (ofIf : ifType.Reprints) (ofElse : elseType.Reprints)
    (unnegated : negated = false → ¬StartsWithNot target.print) :
    Reprints ⟨.conditional subject negated target ifType elseType, attributes⟩ := by
  obtain ⟨rest, ending, conditionCut, isCondition⟩ :=
    exists_condition subject attributes ofTarget ofIf ofElse unnegated
  have following (after : List Char) :
      Delimited ((conditionText negated target ifType elseType).toList ++ after) := by
    cases negated <;> simp [Delimited, conditionText, Lexeme.delimiters]
  have enclosed : Rescans Delimited
      (subject.print ++ conditionText negated target ifType elseType)
      (TypePhrase.enclosed
        ⟨.conditional subject negated target ifType elseType, attributes⟩).Spelled := by
    intro gap
    cases subject with
    | type expr =>
        have ofExpr : expr.Reprints := ofSubject
        obtain ⟨kind, value, more, subjectEnding, cut, isSpelled⟩ := ofExpr.union gap
        have apart : subjectEnding.Apart (⟨true, .identifier, "is"⟩ :: rest) := by
          cases subjectEnding with
          | part wild =>
              intro word isHead _
              obtain rfl := Option.mem_some_iff.mp isHead
              rfl
          | _ => trivial
        refine ⟨kind, value, more ++ _, ending, ?_,
          .aboutType (.conditional isSpelled isCondition apart)⟩
        intro after others delimited scanned
        have scannedAll := cut _ _ (following after) (conditionCut after others delimited scanned)
        rw [ConditionalSubject.print, String.toList_append]
        simpa [List.append_assoc] using scannedAll
    | parameter name =>
        have isLexeme : IsLexeme .namedVariable ("$" ++ name).toList := ofSubject
        have isNamed : variableName ("$" ++ name) = name := variableName_dollar name
        refine ⟨.namedVariable, "$" ++ name, _, ending, ?_,
          @TypePhrase.Spelled.aboutParameter ⟨gap, .namedVariable, "$" ++ name⟩ _ _ _ rfl
            (by rw [isNamed]; exact isCondition)⟩
        intro after others delimited scanned
        have scannedAll : Scanned gap _ _ := isLexeme.scanned (by decide) (following after)
          (conditionCut after others delimited scanned)
        rw [String.ofList_toList] at scannedAll
        rw [ConditionalSubject.print, String.toList_append, List.append_assoc]
        exact scannedAll
  have printed : print ⟨.conditional subject negated target ifType elseType, attributes⟩ =
      "(" ++ (subject.print ++ conditionText negated target ifType elseType) ++ ")" := by
    rw [TypeExpr.print, TypeForm.print, conditionText]
    simp only [String.append_assoc]
  unfold Reprints
  rw [printed]
  exact enclosed.parenthesized.imp fun _ ending isSpelled => ⟨ending, isSpelled.atomic⟩

end TypeExpr

/-- What is printed for a part of a type expression can be read again, if the trees in it can
be told from their printed forms. -/
def TypePhrase.Reprints : TypePhrase → Prop
  | .chain _ type => type.Faithful → type.Reprints
  | .operand type => type.Faithful → type.Reprints
  | .atomic type => type.Faithful → type.Reprints
  | .primary type => type.Faithful → type.Reprints
  | .enclosed type => type.Faithful → type.Reprints
  | .subject type => type.Faithful → type.Reprints
  | .condition about type => about.Reprints → type.Faithful → type.Reprints
  | .parameter declared => declared.type.Faithful →
      Rescans EndsParameter declared.print (TypePhrase.parameter declared).Spelled
  | .item entry => entry.value.Faithful →
      Rescans Delimited entry.print (TypePhrase.item entry).Spelled

theorem Level.parts_combine (level : Level) (operands : List TypeExpr) :
    (level.combine operands).parts = operands := by
  cases level <;> rfl

theorem Level.reprints_below (level : Level) {type : TypeExpr}
    (below : (level.below type).Reprints) (faithful : type.Faithful) : type.Reprints := by
  cases level <;> exact below faithful

section Members

variable {parts : List (List Word)} {words part : List Word} {word : Word} {closed : Bool}

theorem Links.mem {operator : TokenKind} (links : Links operator parts words)
    (isPart : part ∈ parts) (isMember : word ∈ part) : word ∈ words := by
  induction links with
  | done => cases isPart
  | more _ _ induction =>
      rcases List.mem_cons.mp isPart with rfl | isLater
      · simp [isMember]
      · simp [induction isLater]

theorem ShapeTail.mem (tail : ShapeTail closed parts words) (isPart : part ∈ parts)
    (isMember : word ∈ part) : word ∈ words := by
  induction tail with
  | close => cases isPart
  | last => cases isPart
  | more _ _ induction =>
      rcases List.mem_cons.mp isPart with rfl | isLater
      · simp [isMember]
      · simp [induction isLater]

theorem ShapeBody.mem (body : ShapeBody closed parts words) (isPart : part ∈ parts)
    (isMember : word ∈ part) : word ∈ words := by
  cases body with
  | empty => cases isPart
  | items tail =>
      rcases List.mem_cons.mp isPart with rfl | isLater
      · simp [isMember]
      · simp [tail.mem isLater isMember]

end Members

/-- The word of a variable is the name of the variable behind a dollar sign. -/
theorem Word.Lexical.variableName {word : Word} (lexical : word.Lexical)
    (isVariable : word.kind = .namedVariable) :
    IsLexeme .namedVariable ("$" ++ TypeExpr.variableName word.text).toList := by
  have isLexeme := lexical (.inl (by rw [isVariable]; rfl))
  rw [isVariable] at isLexeme
  obtain ⟨char, rest, isText, opened⟩ := isLexeme.exists_cons (by decide)
  obtain rfl : char = '$' := by simpa [Lexeme.opens] using opened
  have isName : TypeExpr.variableName word.text = String.ofList rest := by
    rw [TypeExpr.variableName, isText]
    rfl
  have chars : ("$" ++ TypeExpr.variableName word.text).toList = word.text.toList := by
    rw [isName, isText]
    simp
  rwa [chars]

/-- The subject of a condition is a part of the conditional type. -/
theorem TypePhrase.Spelled.subject_mem {subject type : TypeExpr} {words : List Word}
    {ending : Ending}
    (isSpelled : (TypePhrase.condition (.type subject) type).Spelled words ending) :
    subject ∈ type.form.parts := by
  cases isSpelled with
  | condition => simp [TypeForm.parts, ConditionalSubject.parts]

/-- A tree that is spelled by words that were cut off a text can be read again from its
printed form. -/
theorem TypePhrase.Spelled.reprints {phrase : TypePhrase} {words : List Word} {ending : Ending}
    (isSpelled : phrase.Spelled words ending) (lexical : ∀ word ∈ words, word.Lexical) :
    phrase.Reprints := by
  induction isSpelled with
  | @single level _ _ _ _ induction => cases level <;> exact induction lexical
  | @joined level first slots firstWords words _ attributes several _ _ links ofFirst ofSlots =>
      intro faithful
      have reprints {operand : TypeExpr} (below : (level.below operand).Reprints)
          (isOperand : operand ∈ first :: slots.map Slot.value) : operand.Reprints :=
        level.reprints_below below (faithful.part (by rwa [level.parts_combine]))
      have ofOthers : ∀ other ∈ slots.map Slot.value, other.Reprints := by
        intro other isOther
        obtain ⟨slot, isSlot, rfl⟩ := List.mem_map.mp isOther
        refine reprints (ofSlots slot isSlot fun word isMember => lexical word ?_)
          (List.mem_cons_of_mem _ isOther)
        exact List.mem_append_right _ (links.mem (List.mem_map_of_mem isSlot) isMember)
      have firstReprints : first.Reprints :=
        reprints (ofFirst fun word isMember => lexical word (by simp [isMember])) List.mem_cons_self
      have someOthers : slots.map Slot.value ≠ [] := by simpa using several
      cases level with
      | union => exact TypeExpr.reprints_union someOthers attributes firstReprints ofOthers
      | intersection =>
          exact TypeExpr.reprints_intersection someOthers attributes firstReprints ofOthers
            (faithful.points _ .refl)
  | nullable isMark inner induction =>
      intro faithful
      have ofInner := induction fun word isMember => lexical word (by simp [isMember])
      exact TypeExpr.reprints_nullable _ (ofInner (faithful.part (by simp [TypeForm.parts])))
  | plain _ induction => exact induction lexical
  | suffixed _ suffixes induction =>
      intro faithful
      have ofInner := induction fun word isMember => lexical word (by simp [isMember])
      exact TypeExpr.reprints_suffixes suffixes
        (ofInner (TypeExpr.within_suffixes suffixes faithful))
  | callable isName _ _ listed _ _ ofParameters ofResult =>
      intro faithful
      have isLexeme := (lexical _ (by simp)).identifier isName
      have slotsLexical := listed.forall_slots
        fun word isMember => lexical word (by simp [isMember])
      have result := ofResult (fun word isMember => lexical word (by simp [isMember]))
        (faithful.part (by simp [TypeForm.parts]))
      refine TypeExpr.reprints_callable _ _ isLexeme ?_ result
      intro parameter isParameter
      obtain ⟨slot, isSlot, rfl⟩ := List.mem_map.mp isParameter
      refine ofParameters slot isSlot (slotsLexical slot isSlot) (faithful.part ?_)
      simpa [TypeForm.parts] using .inr (.inr ⟨slot, isSlot, rfl⟩)
  | parenthesized _ _ _ induction =>
      exact induction fun word isMember => lexical word (by simp [isMember])
  | this _ => exact fun _ => TypeExpr.reprints_this _
  | name isName =>
      exact fun _ => TypeExpr.reprints_name _ ((lexical _ (by simp)).identifier isName)
  | generic isName _ some _ listed induction =>
      intro faithful
      have isLexeme := (lexical _ List.mem_cons_self).identifier isName
      have slotsLexical := listed.forall_slots
        fun word isMember => lexical word (by simp [isMember])
      refine TypeExpr.reprints_generic _ _ isLexeme (by simpa using some) ?_
      intro argument isArgument
      obtain ⟨slot, isSlot, rfl⟩ := List.mem_map.mp isArgument
      refine induction slot isSlot (slotsLexical slot isSlot) (faithful.part ?_)
      simpa [TypeForm.parts] using .inr ⟨slot, isSlot, rfl⟩
  | shape _ _ _ _ _ items induction =>
      intro faithful
      refine TypeExpr.reprints_shape _ _ _ ?_
      intro item isItem
      obtain ⟨slot, isSlot, rfl⟩ := List.mem_map.mp isItem
      refine induction slot isSlot (fun word isMember => lexical word ?_) (faithful.part ?_)
      · simp [items.mem (List.mem_map_of_mem isSlot) isMember]
      · simpa [TypeForm.parts] using ⟨slot, isSlot, rfl⟩
  | constant start inner => exact fun _ => TypeExpr.reprints_constant _ start inner lexical
  | aboutParameter isVariable _ induction =>
      have isLexeme := (lexical _ List.mem_cons_self).variableName isVariable
      exact induction (fun word isMember => lexical word (by simp [isMember])) isLexeme
  | aboutType _ induction => exact induction lexical
  | unconditional _ induction => exact induction lexical
  | conditional _ condition _ ofSubject ofCondition =>
      intro faithful
      have subjectInduction := ofSubject fun word isMember => lexical word (by simp [isMember])
      have conditionInduction := ofCondition fun word isMember => lexical word (by simp [isMember])
      exact conditionInduction (subjectInduction (faithful.part condition.subject_mem)) faithful
  | condition isCondition negation _ _ _ _ _ ofTarget ofIf ofElse =>
      intro subjectReprints faithful
      have target := ofTarget (fun word isMember => lexical word (by simp [isMember]))
        (faithful.part (by simp [TypeForm.parts]))
      have ifBranch := ofIf (fun word isMember => lexical word (by simp [isMember]))
        (faithful.part (by simp [TypeForm.parts]))
      have elseBranch := ofElse (fun word isMember => lexical word (by simp [isMember]))
        (faithful.part (by simp [TypeForm.parts]))
      exact TypeExpr.reprints_conditional _ subjectReprints target ifBranch elseBranch
        (faithful.negations _ .refl)
  | parameter _ _ _ nameMark _ induction =>
      intro faithful
      have reprints := induction (fun word isMember => lexical word (by simp [isMember])) faithful
      refine TypeExpr.rescans_parameter _ reprints ?_
      intro text isName
      cases nameMark with
      | absent => cases isName
      | @present variable_ isVariable =>
          obtain rfl := Option.mem_some_iff.mp isName
          exact (lexical variable_ (by simp)).variableName isVariable
  | value _ induction =>
      intro faithful
      exact TypeExpr.rescans_value _ (induction lexical faithful)
  | entry isKey _ _ _ induction =>
      intro faithful
      have reprints := induction (fun word isMember => lexical word (by simp [isMember])) faithful
      exact TypeExpr.rescans_entry _ _ isKey (lexical _ (by simp)) reprints

namespace TypeExpr

/-- The type expression is read again from its printed form. -/
def Reparses (type : TypeExpr) : Prop :=
  ∃ found, ofText type.print = .ok found ∧ (found == type) = true

theorem reparses_of_faithful {source : String} {type : TypeExpr} (read : ofText source = .ok type)
    (numbers : WellFormedNumbers (tokenize source)) (faithful : type.Faithful) :
    type.Reparses := by
  obtain ⟨used, ending, last, rest, consumes, -, isSpelled⟩ := spelled_of_ofTokens read
  have lexical : ∀ word ∈ used, word.Lexical :=
    fun word isUsed => lexical_of_tokenize numbers word (consumes.mem isUsed)
  have reprints : type.Reprints := isSpelled.reprints lexical faithful
  obtain ⟨kind, value, more, _, cut, isSpelledAgain⟩ := reprints.union false
  have scanned := cut [] [] .nil .done
  rw [List.append_nil, List.append_nil] at scanned
  obtain ⟨final, isFinish, seen⟩ := scanned.words_tokenize
  obtain ⟨found, readAgain, same⟩ := ofTokens_of_spelled .off seen isFinish isSpelledAgain
  exact ⟨found, readAgain, (same_comm type found).mp same⟩

section Exceptions

theorem not_reparses {type : TypeExpr} (rejected : (ofText type.print).isOk = false) :
    ¬type.Reparses := by
  rintro ⟨found, read, -⟩
  rw [read] at rejected
  cases rejected

/-- What `A&(.5)` is read as. -/
def pointed : TypeExpr :=
  ⟨.intersection [⟨.identifier "A", .empty⟩,
    ⟨.constant ⟨.literal .float ".5", .empty⟩, .empty⟩], .empty⟩

theorem tokenize_pointed : tokenize "A&(.5)" =
    [⟨.identifier, "A", 1⟩, ⟨.intersection, "&", 1⟩, ⟨.openParen, "(", 1⟩, ⟨.float, ".5", 1⟩,
      ⟨.closeParen, ")", 1⟩, Token.finish 1] := by
  decide +kernel

theorem ofText_pointed : ofText "A&(.5)" = .ok pointed := by
  rw [ofText, tokenize_pointed]
  rfl

theorem wellFormedNumbers_pointed : WellFormedNumbers (tokenize "A&(.5)") := by
  have isNumber : Number.WellFormed .float ['.', '5'] :=
    .unsigned (@Number.Unsigned.fraction ['5'] [] (.last rfl) (.inl rfl))
  rw [tokenize_pointed]
  intro token isMember isKind
  simp only [List.mem_cons, List.not_mem_nil, or_false] at isMember
  rcases isMember with rfl | rfl | rfl | rfl | rfl | rfl <;>
    simp [Token.finish] at isKind ⊢
  exact isNumber

theorem throughout_pointed : pointed.Throughout TypeForm.NegationsApart := by
  refine throughout_of_parts trivial ?_
  intro part isPart
  simp only [TypeForm.parts, List.mem_cons, List.not_mem_nil, or_false] at isPart
  rcases isPart with rfl | rfl
  · exact throughout_leaf trivial rfl
  · exact throughout_leaf trivial rfl

/-- What `(T is (not) ? A : B)` is read as. -/
def negationLike : TypeExpr :=
  ⟨.conditional (.type ⟨.identifier "T", .empty⟩) false ⟨.identifier "not", .empty⟩
    ⟨.identifier "A", .empty⟩ ⟨.identifier "B", .empty⟩, .empty⟩

theorem tokenize_negationLike : tokenize "(T is (not) ? A : B)" =
    [⟨.openParen, "(", 1⟩, ⟨.identifier, "T", 1⟩, ⟨.blank, " ", 1⟩, ⟨.identifier, "is", 1⟩,
      ⟨.blank, " ", 1⟩, ⟨.openParen, "(", 1⟩, ⟨.identifier, "not", 1⟩, ⟨.closeParen, ")", 1⟩,
      ⟨.blank, " ", 1⟩, ⟨.nullable, "?", 1⟩, ⟨.blank, " ", 1⟩, ⟨.identifier, "A", 1⟩,
      ⟨.blank, " ", 1⟩, ⟨.colon, ":", 1⟩, ⟨.blank, " ", 1⟩, ⟨.identifier, "B", 1⟩,
      ⟨.closeParen, ")", 1⟩, Token.finish 1] := by
  decide +kernel

theorem ofText_negationLike : ofText "(T is (not) ? A : B)" = .ok negationLike := by
  rw [ofText, tokenize_negationLike]
  rfl

theorem wellFormedNumbers_negationLike :
    WellFormedNumbers (tokenize "(T is (not) ? A : B)") := by
  have noNumbers : ∀ token ∈ tokenize "(T is (not) ? A : B)",
      ¬(token.kind = .integer ∨ token.kind = .float) := by
    rw [tokenize_negationLike]
    decide
  intro token isMember isNumber
  exact absurd isNumber (noNumbers token isMember)

theorem throughout_negationLike : negationLike.Throughout TypeForm.PointsApart := by
  refine throughout_of_parts trivial ?_
  intro part isPart
  simp only [TypeForm.parts, ConditionalSubject.parts, List.mem_cons, List.not_mem_nil,
    or_false] at isPart
  rcases isPart with rfl | rfl | rfl | rfl
  · exact throughout_leaf trivial rfl
  · exact throughout_leaf trivial rfl
  · exact throughout_leaf trivial rfl
  · exact throughout_leaf trivial rfl

end Exceptions

/-- A type expression that was read from a text whose numbers are well formed is read again
from its printed form, if no operand behind an ampersand is printed with a point at its start
and the target of no condition without negation is printed with `not` at its start.  Neither
of the two can be left out. -/
theorem printed_reparses :
    (∀ (source : String) (type : TypeExpr), ofText source = .ok type →
      WellFormedNumbers (tokenize source) → type.Throughout TypeForm.PointsApart →
      type.Throughout TypeForm.NegationsApart → type.Reparses) ∧
    (∃ type, ofText "A&(.5)" = .ok type ∧ WellFormedNumbers (tokenize "A&(.5)") ∧
      type.Throughout TypeForm.NegationsApart ∧ ¬type.Reparses) ∧
    (∃ type, ofText "(T is (not) ? A : B)" = .ok type ∧
      WellFormedNumbers (tokenize "(T is (not) ? A : B)") ∧
      type.Throughout TypeForm.PointsApart ∧ ¬type.Reparses) := by
  refine ⟨?_, ?_, ?_⟩
  · intro source type read numbers points negations
    exact reparses_of_faithful read numbers ⟨points, negations⟩
  · have drifts : ¬pointed.Reparses := not_reparses (by decide +kernel)
    exact ⟨pointed, ofText_pointed, wellFormedNumbers_pointed, throughout_pointed, drifts⟩
  · have drifts : ¬negationLike.Reparses := not_reparses (by decide +kernel)
    exact ⟨negationLike, ofText_negationLike, wellFormedNumbers_negationLike,
      throughout_negationLike, drifts⟩

/-- What `A&(-.5)[]` is read as, in which the sign keeps the ampersand and the point apart. -/
def signed : TypeExpr :=
  ⟨.intersection [⟨.identifier "A", .empty⟩,
    ⟨.array ⟨.constant ⟨.literal .float "-.5", .empty⟩, .empty⟩, .empty⟩], .empty⟩

theorem printed_reparses_signed :
    ofText "A&(-.5)[]" = .ok signed ∧ signed.print = "A&-.5[]" ∧ signed.Reparses := by
  have isTokenized : tokenize "A&(-.5)[]" =
      [⟨.identifier, "A", 1⟩, ⟨.intersection, "&", 1⟩, ⟨.openParen, "(", 1⟩, ⟨.float, "-.5", 1⟩,
        ⟨.closeParen, ")", 1⟩, ⟨.openSquare, "[", 1⟩, ⟨.closeSquare, "]", 1⟩,
        Token.finish 1] := by decide +kernel
  have read : ofText "A&(-.5)[]" = .ok signed := by
    rw [ofText, isTokenized]
    rfl
  have isNumber : Number.WellFormed .float ['-', '.', '5'] :=
    .negative (@Number.Unsigned.fraction ['5'] [] (.last rfl) (.inl rfl))
  have numbers : WellFormedNumbers (tokenize "A&(-.5)[]") := by
    rw [isTokenized]
    intro token isMember isKind
    simp only [List.mem_cons, List.not_mem_nil, or_false] at isMember
    rcases isMember with rfl | rfl | rfl | rfl | rfl | rfl | rfl | rfl <;>
      simp [Token.finish] at isKind ⊢
    exact isNumber
  have throughout {property : TypeForm → Prop} (ofWhole : property signed.form)
      (ofName : property (.identifier "A"))
      (ofArray : property (.array ⟨.constant ⟨.literal .float "-.5", .empty⟩, .empty⟩))
      (ofNumber : property (.constant ⟨.literal .float "-.5", .empty⟩)) :
      signed.Throughout property := by
    refine throughout_of_parts ofWhole ?_
    intro part isPart
    simp only [TypeForm.parts, List.mem_cons, List.not_mem_nil, or_false] at isPart
    rcases isPart with rfl | rfl
    · exact throughout_leaf ofName rfl
    · refine throughout_of_parts ofArray ?_
      intro inner isInner
      obtain rfl := List.mem_singleton.mp isInner
      exact throughout_leaf ofNumber rfl
  have apart : signed.form.PointsApart := by
    intro operand isOperand
    obtain rfl := List.mem_singleton.mp isOperand
    decide +kernel
  refine ⟨read, by decide +kernel, ?_⟩
  exact printed_reparses.1 _ _ read numbers (throughout apart trivial trivial trivial)
    (throughout trivial trivial trivial trivial)

end TypeExpr

end Docblock
