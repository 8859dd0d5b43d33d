import Docblock.Proofs.ConstExpr.Completeness
import Docblock.Proofs.TypeExpr.Soundness

/-!
# Spellings of type expressions are read

A spelling of a type expression without line breaks is read, and what is read from
it is that expression up to attributes, provided that the words behind it do not
continue it.  Reading goes as far as it can, so the condition on the words behind a
spelling is needed: it says for each place where reading looks ahead that there is
nothing to go on with.
-/

namespace Docblock

open Docblock.Parser

theorem TypeExpr.sameAll_of_forall₂ {types others : List TypeExpr}
    (related : List.Forall₂ (fun type other => type.same other = true) types others) :
    TypeExpr.sameAll types others = true := by
  induction related with
  | nil => rw [TypeExpr.sameAll]
  | cons first _ induction => rw [TypeExpr.sameAll, first, induction, Bool.and_self]

theorem CallableParameter.sameAll_of_forall₂ {parameters others : List CallableParameter}
    (related : List.Forall₂ (fun parameter other => parameter.same other = true)
      parameters others) : CallableParameter.sameAll parameters others = true := by
  induction related with
  | nil => rw [CallableParameter.sameAll]
  | cons first _ induction => rw [CallableParameter.sameAll, first, induction, Bool.and_self]

theorem ShapeItem.sameAll_of_forall₂ {items others : List ShapeItem}
    (related : List.Forall₂ (fun item other => item.same other = true) items others) :
    ShapeItem.sameAll items others = true := by
  induction related with
  | nil => rw [ShapeItem.sameAll]
  | cons first _ induction => rw [ShapeItem.sameAll, first, induction, Bool.and_self]

namespace TypeExpr

variable {rest : List Word}

/-- The type was read, up to attributes, and reading stopped at `rest`. -/
def Same (type : TypeExpr) (rest : List Word) (found : TypeExpr) (after : List Word) : Prop :=
  after = rest ∧ type.same found = true

theorem node_same {form found : TypeForm} {attributes : Attributes} (start : Nat)
    (same : form.same found = true) :
    (node found start).Meets rest (Same ⟨form, attributes⟩ rest) False :=
  node_meets start fun _ => ⟨rfl, by rw [TypeExpr.same, same]⟩

/-- What may stand behind a spelling with the given ending, operators aside. -/
structure Behind (ending : Ending) (rest : List Word) : Prop where
  ends : Sealed rest
  allows : ending.Allows rest
  noSuffix : NoSuffix rest

/-- A word that continues no spelling and opens no brackets stands behind any spelling. -/
theorem Behind.of_settles {ending : Ending} {word : Word} (ends : Sealed (word :: rest))
    (settles : word.kind.settles = true) (notOpen : word.kind ≠ .openSquare) :
    Behind ending (word :: rest) where
  ends := ends
  allows := ending.allows_of_settled (.cons settles)
  noSuffix := by
    cases rest with
    | nil => trivial
    | cons next others => exact fun isSuffix => notOpen isSuffix.1

/-- No operator of the given level or of one that binds tighter comes next. -/
def Stops (level : Level) (multiline : Bool) (words : List Word) : Prop :=
  ∀ word ∈ words.head?, word.kind ≠ .intersection ∧ (multiline = true → word.kind ≠ .lineBreak) ∧
    match level with
    | .union => word.kind ≠ .union
    | .intersection => True

/-- The rule for operands with the operator of the given level between them. -/
def levelParser (nested : Goal → Parser TypeExpr) (multiline : Bool) : Level → Parser TypeExpr
  | .union => chain Level.union.operator Level.union.combine multiline
      (chain Level.intersection.operator Level.intersection.combine multiline
        (readOperand nested))
  | .intersection => chain Level.intersection.operator Level.intersection.combine multiline
      (readOperand nested)

theorem isAtOperator_yes {operator : TokenKind} {multiline : Bool} {word : Word}
    (isOperator : word.kind = operator) :
    (isAtOperator operator multiline).Returns (word :: rest) true (word :: rest) := by
  refine (Returns.isAt operator).bind ?_
  rw [if_pos (decide_eq_true isOperator)]
  exact .pure ⟨rfl, rfl⟩

theorem isAtOperator_no {operator : TokenKind} {multiline : Bool} {word : Word}
    (notOperator : word.kind ≠ operator) (notBreak : multiline = true → word.kind ≠ .lineBreak) :
    (isAtOperator operator multiline).Returns (word :: rest) false (word :: rest) := by
  refine (Returns.isAt operator).bind ?_
  rw [if_neg (by simpa using notOperator)]
  split
  · exact .pure ⟨rfl, rfl⟩
  · next isMultiline =>
      refine (Returns.isAt _).bind ?_
      rw [if_pos]
      · exact .pure ⟨rfl, rfl⟩
      · simpa using notBreak (by simpa using isMultiline)

/-- No part of a type expression starts with a line break. -/
theorem notBreak_of_starts {phrase : TypePhrase} {kind : TokenKind}
    (isStart : phrase.StartsWith kind) : kind ≠ .lineBreak := by
  rintro rfl
  cases phrase <;> simp [TypePhrase.StartsWith, starts, startsAtomic] at isStart

theorem skipLineBreaks_spelled {phrase : TypePhrase} {used : List Word} {ending : Ending}
    (isSpelled : phrase.Spelled used ending) (ends : Sealed rest) :
    skipLineBreaks.Returns (used ++ rest) () (used ++ rest) := by
  obtain ⟨word, more, rfl, isStart⟩ := isSpelled.starts
  exact Returns.skipLineBreaks_none (ends.append (word :: more)) (notBreak_of_starts isStart)

/-- A spelling of an operand that is read wherever it stands in front of an operator or of
words that are `quiet`. -/
def ReadsOperand (level : Level) (operand : Parser TypeExpr) (quiet : List Word → Prop)
    (bound : Nat) (slot : Slot TypeExpr) : Prop :=
  (level.below slot.value).Spelled slot.words slot.ending ∧
    ∀ tail, Behind slot.ending tail → quiet tail → (slot.words ++ tail).length ≤ bound →
      operand.Meets (slot.words ++ tail) (Same slot.value tail) False

section Chain

variable {quiet : List Word → Prop} {slots : List (Slot TypeExpr)}
  {words : List Word}

theorem Level.operator_settles {level : Level} {word : Word}
    (isOperator : word.kind = level.operator) :
    word.kind.settles = true ∧ word.kind ≠ .openSquare ∧ word.kind ≠ .finish := by
  rw [isOperator]
  cases level <;> decide

/-- Behind an operand stands an operator, or what stands behind the chain. -/
theorem links_behind {level : Level} {ending : Ending}
    (links : Links level.operator (slots.map Slot.words) words)
    (behind : Behind (Slot.lastEnding ending slots) rest) (quietRest : quiet rest)
    (quietOperator : ∀ word tail, word.kind = level.operator → quiet (word :: tail)) :
    Behind ending (words ++ rest) ∧ quiet (words ++ rest) := by
  cases slots with
  | nil =>
      cases links
      exact ⟨behind, quietRest⟩
  | cons slot slots =>
      cases links with
      | more isOperator others =>
          have settles := Level.operator_settles isOperator
          rw [List.append_assoc]
          exact ⟨.of_settles ((behind.ends.append _).append _ |>.cons _) settles.1 settles.2.1,
            quietOperator _ _ isOperator⟩

theorem nextOperand_reads {level : Level} {multiline : Bool} {operand : Parser TypeExpr}
    {slot : Slot TypeExpr} {word : Word} {bound : Nat} (isOperator : word.kind = level.operator)
    (isSlot : ReadsOperand level operand quiet bound slot) (behind : Behind slot.ending rest)
    (quietRest : quiet rest) (bounded : (slot.words ++ rest).length ≤ bound) :
    (nextOperand level.operator multiline operand).Meets (word :: (slot.words ++ rest))
      (fun found after => after = rest ∧ ∃ other, found = some other ∧
        slot.value.same other = true) False := by
  obtain ⟨isSpelled, reads⟩ := isSlot
  refine (isAtOperator_yes isOperator).bind ?_
  rw [if_pos rfl]
  refine (Returns.advance (behind.ends.append _).ne_nil).bind ?_
  have stays : (skipLineBreaksIf multiline).Returns (slot.words ++ rest) ()
      (slot.words ++ rest) := by
    unfold skipLineBreaksIf
    split
    · exact skipLineBreaks_spelled isSpelled behind.ends
    · exact .pure ⟨rfl, rfl⟩
  refine stays.bind ?_
  refine .bind (reads rest behind quietRest bounded) ?_
  rintro other _ ⟨rfl, same⟩
  exact .pure ⟨rfl, other, rfl, same⟩

theorem nextOperand_absent {level : Level} {multiline : Bool} {operand : Parser TypeExpr}
    (ends : Sealed rest) (stops : Stops level multiline rest) :
    (nextOperand level.operator multiline operand).Returns rest none rest := by
  obtain ⟨word, others, rfl⟩ := ends.exists_cons
  obtain ⟨notIntersection, notBreak, notUnion⟩ := stops word rfl
  have notOperator : word.kind ≠ level.operator := by
    cases level with
    | union => exact notUnion
    | intersection => exact notIntersection
  refine (isAtOperator_no notOperator notBreak).bind ?_
  rw [if_neg (by decide)]
  exact .pure ⟨rfl, rfl⟩

/-- A chain of operands is read, if each of them is. -/
theorem chain_reads (level : Level) {multiline : Bool} {operand : Parser TypeExpr}
    {first : TypeExpr}
    {firstWords : List Word} {ending : Ending} {attributes : Attributes} {bound : Nat}
    (several : slots ≠ [])
    (readsFirst : ReadsOperand level operand quiet bound ⟨first, firstWords, ending⟩)
    (reads : ∀ slot ∈ slots, ReadsOperand level operand quiet bound slot)
    (links : Links level.operator (slots.map Slot.words) words)
    (behind : Behind (Slot.lastEnding ending slots) rest) (stops : Stops level multiline rest)
    (quietRest : quiet rest)
    (quietOperator : ∀ word tail, word.kind = level.operator → quiet (word :: tail))
    (bounded : (firstWords ++ words ++ rest).length ≤ bound) :
    (chain level.operator level.combine multiline operand).Meets (firstWords ++ words ++ rest)
      (Same ⟨level.combine (first :: slots.map Slot.value), attributes⟩ rest) False := by
  rw [List.append_assoc] at bounded ⊢
  obtain ⟨behindFirst, quietFirst⟩ := links_behind links behind quietRest quietOperator
  refine .bind .mark ?_
  rintro start _ rfl
  refine .bind (readsFirst.2 _ behindFirst quietFirst bounded) ?_
  rintro found _ ⟨rfl, (sameFirst : first.same found = true)⟩
  refine .bind (Meets.many_total (fun type other : TypeExpr => type.same other = true) ?rounds
    : (many _).Meets _ (fun types after => after = rest ∧
      List.Forall₂ (fun type other => type.same other = true) (slots.map Slot.value) types)
      False) ?_
  case rounds =>
    have boundedTail : (words ++ rest).length ≤ bound := by
      simp only [List.length_append] at bounded ⊢
      omega
    clear behindFirst quietFirst several readsFirst bounded
    induction slots generalizing words ending with
    | nil =>
        cases links
        exact .done (nextOperand_absent behind.ends stops)
    | cons slot slots induction =>
        cases links with
        | @more _ _ word words isOperator others =>
            have tailBehind : Behind slot.ending (words ++ rest) ∧ quiet (words ++ rest) :=
              links_behind others behind quietRest quietOperator
            rw [List.append_assoc] at boundedTail ⊢
            simp only [List.cons_append, List.length_cons, List.length_append] at boundedTail
            have shorter : (words ++ rest).length <
                (word :: (slot.words ++ (words ++ rest))).length := by
              simp only [List.length_cons, List.length_append]
              omega
            refine .item ⟨shorter, ?_⟩ (induction
              (fun other isMember => reads other (List.mem_cons_of_mem _ isMember)) others behind
              (by simp; omega))
            exact nextOperand_reads isOperator (reads slot List.mem_cons_self) tailBehind.1
              tailBehind.2 (by simp; omega)
  rintro types _ ⟨rfl, related⟩
  have someTypes : types ≠ [] := by
    rintro rfl
    obtain ⟨slot, others, rfl⟩ := List.exists_cons_of_ne_nil several
    cases related
  rw [if_neg (by simpa using someTypes)]
  refine node_same start ?_
  have sameAll := sameAll_of_forall₂ (.cons sameFirst related)
  cases level with
  | union => rw [Level.combine, TypeForm.same, sameAll]
  | intersection => rw [Level.combine, TypeForm.same, sameAll]

end Chain

/-- The words start like a type expression. -/
def StartsType (words : List Word) : Prop :=
  ∃ word more, words = word :: more ∧ starts word.kind = true

theorem skipLineBreaks_endsItem {close : TokenKind} {tail : List Word}
    (notBreak : close ≠ .lineBreak) (ends : Sealed tail) (endsItem : EndsItem close tail) :
    skipLineBreaks.Returns tail () tail := by
  obtain ⟨word, more, rfl, isComma | isClose⟩ := endsItem
  · exact Returns.skipLineBreaks_none ends (by rw [isComma]; decide)
  · exact Returns.skipLineBreaks_none ends (by rw [isClose]; exact notBreak)

section Separated

variable {α : Type} {item : Parser α} {close : TokenKind} {word comma : Word}
  (isBracket : close = .closeAngle ∨ close = .closeParen)
include isBracket

theorem nextSeparated_reads {related : α → α → Prop} {slot : Slot α}
    (isComma : comma.kind = .comma) (startsType : StartsType slot.words)
    (reads : item.Meets (slot.words ++ rest)
      (fun found after => after = rest ∧ related slot.value found) False)
    (ends : Sealed rest) (endsItem : EndsItem close rest) :
    (nextSeparated item close).Meets (comma :: (slot.words ++ rest))
      (fun found after => after = rest ∧ ∃ other, found = some other ∧
        related slot.value other) False := by
  obtain ⟨start, more, eq, isStart⟩ := startsType
  have notBreak : close ≠ .lineBreak := by rcases isBracket with rfl | rfl <;> decide
  have notStart : starts close = false := by rcases isBracket with rfl | rfl <;> rfl
  have slotEnds : Sealed (slot.words ++ rest) := ends.append _
  have stays : skipLineBreaks.Returns (slot.words ++ rest) () (slot.words ++ rest) := by
    rw [eq] at slotEnds ⊢
    refine Returns.skipLineBreaks_none slotEnds ?_
    intro isBreak
    rw [isBreak] at isStart
    exact absurd isStart (by decide)
  have notClose : (isAt close).Returns (slot.words ++ rest) false (slot.words ++ rest) := by
    rw [eq]
    refine Returns.isAt_no ?_
    rintro rfl
    rw [notStart] at isStart
    exact absurd isStart (by decide)
  refine (Returns.accept_yes isComma slotEnds.ne_nil).bind ?_
  rw [if_pos rfl]
  refine stays.bind ?_
  refine notClose.bind ?_
  rw [if_neg (by decide)]
  refine .bind reads ?_
  rintro other _ ⟨rfl, same⟩
  refine (skipLineBreaks_endsItem notBreak ends endsItem).bind ?_
  exact .pure ⟨rfl, other, rfl, same⟩

theorem nextSeparated_close (isClose : word.kind = close) :
    (nextSeparated item close).Returns (word :: rest) none (word :: rest) := by
  have notComma : close ≠ .comma := by rcases isBracket with rfl | rfl <;> decide
  refine (Returns.accept_no (by rw [isClose]; exact notComma)).bind ?_
  rw [if_neg (by decide)]
  exact .pure ⟨rfl, rfl⟩

theorem nextSeparated_trailingComma (isComma : comma.kind = .comma) (isClose : word.kind = close)
    (ends : Sealed (word :: rest)) :
    (nextSeparated item close).Returns (comma :: word :: rest) none (word :: rest) := by
  have notBreak : close ≠ .lineBreak := by rcases isBracket with rfl | rfl <;> decide
  refine (Returns.accept_yes isComma ends.ne_nil).bind ?_
  rw [if_pos rfl]
  refine (Returns.skipLineBreaks_none ends (by rw [isClose]; exact notBreak)).bind ?_
  refine (Returns.isAt close).bind ?_
  rw [if_pos (decide_eq_true isClose)]
  exact .pure ⟨rfl, rfl⟩

/-- A list of items is read, if each of them is in front of a comma or of the bracket. -/
theorem commaSeparated_reads (related : α → α → Prop) {slots : List (Slot α)}
    {list : List Word} {bound : Nat} (some : slots ≠ [])
    (each : ∀ slot ∈ slots, StartsType slot.words ∧
      ∀ tail, Sealed tail → EndsItem close tail → (slot.words ++ tail).length ≤ bound →
        item.Meets (slot.words ++ tail)
          (fun found after => after = tail ∧ related slot.value found) False)
    (listed : Listed close (slots.map Slot.words) list) (ends : Sealed rest)
    (bounded : (list ++ rest).length ≤ bound) :
    (commaSeparated item close).Meets (list ++ rest)
      (fun found after => (∃ word, word.kind = close ∧ after = word :: rest) ∧
        List.Forall₂ related (slots.map Slot.value) found) False := by
  cases slots with
  | nil => exact absurd rfl some
  | cons slot slots =>
      cases listed with
      | @some _ _ body word further isClose =>
          have closeEnds : Sealed (word :: rest) := ends.cons word
          have notBreak : close ≠ .lineBreak := by rcases isBracket with rfl | rfl <;> decide
          rw [List.append_assoc, List.append_assoc, List.singleton_append] at bounded ⊢
          refine .bind ((each slot List.mem_cons_self).2 _ (closeEnds.append body)
            (further.endsItem isClose) bounded) ?_
          rintro first _ ⟨rfl, sameFirst⟩
          refine (skipLineBreaks_endsItem notBreak (closeEnds.append body)
            (further.endsItem isClose)).bind ?_
          have boundedBody : (body ++ word :: rest).length ≤ bound := by
            simp only [List.length_append] at bounded ⊢
            omega
          refine .bind (further.many_meets related (word :: rest) isClose closeEnds
            boundedBody ?_ (nextSeparated_close isBracket isClose) ?_) ?_
          · intro comma slot tail isComma isMember tailEnds endsItem fits
            obtain ⟨startsType, reads⟩ := each slot (List.mem_cons_of_mem _ isMember)
            exact nextSeparated_reads isBracket isComma startsType
              (reads tail tailEnds endsItem fits) tailEnds endsItem
          · intro comma isComma
            exact nextSeparated_trailingComma isBracket isComma isClose closeEnds
          · rintro others _ ⟨rfl, relatedOthers⟩
            exact .pure ⟨⟨word, isClose, rfl⟩, .cons sameFirst relatedOthers⟩

end Separated

/-- What each part of a type expression is read as, in the places where it can stand.  No
more than `depth` words are left, so the nesting does not go deeper than that. -/
def Reads : TypePhrase → List Word → Ending → Prop
  | .chain level type, used, ending => ∀ depth multiline rest, Behind ending rest →
      Stops level multiline rest → (used ++ rest).length ≤ depth →
      (levelParser (goalWithin depth) multiline level).Meets (used ++ rest) (Same type rest) False
  | .operand type, used, ending => ∀ depth rest, Behind ending rest →
      (used ++ rest).length ≤ depth →
      (readOperand (goalWithin depth)).Meets (used ++ rest) (Same type rest) False
  | .atomic type, used, ending => ∀ depth rest, Behind ending rest →
      (used ++ rest).length ≤ depth →
      (readAtomic (goalWithin depth)).Meets (used ++ rest) (Same type rest) False
  | .primary type, used, ending => ∀ depth rest, Sealed rest → ending.Allows rest →
      (used ++ rest).length ≤ depth →
      (readPrimary (goalWithin depth)).Meets (used ++ rest) (Same type rest) False
  | .enclosed type, used, _ => ∀ depth close rest, close.kind = .closeParen → Sealed rest →
      (used ++ close :: rest).length ≤ depth →
      (readEnclosed (goalWithin (depth + 1))).Meets (used ++ close :: rest)
        (Same type (close :: rest)) False
  | .subject type, used, _ => ∀ depth close rest, close.kind = .closeParen → Sealed rest →
      (used ++ close :: rest).length ≤ depth →
      (readSubject (goalWithin (depth + 1))).Meets (used ++ close :: rest)
        (Same type (close :: rest)) False
  | .condition subject type, used, _ => ∀ depth found start close rest,
      subject.same found = true → close.kind = .closeParen → Sealed rest →
      (used ++ close :: rest).length ≤ depth →
      (readCondition (goalWithin depth) found start).Meets (used ++ close :: rest)
        (Same type (close :: rest)) False
  | .parameter parameter, used, _ => ∀ depth rest, Sealed rest → EndsItem .closeParen rest →
      (used ++ rest).length ≤ depth →
      (readParameter (goalWithin (depth + 1))).Meets (used ++ rest)
        (fun found after => after = rest ∧ parameter.same found = true) False
  | .item item, used, _ => ∀ depth rest, Sealed rest → EndsItem .closeCurly rest →
      (used ++ rest).length ≤ depth →
      (readShapeItem (goalWithin (depth + 1))).Meets (used ++ rest)
        (fun found after => after = rest ∧ item.same found = true) False

section Rules

variable {type : TypeExpr} {used : List Word} {ending : Ending}

theorem stops_intersection {level : Level} {multiline : Bool} (stops : Stops level multiline rest) :
    Stops .intersection multiline rest :=
  fun word isHead => ⟨(stops word isHead).1, (stops word isHead).2.1, trivial⟩

theorem chain_single (level : Level) {multiline : Bool} {operand : Parser TypeExpr}
    (reads : operand.Meets (used ++ rest) (Same type rest) False) (ends : Sealed rest)
    (stops : Stops level multiline rest) :
    (chain level.operator level.combine multiline operand).Meets (used ++ rest)
      (Same type rest) False := by
  refine .bind .mark ?_
  rintro start _ rfl
  refine .bind reads ?_
  rintro found _ ⟨rfl, same⟩
  refine (Returns.many_none ?_).bind (.pure ⟨rfl, same⟩)
  obtain ⟨word, others, rfl⟩ := ends.exists_cons
  obtain ⟨notIntersection, notBreak, notUnion⟩ := stops word rfl
  refine (isAtOperator_no ?_ notBreak).bind ?_
  · cases level with
    | union => exact notUnion
    | intersection => exact notIntersection
  · rw [if_neg (by decide)]
    exact .pure ⟨rfl, rfl⟩

theorem reads_single {level : Level} (reads : Reads (level.below type) used ending) :
    Reads (.chain level type) used ending := by
  intro depth multiline rest behind stops fits
  cases level with
  | union =>
      exact chain_single .union (reads depth multiline rest behind (stops_intersection stops) fits)
        behind.ends stops
  | intersection =>
      exact chain_single .intersection (reads depth rest behind fits) behind.ends stops

theorem reads_joined {level : Level} {first : TypeExpr} {slots : List (Slot TypeExpr)}
    {firstWords words : List Word} {attributes : Attributes} (several : slots ≠ [])
    (inner : (level.below first).Spelled firstWords ending)
    (each : ∀ slot ∈ slots, (level.below slot.value).Spelled slot.words slot.ending)
    (links : Links level.operator (slots.map Slot.words) words)
    (readsFirst : Reads (level.below first) firstWords ending)
    (reads : ∀ slot ∈ slots, Reads (level.below slot.value) slot.words slot.ending) :
    Reads (.chain level ⟨level.combine (first :: slots.map Slot.value), attributes⟩)
      (firstWords ++ words) (Slot.lastEnding ending slots) := by
  intro depth multiline rest behind stops fits
  cases level with
  | union =>
      have readsOperand (slot : Slot TypeExpr)
          (isSpelled : (Level.union.below slot.value).Spelled slot.words slot.ending)
          (isRead : Reads (Level.union.below slot.value) slot.words slot.ending) :
          ReadsOperand .union (levelParser (goalWithin depth) multiline .intersection)
            (Stops .intersection multiline) depth slot :=
        ⟨isSpelled, fun tail => isRead depth multiline tail⟩
      refine chain_reads .union several (readsOperand ⟨first, firstWords, ending⟩ inner readsFirst)
        (fun slot isMember => readsOperand slot (each slot isMember) (reads slot isMember))
        links behind stops (stops_intersection stops) ?_ fits
      rintro word tail isUnion _ ⟨⟩
      exact ⟨by rw [isUnion]; decide, fun _ => by rw [isUnion]; decide, trivial⟩
  | intersection =>
      have readsOperand (slot : Slot TypeExpr)
          (isSpelled : (Level.intersection.below slot.value).Spelled slot.words slot.ending)
          (isRead : Reads (Level.intersection.below slot.value) slot.words slot.ending) :
          ReadsOperand .intersection (readOperand (goalWithin depth)) (fun _ => True) depth slot :=
        ⟨isSpelled, fun tail behind _ => isRead depth tail behind⟩
      exact chain_reads .intersection several
        (readsOperand ⟨first, firstWords, ending⟩ inner readsFirst)
        (fun slot isMember => readsOperand slot (each slot isMember) (reads slot isMember))
        links behind stops trivial (fun _ _ _ => trivial) fits

theorem reads_nullable {word : Word} {attributes : Attributes} (isMark : word.kind = .nullable)
    (reads : Reads (.atomic type) used ending) :
    Reads (.operand ⟨.nullable type, attributes⟩) (word :: used) ending := by
  intro depth rest behind fits
  refine .bind .mark ?_
  rintro start _ rfl
  refine (Returns.accept_yes isMark (behind.ends.append used).ne_nil).bind ?_
  rw [if_pos rfl]
  refine .bind (reads depth rest behind ?_) ?_
  · simp only [List.cons_append, List.length_cons] at fits
    omega
  rintro found _ ⟨rfl, same⟩
  exact node_same start (by rw [TypeForm.same, same])

theorem reads_plain (isSpelled : (TypePhrase.atomic type).Spelled used ending)
    (reads : Reads (.atomic type) used ending) : Reads (.operand type) used ending := by
  intro depth rest behind fits
  obtain ⟨word, more, rfl, isStart⟩ := isSpelled.starts
  refine .bind .mark ?_
  rintro start _ rfl
  refine (Returns.accept_no ?_).bind ?_
  · intro isNullable
    rw [isNullable] at isStart
    exact absurd (show startsAtomic .nullable = true from isStart) (by decide)
  · rw [if_neg (by decide)]
    exact reads depth rest behind fits

theorem readArraySuffix_yes {open_ close : Word} (start : Nat)
    (isOpen : open_.kind = .openSquare) (isClose : close.kind = .closeSquare)
    (ends : Sealed rest) :
    (readArraySuffix start).Meets (open_ :: close :: rest)
      (fun found after => after = rest ∧ ∃ attributes, found = some attributes ∧ True) False := by
  refine (Returns.isAt_yes isOpen).bind ?_
  rw [if_pos rfl]
  refine .push_bind ((Returns.advance (by simp)).bind_holds .advance ?_)
  refine (Returns.accept_yes isClose ends.ne_nil).bind_holds (.accept _) ?_
  rw [if_pos rfl]
  refine .drop_bind (.bind (.positionsSince start) ?_)
  rintro attributes _ rfl
  exact .pure ⟨rfl, attributes, rfl, trivial⟩

theorem readArraySuffix_no (start : Nat) (ends : Sealed rest) (noSuffix : NoSuffix rest) :
    (readArraySuffix start).Returns rest none rest := by
  obtain ⟨word, more, rfl⟩ := ends.exists_cons
  by_cases isOpen : word.kind = .openSquare
  · refine (Returns.isAt_yes isOpen).bind ?_
    rw [if_pos rfl]
    have moreEnds : Sealed more := ends.tail (by rw [isOpen]; decide)
    obtain ⟨next, others, rfl⟩ := moreEnds.exists_cons
    refine .push_bind ((Returns.advance (by simp)).bind_holds .advance ?_)
    refine (Returns.accept_no fun isClose => noSuffix ⟨isOpen, isClose⟩).bind_holds (.accept _) ?_
    rw [if_neg (by decide)]
    exact .rollback_bind (.pure ⟨rfl, rfl⟩)
  · refine (Returns.isAt_no isOpen).bind ?_
    rw [if_neg (by decide)]
    exact .pure ⟨rfl, rfl⟩

/-- The brackets behind a type are read one pair after the other, and make the same array
type of the type in front of them. -/
theorem suffixes_read {outer : TypeExpr} {brackets : List Word} {final : Ending}
    (suffixes : Suffixes type ending outer brackets final) (start : Nat) (ends : Sealed rest)
    (noSuffix : NoSuffix rest) {found : TypeExpr} (same : type.same found = true) :
    (many (readArraySuffix start)).Meets (brackets ++ rest)
      (fun attributes after => after = rest ∧ outer.same (attributes.foldl
        (fun inner attributes => ⟨.array inner, attributes⟩) found) = true) False := by
  have rounds : ∃ values : List Attributes,
      Rounds
        (fun words (_ : Attributes) rest => rest.length < words.length ∧
          (readArraySuffix start).Meets words
            (fun found after => after = rest ∧ ∃ other, found = some other ∧ True) False)
        (fun words (_ : Unit) rest => (readArraySuffix start).Returns words none rest)
        (brackets ++ rest) values () rest ∧
      ∀ others, List.Forall₂ (fun _ _ => True) values others →
        ∀ found, type.same found = true → outer.same (others.foldl
          (fun inner attributes => ⟨.array inner, attributes⟩) found) = true := by
    clear same
    induction suffixes with
    | done =>
        refine ⟨[], .done (readArraySuffix_no start ends noSuffix), ?_⟩
        intro others related found same
        cases related
        exact same
    | @more type outer ending final open_ close words attributes isOpen isClose others induction =>
        obtain ⟨values, rounds, sameOuter⟩ := induction
        refine ⟨attributes :: values, .item ⟨Nat.lt_succ_of_lt (Nat.lt_succ_self _),
          readArraySuffix_yes start isOpen isClose (ends.append words)⟩ rounds, ?_⟩
        intro all related found same
        cases related with
        | cons _ related =>
            exact sameOuter _ related _ (by rw [TypeExpr.same, TypeForm.same, same])
  obtain ⟨values, rounds, sameOuter⟩ := rounds
  refine (Meets.many_total (fun _ _ => True) rounds).mono ?_ id
  rintro attributes _ ⟨rfl, related⟩
  exact ⟨rfl, sameOuter attributes related found same⟩

theorem reads_suffixed {outer : TypeExpr} {brackets : List Word} {final : Ending}
    (suffixes : Suffixes type ending outer brackets final)
    (reads : Reads (.primary type) used ending) :
    Reads (.atomic outer) (used ++ brackets) final := by
  intro depth rest behind fits
  have allows : ending.Allows (brackets ++ rest) := by
    cases suffixes with
    | done => exact behind.allows
    | more isOpen isClose others =>
        exact ending.allows_of_settled (.cons (by rw [isOpen]; rfl))
  rw [List.append_assoc] at fits ⊢
  refine .bind .mark ?_
  rintro start _ rfl
  refine .bind (reads depth _ (behind.ends.append brackets) allows fits) ?_
  rintro found _ ⟨rfl, same⟩
  refine .bind (suffixes_read suffixes start behind.ends behind.noSuffix same) ?_
  rintro attributes _ ⟨rfl, sameOuter⟩
  exact .pure ⟨rfl, sameOuter⟩

/-- The first word decides which rule is used. -/
theorem readPrimary_dispatch {nested : Goal → Parser TypeExpr} {word : Word} {words : List Word}
    {good : TypeExpr → List Word → Prop} {bad : Prop}
    (rule : (readPrimaryAt nested word.kind).Meets (word :: words) good bad) :
    (readPrimary nested).Meets (word :: words) good bad := by
  refine .bind .current ?_
  rintro token _ ⟨sameKind, -, rfl⟩
  rw [sameKind]
  exact rule

/-- An identifier that is not the class of a constant is read first, and then what follows
it. -/
theorem readPrimary_identifier {nested : Goal → Parser TypeExpr} {word next : Word}
    {others : List Word} {good : TypeExpr → List Word → Prop} (isName : word.kind = .identifier)
    (notColons : next.kind ≠ .doubleColon)
    (follows : ∀ start attributes,
      (readNameTail nested word.text ⟨.identifier word.text, attributes⟩ start).Meets
        (next :: others) good False) :
    (readPrimary nested).Meets (word :: next :: others) good False := by
  refine readPrimary_dispatch ?_
  rw [isName]
  refine .bind .mark ?_
  rintro start _ rfl
  refine .push_bind (Holds.bind (.look _) .current ?_)
  rintro token _ ⟨-, sameText, rfl⟩
  refine (Returns.advance (by simp)).bind_holds .advance ?_
  refine (Returns.isAt_no notColons).bind_holds (.look _) ?_
  rw [if_neg (by decide), sameText]
  refine .drop_bind (.bind (node_gives start) ?_)
  rintro _ _ ⟨rfl, attributes, rfl⟩
  exact follows start attributes

theorem reads_name {word : Word} {attributes : Attributes} (isName : word.kind = .identifier) :
    Reads (.primary ⟨.identifier word.text, attributes⟩) [word] (.name word.text) := by
  intro depth rest ends allows fits
  obtain ⟨next, others, rfl⟩ := ends.exists_cons
  obtain ⟨notColons, notAngle, noCallable, noShape⟩ := allows next rfl
  have same (found : Attributes) : Same ⟨.identifier word.text, attributes⟩ (next :: others)
      ⟨.identifier word.text, found⟩ (next :: others) :=
    ⟨rfl, by simp [TypeExpr.same, TypeForm.same]⟩
  refine readPrimary_identifier isName notColons fun start found => ?_
  refine (Returns.isAt_no notAngle).bind ?_
  rw [if_neg (by decide)]
  by_cases isParen : next.kind = .openParen
  · refine (Returns.isAt_yes isParen).bind ?_
    rw [if_pos rfl]
    have missed := noCallable isParen depth ⟨.identifier word.text, found⟩ start
      (by simp only [List.singleton_append, List.length_cons] at fits ⊢; omega)
    refine .bind (missed.attempt (readCallable_built (goalWithin_built depth) rfl _).steady) ?_
    rintro _ _ ⟨rfl, error, rfl⟩
    exact .pure (same found)
  · refine (Returns.isAt_no isParen).bind ?_
    rw [if_neg (by decide)]
    split
    · exact .pure (same found)
    · next kind opens =>
        by_cases isCurly : next.kind = .openCurly
        · refine (Returns.isAt_yes isCurly).bind ?_
          rw [if_pos rfl]
          refine Returns.isAfterBlank.bind ?_
          rw [if_pos (noShape isCurly (by rw [opens]; rfl))]
          exact .pure (same found)
        · refine (Returns.isAt_no isCurly).bind ?_
          rw [if_neg (by decide)]
          exact .pure (same found)

theorem reads_this {word : Word} {attributes : Attributes} (isThis : word.kind = .thisVariable) :
    Reads (.primary ⟨.this, attributes⟩) [word] .closed := by
  intro depth rest ends _ _
  refine readPrimary_dispatch ?_
  rw [isThis]
  refine .bind .mark ?_
  rintro start _ rfl
  refine (Returns.advance ends.ne_nil).bind ?_
  exact node_same start (by rw [TypeForm.same])

theorem reads_constant {expr : ConstExpr} {attributes : Attributes} (start : StartsConstant used)
    (inner : (ConstPhrase.expr expr).Spelled used ending) :
    Reads (.primary ⟨.constant expr, attributes⟩) used ending := by
  intro depth rest ends allows _
  have constant : readConstant.Meets (used ++ rest) (Same ⟨.constant expr, attributes⟩ rest)
      False := by
    have isStart : (isAtAny constantStarts).Returns (used ++ rest) true (used ++ rest) := by
      cases start with
      | @literal word words isLiteral =>
          have isStart : constantStarts.contains word.kind = true := by
            rw [constantStarts, KindSet.contains_ofList]
            simp only [List.contains_eq_mem, decide_eq_true_eq]
            simp only [List.mem_cons, List.not_mem_nil, or_false] at isLiteral ⊢
            tauto
          rw [← isStart]
          exact Returns.isAtAny _
      | @named word colons words isName isColons =>
          have isStart : constantStarts.contains word.kind = true := by
            rw [isName]
            decide
          rw [← isStart]
          exact Returns.isAtAny _
    refine isStart.bind ?_
    rw [if_pos rfl]
    refine .bind .mark ?_
    rintro start _ rfl
    refine .bind (ConstExpr.parser_reads inner ends allows) ?_
    rintro found _ ⟨rfl, same⟩
    exact node_same start (by rw [TypeForm.same, same])
  cases start with
  | @literal word words isLiteral =>
      refine readPrimary_dispatch ?_
      simp only [List.mem_cons, List.not_mem_nil, or_false] at isLiteral
      rcases isLiteral with isKind | isKind | isKind | isKind | isKind <;> rw [isKind] <;>
        exact constant
  | @named word colons words isName isColons =>
      refine readPrimary_dispatch ?_
      rw [isName]
      refine .bind .mark ?_
      rintro start _ rfl
      refine .push_bind (Holds.bind (.look _) .current ?_)
      rintro token _ ⟨-, sameText, rfl⟩
      refine (Returns.advance (by simp)).bind_holds .advance ?_
      refine (Returns.isAt_yes isColons).bind_holds (.look _) ?_
      rw [if_pos rfl]
      exact .rollback_bind constant

/-- A type that is an argument or stands in a parameter or an item is read with the parser
for nested goals. -/
theorem Reads.nestedUnion (reads : Reads (.chain .union type) used ending) {depth : Nat}
    (multiline : Bool) (behind : Behind ending rest) (stops : Stops .union multiline rest)
    (fits : (used ++ rest).length ≤ depth) :
    (goalWithin (depth + 1) (.union multiline)).Meets (used ++ rest) (Same type rest) False :=
  reads depth multiline rest behind stops fits

theorem behind_of_endsItem {close : TokenKind} (isBracket : close.settles = true)
    (notOpen : close ≠ .openSquare) (ends : Sealed rest) (endsItem : EndsItem close rest) :
    Behind ending rest := by
  obtain ⟨word, more, rfl, isKind | isKind⟩ := endsItem
  · exact .of_settles ends (by rw [isKind]; rfl) (by rw [isKind]; decide)
  · exact .of_settles ends (by rw [isKind]; exact isBracket) (by rw [isKind]; exact notOpen)

theorem stops_of_endsItem {close : TokenKind} {level : Level}
    (notOperator : close ≠ .union ∧ close ≠ .intersection ∧ close ≠ .lineBreak)
    (endsItem : EndsItem close rest) (multiline : Bool) : Stops level multiline rest := by
  obtain ⟨word, more, rfl, isKind | isKind⟩ := endsItem
  · rintro _ ⟨⟩
    rw [isKind]
    cases level <;> exact ⟨by decide, fun _ => by decide, by decide⟩
  · rintro _ ⟨⟩
    rw [isKind]
    cases level
    · exact ⟨notOperator.2.1, fun _ => notOperator.2.2, notOperator.1⟩
    · exact ⟨notOperator.2.1, fun _ => notOperator.2.2, trivial⟩

/-- The arguments of a generic type are read, if each of them is. -/
theorem readGeneric_reads {nested : Goal → Parser TypeExpr} {angle : Word}
    {slots : List (Slot TypeExpr)} {list : List Word} {base found : TypeExpr} {bound : Nat}
    (outer : Attributes) (start : Nat) (sameBase : base.same found = true)
    (isOpen : angle.kind = .openAngle) (some : slots ≠ [])
    (each : ∀ slot ∈ slots, (TypePhrase.chain .union slot.value).Spelled slot.words slot.ending)
    (listed : Listed .closeAngle (slots.map Slot.words) list)
    (reads : ∀ slot ∈ slots, ∀ tail, Behind slot.ending tail → Stops .union false tail →
      (slot.words ++ tail).length ≤ bound →
      (nested (.union false)).Meets (slot.words ++ tail) (Same slot.value tail) False)
    (ends : Sealed rest) (fits : (list ++ rest).length ≤ bound) :
    (readGeneric nested found start).Meets (angle :: (list ++ rest))
      (Same ⟨.generic base (slots.map Slot.value), outer⟩ rest) False := by
  refine (Returns.consume isOpen (ends.append list).ne_nil).bind ?_
  have stays : skipLineBreaks.Returns (list ++ rest) () (list ++ rest) := by
    cases slots with
    | nil => exact absurd rfl some
    | cons slot slots =>
        cases listed with
        | some further isClose =>
            rw [List.append_assoc, List.append_assoc]
            exact skipLineBreaks_spelled (each slot List.mem_cons_self)
              ((ends.append _).append _)
  refine stays.bind ?_
  refine .bind (commaSeparated_reads (.inl rfl)
    (fun type other : TypeExpr => type.same other = true) some (fun slot isMember => ⟨(each slot isMember).starts, ?_⟩) listed ends fits) ?_
  · intro tail tailEnds endsItem tailFits
    exact reads slot isMember tail
      (behind_of_endsItem (by rfl) (by decide) tailEnds endsItem)
      (stops_of_endsItem (by decide) endsItem false) tailFits
  rintro arguments _ ⟨⟨close, isClose, rfl⟩, related⟩
  refine (Returns.consume isClose ends.ne_nil).bind ?_
  refine node_same start ?_
  rw [TypeForm.same, sameAll_of_forall₂ related, sameBase, Bool.and_self]

theorem reads_generic {name angle : Word} {slots : List (Slot TypeExpr)} {list : List Word}
    {inner outer : Attributes} (isName : name.kind = .identifier)
    (isOpen : angle.kind = .openAngle) (some : slots ≠ [])
    (each : ∀ slot ∈ slots, (TypePhrase.chain .union slot.value).Spelled slot.words slot.ending)
    (listed : Listed .closeAngle (slots.map Slot.words) list)
    (reads : ∀ slot ∈ slots, Reads (.chain .union slot.value) slot.words slot.ending) :
    Reads (.primary ⟨.generic ⟨.identifier name.text, inner⟩ (slots.map Slot.value), outer⟩)
      (name :: angle :: list) .closed := by
  intro depth rest ends _ fits
  obtain ⟨depth, rfl⟩ : ∃ less, depth = less + 1 :=
    Nat.exists_eq_add_of_le' (Nat.le_trans (by simp) fits)
  have fitsList : (list ++ rest).length ≤ depth := by
    simp only [List.cons_append, List.length_cons] at fits
    omega
  refine readPrimary_identifier isName (by rw [isOpen]; decide) fun start attributes => ?_
  refine (Returns.isAt_yes isOpen).bind ?_
  rw [if_pos rfl]
  have sameName : (⟨.identifier name.text, inner⟩ : TypeExpr).same
      ⟨.identifier name.text, attributes⟩ = true := by
    simp [TypeExpr.same, TypeForm.same]
  exact readGeneric_reads outer start sameName isOpen some each listed
    (fun slot isMember _ behind stops => (reads slot isMember).nestedUnion false behind stops)
    ends fitsList

theorem accept_mark_reads {kind : TokenKind} {present : Bool} {marks : List Word}
    (mark : Mark kind present marks) (ends : Sealed rest)
    (absent : present = false → ∀ word ∈ rest.head?, word.kind ≠ kind) :
    (accept kind).Returns (marks ++ rest) present rest := by
  cases mark with
  | absent =>
      obtain ⟨word, others, rfl⟩ := ends.exists_cons
      exact Returns.accept_no (absent rfl word rfl)
  | present isKind => exact Returns.accept_yes isKind ends.ne_nil

theorem readVariableName?_reads {name : Option String} {marks : List Word}
    (mark : NameMark name marks) (ends : Sealed rest)
    (absent : name = none → ∀ word ∈ rest.head?, word.kind ≠ .namedVariable) :
    readVariableName?.Returns (marks ++ rest) name rest := by
  cases mark with
  | absent =>
      obtain ⟨word, others, rfl⟩ := ends.exists_cons
      refine (Returns.isAt_no (absent rfl word rfl)).bind ?_
      exact .pure ⟨rfl, rfl⟩
  | present isVariable =>
      refine (Returns.isAt_yes isVariable).bind ?_
      refine (Returns.consume isVariable ends.ne_nil).bind ?_
      exact .pure ⟨rfl, rfl⟩

/-- Behind the type of a parameter come marks of the given kinds, in this order and each
at most once, and then the end of the parameter. -/
theorem head_marks (holds : TokenKind → Prop) {present : Bool} {kind : TokenKind}
    {marks tail : List Word} (mark : Mark kind present marks) (ofKind : holds kind)
    (ofTail : ∀ word ∈ tail.head?, holds word.kind) :
    ∀ word ∈ (marks ++ tail).head?, holds word.kind := by
  cases mark with
  | absent => exact ofTail
  | present isKind =>
      rintro _ ⟨⟩
      rw [isKind]
      exact ofKind

theorem head_nameMark (holds : TokenKind → Prop) {name : Option String} {marks tail : List Word}
    (mark : NameMark name marks) (ofKind : holds .namedVariable)
    (ofTail : ∀ word ∈ tail.head?, holds word.kind) :
    ∀ word ∈ (marks ++ tail).head?, holds word.kind := by
  cases mark with
  | absent => exact ofTail
  | present isKind =>
      rintro _ ⟨⟩
      rw [isKind]
      exact ofKind

theorem head_endsItem (holds : TokenKind → Prop) {close : TokenKind}
    (endsItem : EndsItem close rest) (ofComma : holds .comma) (ofClose : holds close) :
    ∀ word ∈ rest.head?, holds word.kind := by
  obtain ⟨word, more, rfl, isKind | isKind⟩ := endsItem
  · rintro _ ⟨⟩
    rw [isKind]
    exact ofComma
  · rintro _ ⟨⟩
    rw [isKind]
    exact ofClose

theorem reads_parameter {isReference isVariadic isOptional : Bool} {name : Option String}
    {reference dots variable_ equal : List Word} {attributes : Attributes}
    (referenceMark : Mark .reference isReference reference)
    (variadicMark : Mark .variadic isVariadic dots) (nameMark : NameMark name variable_)
    (optionalMark : Mark .equal isOptional equal)
    (reads : Reads (.chain .union type) used ending) :
    Reads (.parameter ⟨type, isReference, isVariadic, name, isOptional, attributes⟩)
      (used ++ (reference ++ (dots ++ (variable_ ++ equal)))) .closed := by
  intro depth rest ends endsItem fits
  have shape : used ++ (reference ++ (dots ++ (variable_ ++ equal))) ++ rest =
      used ++ (reference ++ (dots ++ (variable_ ++ (equal ++ rest)))) := by
    simp only [List.append_assoc]
  rw [shape] at fits ⊢
  -- What can come next, from the end of the parameter back to its type.
  have heads (holds : TokenKind → Prop) (atEqual : holds .equal) (atComma : holds .comma)
      (atClose : holds .closeParen) : ∀ word ∈ (equal ++ rest).head?, holds word.kind :=
    head_marks holds optionalMark atEqual (head_endsItem holds endsItem atComma atClose)
  have endsEqual : Sealed (equal ++ rest) := ends.append equal
  have endsName : Sealed (variable_ ++ (equal ++ rest)) := endsEqual.append variable_
  have endsDots : Sealed (dots ++ (variable_ ++ (equal ++ rest))) := endsName.append dots
  have endsMarks := endsDots.append reference
  have typeHead (holds : TokenKind → Prop) (ofMarks : ∀ kind, kind ∈ [TokenKind.reference,
      .variadic, .namedVariable, .equal, .comma, .closeParen] → holds kind) :
      ∀ word ∈ (reference ++ (dots ++ (variable_ ++ (equal ++ rest)))).head?,
        holds word.kind :=
    head_marks holds referenceMark (ofMarks _ (by decide)) <|
      head_marks holds variadicMark (ofMarks _ (by decide)) <|
        head_nameMark holds nameMark (ofMarks _ (by decide)) <|
          heads holds (ofMarks _ (by decide)) (ofMarks _ (by decide)) (ofMarks _ (by decide))
  obtain ⟨next, others, eq⟩ := endsMarks.exists_cons
  have behind : Behind ending (reference ++ (dots ++ (variable_ ++ (equal ++ rest)))) := by
    have settles := typeHead (fun kind => kind.settles = true ∧ kind ≠ .openSquare) (by decide)
    rw [eq] at endsMarks settles ⊢
    exact .of_settles endsMarks (settles next rfl).1 (settles next rfl).2
  have stops : Stops .union false (reference ++ (dots ++ (variable_ ++ (equal ++ rest)))) :=
    typeHead (fun kind => kind ≠ .intersection ∧ (false = true → kind ≠ .lineBreak) ∧
      kind ≠ .union) (by decide)
  refine .bind .mark ?_
  rintro start _ rfl
  refine .bind (reads.nestedUnion false behind stops fits) ?_
  rintro found _ ⟨rfl, same⟩
  refine (accept_mark_reads referenceMark endsDots fun _ => ?_).bind ?_
  · exact head_marks (· ≠ .reference) variadicMark (by decide) <|
      head_nameMark (· ≠ .reference) nameMark (by decide) <|
        heads (· ≠ .reference) (by decide) (by decide) (by decide)
  refine (accept_mark_reads variadicMark endsName fun _ => ?_).bind ?_
  · exact head_nameMark (· ≠ .variadic) nameMark (by decide) <|
      heads (· ≠ .variadic) (by decide) (by decide) (by decide)
  refine (readVariableName?_reads nameMark endsEqual fun _ => ?_).bind ?_
  · exact heads (· ≠ .namedVariable) (by decide) (by decide) (by decide)
  refine (accept_mark_reads optionalMark ends fun _ => ?_).bind ?_
  · exact head_endsItem (· ≠ .equal) endsItem (by decide) (by decide)
  refine .bind (.positionsSince start) ?_
  rintro attributes _ rfl
  refine .pure ⟨rfl, ?_⟩
  simp [CallableParameter.same, same]

theorem readParameters_reads {depth : Nat} {slots : List (Slot CallableParameter)}
    {list : List Word} (each : ∀ slot ∈ slots,
      (TypePhrase.parameter slot.value).Spelled slot.words slot.ending ∧
      Reads (.parameter slot.value) slot.words slot.ending)
    (listed : Listed .closeParen (slots.map Slot.words) list) (ends : Sealed rest)
    (fits : (list ++ rest).length ≤ depth) :
    (readParameters (goalWithin (depth + 1))).Meets (list ++ rest)
      (fun found after => (∃ word, word.kind = .closeParen ∧ after = word :: rest) ∧
        List.Forall₂ (fun parameter other : CallableParameter => parameter.same other = true)
          (slots.map Slot.value) found) False := by
  cases slots with
  | nil =>
      cases listed with
      | none isClose =>
          refine (Returns.isAt_yes isClose).bind ?_
          exact .pure ⟨⟨_, isClose, rfl⟩, .nil⟩
  | cons slot slots =>
      have notClose : (isAt .closeParen).Returns (list ++ rest) false (list ++ rest) := by
        cases listed with
        | some further isClose =>
            obtain ⟨word, more, eq, isStart⟩ := (each slot List.mem_cons_self).1.starts
            rw [eq]
            refine Returns.isAt_no ?_
            intro isClose
            rw [isClose] at isStart
            exact absurd (show starts .closeParen = true from isStart) (by decide)
      refine notClose.bind ?_
      rw [if_neg (by decide)]
      exact commaSeparated_reads (.inr rfl) _ (by simp) (fun slot isMember =>
        ⟨(each slot isMember).1.starts, (each slot isMember).2 depth⟩) listed ends fits

section Callable

variable {name paren colon : Word} {slots : List (Slot CallableParameter)} {list : List Word}

theorem readCallable_reads {depth start : Nat} {identifier other : TypeExpr}
    (attributes : Attributes) (same : identifier.same other = true)
    (isOpen : paren.kind = .openParen)
    (each : ∀ slot ∈ slots, (TypePhrase.parameter slot.value).Spelled slot.words slot.ending ∧
      Reads (.parameter slot.value) slot.words slot.ending)
    (listed : Listed .closeParen (slots.map Slot.words) list) (isColon : colon.kind = .colon)
    (reads : Reads (.operand type) used ending) (behind : Behind ending rest)
    (fits : (list ++ colon :: (used ++ rest)).length ≤ depth) :
    (readCallable (goalWithin (depth + 1)) other start).Meets
      (paren :: (list ++ colon :: (used ++ rest)))
      (Same ⟨.callable identifier (slots.map Slot.value) type, attributes⟩ rest) False := by
  have endsColon : Sealed (colon :: (used ++ rest)) := (behind.ends.append used).cons colon
  have stays : skipLineBreaks.Returns (list ++ colon :: (used ++ rest)) ()
      (list ++ colon :: (used ++ rest)) := by
    cases slots with
    | nil =>
        cases listed with
        | none isClose =>
            exact Returns.skipLineBreaks_none (endsColon.cons _) (by rw [isClose]; decide)
    | cons slot slots =>
        cases listed with
        | some further isClose =>
            rw [List.append_assoc, List.append_assoc]
            exact skipLineBreaks_spelled (each slot List.mem_cons_self).1
              ((endsColon.append _).append _)
  refine (Returns.consume isOpen (endsColon.append list).ne_nil).bind ?_
  refine stays.bind ?_
  refine .bind (readParameters_reads each listed endsColon fits) ?_
  rintro parameters _ ⟨⟨close, isClose, rfl⟩, related⟩
  refine (Returns.consume isClose endsColon.ne_nil).bind ?_
  refine (Returns.consume isColon (behind.ends.append used).ne_nil).bind ?_
  refine .bind (reads depth rest behind ?_) ?_
  · simp only [List.length_append, List.length_cons] at fits ⊢
    omega
  rintro result _ ⟨rfl, sameResult⟩
  refine node_same start ?_
  rw [TypeForm.same, same, CallableParameter.sameAll_of_forall₂ related, sameResult]
  rfl

theorem reads_callable {inner outer : Attributes} (isName : name.kind = .identifier)
    (isOpen : paren.kind = .openParen)
    (each : ∀ slot ∈ slots, (TypePhrase.parameter slot.value).Spelled slot.words slot.ending ∧
      Reads (.parameter slot.value) slot.words slot.ending)
    (listed : Listed .closeParen (slots.map Slot.words) list) (isColon : colon.kind = .colon)
    (reads : Reads (.operand type) used ending) :
    Reads (.atomic ⟨.callable ⟨.identifier name.text, inner⟩ (slots.map Slot.value) type, outer⟩)
      (name :: paren :: list ++ colon :: used) ending := by
  intro depth rest behind fits
  rw [List.append_assoc, List.cons_append, List.cons_append, List.cons_append] at fits ⊢
  obtain ⟨depth, rfl⟩ : ∃ less, depth = less + 1 :=
    Nat.exists_eq_add_of_le' (Nat.le_trans (by simp) fits)
  have fitsList : (list ++ colon :: (used ++ rest)).length ≤ depth := by
    simp only [List.length_cons] at fits
    omega
  have primary : (readPrimary (goalWithin (depth + 1))).Meets
      (name :: paren :: (list ++ colon :: (used ++ rest)))
      (Same ⟨.callable ⟨.identifier name.text, inner⟩ (slots.map Slot.value) type, outer⟩ rest)
      False := by
    refine readPrimary_identifier isName (by rw [isOpen]; decide) fun start attributes => ?_
    refine (Returns.isAt_no (by rw [isOpen]; decide)).bind ?_
    rw [if_neg (by decide)]
    refine (Returns.isAt_yes isOpen).bind ?_
    rw [if_pos rfl]
    have sameName : (⟨.identifier name.text, inner⟩ : TypeExpr).same
        ⟨.identifier name.text, attributes⟩ = true := by
      simp [TypeExpr.same, TypeForm.same]
    refine .bind (Meets.attempt_ok (readCallable_built (goalWithin_built _) rfl _).steady
      (readCallable_reads outer sameName isOpen each listed isColon reads behind fitsList)) ?_
    rintro _ after ⟨found, rfl, same⟩
    exact .pure same
  refine .bind .mark ?_
  rintro start _ rfl
  refine .bind primary ?_
  rintro found _ ⟨rfl, same⟩
  exact (Returns.many_none (readArraySuffix_no start behind.ends behind.noSuffix)).bind
    (.pure ⟨rfl, same⟩)

end Callable

/-- The words do not start with a key in front of a colon. -/
def Unlabelled : List Word → Prop
  | first :: second :: _ =>
      first.kind ∈ [.identifier, .integer, .singleQuoted, .doubleQuoted] →
        second.kind ≠ .colon ∧ second.kind ≠ .nullable
  | _ => True

theorem Unlabelled.append {tail : List Word} (unlabelled : Unlabelled used) (some : used ≠ [])
    (ofTail : ∀ word ∈ tail.head?, word.kind ≠ .colon ∧ word.kind ≠ .nullable) :
    Unlabelled (used ++ tail) := by
  match used, tail with
  | [], _ => exact absurd rfl some
  | [first], [] => trivial
  | [first], next :: others => exact fun _ => ofTail next rfl
  | first :: second :: others, _ => exact unlabelled

theorem readShapeKey_reads {key : ShapeKey} {word : Word} (isKey : KeyWord key word)
    (ends : Sealed rest) :
    readShapeKey.Meets (word :: rest)
      (fun found after => after = rest ∧ key.same found = true) False := by
  refine .bind .mark ?_
  rintro start _ rfl
  refine .bind .current ?_
  rintro token _ ⟨sameKind, sameText, rfl⟩
  rw [sameKind, sameText]
  have literal (kind : LiteralKind) (attributes : Attributes) :
      (advance >>= fun _ => positionsSince start >>= fun found =>
        pure (ShapeKey.constant ⟨.literal kind word.text, found⟩)).Meets (word :: rest)
        (fun found after => after = rest ∧
          (ShapeKey.constant ⟨.literal kind word.text, attributes⟩).same found = true) False := by
    refine (Returns.advance ends.ne_nil).bind ?_
    refine .bind (.positionsSince start) ?_
    rintro attributes _ rfl
    exact .pure ⟨rfl, by simp [ShapeKey.same, ConstExpr.same, ConstForm.same]⟩
  cases isKey with
  | name isName =>
      rw [isName]
      refine (Returns.advance ends.ne_nil).bind ?_
      exact .pure ⟨rfl, by simp [ShapeKey.same]⟩
  | integer isInteger =>
      rw [isInteger]
      exact literal _ _
  | string isQuoted =>
      rcases isQuoted with isKind | isKind <;> rw [isKind] <;> exact literal _ _

theorem readShapeLabel_rejects (ends : Sealed used) (unlabelled : Unlabelled used) :
    readShapeLabel.Rejects used := by
  obtain ⟨word, more, rfl⟩ := ends.exists_cons
  by_cases isKey : word.kind ∈ [.identifier, .integer, .singleQuoted, .doubleQuoted]
  · have moreEnds : Sealed more := ends.tail (by
      intro isFinish
      rw [isFinish] at isKey
      exact absurd isKey (by decide))
    obtain ⟨next, others, rfl⟩ := moreEnds.exists_cons
    obtain ⟨notColon, notNullable⟩ := unlabelled isKey
    have isKeyWord : ∃ key, KeyWord key word := by
      simp only [List.mem_cons, List.not_mem_nil, or_false] at isKey
      rcases isKey with isKind | isKind | isKind | isKind
      · exact ⟨_, .name isKind⟩
      · exact ⟨.constant ⟨_, .empty⟩, .integer isKind⟩
      · exact ⟨.constant ⟨_, .empty⟩, .string (.inl isKind)⟩
      · exact ⟨.constant ⟨_, .empty⟩, .string (.inr isKind)⟩
    obtain ⟨key, isKeyWord⟩ := isKeyWord
    refine Meets.bind ((readShapeKey_reads isKeyWord moreEnds).mono (fun _ _ found => found)
      False.elim) ?_
    rintro found _ ⟨rfl, -⟩
    refine (Returns.accept_no notNullable).bind ?_
    exact (Rejects.consume notColon).bind trivial
  · refine Rejects.bind ?_ trivial
    refine Meets.bind .mark ?_
    rintro start _ rfl
    refine Meets.bind .current ?_
    rintro token _ ⟨sameKind, -, rfl⟩
    rw [sameKind]
    split
    all_goals first | exact Rejects.expecting | simp_all

theorem Level.operator_noLabel {level : Level} {word : Word}
    (isOperator : word.kind = level.operator) : word.kind ≠ .colon ∧ word.kind ≠ .nullable := by
  rw [isOperator]
  cases level <;> decide

/-- A type does not start with a key in front of a colon. -/
theorem unlabelled_of_spelled {phrase : TypePhrase} (isSpelled : phrase.Spelled used ending) :
    match phrase with
    | .chain _ _ | .operand _ | .atomic _ | .primary _ => Unlabelled used
    | _ => True := by
  induction isSpelled with
  | @single level _ _ _ _ induction => cases level <;> exact induction
  | @joined level first slots firstWords words ending attributes several inner each links
      induction _ =>
      have unlabelled : Unlabelled firstWords := by cases level <;> exact induction
      obtain ⟨word, more, rfl, -⟩ := inner.starts
      refine unlabelled.append (by simp) ?_
      obtain ⟨slot, others, rfl⟩ := List.exists_cons_of_ne_nil several
      cases links with
      | more isOperator _ =>
          rintro _ ⟨⟩
          exact Level.operator_noLabel isOperator
  | @nullable word _ words _ _ isMark _ _ =>
      cases words with
      | nil => trivial
      | cons next others =>
          intro isKey
          rw [isMark] at isKey
          exact absurd isKey (by decide)
  | plain _ induction => exact induction
  | suffixed inner suffixes induction =>
      obtain ⟨word, more, rfl, -⟩ := inner.starts
      refine Unlabelled.append induction (by simp) ?_
      cases suffixes with
      | done => simp
      | more isOpen _ _ =>
          rintro _ ⟨⟩
          rw [isOpen]
          decide
  | callable isName isOpen => exact fun _ => by rw [isOpen]; decide
  | @parenthesized paren close _ words _ isOpen _ _ _ =>
      have notKey : paren.kind ∉
          [TokenKind.identifier, .integer, .singleQuoted, .doubleQuoted] := by
        rw [isOpen]
        decide
      cases words with
      | nil => exact fun isKey => absurd isKey notKey
      | cons next others => exact fun isKey => absurd isKey notKey
  | this => trivial
  | name => trivial
  | generic isName isOpen => exact fun _ => by rw [isOpen]; decide
  | shape isName opens isOpen => exact fun _ => by rw [isOpen]; decide
  | constant start inner =>
      cases inner with
      | classConstant isName isColons => exact fun _ => by rw [isColons]; decide
      | minus isMinus inner =>
          obtain ⟨word, more, rfl, -⟩ := ConstExpr.starts_of_spelled inner
          intro isKey
          rw [isMinus] at isKey
          exact absurd isKey (by decide)
      | bracketed isOpen each listed =>
          cases start with
          | literal isLiteral =>
              rw [isOpen] at isLiteral
              exact absurd isLiteral (by decide)
          | named isName _ =>
              rw [isOpen] at isName
              exact absurd isName (by decide)
      | longArray isName isArray isOpen => exact fun _ => by rw [isOpen]; decide
      | _ => trivial
  | _ => trivial

theorem reads_value {attributes : Attributes}
    (isSpelled : (TypePhrase.chain .union type).Spelled used ending)
    (reads : Reads (.chain .union type) used ending) :
    Reads (.item ⟨none, false, type, attributes⟩) used .closed := by
  intro depth rest ends endsItem fits
  have noLabel : readShapeLabel.Rejects (used ++ rest) := by
    refine readShapeLabel_rejects (ends.append used) ?_
    obtain ⟨word, more, eq, -⟩ := isSpelled.starts
    refine Unlabelled.append (unlabelled_of_spelled isSpelled) (by simp [eq]) ?_
    exact head_endsItem (fun kind => kind ≠ .colon ∧ kind ≠ .nullable) endsItem (by decide)
      (by decide)
  refine .bind .mark ?_
  rintro start _ rfl
  refine .bind (noLabel.attempt readShapeLabel_built.steady) ?_
  rintro _ _ ⟨rfl, error, rfl⟩
  refine .bind (reads.nestedUnion false (behind_of_endsItem (by rfl) (by decide) ends endsItem)
    (stops_of_endsItem (by decide) endsItem false) fits) ?_
  rintro found _ ⟨rfl, same⟩
  refine .bind (.positionsSince start) ?_
  rintro attributes _ rfl
  exact .pure ⟨rfl, by simp [ShapeItem.same, same]⟩

theorem reads_entry {key : ShapeKey} {isOptional : Bool} {word colon : Word}
    {marks : List Word} {attributes : Attributes} (isKey : KeyWord key word)
    (mark : Mark .nullable isOptional marks) (isColon : colon.kind = .colon)
    (reads : Reads (.chain .union type) used ending) :
    Reads (.item ⟨some key, isOptional, type, attributes⟩) (word :: marks ++ colon :: used)
      .closed := by
  intro depth rest ends endsItem fits
  rw [List.append_assoc, List.cons_append, List.cons_append] at fits ⊢
  have endsColon : Sealed (colon :: (used ++ rest)) := (ends.append used).cons colon
  have label : readShapeLabel.Meets (word :: (marks ++ colon :: (used ++ rest)))
      (fun found after => after = used ++ rest ∧ key.same found.1 = true ∧
        found.2 = isOptional) False := by
    refine .bind (readShapeKey_reads isKey (endsColon.append marks)) ?_
    rintro found _ ⟨rfl, same⟩
    refine (accept_mark_reads mark endsColon fun _ => ?_).bind ?_
    · rintro _ ⟨⟩
      rw [isColon]
      decide
    · refine (Returns.consume isColon (ends.append used).ne_nil).bind ?_
      exact .pure ⟨rfl, same, rfl⟩
  refine .bind .mark ?_
  rintro start _ rfl
  refine .bind (label.attempt_ok readShapeLabel_built.steady) ?_
  rintro _ _ ⟨⟨found, isOptional⟩, rfl, rfl, sameKey, rfl⟩
  refine .bind (reads.nestedUnion false (behind_of_endsItem (by rfl) (by decide) ends endsItem)
    (stops_of_endsItem (by decide) endsItem false) ?_) ?_
  · simp only [List.length_cons, List.length_append] at fits ⊢
    omega
  rintro foundType _ ⟨rfl, same⟩
  refine .bind (.positionsSince start) ?_
  rintro attributes _ rfl
  refine .pure ⟨rfl, ?_⟩
  rw [ShapeItem.same, same]
  have sameKey : (some key == some found) = true := sameKey
  simp [sameKey]

section Shape

variable {depth : Nat}

theorem readShapeEntry_item {slot : Slot ShapeItem}
    (isSpelled : (TypePhrase.item slot.value).Spelled slot.words slot.ending)
    (reads : Reads (.item slot.value) slot.words slot.ending) (ends : Sealed rest)
    (endsItem : EndsItem .closeCurly rest) (fits : (slot.words ++ rest).length ≤ depth) :
    (readShapeEntry (goalWithin (depth + 1))).Meets (slot.words ++ rest)
      (fun outcome after => after = rest ∧ ∃ found, outcome = .item found ∧
        slot.value.same found = true) False := by
  have notMark {kind : TokenKind} (notStart : starts kind = false) :
      (accept kind).Returns (slot.words ++ rest) false (slot.words ++ rest) := by
    obtain ⟨word, more, eq, isStart⟩ := isSpelled.starts
    rw [eq]
    refine Returns.accept_no ?_
    rintro rfl
    exact absurd (show starts word.kind = true from isStart) (by rw [notStart]; decide)
  refine (skipLineBreaks_spelled isSpelled ends).bind ?_
  refine (notMark (by rfl)).bind ?_
  rw [if_neg (by decide)]
  refine (notMark (by rfl)).bind ?_
  rw [if_neg (by decide)]
  refine .bind (reads depth rest ends endsItem fits) ?_
  rintro found _ ⟨rfl, same⟩
  exact .pure ⟨rfl, found, rfl, same⟩

theorem readShapeEntry_end {nested : Goal → Parser TypeExpr} {closed : Bool} {words : List Word}
    (final : ShapeEnd closed words) (ends : Sealed rest) :
    (readShapeEntry nested).Returns (words ++ rest) (.done closed) rest := by
  cases final with
  | closed isClose =>
      refine (Returns.skipLineBreaks_none (ends.cons _) (by rw [isClose]; decide)).bind ?_
      refine (Returns.accept_yes isClose ends.ne_nil).bind ?_
      exact .pure ⟨rfl, rfl⟩
  | @unclosed dots word comma marks isDots mark isClose =>
      rw [List.append_assoc, List.singleton_append, List.cons_append]
      have endsClose : Sealed (word :: rest) := ends.cons word
      have endsMarks : Sealed (marks ++ word :: rest) := endsClose.append marks
      have staysMarks : skipLineBreaks.Returns (marks ++ word :: rest) ()
          (marks ++ word :: rest) := by
        cases mark with
        | absent => exact Returns.skipLineBreaks_none endsMarks (by rw [isClose]; decide)
        | present isComma => exact Returns.skipLineBreaks_none endsMarks (by rw [isComma]; decide)
      refine (Returns.skipLineBreaks_none (endsMarks.cons dots) (by rw [isDots]; decide)).bind ?_
      refine (Returns.accept_no (by rw [isDots]; decide)).bind ?_
      rw [if_neg (by decide)]
      refine (Returns.accept_yes isDots endsMarks.ne_nil).bind ?_
      rw [if_pos rfl]
      refine staysMarks.bind ?_
      refine (accept_mark_reads mark endsClose fun _ => ?_).bind ?_
      · rintro _ ⟨⟩
        rw [isClose]
        decide
      refine (Returns.skipLineBreaks_none endsClose (by rw [isClose]; decide)).bind ?_
      refine (Returns.consume isClose ends.ne_nil).bind ?_
      exact .pure ⟨rfl, rfl⟩

theorem ShapeTail.endsItem {closed : Bool} {parts : List (List Word)} {words : List Word}
    (tail : ShapeTail closed parts words) : EndsItem .closeCurly (words ++ rest) := by
  cases tail with
  | close isClose => exact ⟨_, _, rfl, .inr isClose⟩
  | last isComma final => exact ⟨_, _, rfl, .inl isComma⟩
  | more isComma others => exact ⟨_, _, rfl, .inl isComma⟩

theorem nextEntry_item {comma : Word} {slot : Slot ShapeItem} (isComma : comma.kind = .comma)
    (isSpelled : (TypePhrase.item slot.value).Spelled slot.words slot.ending)
    (reads : Reads (.item slot.value) slot.words slot.ending) (ends : Sealed rest)
    (endsItem : EndsItem .closeCurly rest) (fits : (slot.words ++ rest).length ≤ depth) :
    (nextEntry (goalWithin (depth + 1))).Meets (comma :: (slot.words ++ rest))
      (fun outcome after => after = rest ∧ ∃ found, outcome = .item found ∧
        slot.value.same found = true) False := by
  have endsSlot : Sealed (slot.words ++ rest) := ends.append slot.words
  refine (Returns.skipLineBreaks_none (endsSlot.cons _) (by rw [isComma]; decide)).bind ?_
  refine (Returns.accept_yes isComma endsSlot.ne_nil).bind ?_
  rw [if_pos rfl]
  exact readShapeEntry_item isSpelled reads ends endsItem fits

theorem nextEntry_close {nested : Goal → Parser TypeExpr} {word : Word}
    (isClose : word.kind = .closeCurly) (ends : Sealed rest) :
    (nextEntry nested).Returns (word :: rest) (.done true) rest := by
  refine (Returns.skipLineBreaks_none (ends.cons _) (by rw [isClose]; decide)).bind ?_
  refine (Returns.accept_no (by rw [isClose]; decide)).bind ?_
  rw [if_neg (by decide)]
  refine (Returns.consume isClose ends.ne_nil).bind ?_
  exact .pure ⟨rfl, rfl⟩

theorem nextEntry_last {nested : Goal → Parser TypeExpr} {comma : Word} {closed : Bool}
    {words : List Word} (isComma : comma.kind = .comma) (final : ShapeEnd closed words)
    (ends : Sealed rest) :
    (nextEntry nested).Returns (comma :: (words ++ rest)) (.done closed) rest := by
  have endsWords : Sealed (words ++ rest) := ends.append words
  refine (Returns.skipLineBreaks_none (endsWords.cons _) (by rw [isComma]; decide)).bind ?_
  refine (Returns.accept_yes isComma endsWords.ne_nil).bind ?_
  rw [if_pos rfl]
  exact readShapeEntry_end final ends

variable {slots : List (Slot ShapeItem)}
  (each : ∀ slot ∈ slots, (TypePhrase.item slot.value).Spelled slot.words slot.ending ∧
    Reads (.item slot.value) slot.words slot.ending)
include each

/-- The loop over the items of a shape behind the first one. -/
theorem shapeTail_reads {closed : Bool} {words : List Word}
    (tail : ShapeTail closed (slots.map Slot.words) words) (ends : Sealed rest)
    (fits : (words ++ rest).length ≤ depth) :
    (gather (nextEntry (goalWithin (depth + 1)))).Meets (words ++ rest)
      (fun gathered after => after = rest ∧ List.Forall₂
        (fun item other : ShapeItem => item.same other = true) (slots.map Slot.value)
        gathered.1 ∧ gathered.2 = closed) False := by
  refine Meets.gather_total _ ?_
  induction slots generalizing words with
  | nil =>
      cases tail with
      | close isClose => exact .done (nextEntry_close isClose ends)
      | last isComma final => exact .done (nextEntry_last isComma final ends)
  | cons slot slots induction =>
      cases tail with
      | @more _ _ _ comma words isComma others =>
          rw [List.append_assoc] at fits ⊢
          simp only [List.cons_append, List.length_cons, List.length_append] at fits
          have shorter : (words ++ rest).length <
              (comma :: (slot.words ++ (words ++ rest))).length := by
            simp only [List.length_cons, List.length_append]
            omega
          refine .item ⟨shorter, ?_⟩ (induction (fun other isMember =>
            each other (List.mem_cons_of_mem _ isMember)) others (by simp; omega))
          obtain ⟨isSpelled, reads⟩ := each slot List.mem_cons_self
          exact nextEntry_item isComma isSpelled reads (ends.append words)
            (ShapeTail.endsItem others) (by simp; omega)

theorem reads_shape {name curly : Word} {kind : ShapeKind} {closed : Bool} {body : List Word}
    {attributes : Attributes} (isName : name.kind = .identifier)
    (opens : ShapeKind.ofWord? name.text = some kind) (isOpen : curly.kind = .openCurly)
    (glued : curly.gap = false) (items : ShapeBody closed (slots.map Slot.words) body) :
    Reads (.primary ⟨.shape kind (slots.map Slot.value) closed, attributes⟩)
      (name :: curly :: body) .closed := by
  intro depth rest ends _ fits
  obtain ⟨depth, rfl⟩ : ∃ less, depth = less + 1 :=
    Nat.exists_eq_add_of_le' (Nat.le_trans (by simp) fits)
  have fitsBody : (body ++ rest).length ≤ depth := by
    simp only [List.cons_append, List.length_cons] at fits
    omega
  refine readPrimary_identifier isName (by rw [isOpen]; decide) fun start found => ?_
  refine (Returns.isAt_no (by rw [isOpen]; decide)).bind ?_
  rw [if_neg (by decide)]
  refine (Returns.isAt_no (by rw [isOpen]; decide)).bind ?_
  rw [if_neg (by decide), opens]
  refine (Returns.isAt_yes isOpen).bind ?_
  rw [if_pos rfl]
  refine Returns.isAfterBlank.bind ?_
  rw [if_neg (by simp [glued])]
  refine (Returns.consume isOpen (ends.append body).ne_nil).bind ?_
  cases slots with
  | nil =>
      cases items with
      | empty final =>
          refine (readShapeEntry_end final ends).bind ?_
          exact node_same start (by simp [TypeForm.same, ShapeItem.sameAll])
  | cons slot slots =>
      cases items with
      | @items _ _ words others =>
          have endsTail : Sealed (words ++ rest) := ends.append words
          obtain ⟨isSpelled, reads⟩ := each slot List.mem_cons_self
          rw [List.append_assoc] at fitsBody ⊢
          refine .bind (readShapeEntry_item isSpelled reads endsTail
            (ShapeTail.endsItem others) fitsBody) ?_
          rintro _ _ ⟨rfl, first, rfl, sameFirst⟩
          refine .bind (shapeTail_reads (fun other isMember =>
            each other (List.mem_cons_of_mem _ isMember)) others ends ?_) ?_
          · simp only [List.length_append] at fitsBody ⊢
            omega
          rintro gathered _ ⟨rfl, related, rfl⟩
          refine node_same start ?_
          rw [List.map_cons, TypeForm.same,
            ShapeItem.sameAll_of_forall₂ (.cons sameFirst related)]
          simp

end Shape

section Conditional

variable {close : Word} {depth : Nat}

theorem behind_close (isClose : close.kind = .closeParen) (ends : Sealed rest) :
    Behind ending (close :: rest) :=
  .of_settles (ends.cons close) (by rw [isClose]; rfl) (by rw [isClose]; decide)

theorem stops_of_kind {kind : TokenKind} {word : Word} (isKind : word.kind = kind)
    (differs : kind ∉ [TokenKind.union, .intersection, .lineBreak]) (level : Level)
    (multiline : Bool) : Stops level multiline (word :: rest) := by
  rintro _ ⟨⟩
  rw [isKind]
  simp only [List.mem_cons, List.not_mem_nil, or_false, not_or] at differs
  cases level
  · exact ⟨differs.2.1, fun _ => differs.2.2, differs.1⟩
  · exact ⟨differs.2.1, fun _ => differs.2.2, trivial⟩

theorem reads_parenthesized {paren : Word} (isOpen : paren.kind = .openParen)
    (isSpelled : (TypePhrase.enclosed type).Spelled used ending)
    (isClose : close.kind = .closeParen) (reads : Reads (.enclosed type) used ending) :
    Reads (.primary type) (paren :: used ++ [close]) .closed := by
  intro depth rest ends _ fits
  rw [List.append_assoc, List.singleton_append, List.cons_append] at fits ⊢
  obtain ⟨depth, rfl⟩ : ∃ less, depth = less + 1 :=
    Nat.exists_eq_add_of_le' (Nat.le_trans (by simp) fits)
  have endsClose : Sealed (close :: rest) := ends.cons close
  refine readPrimary_dispatch ?_
  rw [isOpen]
  refine (Returns.consume isOpen (endsClose.append used).ne_nil).bind ?_
  refine (skipLineBreaks_spelled isSpelled endsClose).bind ?_
  refine .bind (reads depth close rest isClose ends (by simpa using fits)) ?_
  rintro found _ ⟨rfl, same⟩
  refine (Returns.skipLineBreaks_none endsClose (by rw [isClose]; decide)).bind ?_
  refine (Returns.consume isClose ends.ne_nil).bind ?_
  exact .pure ⟨rfl, same⟩

theorem reads_aboutParameter {word : Word} (isVariable : word.kind = .namedVariable)
    (reads : Reads (.condition (.parameter (variableName word.text)) type) used ending) :
    Reads (.enclosed type) (word :: used) ending := by
  intro depth close rest isClose ends fits
  refine (Returns.isAt_yes isVariable).bind ?_
  rw [if_pos rfl]
  refine .bind .mark ?_
  rintro start _ rfl
  refine (Returns.consume isVariable ((ends.cons close).append used).ne_nil).bind ?_
  refine reads depth _ start close rest (by simp [ConditionalSubject.same]) isClose ends ?_
  simp only [List.cons_append, List.length_cons] at fits
  omega

theorem reads_aboutType (isSpelled : (TypePhrase.subject type).Spelled used ending)
    (reads : Reads (.subject type) used ending) : Reads (.enclosed type) used ending := by
  intro depth close rest isClose ends fits
  have noVariable : (isAt .namedVariable).Returns (used ++ close :: rest) false
      (used ++ close :: rest) := by
    obtain ⟨word, more, rfl, isStart⟩ := isSpelled.starts
    refine Returns.isAt_no ?_
    intro isVariable
    rw [isVariable] at isStart
    exact absurd (show starts .namedVariable = true from isStart) (by decide)
  refine noVariable.bind ?_
  rw [if_neg (by decide)]
  exact reads depth close rest isClose ends fits

theorem reads_unconditional (reads : Reads (.chain .union type) used ending) :
    Reads (.subject type) used ending := by
  intro depth close rest isClose ends fits
  refine .bind .mark ?_
  rintro start _ rfl
  refine .bind (reads.nestedUnion true (behind_close isClose ends)
    (stops_of_kind isClose (by decide) _ _) fits) ?_
  rintro found _ ⟨rfl, same⟩
  refine (Returns.isAtWord _ _).bind ?_
  rw [if_neg (by simp [isClose])]
  exact .pure ⟨rfl, same⟩

theorem reads_conditional {subject : TypeExpr} {words : List Word} {final : Ending}
    (condition : (TypePhrase.condition (.type subject) type).Spelled words final)
    (apart : ending.Apart words) (reads : Reads (.chain .union subject) used ending)
    (readsCondition : Reads (.condition (.type subject) type) words final) :
    Reads (.subject type) (used ++ words) final := by
  intro depth close rest isClose ends fits
  rw [List.append_assoc] at fits ⊢
  have endsWords : Sealed (words ++ close :: rest) := (ends.cons close).append words
  have isCondition : ∃ word more, words = word :: more ∧ word.kind = .identifier ∧
      word.text = "is" := by
    cases condition with
    | condition isCondition => exact ⟨_, _, rfl, isCondition⟩
  obtain ⟨word, more, rfl, isName, isText⟩ := isCondition
  have behind : Behind ending (word :: more ++ close :: rest) := by
    refine ⟨endsWords, ?_, ?_⟩
    · -- The word opens a condition, so only a name of a class constant could go on in it.
      cases ending with
      | closed => trivial
      | part wild => exact apart.of_head?_eq rfl
      | constant text =>
          rintro _ ⟨⟩
          rw [isName]
          exact ⟨by decide, fun _ => by decide⟩
      | name text =>
          rintro _ ⟨⟩
          rw [isName]
          exact ⟨by decide, by decide, fun impossible => absurd impossible (by decide),
            fun impossible => absurd impossible (by decide)⟩
    · rw [List.cons_append]
      obtain ⟨next, others, eq⟩ := List.exists_cons_of_ne_nil
        (show more ++ close :: rest ≠ [] by simp)
      rw [eq]
      intro isSuffix
      rw [isName] at isSuffix
      exact absurd isSuffix.1 (by decide)
  refine .bind .mark ?_
  rintro start _ rfl
  refine .bind (reads.nestedUnion true behind (stops_of_kind isName (by decide) _ _) fits) ?_
  rintro found _ ⟨rfl, same⟩
  refine (Returns.isAtWord _ _).bind ?_
  rw [if_pos (by simp [isName, isText])]
  refine readsCondition depth _ start close rest ?_ isClose ends ?_
  · rw [ConditionalSubject.same, same]
  · simp only [List.length_append] at fits ⊢
    omega

theorem reads_condition {subject : ConditionalSubject} {negated : Bool}
    {is question colon : Word} {target ifType elseType : TypeExpr}
    {marks targetWords ifWords elseWords : List Word} {targetEnding ifEnding : Ending}
    {attributes : Attributes} (isCondition : is.kind = .identifier ∧ is.text = "is")
    (negation : Negation negated marks targetWords)
    (ofTarget : (TypePhrase.chain .union target).Spelled targetWords targetEnding)
    (isQuestion : question.kind = .nullable)
    (ofIf : (TypePhrase.chain .union ifType).Spelled ifWords ifEnding)
    (isColon : colon.kind = .colon)
    (ofElse : (TypePhrase.subject elseType).Spelled elseWords ending)
    (readsTarget : Reads (.chain .union target) targetWords targetEnding)
    (readsIf : Reads (.chain .union ifType) ifWords ifEnding)
    (readsElse : Reads (.subject elseType) elseWords ending) :
    Reads (.condition subject
        ⟨.conditional subject negated target ifType elseType, attributes⟩)
      (is :: marks ++ targetWords ++ question :: ifWords ++ colon :: elseWords) ending := by
  intro depth found start close rest same isClose ends fits
  have endsElse : Sealed (elseWords ++ close :: rest) := (ends.cons close).append elseWords
  have endsColon : Sealed (colon :: (elseWords ++ close :: rest)) := endsElse.cons colon
  have endsIf : Sealed (ifWords ++ colon :: (elseWords ++ close :: rest)) :=
    endsColon.append ifWords
  have endsQuestion := endsIf.cons question
  have endsTarget := endsQuestion.append targetWords
  have shape : is :: marks ++ targetWords ++ question :: ifWords ++ colon :: elseWords ++
      close :: rest = is :: (marks ++ (targetWords ++ question :: (ifWords ++ colon ::
        (elseWords ++ close :: rest)))) := by
    simp only [List.append_assoc, List.cons_append]
  rw [shape] at fits ⊢
  simp only [List.length_cons, List.length_append] at fits
  obtain ⟨depth, rfl⟩ : ∃ less, depth = less + 1 := Nat.exists_eq_add_of_le' (by omega)
  have negate : (acceptWord .identifier "not").Returns (marks ++ (targetWords ++ question ::
      (ifWords ++ colon :: (elseWords ++ close :: rest)))) negated (targetWords ++ question ::
      (ifWords ++ colon :: (elseWords ++ close :: rest))) := by
    cases negation with
    | absent unnegated =>
        obtain ⟨word, more, rfl, -⟩ := ofTarget.starts
        exact Returns.acceptWord_no (unnegated word rfl)
    | present negates => exact Returns.acceptWord_yes negates.1 negates.2 endsTarget.ne_nil
  refine (Returns.consumeValue isCondition.1 isCondition.2 (endsTarget.append marks).ne_nil).bind ?_
  refine negate.bind ?_
  refine .bind (readsTarget.nestedUnion true
    (.of_settles endsQuestion (by rw [isQuestion]; rfl) (by rw [isQuestion]; decide))
    (stops_of_kind isQuestion (by decide) _ _) (by simp; omega)) ?_
  rintro foundTarget _ ⟨rfl, sameTarget⟩
  refine (Returns.skipLineBreaks_none endsQuestion (by rw [isQuestion]; decide)).bind ?_
  refine (Returns.consume isQuestion endsIf.ne_nil).bind ?_
  refine (skipLineBreaks_spelled ofIf endsColon).bind ?_
  refine .bind (readsIf.nestedUnion true
    (.of_settles endsColon (by rw [isColon]; rfl) (by rw [isColon]; decide))
    (stops_of_kind isColon (by decide) _ _) (by simp; omega)) ?_
  rintro foundIf _ ⟨rfl, sameIf⟩
  refine (Returns.skipLineBreaks_none endsColon (by rw [isColon]; decide)).bind ?_
  refine (Returns.consume isColon endsElse.ne_nil).bind ?_
  refine (skipLineBreaks_spelled ofElse (ends.cons close)).bind ?_
  refine .bind (readsElse depth close rest isClose ends (by simp; omega)) ?_
  rintro foundElse _ ⟨rfl, sameElse⟩
  refine node_same start ?_
  rw [TypeForm.same, same, sameTarget, sameIf, sameElse]
  simp

end Conditional

end Rules

/-- Spellings are read: one case for each rule of spelling. -/
theorem reads_of_spelled {phrase : TypePhrase} {used : List Word} {ending : Ending}
    (isSpelled : phrase.Spelled used ending) : Reads phrase used ending := by
  induction isSpelled with
  | single inner induction => exact reads_single induction
  | joined several inner each links inductionFirst induction =>
      exact reads_joined several inner each links inductionFirst induction
  | nullable isMark inner induction => exact reads_nullable isMark induction
  | plain inner induction => exact reads_plain inner induction
  | suffixed inner suffixes induction => exact reads_suffixed suffixes induction
  | callable isName isOpen each listed isColon result inductionEach induction =>
      exact reads_callable isName isOpen
        (fun slot isMember => ⟨each slot isMember, inductionEach slot isMember⟩) listed isColon
        induction
  | parenthesized isOpen inner isClose induction =>
      exact reads_parenthesized isOpen inner isClose induction
  | this isThis => exact reads_this isThis
  | name isName => exact reads_name isName
  | generic isName isOpen some each listed induction =>
      exact reads_generic isName isOpen some each listed induction
  | shape isName opens isOpen glued each items induction =>
      exact reads_shape (fun slot isMember => ⟨each slot isMember, induction slot isMember⟩)
        isName opens isOpen glued items
  | constant start inner => exact reads_constant start inner
  | aboutParameter isVariable rest induction => exact reads_aboutParameter isVariable induction
  | aboutType inner induction => exact reads_aboutType inner induction
  | unconditional inner induction => exact reads_unconditional induction
  | conditional inner condition apart induction inductionCondition =>
      exact reads_conditional condition apart induction inductionCondition
  | condition isCondition negation ofTarget isQuestion ofIf isColon ofElse inductionTarget
      inductionIf inductionElse =>
      exact reads_condition isCondition negation ofTarget isQuestion ofIf isColon ofElse
        inductionTarget inductionIf inductionElse
  | parameter inner referenceMark variadicMark nameMark optionalMark induction =>
      exact reads_parameter referenceMark variadicMark nameMark optionalMark induction
  | value inner induction => exact reads_value inner induction
  | entry isKey mark isColon inner induction => exact reads_entry isKey mark isColon induction

/-- A spelling of a type expression is read as that expression, up to attributes. -/
theorem parser_reads {type : TypeExpr} {used : List Word} {ending : Ending}
    (isSpelled : (TypePhrase.chain .union type).Spelled used ending)
    (behind : Behind ending rest) (stops : Stops .union false rest) :
    parser.Meets (used ++ rest) (Same type rest) False := by
  refine .bind .remaining ?_
  rintro bound _ ⟨enough, rfl⟩
  have reads : Reads (.chain .union type) used ending := reads_of_spelled isSpelled
  exact reads.nestedUnion false behind stops enough

end TypeExpr

end Docblock
