import Docblock.Proofs.PositionTracking
import Docblock.Proofs.Trail

/-!
# Types end on their line, but for brackets

A constant or a type takes tokens in which brackets are balanced, and it passes over line breaks
only between brackets that it closes.  The same walk over the rules shows that on two lists which
differ in blanks they take the same tokens.
-/

namespace Docblock

open Docblock.Parser

variable {trail : Trail} {station origin : Nat}

namespace ConstExpr

/-- A part of a name that is not there is not asked for a blank. -/
theorem nextNamePart_absent {next : TokenKind} (tracking : Tracking) (cursor : Cursor)
    (absent : cursor.current.kind ≠ next) :
    nextNamePart next tracking cursor = .ok none cursor := by
  have notAt : cursor.isAt next = false := decide_eq_false absent
  rw [nextNamePart, Parser.isAfterBlank, bind_apply, look]
  cases cursor.isAfterBlank with
  | true => rfl
  | false =>
      show (Parser.isAt next >>= _) tracking cursor = _
      rw [Parser.isAt, bind_apply, look, notAt]
      rfl

theorem nextNamePart_abreast {next : TokenKind} (isPart : next ∈ [.identifier, .wildcard])
    (solid : trail.kind station ≠ .lineBreak) :
    (nextNamePart next).Abreast trail (nextNamePart next) (station + 1)
      (fun found stop => found = none ∧ stop = station + 1 ∨
        trail.Takes next (station + 1) stop) True := by
  by_cases isNext : trail.kind (station + 1) = next
  · have heeds : (trail.kind (station + 1)).heedsBlank = true := by
      rw [isNext]
      exact List.contains_iff_mem.mpr (List.mem_cons_of_mem _ isPart)
    have unfinished : next ≠ .finish := by
      rintro rfl
      simp at isPart
    refine .bind (.isAfterBlank solid heeds) ?_
    rintro spaced _ rfl
    refine .ite (fun _ => .pure (.inl ⟨rfl, rfl⟩)) fun _ => ?_
    refine .ifAt (fun _ => ?_) fun _ => .pure (.inl ⟨rfl, rfl⟩)
    refine .bind (.consume unfinished) ?_
    intro value stop takes
    exact .pure (.inr takes)
  · intro within saved saved'
    rw [nextNamePart_absent _ (trail.here (station + 1) saved) isNext,
      nextNamePart_absent _ (trail.there (station + 1) saved')]
    · exact .ok within (.inl ⟨rfl, rfl⟩)
    · rwa [trail.current_there within]

theorem readNameParts_abreast {fuel fuel' : Nat} {next : TokenKind}
    (isPart : next ∈ [.identifier, .wildcard]) (solid : trail.kind station ≠ .lineBreak)
    (enough : trail.length - (station + 1) < fuel)
    (enough' : trail.length - (station + 1) < fuel') :
    (readNameParts fuel next).Abreast trail (readNameParts fuel' next) (station + 1)
      (fun _ => trail.Spans false (station + 1)) True := by
  induction fuel generalizing fuel' next station with
  | zero => omega
  | succ fuel induction =>
      obtain ⟨fuel', rfl⟩ := Nat.exists_eq_succ_of_ne_zero (Nat.ne_zero_of_lt enough')
      have isPlain : next.isPlain = true ∧ next ≠ .lineBreak := by
        revert isPart
        cases next <;> decide
      refine .bind (nextNamePart_abreast isPart solid) ?_
      rintro found middle (⟨rfl, rfl⟩ | takes)
      · exact .pure .refl
      have passed : trail.Passes false (station + 1) middle := takes.passes isPlain.1
      obtain ⟨before, isNext, rfl⟩ := takes
      cases found with
      | none => exact .pure passed.2
      | some part =>
          refine .bind (induction ?_ (by rw [isNext]; exact isPlain.2) (by omega) (by omega)) ?_
          · split <;> simp
          · intro rest stop spans
            exact .pure (passed.spans spans).2

theorem readConstantName_abreast :
    readConstantName.Abreast trail readConstantName station
      (fun _ => trail.Passes false station) True := by
  refine .remaining_bind fun bound bound' enough enough' => ?_
  refine .ifAt (fun _ => .bind (.consume (by decide)) ?_) fun _ => .bind (.accept (by decide)) ?_
  · intro value middle takes
    have passed : trail.Passes false station middle := takes.passes rfl
    obtain ⟨before, isName, rfl⟩ := takes
    refine .bind (readNameParts_abreast (by simp) (by rw [isName]; decide) (by omega)
      (by omega)) ?_
    intro rest stop spans
    exact .pure (passed.spans spans)
  · rintro _ middle (⟨rfl, takes⟩ | ⟨rfl, -, rfl⟩)
    · have passed : trail.Passes false station middle := takes.passes rfl
      obtain ⟨before, isWild, rfl⟩ := takes
      refine .bind (readNameParts_abreast (by simp) (by rw [isWild]; decide) (by omega)
        (by omega)) ?_
      intro rest stop spans
      exact .pure (passed.spans spans)
    · exact .expecting

/-- Behind `origin` the two parsers for nested expressions walk abreast. -/
def NestedAbreast (trail : Trail) (nested nested' : Parser ConstExpr) (origin : Nat) : Prop :=
  ∀ station, origin < station →
    nested.Abreast trail nested' station (fun _ => trail.Passes false station) True

variable {nested nested' : Parser ConstExpr}

theorem readItem_abreast (deeper : NestedAbreast trail nested nested' origin)
    (behind : origin < station) :
    (readItem nested).Abreast trail (readItem nested') station
      (fun _ => trail.Passes false station) True := by
  refine .marked fun start start' => .bind (deeper station behind) ?_
  intro first middle passed
  refine .bind (.accept (by decide)) ?_
  rintro _ next (⟨rfl, arrow⟩ | ⟨rfl, -, rfl⟩)
  · have passed' := passed.trans (arrow.passes rfl)
    refine .bind (deeper next (Nat.lt_trans behind passed'.1)) ?_
    intro value stop valued
    exact .positioned fun _ => passed'.trans valued
  · exact .positioned fun _ => passed

theorem nextItem_abreast (deeper : NestedAbreast trail nested nested' origin)
    (behind : origin < station) {close : TokenKind} (unfinished : close ≠ .finish) :
    (nextItem nested close).Abreast trail (nextItem nested' close) station
      (fun found stop =>
        match found with
        | some _ => trail.Passes true station stop
        | none => trail.Closes close station stop) True := by
  refine .bind (.accept (by decide)) ?_
  rintro _ next (⟨rfl, comma⟩ | ⟨rfl, -, rfl⟩)
  · have passed : trail.Passes true station next := comma.passes rfl
    refine .bind (.accept unfinished) ?_
    rintro _ last (⟨rfl, closed⟩ | ⟨rfl, -, rfl⟩)
    · exact .pure (passed.2.close closed)
    · refine .bind (readItem_abreast deeper (Nat.lt_trans behind passed.1)) ?_
      intro item stop further
      exact .pure (passed.trans further.widen)
  · refine .bind (.consume unfinished) ?_
    intro text stop closed
    exact .pure (Trail.Spans.refl.close closed)

theorem readItems_abreast (deeper : NestedAbreast trail nested nested' origin)
    (behind : origin < station) {close : TokenKind} (unfinished : close ≠ .finish) :
    (readItems nested close).Abreast trail (readItems nested' close) station
      (fun _ => trail.Closes close station) True := by
  refine .bind (.accept unfinished) ?_
  rintro _ middle (⟨rfl, closed⟩ | ⟨rfl, -, rfl⟩)
  · exact .pure (Trail.Spans.refl.close closed)
  refine .bind (readItem_abreast deeper behind) ?_
  intro first middle passed
  refine .bind (.many (trail.Passes true station) (trail.Closes close station) passed.widen
    fun here _ reached => ?_) fun rest stop closes => .pure closes
  refine (nextItem_abreast deeper (Nat.lt_trans behind reached.1) unfinished).mono ?_ id
  rintro (- | item) stop happened
  · exact reached.2.closes happened
  · exact ⟨happened.1, reached.trans happened⟩

theorem readNamed_abreast (deeper : NestedAbreast trail nested nested' station) :
    (readNamed nested).Abreast trail (readNamed nested') station
      (fun _ => trail.Passes false station) True := by
  refine .bind (.consume (by decide)) ?_
  intro name middle named
  have passed : trail.Passes false station middle := named.passes rfl
  refine .bind (.accept (by decide)) ?_
  rintro _ next (⟨rfl, colons⟩ | ⟨rfl, -, rfl⟩)
  · refine .bind readConstantName_abreast ?_
    intro constant stop further
    exact .pure ((passed.trans (colons.passes rfl)).trans further)
  simp only [Bool.false_eq_true, if_false]
  split
  · exact .pure passed
  split
  · exact .pure passed
  split
  · exact .pure passed
  split
  · refine .bind (.accept (by decide)) ?_
    rintro _ next (⟨rfl, opened⟩ | ⟨rfl, -, rfl⟩)
    · refine .bind (readItems_abreast deeper (Nat.lt_trans passed.1 opened.lt) (by decide)) ?_
      intro entries stop closes
      exact .pure (passed.trans (opened.pair closes rfl))
    · exact .pure passed
  · exact .pure passed

theorem readForm_abreast (deeper : NestedAbreast trail nested nested' station) :
    (readForm nested).Abreast trail (readForm nested') station
      (fun _ => trail.Passes false station) True := by
  have literal {kind : TokenKind} {form : String → ConstForm} (unfinished : kind ≠ .finish)
      (isPlain : kind.isPlain = true) :
      (consume kind >>= fun lexeme => pure (form lexeme)).Abreast trail
        (consume kind >>= fun lexeme => pure (form lexeme)) station
        (fun _ => trail.Passes false station) True :=
    .bind (.consume unfinished) fun _ _ takes => .pure (takes.passes isPlain)
  refine .bind .current ?_
  rintro _ _ ⟨rfl, rfl⟩
  rw [← Trail.kind]
  generalize isKind : trail.kind station = kind
  unfold readFormAt
  split
  · exact literal (by decide) rfl
  · exact literal (by decide) rfl
  · exact literal (by decide) rfl
  · exact literal (by decide) rfl
  · refine .bind (.advance (by rw [isKind]; decide)) ?_
    intro _ middle sign
    rw [isKind] at sign
    refine .bind (deeper middle sign.lt) ?_
    intro operand stop further
    exact .pure ((sign.passes rfl).trans further)
  · refine .bind (.advance (by rw [isKind]; decide)) ?_
    intro _ middle opened
    rw [isKind] at opened
    refine .bind (readItems_abreast deeper opened.lt (by decide)) ?_
    intro entries stop closes
    exact .pure (opened.pair closes rfl)
  · exact readNamed_abreast deeper
  · exact .expecting

/-- A nested expression starts further on, so the depth that is left for it suffices. -/
theorem parserWithin_abreast {depth depth' : Nat} (enough : trail.length - station < depth)
    (enough' : trail.length - station < depth') :
    (parserWithin depth).Abreast trail (parserWithin depth') station
      (fun _ => trail.Passes false station) True := by
  induction depth generalizing depth' station with
  | zero => omega
  | succ depth induction =>
      obtain ⟨depth', rfl⟩ := Nat.exists_eq_succ_of_ne_zero (Nat.ne_zero_of_lt enough')
      have deeper : NestedAbreast trail (parserWithin depth) (parserWithin depth') station :=
        fun further behind => .within fun within => induction (by omega) (by omega)
      refine .marked fun start start' => .bind (readForm_abreast deeper) ?_
      intro form stop passed
      exact .positioned fun _ => passed

theorem parser_abreast :
    parser.Abreast trail parser station (fun _ => trail.Passes false station) True :=
  .remaining_bind fun _ _ enough enough' => parserWithin_abreast (by omega) (by omega)

end ConstExpr

namespace TypeExpr

variable {bad : Prop} {start start' : Nat} {nested nested' : Goal → Parser TypeExpr}

/-- The same goal, but for the place where the subject of a condition started.  The flag tells
whether line breaks may stand in it outside of brackets. -/
inductive Goal.Like : Bool → Goal → Goal → Prop
  | union {multiline : Bool} : Like multiline (.union multiline) (.union multiline)
  | operand : Like false .operand .operand
  | condition {subject : ConditionalSubject} {start start' : Nat} :
      Like true (.condition subject start) (.condition subject start')

/-- Behind `origin` the two parsers for nested goals walk abreast. -/
def NestedAbreast (trail : Trail) (nested nested' : Goal → Parser TypeExpr) (origin : Nat) : Prop :=
  ∀ {inside : Bool} {wanted wanted' : Goal} (station : Nat), Goal.Like inside wanted wanted' →
    origin < station → (nested wanted).Abreast trail (nested' wanted') station
      (fun _ => trail.Passes inside station) True

theorem node_abreast {form : TypeForm} {good : TypeExpr → Nat → Prop}
    (isGood : ∀ type, good type station) :
    (node form start).Abreast trail (node form start') station good bad :=
  .positioned fun _ => isGood _

theorem node_stays_abreast {form : TypeForm} :
    (node form start).Abreast trail (node form start') station (fun _ stop => station = stop) bad :=
  node_abreast fun _ => rfl

theorem isAtOperator_abreast {operator : TokenKind} {multiline : Bool} :
    (isAtOperator operator multiline).Abreast trail (isAtOperator operator multiline) station
      (fun found stop =>
        (found = true ∧ trail.kind stop = operator ∧ trail.Spans multiline station stop) ∨
          (found = false ∧ station = stop)) bad := by
  refine .ifAt (fun isKind => .pure (.inl ⟨rfl, isKind, .refl⟩)) fun _ => ?_
  refine .ite (fun _ => .pure (.inr ⟨rfl, rfl⟩)) fun isMultiline => .bind .isAt ?_
  obtain rfl : multiline = true := by simpa using isMultiline
  rintro _ _ ⟨rfl, rfl⟩
  refine .ite (fun _ => .pure (.inr ⟨rfl, rfl⟩)) fun _ => .push_bind ?_
  refine .bind .skipLineBreaks ?_
  intro _ stop skipped
  refine .ifAt (fun isKind => .drop_bind ?_) fun _ => .rollback_bind ?_
  · exact .pure (.inl ⟨rfl, isKind, skipped⟩)
  · exact .pure (.inr ⟨rfl, rfl⟩)

theorem skipLineBreaksIf_abreast {multiline : Bool} :
    (skipLineBreaksIf multiline).Abreast trail (skipLineBreaksIf multiline) station
      (fun _ => trail.Spans multiline station) bad := by
  cases multiline with
  | true => exact .skipLineBreaks
  | false => exact .pure .refl

theorem nextOperand_abreast {operator : TokenKind} {multiline : Bool}
    {operand operand' : Parser TypeExpr} (isPlain : operator.isPlain = true)
    (unfinished : operator ≠ .finish)
    (each : ∀ here, station < here → operand.Abreast trail operand' here
      (fun _ => trail.Passes multiline here) True) :
    (nextOperand operator multiline operand).Abreast trail
      (nextOperand operator multiline operand') station
      (fun found stop =>
        match found with
        | some _ => trail.Passes multiline station stop
        | none => station = stop) True := by
  refine .bind isAtOperator_abreast ?_
  rintro _ next (⟨rfl, isKind, skipped⟩ | ⟨rfl, rfl⟩)
  · refine .bind (.advance (by rwa [isKind])) ?_
    intro _ next' takes
    rw [isKind] at takes
    refine .bind skipLineBreaksIf_abreast ?_
    intro _ next'' skipped'
    have further := (skipped.passes (takes.passes isPlain)).spans skipped'
    refine .bind (each next'' further.1) ?_
    intro value stop passed
    exact .pure (further.trans passed)
  · exact .pure rfl

theorem chain_abreast {operator : TokenKind} {combine : List TypeExpr → TypeForm} {multiline : Bool}
    {operand operand' : Parser TypeExpr} (isPlain : operator.isPlain = true)
    (unfinished : operator ≠ .finish)
    (each : ∀ here, station ≤ here → operand.Abreast trail operand' here
      (fun _ => trail.Passes multiline here) True) :
    (chain operator combine multiline operand).Abreast trail
      (chain operator combine multiline operand') station
      (fun _ => trail.Passes multiline station) True := by
  refine .marked fun start start' => .bind (each station (Nat.le_refl _)) ?_
  intro first middle passed
  refine .bind (.many (trail.Passes multiline station) (trail.Passes multiline station) passed
    fun here _ reached => ?_) ?_
  · refine (nextOperand_abreast isPlain unfinished fun here' after =>
      each here' (Nat.le_of_lt (Nat.lt_trans reached.1 after))).mono ?_ id
    rintro (- | value) stop happened
    · exact happened ▸ reached
    · exact ⟨happened.1, reached.trans happened⟩
  · intro rest stop reached
    exact .ite (fun _ => .pure reached) fun _ => node_abreast fun _ => reached

theorem nextSeparated_abreast {α : Type} {item item' : Parser α} {close : TokenKind}
    (each : ∀ here, station < here → item.Abreast trail item' here
      (fun _ => trail.Passes false here) True) :
    (nextSeparated item close).Abreast trail (nextSeparated item' close) station
      (fun found stop =>
        match found with
        | some _ => trail.Passes true station stop
        | none => trail.Spans true station stop) True := by
  refine .bind (.accept (by decide)) ?_
  rintro _ next (⟨rfl, comma⟩ | ⟨rfl, -, rfl⟩)
  · refine .bind .skipLineBreaks ?_
    intro _ next' skipped
    have further : trail.Passes true station next' := (comma.passes rfl).spans skipped
    refine .ifAt (fun _ => .pure further.2) fun _ => ?_
    refine .bind (each next' further.1) ?_
    intro value next'' passed
    refine .bind .skipLineBreaks ?_
    intro _ stop skipped'
    exact .pure (further.trans (passed.widen.spans skipped'))
  · exact .pure .refl

theorem commaSeparated_abreast {α : Type} {item item' : Parser α} {close : TokenKind}
    (each : ∀ here, station ≤ here → item.Abreast trail item' here
      (fun _ => trail.Passes false here) True) :
    (commaSeparated item close).Abreast trail (commaSeparated item' close) station
      (fun _ => trail.Passes true station) True := by
  refine .bind (each station (Nat.le_refl _)) ?_
  intro first middle passed
  refine .bind .skipLineBreaks ?_
  intro _ middle' skipped
  refine .bind (.many (trail.Passes true station) (trail.Passes true station)
    (passed.widen.spans skipped) fun here _ reached => ?_) fun rest stop reached => .pure reached
  refine (nextSeparated_abreast fun here' after =>
    each here' (Nat.le_of_lt (Nat.lt_trans reached.1 after))).mono ?_ id
  rintro (- | value) stop happened
  · exact reached.spans happened
  · exact ⟨happened.1, reached.trans happened⟩

theorem readConstant_abreast :
    readConstant.Abreast trail readConstant station (fun _ => trail.Passes false station) True := by
  refine .bind .isAtAny ?_
  rintro _ _ rfl
  refine .ite (fun _ => .marked fun start start' => ?_) fun _ => .expecting
  refine .bind ConstExpr.parser_abreast ?_
  intro expr stop passed
  exact node_abreast fun _ => passed

theorem readGeneric_abreast {base : TypeExpr} (deeper : NestedAbreast trail nested nested' origin)
    (behind : origin ≤ station) :
    (readGeneric nested base start).Abreast trail (readGeneric nested' base start') station
      (fun _ => trail.Passes false station) True := by
  refine .bind (.consume (by decide)) ?_
  intro _ next opened
  refine .bind .skipLineBreaks ?_
  intro _ next' skipped
  have further := Nat.lt_of_lt_of_le opened.lt skipped.1
  refine .bind (commaSeparated_abreast fun here after => deeper here .union (by omega)) ?_
  intro arguments next'' passed
  refine .bind (.consume (by decide)) ?_
  intro _ stop closed
  exact node_abreast fun _ => opened.pair ((skipped.passes passed).2.close closed) rfl

theorem accept_passes {kind : TokenKind} (isPlain : kind.isPlain = true)
    (unfinished : kind ≠ .finish) (reached : trail.Passes false origin station) :
    (accept kind).Abreast trail (accept kind) station (fun _ => trail.Passes false origin) bad := by
  refine (Abreast.accept unfinished).mono ?_ id
  rintro _ stop (⟨-, takes⟩ | ⟨-, -, rfl⟩)
  · exact reached.trans (takes.passes isPlain)
  · exact reached

theorem readVariableName?_abreast :
    readVariableName?.Abreast trail readVariableName? station
      (fun _ => trail.Spans false station) True := by
  refine .ifAt (fun _ => .bind (.consume (by decide)) ?_) fun _ => .pure .refl
  intro token stop named
  exact .pure (named.passes rfl).2

theorem readParameter_abreast (deeper : NestedAbreast trail nested nested' origin)
    (behind : origin < station) :
    (readParameter nested).Abreast trail (readParameter nested') station
      (fun _ => trail.Passes false station) True := by
  refine .marked fun start start' => .bind (deeper station .union behind) ?_
  intro type next typed
  refine .bind (accept_passes rfl (by decide) typed) ?_
  intro isReference next' referred
  refine .bind (accept_passes rfl (by decide) referred) ?_
  intro isVariadic next'' varied
  refine .bind readVariableName?_abreast ?_
  intro name last named
  refine .bind (accept_passes rfl (by decide) (varied.spans named)) ?_
  intro isOptional stop passed
  exact .positioned fun _ => passed

theorem readParameters_abreast (deeper : NestedAbreast trail nested nested' origin)
    (behind : origin < station) :
    (readParameters nested).Abreast trail (readParameters nested') station
      (fun _ => trail.Spans true station) True := by
  refine .ifAt (fun _ => .pure .refl) fun _ => ?_
  refine (commaSeparated_abreast fun here after => ?_).mono (fun _ _ passed => passed.2) id
  exact readParameter_abreast deeper (by omega)

theorem readCallable_abreast {identifier : TypeExpr}
    (deeper : NestedAbreast trail nested nested' origin) (behind : origin ≤ station) :
    (readCallable nested identifier start).Abreast trail (readCallable nested' identifier start')
      station (fun _ => trail.Passes false station) True := by
  refine .bind (.consume (by decide)) ?_
  intro _ next opened
  refine .bind .skipLineBreaks ?_
  intro _ next' skipped
  have further := Nat.lt_of_lt_of_le opened.lt skipped.1
  refine .bind (readParameters_abreast deeper (by omega)) ?_
  intro parameters next'' listed
  refine .bind (.consume (by decide)) ?_
  intro _ next₃ closed
  have enclosed : trail.Passes false station next₃ :=
    opened.pair ((skipped.trans listed).close closed) rfl
  refine .bind (.consume (by decide)) ?_
  intro _ next₄ colon
  have passed := enclosed.trans (colon.passes rfl)
  refine .bind (deeper next₄ .operand (Nat.lt_of_le_of_lt behind passed.1)) ?_
  intro returnType stop returned
  exact node_abreast fun _ => passed.trans returned

theorem readShapeKey_abreast :
    readShapeKey.Abreast trail readShapeKey station (fun _ => trail.Passes false station) True := by
  refine .marked fun start start' => .bind .current ?_
  rintro _ _ ⟨rfl, rfl⟩
  rw [← Trail.kind]
  generalize isKind : trail.kind station = kind
  have literal {sort : LiteralKind} (value : String) (isPlain : kind.isPlain = true)
      (unfinished : kind ≠ .finish) :
      (do advance
          pure (.constant ⟨.literal sort value, ← positionsSince start⟩) :
        Parser ShapeKey).Abreast trail
        (do advance
            pure (.constant ⟨.literal sort value, ← positionsSince start'⟩))
        station (fun _ => trail.Passes false station) True := by
    rw [← isKind] at isPlain unfinished
    refine .bind (.advance unfinished) ?_
    intro _ stop takes
    exact .positioned fun _ => takes.passes isPlain
  split
  · exact literal _ rfl (by decide)
  · exact literal _ rfl (by decide)
  · exact literal _ rfl (by decide)
  · refine .bind (.advance (by rw [isKind]; decide)) ?_
    intro _ stop takes
    rw [isKind] at takes
    exact .pure (takes.passes rfl)
  · exact .expecting

theorem readShapeLabel_abreast :
    readShapeLabel.Abreast trail readShapeLabel station
      (fun _ => trail.Passes false station) True := by
  refine .bind readShapeKey_abreast ?_
  intro key next passed
  refine .bind (accept_passes rfl (by decide) passed) ?_
  intro isOptional next' marked
  refine .bind (.consume (by decide)) ?_
  intro _ stop colon
  exact .pure (marked.trans (colon.passes rfl))

theorem readShapeItem_abreast (deeper : NestedAbreast trail nested nested' origin)
    (behind : origin < station) :
    (readShapeItem nested).Abreast trail (readShapeItem nested') station
      (fun _ => trail.Passes false station) True := by
  refine .marked fun start start' => .attempt_bind readShapeLabel_abreast ?_ fun _ _ => ?_
  · rintro ⟨key, isOptional⟩ next labelled
    refine .bind (deeper next .union (Nat.lt_trans behind labelled.1)) ?_
    intro value stop passed
    exact .positioned fun _ => labelled.trans passed
  · refine .bind (deeper station .union behind) ?_
    intro value stop passed
    exact .positioned fun _ => passed

theorem readShapeEntry_abreast (deeper : NestedAbreast trail nested nested' origin)
    (behind : origin < station) :
    (readShapeEntry nested).Abreast trail (readShapeEntry nested') station
      (fun outcome stop =>
        match outcome with
        | .item _ => trail.Passes true station stop
        | .done _ => trail.Closes .closeCurly station stop) True := by
  refine .bind .skipLineBreaks ?_
  intro _ next skipped
  refine .bind (.accept (by decide)) ?_
  rintro _ next' (⟨rfl, closed⟩ | ⟨rfl, -, rfl⟩)
  · exact .pure (skipped.close closed)
  refine .bind (.accept (by decide)) ?_
  rintro _ next' (⟨rfl, dots⟩ | ⟨rfl, -, rfl⟩)
  · refine .bind .skipLineBreaks ?_
    intro _ next₂ skipped₂
    have reached := (skipped.passes (dots.passes rfl)).spans skipped₂
    refine .bind (.accept (by decide)) ?_
    intro _ next₃ comma
    have reached' : trail.Passes true station next₃ := by
      rcases comma with ⟨-, takes⟩ | ⟨-, -, rfl⟩
      · exact reached.trans (takes.passes rfl)
      · exact reached
    refine .bind .skipLineBreaks ?_
    intro _ next₄ skipped₄
    refine .bind (.consume (by decide)) ?_
    intro _ stop closed
    exact .pure ((reached'.spans skipped₄).2.close closed)
  · refine .bind (readShapeItem_abreast deeper (Nat.lt_of_lt_of_le behind skipped.1)) ?_
    intro item stop passed
    exact .pure (skipped.passes passed.widen)

theorem nextEntry_abreast (deeper : NestedAbreast trail nested nested' origin)
    (behind : origin < station) :
    (nextEntry nested).Abreast trail (nextEntry nested') station
      (fun outcome stop =>
        match outcome with
        | .item _ => trail.Passes true station stop
        | .done _ => trail.Closes .closeCurly station stop) True := by
  refine .bind .skipLineBreaks ?_
  intro _ next skipped
  refine .bind (.accept (by decide)) ?_
  rintro _ next' (⟨rfl, comma⟩ | ⟨rfl, -, rfl⟩)
  · have further : trail.Passes true station next' := skipped.passes (comma.passes rfl)
    refine (readShapeEntry_abreast deeper (Nat.lt_trans behind further.1)).mono ?_ id
    rintro (item | closed) stop happened
    · exact further.trans happened
    · exact further.2.closes happened
  · refine .bind (.consume (by decide)) ?_
    intro _ stop closed
    exact .pure (skipped.close closed)

theorem readShape_abreast {kind : ShapeKind} (deeper : NestedAbreast trail nested nested' origin)
    (behind : origin ≤ station) :
    (readShape nested kind start).Abreast trail (readShape nested' kind start') station
      (fun _ => trail.Passes false station) True := by
  refine .bind (.consume (by decide)) ?_
  intro _ next opened
  have behind' := Nat.lt_of_le_of_lt behind opened.lt
  refine .bind (readShapeEntry_abreast deeper behind') ?_
  rintro (first | closed) next' happened
  · refine .bind (.gather (trail.Passes true next) (trail.Closes .closeCurly next) happened
      fun here _ reached => ?_) ?_
    · refine (nextEntry_abreast deeper (Nat.lt_trans behind' reached.1)).mono ?_ id
      rintro (item | closed) stop happened'
      · exact ⟨happened'.1, reached.trans happened'⟩
      · exact reached.2.closes happened'
    · intro rest stop closes
      exact node_abreast fun _ => opened.pair closes rfl
  · exact node_abreast fun _ => opened.pair happened rfl

/-- The brace of a shape stands right behind its word, where a blank is asked for. -/
theorem readNameTail_abreast {name : String} {identifier : TypeExpr}
    (deeper : NestedAbreast trail nested nested' station)
    (solid : trail.kind station ≠ .lineBreak) :
    (readNameTail nested name identifier start).Abreast trail
      (readNameTail nested' name identifier start') (station + 1)
      (fun _ => trail.Spans false (station + 1)) True := by
  have behind := Nat.le_succ station
  refine .ifAt (fun _ => ?_) fun _ => ?_
  · exact (readGeneric_abreast deeper behind).mono (fun _ _ passed => passed.2) id
  refine .ifAt (fun _ => ?_) fun _ => ?_
  · refine .attempt_bind (readCallable_abreast deeper behind) ?_ fun _ _ => .pure .refl
    intro callable stop passed
    exact .pure passed.2
  split
  · exact .pure .refl
  · refine .ifAt (fun isBrace => ?_) fun _ => .pure .refl
    refine .bind (.isAfterBlank solid (by rw [isBrace]; rfl)) ?_
    rintro spaced _ rfl
    refine .ite (fun _ => .pure .refl) fun _ => ?_
    exact (readShape_abreast deeper behind).mono (fun _ _ passed => passed.2) id

theorem readIdentifier_abreast (deeper : NestedAbreast trail nested nested' origin)
    (behind : origin ≤ station) (isIdentifier : trail.kind station = .identifier) :
    (readIdentifier nested).Abreast trail (readIdentifier nested') station
      (fun _ => trail.Passes false station) True := by
  refine .marked fun start start' => .push_bind (.bind .current ?_)
  rintro _ _ ⟨rfl, rfl⟩
  refine .bind (.advance (by rw [isIdentifier]; decide)) ?_
  intro _ next named
  rw [isIdentifier] at named
  have passed : trail.Passes false station next := named.passes rfl
  refine .ifAt (fun _ => .rollback_bind readConstant_abreast) fun _ => .drop_bind ?_
  refine .bind node_stays_abreast ?_
  rintro identifier _ rfl
  obtain ⟨-, -, rfl⟩ := named
  refine (readNameTail_abreast (fun place like after => deeper place like (by omega))
    (by rw [isIdentifier]; decide)).mono ?_ id
  intro type stop spans
  exact passed.spans spans

theorem readSubject_abreast (deeper : NestedAbreast trail nested nested' origin)
    (behind : origin < station) :
    (readSubject nested).Abreast trail (readSubject nested') station
      (fun _ => trail.Passes true station) True := by
  refine .marked fun start start' => .bind (deeper station .union behind) ?_
  intro subject next passed
  refine .bind .isAtWord ?_
  rintro _ _ ⟨-, rfl⟩
  refine .ite (fun _ => ?_) fun _ => .pure passed
  refine (deeper next .condition (Nat.lt_trans behind passed.1)).mono ?_ id
  intro type stop further
  exact passed.trans further

theorem readCondition_abreast {subject : ConditionalSubject}
    (deeper : NestedAbreast trail nested nested' origin) (behind : origin ≤ station) :
    (readCondition nested subject start).Abreast trail (readCondition nested' subject start')
      station (fun _ => trail.Passes true station) True := by
  refine .bind (.consumeValue (by decide)) ?_
  intro _ next opened
  refine .bind (.acceptWord (by decide)) ?_
  intro negated next₁ negation
  have reached₁ : trail.Passes true station next₁ := by
    rcases negation with takes | rfl
    · exact (opened.passes rfl).trans (takes.passes rfl)
    · exact opened.passes rfl
  refine .bind (deeper next₁ .union (Nat.lt_of_le_of_lt behind reached₁.1)) ?_
  intro target next₂ passed₂
  refine .bind .skipLineBreaks ?_
  intro _ next₃ skipped₃
  refine .bind (.consume (by decide)) ?_
  intro _ next₄ mark
  refine .bind .skipLineBreaks ?_
  intro _ next₅ skipped₅
  have reached₅ := ((reached₁.trans passed₂).spans skipped₃).trans
    ((mark.passes rfl).spans skipped₅)
  refine .bind (deeper next₅ .union (Nat.lt_of_le_of_lt behind reached₅.1)) ?_
  intro ifType next₆ passed₆
  refine .bind .skipLineBreaks ?_
  intro _ next₇ skipped₇
  refine .bind (.consume (by decide)) ?_
  intro _ next₈ colon
  refine .bind .skipLineBreaks ?_
  intro _ next₉ skipped₉
  have reached₉ := ((reached₅.trans passed₆).spans skipped₇).trans
    ((colon.passes rfl).spans skipped₉)
  refine .bind (readSubject_abreast deeper (Nat.lt_of_le_of_lt behind reached₉.1)) ?_
  intro elseType stop passed
  exact node_abreast fun _ => reached₉.trans passed

theorem readEnclosed_abreast (deeper : NestedAbreast trail nested nested' origin)
    (behind : origin < station) :
    (readEnclosed nested).Abreast trail (readEnclosed nested') station
      (fun _ => trail.Passes true station) True := by
  refine .ifAt (fun _ => .marked fun start start' => ?_) fun _ => readSubject_abreast deeper behind
  refine .bind (.consume (by decide)) ?_
  intro token next named
  refine (deeper next .condition (Nat.lt_trans behind named.lt)).mono ?_ id
  intro type stop passed
  exact (named.passes rfl).trans passed

theorem readParenthesized_abreast (deeper : NestedAbreast trail nested nested' origin)
    (behind : origin ≤ station) :
    (readParenthesized nested).Abreast trail (readParenthesized nested') station
      (fun _ => trail.Passes false station) True := by
  refine .bind (.consume (by decide)) ?_
  intro _ next opened
  refine .bind .skipLineBreaks ?_
  intro _ next₁ skipped₁
  have further := Nat.lt_of_lt_of_le opened.lt skipped₁.1
  refine .bind (readEnclosed_abreast deeper (by omega)) ?_
  intro type next₂ passed
  refine .bind .skipLineBreaks ?_
  intro _ next₃ skipped₃
  refine .bind (.consume (by decide)) ?_
  intro _ stop closed
  exact .pure (opened.pair (((skipped₁.passes passed).spans skipped₃).2.close closed) rfl)

theorem readArraySuffix_abreast :
    (readArraySuffix start).Abreast trail (readArraySuffix start') station
      (fun found stop =>
        match found with
        | some _ => trail.Passes false station stop
        | none => station = stop) True := by
  refine .ifAt (fun isOpen => .push_bind ?_) fun _ => .pure rfl
  refine .bind (.advance (by rw [isOpen]; decide)) ?_
  intro _ next opened
  rw [isOpen] at opened
  refine .bind (.accept (by decide)) ?_
  rintro _ stop (⟨rfl, closed⟩ | ⟨rfl, -, rfl⟩)
  · exact .drop_bind (.positioned fun _ => opened.pair (Trail.Spans.refl.close closed) rfl)
  · exact .rollback_bind (.pure rfl)

theorem readPrimary_abreast (deeper : NestedAbreast trail nested nested' origin)
    (behind : origin ≤ station) :
    (readPrimary nested).Abreast trail (readPrimary nested') station
      (fun _ => trail.Passes false station) True := by
  refine .bind .current ?_
  rintro _ _ ⟨rfl, rfl⟩
  rw [← Trail.kind]
  generalize isKind : trail.kind station = kind
  unfold readPrimaryAt
  split
  · exact readParenthesized_abreast deeper behind
  · refine .marked fun start start' => .bind (.advance (by rw [isKind]; decide)) ?_
    intro _ stop takes
    rw [isKind] at takes
    exact node_abreast fun _ => takes.passes rfl
  · exact readIdentifier_abreast deeper behind isKind
  · exact readConstant_abreast

theorem readAtomic_abreast (deeper : NestedAbreast trail nested nested' origin)
    (behind : origin ≤ station) :
    (readAtomic nested).Abreast trail (readAtomic nested') station
      (fun _ => trail.Passes false station) True := by
  refine .marked fun start start' => .bind (readPrimary_abreast deeper behind) ?_
  intro primary next passed
  refine .bind (.many (trail.Passes false station) (trail.Passes false station) passed
    fun here _ reached => ?_) fun suffixes stop reached => .pure reached
  refine readArraySuffix_abreast.mono ?_ id
  rintro (_ | attributes) stop
  · rintro rfl
    exact reached
  · intro suffixed
    exact ⟨suffixed.1, reached.trans suffixed⟩

theorem readOperand_abreast (deeper : NestedAbreast trail nested nested' origin)
    (behind : origin ≤ station) :
    (readOperand nested).Abreast trail (readOperand nested') station
      (fun _ => trail.Passes false station) True := by
  refine .marked fun start start' => .bind (.accept (by decide)) ?_
  rintro _ next (⟨rfl, mark⟩ | ⟨rfl, -, rfl⟩)
  · refine .bind (readAtomic_abreast deeper (Nat.le_trans behind (Nat.le_of_lt mark.lt))) ?_
    intro inner stop passed
    exact node_abreast fun _ => (mark.passes rfl).trans passed
  · exact readAtomic_abreast deeper behind

theorem readGoal_abreast {inside : Bool} {wanted wanted' : Goal}
    (deeper : NestedAbreast trail nested nested' station)
    (like : Goal.Like inside wanted wanted') :
    (readGoal nested wanted).Abreast trail (readGoal nested' wanted') station
      (fun _ => trail.Passes inside station) True := by
  cases like with
  | union =>
      refine chain_abreast rfl (by decide) fun here after =>
        chain_abreast rfl (by decide) fun here' after' => ?_
      refine (readOperand_abreast deeper (by omega)).mono ?_ id
      intro type stop passed
      exact passed.widen
  | operand => exact readOperand_abreast deeper (Nat.le_refl _)
  | condition => exact readCondition_abreast deeper (Nat.le_refl _)

/-- A nested goal starts further on, so the depth that is left for it suffices. -/
theorem goalWithin_abreast {depth depth' : Nat} {inside : Bool} {wanted wanted' : Goal}
    (like : Goal.Like inside wanted wanted') (enough : trail.length - station < depth)
    (enough' : trail.length - station < depth') :
    (goalWithin depth wanted).Abreast trail (goalWithin depth' wanted') station
      (fun _ => trail.Passes inside station) True := by
  induction depth generalizing depth' inside wanted wanted' station with
  | zero => omega
  | succ depth induction =>
      obtain ⟨depth', rfl⟩ := Nat.exists_eq_succ_of_ne_zero (Nat.ne_zero_of_lt enough')
      refine readGoal_abreast (fun further like behind => .within fun within => ?_) like
      exact induction like (by omega) (by omega)

theorem parser_abreast :
    parser.Abreast trail parser station (fun _ => trail.Passes false station) True :=
  .remaining_bind fun _ _ enough enough' => goalWithin_abreast .union (by omega) (by omega)

/-- A type that is read from any place of a list takes tokens in which brackets are balanced, and
every line break among them lies between brackets which are among them, too. -/
theorem parser_takes_balanced (tracking : Tracking) (tokens : List Token) (place : Nat)
    (saved : List Nat) {type : TypeExpr} {next : Cursor}
    (read : parser tracking ((Cursor.ofTokens tokens).standing place saved) = .ok type next) :
    place < next.index ∧ Balanced false ((Cursor.ofTokens tokens).between place next.index) ∧
      ∀ front token back,
        (Cursor.ofTokens tokens).between place next.index = front ++ token :: back →
        token.kind = .lineBreak → Enclosed front token back := by
  have isSealed : ((Cursor.ofTokens tokens).standing place saved).IsSealed :=
    Cursor.isSealed_ofTokens tokens
  have agree := parser_built.agree .off tracking ((Cursor.ofTokens tokens).standing place saved)
  rw [read] at agree
  obtain ⟨_, isRead, -⟩ := Reply.exists_ok_of_map_eq agree
  obtain ⟨further, balanced⟩ := Abreast.balanced (fun _ => parser_abreast) isSealed isRead
  exact ⟨further, balanced, fun _ _ _ isSplit isBreak => balanced.enclosed isSplit isBreak⟩

/-- The tokens of a tag with a shape on three lines, and of a line behind it. -/
def shapeOnLines : List Token :=
  [⟨.tag, "@return", 1⟩, ⟨.blank, " ", 1⟩, ⟨.identifier, "array", 1⟩, ⟨.openCurly, "\x7b", 1⟩,
    ⟨.lineBreak, "\n *", 1⟩, ⟨.blank, " ", 2⟩, ⟨.identifier, "a", 2⟩, ⟨.colon, ":", 2⟩,
    ⟨.blank, " ", 2⟩, ⟨.openParen, "(", 2⟩, ⟨.identifier, "B", 2⟩, ⟨.lineBreak, "\n *", 2⟩,
    ⟨.union, "|", 3⟩, ⟨.identifier, "C", 3⟩, ⟨.closeParen, ")", 3⟩, ⟨.closeCurly, "\x7d", 3⟩,
    ⟨.lineBreak, "\n *", 3⟩, ⟨.identifier, "d", 4⟩]

/-- The type behind the tag stops at the third line break, which is not enclosed. -/
theorem parser_takes_balanced_shapeOnLines :
    (∃ type next, parser .off ((Cursor.ofTokens shapeOnLines).standing 2 []) = .ok type next ∧
      next.index = 16) ∧
    Balanced false ((Cursor.ofTokens shapeOnLines).between 2 16) :=
  ⟨⟨_, _, rfl, rfl⟩, (parser_takes_balanced .off shapeOnLines 2 [] rfl).2.1⟩

end TypeExpr

end Docblock
