import Docblock.Proofs.Tandem
import Docblock.TypeExpr.Grammar

/-!
# Types and constants stay in their window

A constant or a type takes at least one token and stops on the line of its last one, for line
breaks are passed over only in front of a token that is taken.  So it stops no later than the
last line of the window ends, and on both lists of the window alike.
-/

namespace Docblock

open Docblock.Parser

namespace ConstExpr

variable {window : Window} {place origin : Nat}

theorem nextNamePart_tandem {next : TokenKind} (isPart : next.isContent = true)
    (onLine : place ≤ window.last) :
    (nextNamePart next).Tandem window (nextNamePart next) place
      (fun found stop => (found = none ∨ place < stop) ∧ window.Along place found stop) True := by
  have stays : window.Along place (none : Option String) place := ⟨Nat.le_refl place, onLine⟩
  refine .bind .isAfterBlank ?_
  rintro spaced _ rfl
  refine .ite (fun _ => .pure ⟨.inl rfl, stays⟩) fun _ => ?_
  refine .ifAt (fun _ => .bind (.consume isPart) ?_) fun _ => .pure ⟨.inl rfl, stays⟩
  rintro value stop ⟨further, stopOnLine⟩
  exact .pure ⟨.inr further, Nat.le_of_lt further, stopOnLine⟩

theorem readNameParts_tandem {fuel fuel' : Nat} {next : TokenKind} (isPart : next.isContent = true)
    (onLine : place ≤ window.last) (enough : window.limit - place < fuel)
    (enough' : window.limit - place < fuel') :
    (readNameParts fuel next).Tandem window (readNameParts fuel' next) place
      (window.Along place) True := by
  induction fuel generalizing fuel' next place with
  | zero => omega
  | succ fuel induction =>
      obtain ⟨fuel', rfl⟩ := Nat.exists_eq_succ_of_ne_zero (Nat.ne_zero_of_lt enough')
      refine .bind (nextNamePart_tandem isPart onLine) ?_
      rintro found middle ⟨taken, along, middleOnLine⟩
      cases found with
      | none => exact .pure ⟨along, middleOnLine⟩
      | some part =>
          have further : place < middle := taken.resolve_left (Option.some_ne_none part)
          have bound := window.last_le
          refine .bind (induction ?_ middleOnLine (by omega) (by omega)) ?_
          · split <;> rfl
          · rintro rest stop ⟨behind, stopOnLine⟩
            exact .pure ⟨by omega, stopOnLine⟩

theorem readConstantName_tandem :
    readConstantName.Tandem window readConstantName place (window.Behind place) True := by
  refine .remaining_bind fun bound bound' enough enough' => ?_
  refine .ifAt (fun _ => .bind (.consume rfl) ?_) fun _ => .bind (.accept rfl) ?_
  · rintro value middle ⟨further, onLine⟩
    refine .bind (readNameParts_tandem rfl onLine (by omega) (by omega)) ?_
    rintro rest stop ⟨behind, stopOnLine⟩
    exact .pure ⟨by omega, stopOnLine⟩
  · rintro _ middle (⟨rfl, -, further, onLine⟩ | ⟨rfl, -, rfl⟩)
    · refine .bind (readNameParts_tandem rfl onLine (by omega) (by omega)) ?_
      rintro rest stop ⟨behind, stopOnLine⟩
      exact .pure ⟨by omega, stopOnLine⟩
    · exact .expecting

/-- Behind `origin` the two parsers for nested expressions keep step. -/
def Nested (window : Window) (nested nested' : Parser ConstExpr) (origin : Nat) : Prop :=
  ∀ place, origin < place → nested.Tandem window nested' place (window.Behind place) True

variable {nested nested' : Parser ConstExpr}

theorem readItem_tandem (deeper : Nested window nested nested' origin) (behind : origin < place) :
    (readItem nested).Tandem window (readItem nested') place (window.Behind place) True := by
  refine .marked fun inside => ?_
  refine .bind (deeper place behind) ?_
  rintro first middle ⟨further, onLine⟩
  refine .bind (.accept rfl) ?_
  rintro _ middle' (⟨rfl, -, further', onLine'⟩ | ⟨rfl, -, rfl⟩)
  · refine .bind (deeper middle' (by omega)) ?_
    rintro value stop ⟨further'', stopOnLine⟩
    exact .positioned inside fun _ => ⟨by omega, stopOnLine⟩
  · exact .positioned inside fun _ => ⟨further, onLine⟩

theorem nextItem_tandem (deeper : Nested window nested nested' origin) (behind : origin < place)
    {close : TokenKind} (isClose : close.isContent = true) :
    (nextItem nested close).Tandem window (nextItem nested' close) place
      (fun found stop => (found.isSome = true → place < stop) ∧ place ≤ stop ∧ stop ≤ window.last)
      True := by
  refine .bind (.accept rfl) ?_
  rintro _ next (⟨rfl, -, comma, nextOnLine⟩ | ⟨rfl, -, rfl⟩)
  · refine .bind (.accept isClose) ?_
    rintro _ last (⟨rfl, -, closed, lastOnLine⟩ | ⟨rfl, -, rfl⟩)
    · exact .pure ⟨by simp, by omega, lastOnLine⟩
    · refine .bind (readItem_tandem deeper (by omega)) ?_
      rintro item stop ⟨further, stopOnLine⟩
      exact .pure ⟨fun _ => by omega, by omega, stopOnLine⟩
  · refine .bind (.consume isClose) ?_
    rintro text stop ⟨closed, stopOnLine⟩
    exact .pure ⟨by simp, by omega, stopOnLine⟩

theorem readItems_tandem (deeper : Nested window nested nested' origin) (behind : origin < place)
    {close : TokenKind} (isClose : close.isContent = true) :
    (readItems nested close).Tandem window (readItems nested' close) place
      (window.Along place) True := by
  refine .bind (.accept isClose) ?_
  rintro _ middle (⟨rfl, -, further, middleOnLine⟩ | ⟨rfl, -, rfl⟩)
  · exact .pure ⟨by omega, middleOnLine⟩
  refine .bind (readItem_tandem deeper behind) ?_
  rintro first middle ⟨further, middleOnLine⟩
  refine .bind (.many_until (· ≤ window.last) middleOnLine fun here after hereOnLine => ?_) ?_
  · exact nextItem_tandem deeper (by omega) isClose
  · rintro rest stop ⟨further', stopOnLine⟩
    exact .pure ⟨by omega, stopOnLine⟩

theorem readNamed_tandem (deeper : Nested window nested nested' place) :
    (readNamed nested).Tandem window (readNamed nested') place (window.Behind place) True := by
  refine .bind (.consume rfl) ?_
  rintro name middle ⟨further, onLine⟩
  refine .bind (.accept rfl) ?_
  rintro _ next (⟨rfl, -, colons, nextOnLine⟩ | ⟨rfl, -, rfl⟩)
  · refine .bind readConstantName_tandem ?_
    rintro constant stop ⟨further', stopOnLine⟩
    exact .pure ⟨by omega, stopOnLine⟩
  have here : window.Behind place () middle := ⟨further, onLine⟩
  simp only [Bool.false_eq_true, if_false]
  split
  · exact .pure here
  split
  · exact .pure here
  split
  · exact .pure here
  split
  · refine .bind (.accept rfl) ?_
    rintro _ next (⟨rfl, -, opened, -⟩ | ⟨rfl, -, rfl⟩)
    · refine .bind (readItems_tandem deeper (by omega) rfl) ?_
      rintro entries stop ⟨further', stopOnLine⟩
      exact .pure ⟨by omega, stopOnLine⟩
    · exact .pure here
  · exact .pure here

theorem readForm_tandem (deeper : Nested window nested nested' place) :
    (readForm nested).Tandem window (readForm nested') place (window.Behind place) True := by
  have literal {kind : TokenKind} {form : String → ConstForm} (isLiteral : kind.isContent = true) :
      (consume kind >>= fun lexeme => pure (form lexeme)).Tandem window
        (consume kind >>= fun lexeme => pure (form lexeme)) place (window.Behind place) True :=
    .bind (.consume isLiteral) fun _ _ passed => .pure passed
  refine .bind .current ?_
  rintro _ _ ⟨rfl, rfl⟩
  unfold readFormAt
  split
  · exact literal rfl
  · exact literal rfl
  · exact literal rfl
  · exact literal rfl
  · next isMinus =>
      refine .bind (.advance_content (by rw [Window.kind, isMinus]; rfl)) ?_
      rintro _ middle ⟨further, -⟩
      refine .bind (deeper middle further) ?_
      rintro operand stop ⟨further', onLine⟩
      exact .pure ⟨by omega, onLine⟩
  · next isOpen =>
      refine .bind (.advance_content (by rw [Window.kind, isOpen]; rfl)) ?_
      rintro _ middle ⟨further, -⟩
      refine .bind (readItems_tandem deeper further rfl) ?_
      rintro entries stop ⟨further', onLine⟩
      exact .pure ⟨by omega, onLine⟩
  · exact readNamed_tandem deeper
  · exact .expecting

theorem parserWithin_tandem {depth depth' : Nat} (enough : window.limit - place < depth)
    (enough' : window.limit - place < depth') :
    (parserWithin depth).Tandem window (parserWithin depth') place (window.Behind place) True := by
  induction depth generalizing depth' place with
  | zero => omega
  | succ depth induction =>
      obtain ⟨depth', rfl⟩ := Nat.exists_eq_succ_of_ne_zero (Nat.ne_zero_of_lt enough')
      have deeper : Nested window (parserWithin depth) (parserWithin depth') place :=
        fun stop behind => .inside fun inside => induction (by omega) (by omega)
      refine .marked fun inside => ?_
      refine .bind (readForm_tandem deeper) ?_
      rintro form stop passed
      exact .positioned inside fun _ => passed

theorem parser_tandem : parser.Tandem window parser place (window.Behind place) True :=
  .remaining_bind fun _ _ enough enough' => parserWithin_tandem (by omega) (by omega)

end ConstExpr

namespace TypeExpr

variable {window : Window} {place origin start : Nat} {bad : Prop}
  {nested nested' : Goal → Parser TypeExpr}

/-- The place where the subject of a condition started is in the window. -/
def Goal.Within (window : Window) : Goal → Prop
  | .condition _ start => start ≤ window.limit
  | _ => True

/-- Behind `origin` the two parsers for nested goals keep step. -/
def Nested (window : Window) (nested nested' : Goal → Parser TypeExpr) (origin : Nat) : Prop :=
  ∀ (wanted : Goal) (place : Nat), origin < place → wanted.Within window →
    (nested wanted).Tandem window (nested' wanted) place (window.Behind place) True

theorem node_stays {form : TypeForm} (started : start ≤ window.limit) :
    (node form start).Tandem window (node form start) place (fun _ stop => place = stop) bad := by
  exact .positioned started fun _ => rfl

theorem node_tandem {form : TypeForm} {good : TypeExpr → Nat → Prop}
    (started : start ≤ window.limit) (isGood : ∀ type, good type place) :
    (node form start).Tandem window (node form start) place good bad := by
  refine (node_stays started).mono ?_ id
  rintro type _ rfl
  exact isGood type

theorem isAtOperator_tandem {operator : TokenKind} {multiline : Bool} :
    (isAtOperator operator multiline).Tandem window (isAtOperator operator multiline) place
      (fun found stop => (found = true ∧ window.kind stop = operator ∧ place ≤ stop) ∨
        (found = false ∧ place = stop)) bad := by
  refine .ifAt (fun isKind => .pure (.inl ⟨rfl, isKind, Nat.le_refl _⟩)) fun _ => ?_
  refine .ite (fun _ => .pure (.inr ⟨rfl, rfl⟩)) fun _ => .bind .isAt ?_
  rintro _ _ ⟨rfl, rfl⟩
  refine .ite (fun _ => .pure (.inr ⟨rfl, rfl⟩)) fun _ => .push_bind ?_
  refine .bind .skipLineBreaks ?_
  rintro _ stop behind
  refine .ifAt (fun isKind => .drop_bind ?_) fun _ => .rollback_bind ?_
  · exact .pure (.inl ⟨rfl, isKind, behind⟩)
  · exact .pure (.inr ⟨rfl, rfl⟩)

theorem skipLineBreaksIf_tandem {multiline : Bool} :
    (skipLineBreaksIf multiline).Tandem window (skipLineBreaksIf multiline) place
      (fun _ stop => place ≤ stop) bad :=
  .ite (fun _ => .skipLineBreaks) fun _ => .pure (Nat.le_refl _)

theorem nextOperand_tandem {operator : TokenKind} {multiline : Bool}
    {operand operand' : Parser TypeExpr} (isOperator : operator.isContent = true)
    (onLine : place ≤ window.last)
    (each : ∀ here, place ≤ here → operand.Tandem window operand' here (window.Behind here) True) :
    (nextOperand operator multiline operand).Tandem window
      (nextOperand operator multiline operand') place
      (fun found stop => (found.isSome = true → place < stop) ∧ place ≤ stop ∧ stop ≤ window.last)
      True := by
  refine .bind isAtOperator_tandem ?_
  rintro _ next (⟨rfl, isKind, behind⟩ | ⟨rfl, rfl⟩)
  · refine .bind (.advance_content (by rwa [isKind])) ?_
    rintro _ next' ⟨passed, -⟩
    refine .bind skipLineBreaksIf_tandem ?_
    rintro _ next'' skipped
    refine .bind (each next'' (by omega)) ?_
    rintro operand stop ⟨further, stopOnLine⟩
    exact .pure ⟨fun _ => by omega, by omega, stopOnLine⟩
  · exact .pure ⟨by simp, Nat.le_refl _, onLine⟩

theorem chain_tandem {operator : TokenKind} {combine : List TypeExpr → TypeForm} {multiline : Bool}
    {operand operand' : Parser TypeExpr} (isOperator : operator.isContent = true)
    (each : ∀ here, place ≤ here → operand.Tandem window operand' here (window.Behind here) True) :
    (chain operator combine multiline operand).Tandem window
      (chain operator combine multiline operand') place (window.Behind place) True := by
  refine .marked fun inside => ?_
  refine .bind (each place (Nat.le_refl _)) ?_
  rintro first middle ⟨further, onLine⟩
  refine .bind (.many_until (· ≤ window.last) onLine fun here after hereOnLine => ?_) ?_
  · have later (next : Nat) (behind : here ≤ next) := each next (by omega)
    exact nextOperand_tandem isOperator hereOnLine later
  · rintro rest stop ⟨further', stopOnLine⟩
    have passed : window.Behind place () stop := ⟨by omega, stopOnLine⟩
    exact .ite (fun _ => .pure passed) fun _ => node_tandem inside fun _ => passed

theorem nextSeparated_tandem {α : Type} {item item' : Parser α} {close : TokenKind}
    (each : ∀ here, place ≤ here → item.Tandem window item' here (window.Behind here) True) :
    (nextSeparated item close).Tandem window (nextSeparated item' close) place
      (fun found stop => (found.isSome = true → place < stop) ∧ place ≤ stop) True := by
  refine .bind (.accept rfl) ?_
  rintro _ next (⟨rfl, -, comma, -⟩ | ⟨rfl, -, rfl⟩)
  · refine .bind .skipLineBreaks ?_
    rintro _ next' skipped
    refine .ifAt (fun _ => .pure ⟨by simp, by omega⟩) fun _ => ?_
    refine .bind (each next' (by omega)) ?_
    rintro value next'' ⟨further, -⟩
    refine .bind .skipLineBreaks ?_
    rintro _ stop skipped'
    exact .pure ⟨fun _ => by omega, by omega⟩
  · exact .pure ⟨by simp, Nat.le_refl _⟩

theorem commaSeparated_tandem {α : Type} {item item' : Parser α} {close : TokenKind}
    (each : ∀ here, place ≤ here → item.Tandem window item' here (window.Behind here) True) :
    (commaSeparated item close).Tandem window (commaSeparated item' close) place
      (fun _ stop => place < stop) True := by
  refine .bind (each place (Nat.le_refl _)) ?_
  rintro first middle ⟨further, -⟩
  refine .bind .skipLineBreaks ?_
  rintro _ middle' skipped
  refine .bind (.many_until (fun _ => True) trivial fun here after _ => ?_) ?_
  · have later (next : Nat) (behind : here ≤ next) := each next (by omega)
    refine (nextSeparated_tandem later).mono ?_ id
    rintro found stop ⟨further', behind⟩
    exact ⟨further', behind, trivial⟩
  · rintro rest stop ⟨further', -⟩
    exact .pure (by omega)

theorem readConstant_tandem :
    readConstant.Tandem window readConstant place (window.Behind place) True := by
  refine .inside fun inside => .bind .isAtAny ?_
  rintro _ _ ⟨rfl, rfl⟩
  refine .ite (fun _ => .bind .mark ?_) fun _ => .expecting
  rintro _ _ ⟨rfl, rfl⟩
  refine .bind ConstExpr.parser_tandem ?_
  rintro expr stop passed
  exact node_tandem inside fun _ => passed

theorem readGeneric_tandem {base : TypeExpr} (deeper : Nested window nested nested' origin)
    (behind : origin ≤ place) (started : start ≤ window.limit) :
    (readGeneric nested base start).Tandem window (readGeneric nested' base start) place
      (window.Behind place) True := by
  refine .bind (.consume rfl) ?_
  rintro _ next ⟨opened, -⟩
  refine .bind .skipLineBreaks ?_
  rintro _ next' skipped
  refine .bind (commaSeparated_tandem fun here after => deeper _ here (by omega) trivial) ?_
  rintro arguments next'' further
  refine .bind (.consume rfl) ?_
  rintro _ stop ⟨closed, onLine⟩
  exact node_tandem started fun _ => ⟨by omega, onLine⟩

theorem readVariableName?_tandem (onLine : place ≤ window.last) :
    readVariableName?.Tandem window readVariableName? place (window.Along place) True := by
  refine .ifAt (fun _ => .bind (.consume rfl) ?_) fun _ => .pure ⟨Nat.le_refl _, onLine⟩
  rintro token stop ⟨further, stopOnLine⟩
  exact .pure ⟨by omega, stopOnLine⟩

theorem readParameter_tandem (deeper : Nested window nested nested' origin)
    (behind : origin < place) : (readParameter nested).Tandem window (readParameter nested') place
      (window.Behind place) True := by
  refine .marked fun inside => ?_
  refine .bind (deeper _ place behind trivial) ?_
  rintro type next ⟨further, onLine⟩
  refine .bind (.accept_line rfl onLine) ?_
  rintro isReference next' ⟨further', onLine'⟩
  refine .bind (.accept_line rfl onLine') ?_
  rintro isVariadic next'' ⟨further'', onLine''⟩
  refine .bind (readVariableName?_tandem onLine'') ?_
  rintro name last ⟨named, lastOnLine⟩
  refine .bind (.accept_line rfl lastOnLine) ?_
  rintro isOptional stop ⟨marked, stopOnLine⟩
  exact .positioned inside fun _ => ⟨by omega, stopOnLine⟩

theorem readParameters_tandem (deeper : Nested window nested nested' origin)
    (behind : origin < place) :
    (readParameters nested).Tandem window (readParameters nested') place
      (fun _ stop => place ≤ stop) True := by
  refine .ifAt (fun _ => .pure (Nat.le_refl _)) fun _ => ?_
  refine (commaSeparated_tandem fun here after => ?_).mono (fun _ _ => Nat.le_of_lt) id
  exact readParameter_tandem deeper (by omega)

theorem readCallable_tandem {identifier : TypeExpr} (deeper : Nested window nested nested' origin)
    (behind : origin ≤ place) (started : start ≤ window.limit) :
    (readCallable nested identifier start).Tandem window (readCallable nested' identifier start)
      place (window.Behind place) True := by
  refine .bind (.consume rfl) ?_
  rintro _ next ⟨opened, -⟩
  refine .bind .skipLineBreaks ?_
  rintro _ next' skipped
  refine .bind (readParameters_tandem deeper (by omega)) ?_
  rintro parameters next'' further
  refine .bind (.consume rfl) ?_
  rintro _ next₃ ⟨closed, -⟩
  refine .bind (.consume rfl) ?_
  rintro _ next₄ ⟨colon, -⟩
  refine .bind (deeper _ next₄ (by omega) trivial) ?_
  rintro returnType stop ⟨further', onLine⟩
  exact node_tandem started fun _ => ⟨by omega, onLine⟩

theorem readShapeKey_tandem :
    readShapeKey.Tandem window readShapeKey place (window.Behind place) True := by
  have literal {kind : LiteralKind} (content : (window.kind place).isContent = true)
      (inside : place ≤ window.limit) (value : String) :
      (do advance
          pure (.constant ⟨.literal kind value, ← positionsSince place⟩) :
        Parser ShapeKey).Tandem window
        (do advance
            pure (.constant ⟨.literal kind value, ← positionsSince place⟩))
        place (window.Behind place) True := by
    refine .bind (.advance_content content) ?_
    rintro _ stop passed
    exact .positioned inside fun _ => passed
  refine .marked fun inside => ?_
  refine .bind .current ?_
  rintro _ _ ⟨rfl, rfl⟩
  split
  · next isInteger => exact literal (by rw [Window.kind, isInteger]; rfl) inside _
  · next isQuoted => exact literal (by rw [Window.kind, isQuoted]; rfl) inside _
  · next isQuoted => exact literal (by rw [Window.kind, isQuoted]; rfl) inside _
  · next isName =>
      refine .bind (.advance_content (by rw [Window.kind, isName]; rfl)) ?_
      rintro _ stop passed
      exact .pure passed
  · exact .expecting

theorem readShapeLabel_tandem :
    readShapeLabel.Tandem window readShapeLabel place (window.Behind place) True := by
  refine .bind readShapeKey_tandem ?_
  rintro key next ⟨further, onLine⟩
  refine .bind (.accept_line rfl onLine) ?_
  rintro isOptional next' ⟨marked, -⟩
  refine .bind (.consume rfl) ?_
  rintro _ stop ⟨colon, stopOnLine⟩
  exact .pure ⟨by omega, stopOnLine⟩

theorem readShapeItem_tandem (deeper : Nested window nested nested' origin)
    (behind : origin < place) : (readShapeItem nested).Tandem window (readShapeItem nested') place
      (window.Behind place) True := by
  refine .marked fun inside => ?_
  refine .bind (.attempt readShapeLabel_tandem) ?_
  rintro (_ | ⟨key, isOptional⟩) next
  · rintro ⟨rfl, -⟩
    refine .bind (deeper _ place behind trivial) ?_
    rintro value stop passed
    exact .positioned inside fun _ => passed
  · rintro ⟨labelled, -⟩
    refine .bind (deeper _ next (by omega) trivial) ?_
    rintro value stop ⟨further, onLine⟩
    exact .positioned inside fun _ => ⟨by omega, onLine⟩

theorem readShapeEntry_tandem (deeper : Nested window nested nested' origin)
    (behind : origin < place) :
    (readShapeEntry nested).Tandem window (readShapeEntry nested') place
      (window.Behind place) True := by
  refine .bind .skipLineBreaks ?_
  rintro _ next skipped
  refine .bind (.accept rfl) ?_
  rintro _ next' (⟨rfl, -, closed, onLine⟩ | ⟨rfl, -, rfl⟩)
  · exact .pure ⟨by omega, onLine⟩
  refine .bind (.accept rfl) ?_
  rintro _ next' (⟨rfl, -, dots, -⟩ | ⟨rfl, -, rfl⟩)
  · refine .bind .skipLineBreaks ?_
    rintro _ next₂ skipped'
    refine .bind (.accept rfl) ?_
    rintro _ next₃ comma
    refine .bind .skipLineBreaks ?_
    rintro _ next₄ skipped''
    refine .bind (.consume rfl) ?_
    rintro _ stop ⟨closed, onLine⟩
    exact .pure ⟨by omega, onLine⟩
  · refine .bind (readShapeItem_tandem deeper (by omega)) ?_
    rintro item stop ⟨further, onLine⟩
    exact .pure ⟨by omega, onLine⟩

theorem nextEntry_tandem (deeper : Nested window nested nested' origin) (behind : origin < place) :
    (nextEntry nested).Tandem window (nextEntry nested') place (window.Behind place) True := by
  refine .bind .skipLineBreaks ?_
  rintro _ next skipped
  refine .bind (.accept rfl) ?_
  rintro _ next' (⟨rfl, -, comma, -⟩ | ⟨rfl, -, rfl⟩)
  · refine (readShapeEntry_tandem deeper (by omega)).mono ?_ id
    rintro entry stop ⟨further, stopOnLine⟩
    exact ⟨by omega, stopOnLine⟩
  · refine .bind (.consume rfl) ?_
    rintro _ stop ⟨closed, stopOnLine⟩
    exact .pure ⟨by omega, stopOnLine⟩

theorem readShape_tandem {kind : ShapeKind} (deeper : Nested window nested nested' origin)
    (behind : origin ≤ place) (started : start ≤ window.limit) :
    (readShape nested kind start).Tandem window (readShape nested' kind start) place
      (window.Behind place) True := by
  refine .bind (.consume rfl) ?_
  rintro _ next ⟨opened, -⟩
  refine .bind (readShapeEntry_tandem deeper (by omega)) ?_
  rintro (first | closed) next' ⟨further, onLine⟩
  · refine .bind (.gather_until (· ≤ window.last) onLine fun here after _ => ?_) ?_
    · refine (nextEntry_tandem deeper (by omega)).mono ?_ id
      rintro (item | closed) stop ⟨further', stopOnLine⟩
      · exact ⟨further', stopOnLine⟩
      · exact ⟨Nat.le_of_lt further', stopOnLine⟩
    · rintro rest stop ⟨further', stopOnLine⟩
      exact node_tandem started fun _ => ⟨by omega, stopOnLine⟩
  · exact node_tandem started fun _ => ⟨by omega, onLine⟩

theorem readNameTail_tandem {name : String} {identifier : TypeExpr}
    (deeper : Nested window nested nested' origin) (behind : origin ≤ place)
    (onLine : place ≤ window.last) (started : start ≤ window.limit) :
    (readNameTail nested name identifier start).Tandem window
      (readNameTail nested' name identifier start) place (window.Along place) True := by
  have stays : window.Along place () place := ⟨Nat.le_refl _, onLine⟩
  have passes {type : TypeExpr} {stop : Nat} (passed : window.Behind place type stop) :
      window.Along place type stop := ⟨Nat.le_of_lt passed.1, passed.2⟩
  refine .ifAt (fun _ => ?_) fun _ => ?_
  · exact (readGeneric_tandem deeper behind started).mono (fun _ _ => passes) id
  refine .ifAt (fun _ => ?_) fun _ => ?_
  · refine .bind (.attempt (readCallable_tandem deeper behind started)) ?_
    rintro (_ | callable) stop
    · rintro ⟨rfl, -⟩
      exact .pure stays
    · intro passed
      exact .pure (passes passed)
  split
  · exact .pure stays
  · refine .ifAt (fun _ => .bind .isAfterBlank ?_) fun _ => .pure stays
    rintro spaced _ rfl
    refine .ite (fun _ => .pure stays) fun _ => ?_
    exact (readShape_tandem deeper behind started).mono (fun _ _ => passes) id

theorem readIdentifier_tandem (deeper : Nested window nested nested' origin)
    (behind : origin ≤ place) (isIdentifier : window.kind place = .identifier) :
    (readIdentifier nested).Tandem window (readIdentifier nested') place
      (window.Behind place) True := by
  refine .marked fun inside => ?_
  refine .push_bind (.bind .current ?_)
  rintro _ _ ⟨rfl, rfl⟩
  refine .bind (.advance_content (by rw [isIdentifier]; rfl)) ?_
  rintro _ next ⟨further, onLine⟩
  refine .ifAt (fun _ => .rollback_bind readConstant_tandem) fun _ => .drop_bind ?_
  refine .bind (node_stays inside) ?_
  rintro identifier _ rfl
  refine (readNameTail_tandem deeper (by omega) onLine inside).mono ?_ id
  rintro type stop ⟨further', stopOnLine⟩
  exact ⟨by omega, stopOnLine⟩

theorem readSubject_tandem (deeper : Nested window nested nested' origin)
    (behind : origin < place) : (readSubject nested).Tandem window (readSubject nested') place
      (window.Behind place) True := by
  refine .marked fun inside => ?_
  refine .bind (deeper _ place behind trivial) ?_
  rintro subject next ⟨further, onLine⟩
  refine .bind .isAtWord ?_
  rintro _ _ ⟨-, rfl⟩
  refine .ite (fun _ => ?_) fun _ => .pure ⟨further, onLine⟩
  refine (deeper (.condition _ place) next (by omega) inside).mono ?_ id
  rintro type stop ⟨further', stopOnLine⟩
  exact ⟨by omega, stopOnLine⟩

theorem readCondition_tandem {subject : ConditionalSubject}
    (deeper : Nested window nested nested' origin) (behind : origin ≤ place)
    (started : start ≤ window.limit) :
    (readCondition nested subject start).Tandem window (readCondition nested' subject start) place
      (window.Behind place) True := by
  refine .bind (.consumeValue rfl) ?_
  rintro _ next ⟨further, onLine⟩
  refine .bind (.acceptWord rfl) ?_
  rintro negated next₁ negation
  refine .bind (deeper _ next₁ (by omega) trivial) ?_
  rintro target next₂ ⟨further₂, -⟩
  refine .bind .skipLineBreaks ?_
  rintro _ next₃ skipped₃
  refine .bind (.consume rfl) ?_
  rintro _ next₄ ⟨further₄, -⟩
  refine .bind .skipLineBreaks ?_
  rintro _ next₅ skipped₅
  refine .bind (deeper _ next₅ (by omega) trivial) ?_
  rintro ifType next₆ ⟨further₆, -⟩
  refine .bind .skipLineBreaks ?_
  rintro _ next₇ skipped₇
  refine .bind (.consume rfl) ?_
  rintro _ next₈ ⟨further₈, -⟩
  refine .bind .skipLineBreaks ?_
  rintro _ next₉ skipped₉
  refine .bind (readSubject_tandem deeper (by omega)) ?_
  rintro elseType stop ⟨further', stopOnLine⟩
  exact node_tandem started fun _ => ⟨by omega, stopOnLine⟩

theorem readEnclosed_tandem (deeper : Nested window nested nested' origin)
    (behind : origin < place) : (readEnclosed nested).Tandem window (readEnclosed nested') place
      (window.Behind place) True := by
  refine .ifAt (fun _ => .marked fun inside => ?_) fun _ => readSubject_tandem deeper behind
  refine .bind (.consume rfl) ?_
  rintro token next ⟨further, -⟩
  refine (deeper (.condition _ place) next (by omega) inside).mono ?_ id
  rintro type stop ⟨further', onLine⟩
  exact ⟨by omega, onLine⟩

theorem readParenthesized_tandem (deeper : Nested window nested nested' origin)
    (behind : origin ≤ place) :
    (readParenthesized nested).Tandem window (readParenthesized nested') place
      (window.Behind place) True := by
  refine .bind (.consume rfl) ?_
  rintro _ next ⟨opened, -⟩
  refine .bind .skipLineBreaks ?_
  rintro _ next₁ skipped₁
  refine .bind (readEnclosed_tandem deeper (by omega)) ?_
  rintro type next₂ ⟨further₂, -⟩
  refine .bind .skipLineBreaks ?_
  rintro _ next₃ skipped₃
  refine .bind (.consume rfl) ?_
  rintro _ stop ⟨closed, onLine⟩
  exact .pure ⟨by omega, onLine⟩

theorem readArraySuffix_tandem (onLine : place ≤ window.last) (started : start ≤ window.limit) :
    (readArraySuffix start).Tandem window (readArraySuffix start) place
      (fun found stop => (found.isSome = true → place < stop) ∧ place ≤ stop ∧
        stop ≤ window.last) True := by
  refine .ifAt (fun isOpen => .push_bind ?_) fun _ => .pure ⟨by simp, Nat.le_refl _, onLine⟩
  refine .bind (.advance_content (by rw [isOpen]; rfl)) ?_
  rintro _ next ⟨opened, -⟩
  refine .bind (.accept rfl) ?_
  rintro _ stop (⟨rfl, -, closed, stopOnLine⟩ | ⟨rfl, -, rfl⟩)
  · refine .drop_bind (.bind (.positionsSince started) ?_)
    rintro attributes _ rfl
    exact .pure ⟨fun _ => by omega, by omega, stopOnLine⟩
  · exact .rollback_bind (.pure ⟨by simp, Nat.le_refl _, onLine⟩)

theorem readPrimary_tandem (deeper : Nested window nested nested' origin)
    (behind : origin ≤ place) : (readPrimary nested).Tandem window (readPrimary nested') place
      (window.Behind place) True := by
  refine .inside fun inside => .bind .current ?_
  rintro _ _ ⟨rfl, rfl⟩
  unfold readPrimaryAt
  split
  · exact readParenthesized_tandem deeper behind
  · next isThis =>
      refine .bind .mark ?_
      rintro _ _ ⟨rfl, rfl⟩
      refine .bind (.advance_content (by rw [Window.kind, isThis]; rfl)) ?_
      rintro _ stop passed
      exact node_tandem inside fun _ => passed
  · next isIdentifier => exact readIdentifier_tandem deeper behind isIdentifier
  · exact readConstant_tandem

theorem readAtomic_tandem (deeper : Nested window nested nested' origin) (behind : origin ≤ place) :
    (readAtomic nested).Tandem window (readAtomic nested') place (window.Behind place) True := by
  refine .marked fun inside => ?_
  refine .bind (readPrimary_tandem deeper behind) ?_
  rintro primary next ⟨further, onLine⟩
  refine .bind (.many_until (· ≤ window.last) onLine fun here after hereOnLine => ?_) ?_
  · exact readArraySuffix_tandem hereOnLine inside
  · rintro suffixes stop ⟨further', stopOnLine⟩
    exact .pure ⟨by omega, stopOnLine⟩

theorem readOperand_tandem (deeper : Nested window nested nested' origin)
    (behind : origin ≤ place) : (readOperand nested).Tandem window (readOperand nested') place
      (window.Behind place) True := by
  refine .marked fun inside => ?_
  refine .bind (.accept rfl) ?_
  rintro _ next (⟨rfl, -, marked, -⟩ | ⟨rfl, -, rfl⟩)
  · refine .bind (readAtomic_tandem deeper (by omega)) ?_
    rintro inner stop ⟨further, onLine⟩
    exact node_tandem inside fun _ => ⟨by omega, onLine⟩
  · exact readAtomic_tandem deeper behind

theorem readGoal_tandem {wanted : Goal} (deeper : Nested window nested nested' place)
    (within : wanted.Within window) :
    (readGoal nested wanted).Tandem window (readGoal nested' wanted) place
      (window.Behind place) True := by
  cases wanted with
  | union multiline =>
      refine chain_tandem rfl fun here after => chain_tandem rfl fun here' after' => ?_
      exact readOperand_tandem deeper (by omega)
  | operand => exact readOperand_tandem deeper (Nat.le_refl _)
  | condition subject start => exact readCondition_tandem deeper (Nat.le_refl _) within

/-- A nested goal starts further on, so the depth that is left for it suffices. -/
theorem goalWithin_tandem {depth depth' : Nat} {wanted : Goal} (within : wanted.Within window)
    (enough : window.limit - place < depth) (enough' : window.limit - place < depth') :
    (goalWithin depth wanted).Tandem window (goalWithin depth' wanted) place
      (window.Behind place) True := by
  induction depth generalizing depth' wanted place with
  | zero => omega
  | succ depth induction =>
      obtain ⟨depth', rfl⟩ := Nat.exists_eq_succ_of_ne_zero (Nat.ne_zero_of_lt enough')
      refine readGoal_tandem (fun wanted stop behind within => .inside fun inside => ?_) within
      exact induction within (by omega) (by omega)

theorem goal_tandem {wanted : Goal} (within : wanted.Within window) :
    (goal wanted).Tandem window (goal wanted) place (window.Behind place) True :=
  .remaining_bind fun _ _ enough enough' => goalWithin_tandem within (by omega) (by omega)

theorem parser_tandem : parser.Tandem window parser place (window.Behind place) True :=
  goal_tandem trivial

theorem genericParser_tandem :
    genericParser.Tandem window genericParser place (window.Behind place) True := by
  refine .marked fun inside => ?_
  refine .bind (.consume rfl) ?_
  rintro name next ⟨further, -⟩
  refine .bind (node_stays inside) ?_
  rintro base _ rfl
  have deeper : Nested window goal goal next := fun _ _ _ within => goal_tandem within
  refine (readGeneric_tandem deeper (Nat.le_refl _) inside).mono ?_ id
  rintro type stop ⟨further', onLine⟩
  exact ⟨by omega, onLine⟩

end TypeExpr

end Docblock
