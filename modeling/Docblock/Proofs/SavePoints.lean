import Docblock.Parse
import Docblock.Proofs.Document.Rules

/-!
# Save points are used like brackets

Every rule of the grammars is steady: it leaves the stack of save points as it
found it and never misses a save point.  Hence any sequence of calls on one
cursor does, and an attempt that fails is back where it started.
-/

namespace Docblock

open Docblock.Parser

theorem TypeExpr.lenientParser_steady : lenientParser.Steady := by
  apply Steady.bind (.look _)
  intro start
  apply Steady.bind (.attempt parser_built.toEnd.steady)
  intro outcome
  cases outcome with
  | ok type => exact .pure type
  | error error =>
      apply Steady.bind (.look _)
      intro rest
      have toLast : (move Cursor.fastForward).Steady :=
        .move fun cursor => ⟨cursor.tokens.size - 1, rfl⟩
      apply Steady.bind toLast
      intro _
      apply Steady.bind (.positionsSince start)
      intro attributes
      exact .pure _

/-- The calls that can be made one after the other on the same tokens. -/
inductive Call
  | type
  | constant
  | document
  | lenientType
  | finish
  deriving DecidableEq, Repr

namespace Call

/-- What a call runs; the value that is read does not matter here. -/
def parser : Call → Parser Unit
  | type => do let _ ← TypeExpr.parser
  | constant => do let _ ← ConstExpr.parser
  | document => do let _ ← Document.parser
  | lenientType => do let _ ← TypeExpr.lenientParser
  | finish => expectFinish

/-- Each call with the cursor that it starts from and its reply.  A call starts where
the one before it stopped, also if that one failed. -/
def session (tracking : Tracking) : List Call → Cursor → List (Cursor × Reply Unit)
  | [], _ => []
  | call :: rest, cursor =>
      let reply := call.parser tracking cursor
      (cursor, reply) :: session tracking rest reply.cursor

theorem parser_steady (call : Call) : call.parser.Steady := by
  cases call with
  | type => exact .bind TypeExpr.parser_built.steady fun _ => .pure _
  | constant => exact .bind ConstExpr.parser_built.steady fun _ => .pure _
  | document => exact .bind Document.parser_built.steady fun _ => .pure _
  | lenientType => exact .bind TypeExpr.lenientParser_steady fun _ => .pure _
  | finish => exact Built.expectFinish.steady

/-- One call after the other, each reply is steady. -/
theorem session_steady (tracking : Tracking) (calls : List Call) (cursor : Cursor) :
    ∀ step ∈ session tracking calls cursor, step.2.Steady step.1 := by
  induction calls generalizing cursor with
  | nil => simp [session]
  | cons call rest induction =>
      intro step member
      rcases List.mem_cons.mp member with rfl | later
      · exact call.parser_steady tracking cursor
      · exact induction _ step later

end Call

/-- The parsers that are run through `attempt`. -/
inductive Speculative : {α : Type} → Parser α → Prop
  | shapeLabel : Speculative TypeExpr.readShapeLabel
  | callable (depth : Nat) (identifier : TypeExpr) (start : Nat) :
      Speculative (TypeExpr.readCallable (TypeExpr.goalWithin depth) identifier start)
  | wholeType : Speculative (toEnd TypeExpr.parser)
  | tagValue (rule : TagRule) : Speculative (TagValue.readWholeRule rule)

theorem Speculative.steady {α : Type} {body : Parser α} (speculative : Speculative body) :
    body.Steady := by
  cases speculative with
  | shapeLabel => exact TypeExpr.readShapeLabel_built.steady
  | callable depth identifier start =>
      exact (TypeExpr.readCallable_built (TypeExpr.goalWithin_built depth) rfl start).steady
  | wholeType => exact TypeExpr.parser_built.toEnd.steady
  | tagValue rule => exact (TagValue.readWholeRule_built rule).steady

theorem attempt_error_cursor {α : Type} {body : Parser α} (bodySteady : body.Steady)
    {tracking : Tracking} {cursor next : Cursor} {error : SyntaxError}
    (failed : attempt body tracking cursor = .ok (.error error) next) : next = cursor := by
  rw [attempt_eq bodySteady] at failed
  split at failed
  · cases failed
  · cases failed
    rfl
  · cases failed

/-- In every sequence of calls each call leaves the stack of save points as it found
it and misses no save point; and whatever is run through `attempt` and fails leaves
the cursor exactly where it was. -/
theorem savePoints_disciplined (tracking : Tracking) (tokens : List Token)
    (calls : List Call) :
    (∀ step ∈ Call.session tracking calls (Cursor.ofTokens tokens),
      step.2.cursor.savePoints = step.1.savePoints ∧
        ∀ use, step.2.result ≠ .error (.unbalanced use)) ∧
    ∀ {α : Type} (body : Parser α), Speculative body →
      ∀ (cursor next : Cursor) (error : SyntaxError),
        attempt body tracking cursor = .ok (.error error) next → next = cursor := by
  refine ⟨fun step member => ?_, fun body speculative cursor next error failed =>
    attempt_error_cursor speculative.steady failed⟩
  have steady := Call.session_steady tracking calls _ step member
  refine ⟨?_, steady.ne_unbalanced⟩
  rw [steady.cursor_eq]
  rfl

/-- Two calls on an unfinished shape, and its label read through `attempt`. -/
theorem savePoints_disciplined_unfinished_shape :
    let tokens : List Token :=
      [⟨.identifier, "array", 1⟩, ⟨.openCurly, "\x7b", 1⟩, ⟨.identifier, "a", 1⟩]
    let cursor := Cursor.ofTokens tokens
    let session := Call.session .full [.type, .constant] cursor
    (∀ step ∈ session, step.2.cursor.savePoints = step.1.savePoints) ∧
      session.map (·.2.cursor.index) = [3, 3] ∧
      ∃ error, attempt TypeExpr.readShapeLabel .full cursor = .ok (.error error) cursor := by
  refine ⟨fun step member =>
    ((savePoints_disciplined .full _ [.type, .constant]).1 step member).1, by decide, ?_⟩
  obtain ⟨next, error, failed⟩ : ∃ next error,
      attempt TypeExpr.readShapeLabel .full (Cursor.ofTokens
        [⟨.identifier, "array", 1⟩, ⟨.openCurly, "\x7b", 1⟩, ⟨.identifier, "a", 1⟩]) =
          .ok (.error error) next := ⟨_, _, rfl⟩
  have back := (savePoints_disciplined .full [] []).2 _ .shapeLabel _ _ _ failed
  exact ⟨error, by rw [failed, back]⟩

end Docblock
