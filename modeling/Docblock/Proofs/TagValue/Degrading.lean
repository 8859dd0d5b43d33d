import Docblock.Proofs.Document.LineTags
import Docblock.Proofs.ErrorPositions

/-!
# A tag that cannot be read keeps its text

The rule for a tag may have read far ahead before it fails, over several lines and through
attempts of its own.  Then the cursor is back where the rule started, and what is kept is the free
text from there: the same text, up to the same place, as for a tag that has no rule at all.
-/

namespace Docblock

open Docblock.Parser

namespace TagValue

section Degrading

variable {window : Window} {place : Nat} {tracking : Tracking} {cursor next : Cursor}
  {name text : String}

/-- The value of a tag that has no rule is the free text behind its name. -/
theorem parser_unknown (isUnknown : TagRule.ofName? name = none)
    (isText : Prose.parser tracking cursor = .ok text next) :
    ∃ attributes, parser name tracking cursor = .ok (.generic ⟨text, attributes⟩) next := by
  rw [parser, isUnknown]
  show ∃ attributes, (Prose.parser >>= fun _ => _) tracking cursor = _
  rw [bind_apply, isText]
  exact ⟨_, rfl⟩

theorem parser_of_ok {rule : TagRule} {value : TagValue}
    (isKnown : TagRule.ofName? name = some rule)
    (isRead : attempt (readWholeRule rule) tracking cursor = .ok (.ok value) next) :
    ∃ attributes, parser name tracking cursor = .ok (value.withAttributes attributes) next := by
  rw [parser, isKnown]
  show ∃ attributes, (attempt (readWholeRule rule) >>= fun _ => _) tracking cursor = _
  rw [bind_apply, isRead]
  exact ⟨_, rfl⟩

theorem parser_of_error {rule : TagRule} {error : SyntaxError} {back : Cursor}
    (isKnown : TagRule.ofName? name = some rule)
    (isMissed : attempt (readWholeRule rule) tracking cursor = .ok (.error error) back)
    (isText : Prose.parser tracking back = .ok text next) :
    ∃ attributes : Attributes, parser name tracking cursor =
      .ok (.invalid ⟨text, error.message,
        attributes.set Attributes.errorKey (.error error)⟩) next := by
  rw [parser, isKnown]
  show ∃ attributes : Attributes,
    (attempt (readWholeRule rule) >>= fun _ => _) tracking cursor = _
  rw [bind_apply, isMissed]
  show ∃ attributes : Attributes, (Prose.parser >>= fun _ => _) tracking back = _
  rw [bind_apply, isText]
  exact ⟨_, rfl⟩

/-- The value of a tag that has a rule is what the rule gives, or, if the rule fails, the free
text behind the name together with the error. -/
theorem parser_known (tracking : Tracking) {rule : TagRule}
    (isKnown : TagRule.ofName? name = some rule) (inside : place ≤ window.limit)
    (onLine : place ≤ window.last) (saved : List Nat) :
    (∃ value next, value.isRuled = true ∧
      parser name tracking (window.first.standing place saved) = .ok value next) ∨
    ∃ error text, ∃ attributes : Attributes, ∃ next,
      Prose.parser tracking (window.first.standing place saved) = .ok text next ∧
      parser name tracking (window.first.standing place saved) =
        .ok (.invalid ⟨text, error.message,
          attributes.set Attributes.errorKey (.error error)⟩) next := by
  have whole : (readWholeRule rule).Tandem window (readWholeRule rule) place _ True :=
    readWholeRule_tandem onLine
  obtain ⟨outcome, stop, -, happened, isAttempt, -⟩ :=
    whole.attempt.exists_ok inside tracking saved saved
  cases outcome with
  | ok value =>
      obtain ⟨attributes, isRead⟩ := parser_of_ok isKnown isAttempt
      exact .inl ⟨_, _, (isRuled_withAttributes attributes value).trans happened.2, isRead⟩
  | error error =>
      obtain ⟨rfl, -⟩ := happened
      obtain ⟨text, stop, -, -, isText, -⟩ :=
        (Prose.parser_tandem onLine).exists_ok inside tracking saved saved
      obtain ⟨attributes, isRead⟩ := parser_of_error isKnown isAttempt isText
      exact .inr ⟨error, text, attributes, _, isText, isRead⟩

/-- The value of a tag is always read, and reading stops where a line ends. -/
theorem parser_stops (inside : place ≤ window.limit) (onLine : place ≤ window.last)
    (saved : List Nat) : ∃ value next,
      parser name tracking (window.first.standing place saved) = .ok value next ∧
        next.current.kind ∈ [.lineBreak, .closeDoc, .finish] := by
  obtain ⟨value, stop, -, ⟨⟨-, atEnd⟩, -⟩, isValue, -⟩ :=
    (parser_tandem name onLine).exists_ok inside tracking saved saved
  exact ⟨value, _, isValue, List.mem_cons.mpr (Prose.lineEnds_contains_iff.mp atEnd)⟩

end Degrading

/-- Nothing is lost when the value of a tag cannot be read.  From every place in a text, with any
save points and any positions to record, a tag whose rule fails keeps the text that a tag without
a rule would have there, and reading stops at the same place; the error is kept, with the message
that describes it.  Whatever the name of a tag, the reading of its value succeeds and stops where
a line, the comment or the input ends. -/
theorem degraded_keeps_text (source : String) (place : Nat)
    (inside : place < (tokenize source).length) (saved : List Nat) (tracking : Tracking) :
    let cursor := (Cursor.ofTokens (tokenize source)).standing place saved
    (∀ known ∈ TagRule.table.map Prod.fst, ∀ unknown ∉ TagRule.table.map Prod.fst,
      ∀ value next, parser known tracking cursor = .ok (.invalid value) next →
        (∃ attributes,
          parser unknown tracking cursor = .ok (.generic ⟨value.value, attributes⟩) next) ∧
        ∃ error, value.attributes.get? Attributes.errorKey = some (.error error) ∧
          error.message = value.message) ∧
    ∀ name, ∃ value next, parser name tracking cursor = .ok value next ∧
      next.current.kind ∈ [.lineBreak, .closeDoc, .finish] := by
  intro cursor
  -- The window is the whole text up to its last token, with the same text on both sides.
  obtain ⟨front, last, split, isFinish⟩ := exists_last source
  have isEnd : last.kind ∈ [.closeDoc, .finish] := by simp [isFinish]
  have within : place ≤ (Window.upTo split isEnd []).limit := by
    rw [split, List.length_append, List.length_singleton] at inside
    exact Nat.le_of_lt_succ inside
  have isCursor : (Window.upTo split isEnd []).first.standing place saved = cursor := by
    show (Cursor.onTokens (front ++ [last])).standing place saved =
      (Cursor.ofTokens (tokenize source)).standing place saved
    rw [ofTokens_tokenize, split]
    rfl
  refine ⟨fun known isKnown unknown isUnknown value next isInvalid => ?_, fun name => ?_⟩
  · obtain ⟨rule, isRule⟩ : ∃ rule, TagRule.ofName? known = some rule := by
      rw [← Option.isSome_iff_exists, Option.isSome_iff_ne_none]
      exact fun isNone => (TagRule.ofName?_eq_none_iff known).mp isNone isKnown
    rcases parser_known tracking isRule within within saved with
      ⟨other, stop, isRuled, isRead⟩ | ⟨error, text, attributes, stop, isText, isRead⟩
    · rw [isCursor, isInvalid] at isRead
      cases isRead
      cases isRuled
    · rw [isCursor] at isText isRead
      rw [isInvalid] at isRead
      cases isRead
      exact ⟨parser_unknown ((TagRule.ofName?_eq_none_iff unknown).mpr isUnknown) isText,
        error, Attributes.get?_set_self _ _ _, rfl⟩
  · rw [← isCursor]
    exact parser_stops within within saved

/-- The rule for a parameter reads a type to its end on the second line before it misses the
variable. -/
theorem degraded_keeps_text_secondLine :
    let source := "/** @param array<\n *   int> and more\n * text */"
    let cursor := (Cursor.ofTokens (tokenize source)).standing 4 []
    4 < (tokenize source).length ∧ "@param" ∈ TagRule.table.map Prod.fst ∧
      "@see" ∉ TagRule.table.map Prod.fst ∧
      ∃ value next, parser "@param" .full cursor = .ok (.invalid value) next ∧
        value.value = "array<\nint> and more\ntext" ∧
        ∃ attributes,
          parser "@see" .full cursor = .ok (.generic ⟨value.value, attributes⟩) next := by
  intro source cursor
  have inside : 4 < (tokenize source).length := by decide +kernel
  have isKnown : "@param" ∈ TagRule.table.map Prod.fst := by decide
  have isUnknown : "@see" ∉ TagRule.table.map Prod.fst := by decide
  refine ⟨inside, isKnown, isUnknown, ?_⟩
  have isKept : (parser "@param" .full cursor).result.toOption.map
      (fun value => (value.isInvalid, value.print)) =
        some (true, "array<\nint> and more\ntext") := by decide +kernel
  cases read : parser "@param" .full cursor with
  | failed failure next =>
      rw [read] at isKept
      cases isKept
  | ok found next =>
      rw [read] at isKept
      cases found with
      | invalid value =>
          have isText : value.value = "array<\nint> and more\ntext" :=
            (Prod.mk.inj (Option.some.inj isKept)).2
          exact ⟨value, next, rfl, isText,
            ((degraded_keeps_text source 4 inside [] .full).1 _ isKnown _ isUnknown _ _ read).1⟩
      | _ => cases isKept

end TagValue

end Docblock
