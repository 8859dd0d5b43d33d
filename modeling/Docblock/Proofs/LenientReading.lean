import Docblock.Proofs.ErrorPositions
import Docblock.Proofs.NodePositions
import Mathlib.Data.List.DropRight

/-!
# Lenient reading agrees with strict reading

A text is read leniently by an attempt to read it strictly.  The attempt makes the same reading
behind one more save point, which no rule can tell, so it finds the same type or the same error.
In the second case the text is kept as it stands: reading is back at the start, and the tokens from
there on are the whole text but for the blanks in front, since a blank takes all the blanks that
follow it.
-/

namespace Docblock

open Docblock.Parser

section Raw

variable {source : String} {char : Char} {rest : List Char}

/-- The first token of a text. -/
theorem exists_tokenize_cons (isText : source.toList = char :: rest) : ∃ others,
    tokenize source = ⟨(Lexeme.first char rest).kind,
      String.ofList (char :: rest.take (Lexeme.first char rest).extra), 1⟩ :: others := by
  obtain ⟨line, isTokenized⟩ := exists_tokenize_eq source
  rw [isTokenized, scan, isText]
  exact ⟨_, rfl⟩

/-- Where reading starts, the text goes on behind the blanks in front. -/
theorem text_drop_entry (source : String) :
    (TokenList.text ((tokenize source).drop (Cursor.entry (tokenize source)))).toList =
      source.toList.dropWhile Text.isBlank := by
  cases isText : source.toList with
  | nil =>
      obtain ⟨line, isTokenized⟩ := exists_tokenize_eq source
      rw [isTokenized, isText]
      rfl
  | cons char rest =>
      obtain ⟨others, isTokenized⟩ := exists_tokenize_cons isText
      cases blank : Text.isBlank char with
      | true =>
          -- One token has all the blanks in front, so the text of the others starts behind them.
          have whole := congrArg String.toList (text_tokenize source)
          rw [Lexeme.first_blank blank] at isTokenized
          rw [isTokenized, TokenList.text_cons, String.toList_append, String.toList_ofList, isText,
            List.cons_append, List.cons.injEq] at whole
          have isRest : (TokenList.text others).toList = rest.dropWhile Text.isBlank := by
            rw [← Lexeme.drop_runLength]
            exact List.append_cancel_left (whole.2.trans (List.take_append_drop _ rest).symm)
          rw [isTokenized, List.dropWhile_cons_of_pos blank]
          exact isRest
      | false =>
          have notBlank : (Lexeme.first char rest).kind ≠ .blank := by
            intro isBlank
            rw [Lexeme.kind_first_eq_blank isBlank] at blank
            cases blank
          have isEntry : Cursor.entry (tokenize source) = 0 := by
            rw [isTokenized, Cursor.entry]
            exact if_neg (by simpa using notBlank)
          rw [isEntry, List.drop_zero, text_tokenize, isText,
            List.dropWhile_cons_of_neg (by simp [blank])]

end Raw

section Readings

variable {tracking : Tracking} {cursor next : Cursor}

/-- What has been read to the end stops there. -/
theorem Parser.toEnd_ok {α : Type} {body : Parser α} {value : α}
    (read : toEnd body tracking cursor = .ok value next) :
    body tracking cursor = .ok value next ∧ next.current.kind = .finish := by
  rw [toEnd, bind_apply] at read
  cases isBody : body tracking cursor with
  | failed failure stop =>
      rw [isBody] at read
      cases read
  | ok found stop =>
      rw [isBody] at read
      simp only [expectFinish, isAt, look, bind_apply] at read
      cases isFinish : stop.isAt .finish with
      | true =>
          rw [isFinish] at read
          cases read
          exact ⟨rfl, of_decide_eq_true isFinish⟩
      | false =>
          rw [isFinish] at read
          cases read

/-- A type that has been read carries no error. -/
theorem TypeExpr.get?_errorKey_of_ok {tokens : List Token} {type : TypeExpr}
    (read : TypeExpr.parser tracking (Cursor.ofTokens tokens) = .ok type next) :
    type.attributes.get? Attributes.errorKey = none := by
  let course := Course.ofTokens tracking tokens
  have inside : (Cursor.ofTokens tokens).index ≤ course.size := by
    have notEmpty := List.length_pos_iff.mpr (TokenList.sealed_ne_nil tokens)
    have isIndex : (Cursor.ofTokens tokens).index ≤ 1 := by
      rw [Cursor.ofTokens]
      dsimp only
      split <;> omega
    exact Nat.le_trans isIndex notEmpty
  have onward := @TypeExpr.parser_onward course (Cursor.ofTokens tokens).index inside []
  -- The attributes of the root are its positions and nothing else.
  have reads : course.Reads TypeExpr.outline _ type _ := onward.good_of_ok read
  obtain ⟨first, last, -, -, occupies⟩ := reads.row.of_mem (List.mem_singleton_self _)
  have isRoot : type.outline.attributes = type.attributes := by
    cases type
    rfl
  rw [← isRoot, occupies.attributes_eq, course.get?_errorKey]

end Readings

/-- The only token of a text that ends the input is the last one. -/
theorem succ_eq_length_of_finish {source : String} {stop : Nat}
    (inside : stop < (tokenize source).length)
    (isFinish : ((Cursor.onTokens (tokenize source)).tokenAt stop).kind = .finish) :
    stop + 1 = (tokenize source).length := by
  rw [Cursor.tokenAt_onTokens, List.getElem?_eq_getElem inside, Option.getD_some,
    kind_eq_finish_iff (split_at inside), List.drop_eq_nil_iff] at isFinish
  omega

theorem fastForward_ofTokens_tokenize {source : String} {front : List Token} {last : Token}
    (split : tokenize source = front ++ [last]) :
    (Cursor.ofTokens (tokenize source)).fastForward =
      (Cursor.onTokens (front ++ [last])).standing front.length [] := by
  have isLast : (Cursor.onTokens (front ++ [last])).tokens.size - 1 = front.length := by
    rw [Cursor.size_onTokens, List.length_append, List.length_singleton, Nat.add_sub_cancel]
  rw [ofTokens_tokenize, split, ← isLast]
  rfl

/-- Lenient and strict reading agree.  Of every text, a lenient reading gives the type that a
strict one gives, which carries no error, or it keeps the error with which a strict one fails: its
message, the error itself, and the text without the blanks in front and the white space behind.
In either case reading stops at the end of the text, and no save point is left. -/
theorem lenient_agrees (tracking : Tracking) (source : String) :
    ∃ type cursor, TypeExpr.lenientParser.run tracking (tokenize source) = .ok type cursor ∧
      (TypeExpr.ofTokens tracking (tokenize source) = .ok type ∧
          type.attributes.get? Attributes.errorKey = none ∨
        ∃ error, TypeExpr.ofTokens tracking (tokenize source) = .error (.rejected error) ∧
          type.form = .invalid (String.ofList
            ((source.toList.dropWhile Text.isBlank).rdropWhile Text.isWhiteSpace)) error.message ∧
          type.attributes.get? Attributes.errorKey = some (.error error)) ∧
      cursor.index + 1 = (tokenize source).length ∧ cursor.current.kind = .finish ∧
      cursor.savePoints = [] := by
  rw [TypeExpr.ofTokens, Parser.run, Parser.run]
  rcases TypeExpr.attempt_cases tracking source with
    ⟨type, stop, inside, isStrict, attempted⟩ | ⟨error, back, isStrict, attempted⟩
  · obtain ⟨read, isFinish⟩ := toEnd_ok isStrict
    refine ⟨type, _, TypeExpr.lenientParser_of_ok attempted, .inl ⟨?_, ?_⟩,
      succ_eq_length_of_finish inside isFinish, isFinish, rfl⟩
    · rw [isStrict]
      rfl
    · exact TypeExpr.get?_errorKey_of_ok read
  · obtain ⟨front, last, split, isFinish⟩ := exists_last source
    obtain ⟨attributes, isLenient⟩ := TypeExpr.lenientParser_of_error attempted
    rw [fastForward_ofTokens_tokenize split] at isLenient
    refine ⟨_, _, isLenient, .inr ⟨error, ?_, ?_, Attributes.get?_set_self _ _ _⟩, ?_, ?_, rfl⟩
    · rw [isStrict]
      rfl
    · rw [ofTokens_tokenize, Cursor.tokensFrom_onTokens, ← text_drop_entry]
      rfl
    · rw [split, List.length_append, List.length_singleton]
      rfl
    · rw [← isFinish]
      exact congrArg Token.kind (Cursor.tokenAt_onTokens_append front last [])

end Docblock
