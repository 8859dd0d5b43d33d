import Docblock.Proofs.Document.Structure

/-!
# Errors name the place where they stand

Every error names a token of the text: its byte offset is where the text of that token starts, and
its line is counted off in the text in front of it.  That holds of the errors with which reading
fails as well as of those that are kept in a tree, and also of those that were found in an attempt
that was given up.
-/

namespace Docblock

open Docblock.Parser

/-- The offset, the line and the token of an error are those of the text at that offset. -/
structure SyntaxError.Exact (source : String) (error : SyntaxError) : Prop where
  /-- The bytes from the offset on start with what was found, and the line is one more than the
  number of line feeds in front of them. -/
  located : ∃ front rest, source = front ++ error.foundValue ++ rest ∧
    front.utf8ByteSize = error.offset ∧ error.line.toNat = 1 + lineFeeds front
  /-- A token starts at the offset. -/
  starts : ∃ front token after, tokenize source = front ++ token :: after ∧
    (TokenList.text front).utf8ByteSize = error.offset
  /-- What starts at the offset is what was found. -/
  found : ∀ front token after, tokenize source = front ++ token :: after →
    (TokenList.text front).utf8ByteSize = error.offset →
      token.kind = error.foundKind ∧ token.value = error.foundValue
  /-- Only at the end of the text is the end of the input found. -/
  finish_iff : error.foundKind = .finish ↔ error.offset = source.utf8ByteSize

section Offsets

variable {source : String} {front after : List Token} {token : Token}

theorem source_eq_of_split (split : tokenize source = front ++ token :: after) :
    source = TokenList.text front ++ token.value ++ TokenList.text after := by
  have whole := text_tokenize source
  rw [split, TokenList.text_append, TokenList.text_cons, ← String.append_assoc] at whole
  exact whole.symm

theorem split_at {place : Nat} (inside : place < (tokenize source).length) :
    tokenize source = (tokenize source).take place ++
      (tokenize source)[place] :: (tokenize source).drop (place + 1) := by
  rw [← List.drop_eq_getElem_cons inside, List.take_append_drop]

/-- A later token starts at a greater offset. -/
theorem offset_lt {between : List Token} {later : Token}
    (split : tokenize source = front ++ token :: (between ++ later :: after)) :
    (TokenList.text front).utf8ByteSize <
      (TokenList.text (front ++ token :: between)).utf8ByteSize := by
  have notEmpty : token.value ≠ "" := by
    rw [Ne, value_eq_empty_iff split]
    simp
  have isPositive : token.value.utf8ByteSize ≠ 0 := by rwa [Ne, String.utf8ByteSize_eq_zero_iff]
  rw [TokenList.text_append, TokenList.text_cons, String.utf8ByteSize_append,
    String.utf8ByteSize_append]
  omega

/-- At most one token starts at an offset. -/
theorem token_eq_of_offset {front' after' : List Token} {token' : Token}
    (split : tokenize source = front ++ token :: after)
    (split' : tokenize source = front' ++ token' :: after')
    (same : (TokenList.text front').utf8ByteSize = (TokenList.text front).utf8ByteSize) :
    token' = token := by
  rcases List.append_eq_append_iff.mp (split.symm.trans split') with
    ⟨between, isFront, isRest⟩ | ⟨between, isFront, isRest⟩
  · cases between with
    | nil => exact (List.cons.inj isRest).1.symm
    | cons first between =>
        obtain ⟨rfl, rfl⟩ := List.cons.inj isRest
        have further := offset_lt split
        rw [← isFront] at further
        omega
  · cases between with
    | nil => exact (List.cons.inj isRest).1
    | cons first between =>
        obtain ⟨rfl, rfl⟩ := List.cons.inj isRest
        have further := offset_lt split'
        rw [← isFront] at further
        omega

/-- An error that names a token of a text, with the size of the text in front of it, is exact. -/
theorem SyntaxError.exact_of_split (countable : lineFeeds source < UInt32.size - 1)
    (split : tokenize source = front ++ token :: after) (expected : Expected) :
    SyntaxError.Exact source ⟨token.value, token.kind, (TokenList.text front).utf8ByteSize,
      token.line, expected⟩ where
  located := ⟨TokenList.text front, TokenList.text after, source_eq_of_split split, rfl,
    line_of_tokenize countable split⟩
  starts := ⟨front, token, after, split, rfl⟩
  found front' token' after' split' same := by
    obtain rfl := token_eq_of_offset split split' same
    exact ⟨rfl, rfl⟩
  finish_iff := by
    have isSource := congrArg String.utf8ByteSize (source_eq_of_split split)
    rw [String.utf8ByteSize_append, String.utf8ByteSize_append] at isSource
    show token.kind = .finish ↔ (TokenList.text front).utf8ByteSize = source.utf8ByteSize
    rw [kind_eq_finish_iff split]
    constructor
    · intro isLast
      rw [(value_eq_empty_iff split).mpr isLast, isLast] at isSource
      exact isSource.symm
    · intro isWhole
      rw [← value_eq_empty_iff split, ← String.utf8ByteSize_eq_zero_iff]
      omega

theorem exact_of_locates {window : Window} {error : SyntaxError}
    (countable : lineFeeds source < UInt32.size - 1)
    (isText : window.first = Cursor.onTokens (tokenize source)) (located : window.Locates error) :
    error.Exact source := by
  obtain ⟨place, within, expected, rfl⟩ := located
  have inside : place < (tokenize source).length := by
    have inFirst := window.inFirst
    rw [isText, Cursor.size_onTokens] at inFirst
    omega
  have split := split_at inside
  have isPlace : ((tokenize source).take place).length = place := List.length_take_of_le (by omega)
  have isError := Cursor.unexpected_onTokens ((tokenize source).take place) (tokenize source)[place]
    ((tokenize source).drop (place + 1)) [] expected
  rw [← split, isPlace] at isError
  rw [isText, isError]
  exact SyntaxError.exact_of_split countable split expected

end Offsets

/-- The window over a whole text. -/
theorem exists_wholeText (source : String) : ∃ window : Window,
    window.first = Cursor.onTokens (tokenize source) ∧
      window.second = Cursor.onTokens (tokenize source) ∧
      Cursor.entry (tokenize source) ≤ window.limit := by
  obtain ⟨front, last, split, isFinish⟩ := exists_last source
  have isEnd : last.kind ∈ [.closeDoc, .finish] := by simp [isFinish]
  have isText : Cursor.onTokens (front ++ [last]) = Cursor.onTokens (tokenize source) := by
    rw [split]
  refine ⟨Window.upTo split isEnd [], isText, isText, ?_⟩
  exact Cursor.entry_le split (by rw [isFinish]; decide)

/-- The error of a parser that keeps to every window is exact. -/
theorem exact_of_rejected {α : Type} {body : Parser α} {good : Window → Nat → α → Nat → Prop}
    {source : String} (countable : lineFeeds source < UInt32.size - 1)
    (tandem : ∀ (window : Window) place, body.Tandem window body place (good window place) True)
    {tracking : Tracking} {error : SyntaxError}
    (rejected : (body.run tracking (tokenize source)).result = .error (.rejected error)) :
    error.Exact source := by
  obtain ⟨window, isText, -, inside⟩ := exists_wholeText source
  rw [Parser.run, ofTokens_tokenize, ← isText] at rejected
  rcases (tandem window _ inside tracking [] []).cases with
    ⟨value, stop, -, -, isFirst, -⟩ | ⟨error', stop, -, -, located, isFirst, -⟩
  · rw [isFirst] at rejected
    cases rejected
  · rw [isFirst] at rejected
    cases rejected
    exact exact_of_locates countable isText located

section Lenient

variable {tracking : Tracking} {cursor next : Cursor}

/-- A strict reading of a text and the attempt at it agree. -/
theorem TypeExpr.attempt_cases (tracking : Tracking) (source : String) :
    (∃ type, ∃ stop < (tokenize source).length,
      toEnd TypeExpr.parser tracking (Cursor.ofTokens (tokenize source)) =
        .ok type ((Cursor.onTokens (tokenize source)).standing stop []) ∧
      attempt (toEnd TypeExpr.parser) tracking (Cursor.ofTokens (tokenize source)) =
        .ok (.ok type) ((Cursor.onTokens (tokenize source)).standing stop [])) ∨
    ∃ error back,
      toEnd TypeExpr.parser tracking (Cursor.ofTokens (tokenize source)) =
        .failed (.rejected error) back ∧
      attempt (toEnd TypeExpr.parser) tracking (Cursor.ofTokens (tokenize source)) =
        .ok (.error error) (Cursor.ofTokens (tokenize source)) := by
  obtain ⟨window, isText, isText', inside⟩ := exists_wholeText source
  have isSize : window.first.tokens.size = (tokenize source).length := by
    rw [isText, Cursor.size_onTokens]
  have tandem : (toEnd TypeExpr.parser).Tandem window (toEnd TypeExpr.parser)
      (Cursor.entry (tokenize source)) (window.Behind (Cursor.entry (tokenize source))) True :=
    .toEnd TypeExpr.parser_tandem
  have isPush : ((Cursor.onTokens (tokenize source)).standing
      (Cursor.entry (tokenize source)) []).push = (Cursor.onTokens (tokenize source)).standing
        (Cursor.entry (tokenize source)) [Cursor.entry (tokenize source)] := rfl
  rw [ofTokens_tokenize, attempt, isPush]
  -- the attempt makes the same reading behind one more save point
  rcases (tandem inside tracking [] [Cursor.entry (tokenize source)]).cases with
    ⟨type, stop, within, -, isStrict, isAttempt⟩ | ⟨error, stop, -, -, -, isStrict, isAttempt⟩
  · rw [isText] at isStrict
    rw [isText'] at isAttempt
    rw [isAttempt]
    exact .inl ⟨type, stop, isSize ▸ Nat.lt_of_le_of_lt within window.inFirst, isStrict, rfl⟩
  · rw [isText] at isStrict
    rw [isText'] at isAttempt
    rw [isAttempt]
    exact .inr ⟨error, _, isStrict, rfl⟩

theorem TypeExpr.lenientParser_of_ok {type : TypeExpr}
    (attempted : attempt (toEnd TypeExpr.parser) tracking cursor = .ok (.ok type) next) :
    TypeExpr.lenientParser tracking cursor = .ok type next := by
  show (attempt (toEnd TypeExpr.parser) >>= fun outcome => _) tracking cursor = _
  rw [bind_apply, attempted]
  rfl

theorem TypeExpr.lenientParser_of_error {error : SyntaxError}
    (attempted : attempt (toEnd TypeExpr.parser) tracking cursor = .ok (.error error) cursor) :
    ∃ attributes : Attributes, TypeExpr.lenientParser tracking cursor =
      .ok ⟨.invalid (Text.trimEnd Text.isWhiteSpace
          (TokenList.text (cursor.tokensFrom cursor.index))) error.message,
        attributes.set Attributes.errorKey (.error error)⟩ cursor.fastForward := by
  show ∃ attributes : Attributes,
    (attempt (toEnd TypeExpr.parser) >>= fun outcome => _) tracking cursor = _
  rw [bind_apply, attempted]
  exact ⟨_, rfl⟩

end Lenient

/-- Reading a text as a type leniently gives the type or keeps the error. -/
theorem lenient_cases (tracking : Tracking) (source : String) :
    (∃ type, TypeExpr.ofTokens tracking (tokenize source) = .ok type ∧
      TypeExpr.ofTokensLenient tracking (tokenize source) = .ok type) ∨
    ∃ error type, TypeExpr.ofTokens tracking (tokenize source) = .error (.rejected error) ∧
      TypeExpr.ofTokensLenient tracking (tokenize source) = .ok type ∧
      type.attributes.get? Attributes.errorKey = some (.error error) := by
  rw [TypeExpr.ofTokens, TypeExpr.ofTokensLenient, Parser.run, Parser.run]
  rcases TypeExpr.attempt_cases tracking source with
    ⟨type, stop, -, isStrict, attempted⟩ | ⟨error, back, isStrict, attempted⟩
  · rw [isStrict, TypeExpr.lenientParser_of_ok attempted]
    exact .inl ⟨type, rfl, rfl⟩
  · obtain ⟨attributes, isLenient⟩ := TypeExpr.lenientParser_of_error attempted
    rw [isStrict, isLenient]
    exact .inr ⟨error, _, rfl, rfl, Attributes.get?_set_self _ _ _⟩

theorem exact_of_rejected_document {source : String}
    (countable : lineFeeds source < UInt32.size - 1) {tracking : Tracking} {error : SyntaxError}
    (rejected : Document.ofTokens tracking (tokenize source) = .error (.rejected error)) :
    error.Exact source := by
  rw [Document.ofTokens] at rejected
  obtain ⟨-, -, _, _, _, _, _, -, -, -, isRun, -⟩ | ⟨-, _, _, _, _, split, -, isRun⟩ |
    ⟨-, -, _, _, _, split, -, isRun⟩ := Document.run_cases tracking source
  · rw [isRun] at rejected
    cases rejected
  · rw [isRun] at rejected
    cases rejected
    exact SyntaxError.exact_of_split countable split _
  · rw [isRun] at rejected
    cases rejected
    exact SyntaxError.exact_of_split countable split _

theorem exact_of_invalid {source : String} (countable : lineFeeds source < UInt32.size - 1)
    {tracking : Tracking} {document : Document}
    (accepted : Document.ofTokens tracking (tokenize source) = .ok document) {node : TagNode}
    (isTag : node ∈ document.tags) {value : InvalidTag} (isInvalid : node.value = .invalid value) :
    ∃ error, value.attributes.get? Attributes.errorKey = some (.error error) ∧
      value.message = error.message ∧ error.Exact source := by
  obtain ⟨window, cursor, isText, whole, -, isOpen, inside, isRun⟩ :=
    Document.exists_window accepted
  have fits := Document.fits_of_accepted whole isOpen (Nat.le_of_lt inside) isRun node isTag
  rw [isInvalid] at fits
  obtain ⟨-, error, located, isMessage, isKept⟩ := fits
  exact ⟨error, isKept, isMessage, exact_of_locates countable isText located⟩

/-- Every error is exact: those with which the reading of a type, a constant or a comment fails,
the one that is kept with the value of a tag that could not be read, and the one that is kept when
a text is no type and is read leniently. -/
theorem errors_exact (source : String) (countable : lineFeeds source < UInt32.size - 1)
    (tracking : Tracking) :
    (∀ error, TypeExpr.ofTokens tracking (tokenize source) = .error (.rejected error) →
      error.Exact source) ∧
    (∀ error, ConstExpr.ofTokens tracking (tokenize source) = .error (.rejected error) →
      error.Exact source) ∧
    (∀ error, Document.ofTokens tracking (tokenize source) = .error (.rejected error) →
      error.Exact source) ∧
    (∀ document, Document.ofTokens tracking (tokenize source) = .ok document →
      ∀ node ∈ document.tags, ∀ value, node.value = .invalid value →
        ∃ error, value.attributes.get? Attributes.errorKey = some (.error error) ∧
          value.message = error.message ∧ error.Exact source) ∧
    ((∃ type, TypeExpr.ofTokens tracking (tokenize source) = .ok type ∧
        TypeExpr.ofTokensLenient tracking (tokenize source) = .ok type) ∨
      ∃ error type, TypeExpr.ofTokens tracking (tokenize source) = .error (.rejected error) ∧
        TypeExpr.ofTokensLenient tracking (tokenize source) = .ok type ∧
        type.attributes.get? Attributes.errorKey = some (.error error) ∧ error.Exact source) := by
  have ofType (error : SyntaxError)
      (rejected : TypeExpr.ofTokens tracking (tokenize source) = .error (.rejected error)) :
      error.Exact source :=
    exact_of_rejected countable (fun _ _ => .toEnd TypeExpr.parser_tandem) rejected
  have ofConstant (error : SyntaxError)
      (rejected : ConstExpr.ofTokens tracking (tokenize source) = .error (.rejected error)) :
      error.Exact source :=
    exact_of_rejected countable (fun _ _ => .toEnd ConstExpr.parser_tandem) rejected
  refine ⟨ofType, ofConstant, fun _ => exact_of_rejected_document countable, ?_, ?_⟩
  · intro document accepted node isTag value isInvalid
    exact exact_of_invalid countable accepted isTag isInvalid
  · rcases lenient_cases tracking source with isType | ⟨error, type, rejected, isLenient, isKept⟩
    · exact .inl isType
    · exact .inr ⟨error, type, rejected, isLenient, isKept, ofType error rejected⟩

/-- An error on the second line of a text, behind a letter of two bytes. -/
theorem errors_exact_secondLine :
    let source := "É<\n|>"
    let error : SyntaxError := ⟨"|", .union, 4, 2, ⟨.identifier, none⟩⟩
    lineFeeds source < UInt32.size - 1 ∧
      TypeExpr.ofTokens .off (tokenize source) = .error (.rejected error) ∧
      error.Exact source := by
  intro source error
  have countable : lineFeeds source < UInt32.size - 1 := by decide +kernel
  have isRejected : (match TypeExpr.ofTokens .off (tokenize source) with
      | .ok _ => none
      | .error failure => some failure) = some (.rejected error) := by decide +kernel
  split at isRejected
  · cases isRejected
  · next failure rejected =>
      rw [Option.some.inj isRejected] at rejected
      exact ⟨countable, rejected, (errors_exact source countable .off).1 error rejected⟩

end Docblock
