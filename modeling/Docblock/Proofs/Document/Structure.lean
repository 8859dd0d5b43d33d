import Docblock.Parse
import Docblock.Proofs.Document.Confinement
import Docblock.Proofs.Windows

/-!
# Comments fail for their structure only

A comment is accepted exactly if it starts with its opening marker and has a close marker.  What
stands between the two decides about the tree but never about acceptance, and what stands behind
the close marker does not matter at all.
-/

namespace Docblock

open Docblock.Parser

/-- The tokens behind one leading blank. -/
def TokenList.behindBlank : List Token → List Token
  | [] => []
  | token :: rest => if token.kind = .blank then rest else token :: rest

/-- Whether the tokens start with the opening marker of a comment. -/
def TokenList.isOpened (tokens : List Token) : Bool := tokens.head?.any (·.kind = .openDoc)

/-- Whether there is a close marker among the tokens. -/
def TokenList.isClosed (tokens : List Token) : Bool := tokens.any (·.kind = .closeDoc)

theorem Parser.consume_apply (kind : TokenKind) (tracking : Tracking) (cursor : Cursor) :
    consume kind tracking cursor =
      if cursor.isAt kind then .ok cursor.current.value cursor.advance
      else .failed (.rejected (cursor.unexpected ⟨kind, none⟩)) cursor := by
  unfold consume Cursor.consume
  cases cursor.isAt kind <;> rfl

/-- One step behind a solid token, that token is the last relevant one. -/
theorem Cursor.lastRelevant_next (cursor : Cursor) {place : Nat} (saved : List Nat)
    (inside : place + 1 < cursor.tokens.size)
    (solid : (cursor.tokenAt place).kind.isTrivia = false) :
    (cursor.standing (cursor.next place) saved).lastRelevant = place := by
  have atPlace : cursor.lastSolid place = place := by
    cases place with
    | zero => rfl
    | succ place => rw [lastSolid, solid, if_neg Bool.false_ne_true]
  rw [lastRelevant, lastSolid_standing]
  show cursor.lastSolid (cursor.next place - 1) = place
  rw [next, if_neg (by omega)]
  split
  · next passed =>
      have isTrivia : (cursor.tokenAt (place + 1)).kind.isTrivia = true := by
        rw [passed.1]
        rfl
      rw [show place + 2 - 1 = place + 1 by omega, lastSolid, if_pos isTrivia, atPlace]
  · rw [Nat.add_sub_cancel, atPlace]

/-- The window reaches to the first token that can end a comment. -/
structure Window.Whole (window : Window) : Prop where
  last_eq : window.last = window.limit
  free : ∀ place < window.limit, window.kind place ∉ [.closeDoc, .finish]

theorem Window.Whole.eq_limit {window : Window} {place : Nat} (whole : window.Whole)
    (inside : place ≤ window.limit) (isEnd : window.kind place ∈ [.closeDoc, .finish]) :
    place = window.limit := by
  by_contra notLimit
  exact whole.free place (Nat.lt_of_le_of_ne inside notLimit) isEnd

namespace Document

variable {window : Window} {opening : Nat} {tracking : Tracking} {saved saved' : List Nat}

theorem parser_of_readBody {cursor next : Cursor} {children : List Child}
    (read : readBody tracking cursor = .ok children next) :
    parser tracking cursor = readClose children cursor.index tracking next := by
  show (readBody >>= fun children => readClose children cursor.index) tracking cursor = _
  rw [bind_apply, read]

/-- The body of a comment reaches to the limit of its window. -/
theorem readBody_reaches (whole : window.Whole) (isOpen : window.kind opening = .openDoc) :
    readBody.Tandem window readBody opening (fun _ stop => window.limit = stop) False := by
  have each (here : Nat) (_ : window.StartsLine opening here) :
      readChild.Tandem window readChild here
        (fun child stop => window.AtLineEnd here child stop ∧ True) False := by
    have closed := whole.last_eq
    refine .inside fun inside => (readChild_tandem (by omega)).mono ?_ id
    rintro child stop ⟨reached, -⟩
    exact ⟨reached, trivial⟩
  have reaches : readBody.Tandem window readBody opening
      (fun _ stop => opening < stop ∧ window.kind stop ∈ [.closeDoc, .finish] ∧ True) False :=
    readBody_tandem (fun _ _ _ => True) (fun _ _ => True) isOpen trivial each
      (fun _ _ _ _ _ _ => trivial) fun _ _ _ _ _ => trivial
  refine reaches.imp ?_ id
  rintro children stop stopInside ⟨-, isEnd, -⟩
  exact (whole.eq_limit stopInside isEnd).symm

/-- Behind the close marker both lists give the same comment, whatever follows there. -/
theorem readClose_same {children : List Child} {start : Nat}
    (isClose : window.kind window.limit = .closeDoc) (started : start ≤ window.limit)
    (more : window.limit + 1 < window.first.tokens.size)
    (more' : window.limit + 1 < window.second.tokens.size) :
    ∃ document,
      readClose children start tracking (window.first.standing window.limit saved) =
        .ok document (window.first.standing (window.first.next window.limit) saved) ∧
      readClose children start tracking (window.second.standing window.limit saved') =
        .ok document (window.second.standing (window.second.next window.limit) saved') := by
  have isClose' : (window.second.tokenAt window.limit).kind = .closeDoc := by
    rw [← window.tokens window.limit (Nat.le_refl _)]
    exact isClose
  have read (cursor : Cursor) (saved : List Nat)
      (isClose : (cursor.tokenAt window.limit).kind = .closeDoc) :
      readClose children start tracking (cursor.standing window.limit saved) =
        (positionsSince start >>= fun attributes => pure ⟨children, attributes⟩) tracking
          (cursor.standing (cursor.next window.limit) saved) := by
    have isAt : (cursor.standing window.limit saved).isAt .closeDoc = true := decide_eq_true isClose
    rw [readClose, bind_apply, consume_apply, if_pos isAt, Cursor.advance_standing]
  have isRelevant := window.first.lastRelevant_next saved more
    (by rw [show (window.first.tokenAt window.limit).kind = .closeDoc from isClose]; rfl)
  have isRelevant' := window.second.lastRelevant_next saved' more' (by rw [isClose']; rfl)
  rw [read _ _ isClose, read _ _ isClose', bind_apply, bind_apply, positionsSince, positionsSince,
    isRelevant, isRelevant']
  have sameLine {index : Nat} (within : index ≤ window.limit) :
      (window.second.standing (window.second.next window.limit) saved').lineAt index =
        (window.first.standing (window.first.next window.limit) saved).lineAt index :=
    window.lineAt_same within
  rw [sameLine started, sameLine (Nat.le_refl _)]
  exact ⟨_, rfl, rfl⟩

/-- A comment with a close marker is accepted, whatever follows the marker, and the cursor stops
behind it. -/
theorem parser_closed {first second : Cursor} {limit : Nat} (isFirst : window.first = first)
    (isSecond : window.second = second) (isLimit : window.limit = limit) (whole : window.Whole)
    (isOpen : (first.tokenAt opening).kind = .openDoc) (inside : opening ≤ limit)
    (isClose : (first.tokenAt limit).kind = .closeDoc) (more : limit + 1 < first.tokens.size)
    (more' : limit + 1 < second.tokens.size) :
    ∃ document,
      parser tracking (first.standing opening saved) =
        .ok document (first.standing (first.next limit) saved) ∧
      parser tracking (second.standing opening saved') =
        .ok document (second.standing (second.next limit) saved') := by
  subst isFirst isSecond isLimit
  obtain ⟨children, _, -, rfl, isFirst, isSecond⟩ :=
    (readBody_reaches whole isOpen).exists_ok inside tracking saved saved'
  rw [parser_of_readBody isFirst, parser_of_readBody isSecond]
  exact readClose_same isClose inside more more'

/-- A comment without a close marker is rejected at the end of the input. -/
theorem parser_unclosed {first : Cursor} {limit : Nat} (isFirst : window.first = first)
    (isLimit : window.limit = limit) (whole : window.Whole)
    (isOpen : (first.tokenAt opening).kind = .openDoc) (inside : opening ≤ limit)
    (isFinish : (first.tokenAt limit).kind = .finish) :
    parser tracking (first.standing opening saved) =
      .failed (.rejected ((first.standing limit saved).unexpected ⟨.closeDoc, none⟩))
        (first.standing limit saved) := by
  subst isFirst isLimit
  obtain ⟨children, _, -, rfl, isFirst, -⟩ :=
    (readBody_reaches whole isOpen).exists_ok inside tracking saved saved
  have notClose : ¬(window.first.standing window.limit saved).isAt .closeDoc = true := by
    show ¬decide ((window.first.tokenAt window.limit).kind = .closeDoc) = true
    rw [isFinish]
    decide
  rw [parser_of_readBody isFirst, readClose, bind_apply, consume_apply, if_neg notClose]

/-- What does not start with the opening marker is rejected right there. -/
theorem parser_unopened {cursor : Cursor} (notOpen : cursor.current.kind ≠ .openDoc) :
    parser tracking cursor =
      .failed (.rejected (cursor.unexpected ⟨.openDoc, none⟩)) cursor := by
  have notAt : ¬cursor.isAt .openDoc = true := by simpa [Cursor.isAt] using notOpen
  have isBody : readBody tracking cursor =
      .failed (.rejected (cursor.unexpected ⟨.openDoc, none⟩)) cursor := by
    rw [readBody, bind_apply, consume_apply, if_neg notAt]
  show (readBody >>= fun children => readClose children cursor.index) tracking cursor = _
  rw [bind_apply, isBody]

theorem children_of_readClose {children : List Child} {start : Nat} {cursor next : Cursor}
    {document : Document} (read : readClose children start tracking cursor = .ok document next) :
    document.children = children := by
  rw [readClose, bind_apply, consume_apply] at read
  split at read
  · next closed =>
      split at closed
      · cases closed
        cases read
        rfl
      · cases closed
  · cases read

/-- What the reading of the body gives reaches to the close marker. -/
theorem children_of_accepted {document : Document} {cursor : Cursor}
    {good : List Child → Nat → Prop} (whole : window.Whole) (inside : opening ≤ window.limit)
    (accepted : parser tracking (window.first.standing opening saved) = .ok document cursor)
    (tandem : readBody.Tandem window readBody opening (fun children stop =>
      opening < stop ∧ window.kind stop ∈ [.closeDoc, .finish] ∧ good children stop) False) :
    good document.children window.limit := by
  obtain ⟨children, stop, stopInside, ⟨-, isEnd, isGood⟩, isFirst, -⟩ :=
    tandem.exists_ok inside tracking saved saved
  rw [parser_of_readBody isFirst] at accepted
  rw [children_of_readClose accepted, ← whole.eq_limit stopInside isEnd]
  exact isGood

/-- What the children of a comment cover together reaches to the close marker. -/
theorem covers_of_accepted {document : Document} {cursor : Cursor}
    (one : Nat → Child → Nat → Prop) (covers : List Child → Nat → Prop) (whole : window.Whole)
    (isOpen : window.kind opening = .openDoc) (inside : opening ≤ window.limit)
    (accepted : parser tracking (window.first.standing opening saved) = .ok document cursor)
    (none : covers [] (window.first.next opening))
    (each : ∀ here, window.StartsLine opening here → readChild.Tandem window readChild here
      (fun child stop => window.AtLineEnd here child stop ∧ one here child stop) False)
    (more : ∀ children here child stop, covers children here → one here child stop →
      covers (children ++ [child]) stop)
    (onward : ∀ children here, covers children here → here < window.limit →
      window.kind here = .lineBreak → covers children (window.first.next here)) :
    covers document.children window.limit :=
  children_of_accepted whole inside accepted
    (readBody_tandem one covers isOpen none each more onward)

/-- The values of the tags of a comment fit their names. -/
theorem fits_of_accepted {document : Document} {cursor : Cursor} (whole : window.Whole)
    (isOpen : window.kind opening = .openDoc) (inside : opening ≤ window.limit)
    (accepted : parser tracking (window.first.standing opening saved) = .ok document cursor) :
    ∀ node ∈ document.tags, node.value.Fits window node.name := by
  refine covers_of_accepted (fun _ child _ => ∀ node ∈ child.tag?, node.value.Fits window node.name)
    (fun children _ => ∀ node ∈ children.filterMap Child.tag?, node.value.Fits window node.name)
    whole isOpen inside accepted (by simp) ?_ ?_ ?_
  · intro here _
    have closed := whole.last_eq
    refine .inside fun inside => (readChild_tandem (by omega)).mono ?_ id
    rintro (text | node) stop ⟨reached, fits⟩
    · exact ⟨reached, by simp [Child.tag?]⟩
    · exact ⟨reached, by simpa [Child.tag?] using fits.2.2⟩
  · intro children here child stop covered isOne node isMember
    rw [List.filterMap_append, List.mem_append] at isMember
    rcases isMember with isEarlier | isLast
    · exact covered node isEarlier
    · exact isOne node (by simpa using isLast)
  · intro children here covered _ _
    exact covered

section Texts

variable {source : String} {front after : List Token} {close : Token}

theorem whole_upTo (split : tokenize source = front ++ close :: after)
    (isEnd : close.kind ∈ [.closeDoc, .finish]) (first : ∀ token ∈ front, token.kind ≠ .closeDoc)
    (after' : List Token) : (Window.upTo split isEnd after').Whole where
  last_eq := rfl
  free := by
    intro place (before : place < front.length)
    have isToken : (Window.upTo split isEnd after').token place = front[place] := by
      show (Cursor.onTokens (front ++ close :: after)).tokenAt place = _
      rw [Cursor.tokenAt_onTokens, List.getElem?_append_left before,
        List.getElem?_eq_getElem before]
      rfl
    have isMember : front[place] ∈ front := List.getElem_mem before
    have notFinish : front[place].kind ≠ .finish := by
      obtain ⟨earlier, later, isFront⟩ := List.append_of_mem isMember
      rw [isFront, List.append_assoc, List.cons_append] at split
      rw [Ne, kind_eq_finish_iff split]
      simp
    rw [Window.kind, isToken]
    simp only [List.mem_cons, List.not_mem_nil, or_false, not_or]
    exact ⟨first _ isMember, notFinish⟩

/-- Where the reading of a text starts there is a token, with at most a blank in front of it. -/
theorem exists_entry (source : String) :
    ∃ lead found rest, tokenize source = lead ++ found :: rest ∧
      lead.length = Cursor.entry (tokenize source) ∧ (∀ token ∈ lead, token.kind = .blank) ∧
      TokenList.behindBlank (tokenize source) = found :: rest := by
  obtain ⟨token, rest, isCons⟩ : ∃ token rest, tokenize source = token :: rest := by
    rw [← sealed_tokenize]
    exact List.exists_cons_of_ne_nil (TokenList.sealed_ne_nil _)
  by_cases isBlank : token.kind = .blank
  · have notFinish : token.kind ≠ .finish := by
      rw [isBlank]
      decide
    have split : tokenize source = [] ++ token :: rest := isCons
    have notLast : rest ≠ [] := fun isLast => notFinish ((kind_eq_finish_iff split).mpr isLast)
    obtain ⟨found, others, rfl⟩ := List.exists_cons_of_ne_nil notLast
    refine ⟨[token], found, others, isCons, ?_, ?_, ?_⟩
    · simp [isCons, Cursor.entry, isBlank]
    · simpa using isBlank
    · simp [isCons, TokenList.behindBlank, isBlank]
  · refine ⟨[], token, rest, isCons, ?_, ?_, ?_⟩
    · simp [isCons, Cursor.entry, isBlank]
    · simp
    · simp [isCons, TokenList.behindBlank, isBlank]

/-- A step from a token of a text leads behind it and one blank. -/
theorem drop_next (split : tokenize source = front ++ close :: after) (more : after ≠ []) :
    (tokenize source).drop ((Cursor.onTokens (tokenize source)).next front.length) =
      TokenList.behindBlank after := by
  obtain ⟨token, rest, rfl⟩ := List.exists_cons_of_ne_nil more
  have split' : tokenize source = (front ++ [close]) ++ token :: rest := by
    rw [split, List.append_assoc]
    rfl
  have isNext : (Cursor.onTokens (tokenize source)).tokenAt (front.length + 1) = token := by
    rw [Cursor.tokenAt_onTokens, split']
    simp
  have room :
      ((Cursor.onTokens (tokenize source)).tokenAt (front.length + 1)).kind = .blank →
        front.length + 2 < (Cursor.onTokens (tokenize source)).tokens.size := by
    intro isBlank
    have notLast : rest ≠ [] := by
      rw [isNext] at isBlank
      rw [Ne, ← kind_eq_finish_iff split', isBlank]
      decide
    rw [Cursor.size_onTokens, split']
    simpa using List.length_pos_iff.mpr notLast
  have inside : front.length + 1 < (Cursor.onTokens (tokenize source)).tokens.size := by
    rw [Cursor.size_onTokens, split']
    simp
  rw [Cursor.next_of_room _ inside room, isNext, split', TokenList.behindBlank]
  split
  · simp
  · simp

/-- A text with both markers is accepted, and every list of tokens that starts with the same
tokens up to the first close marker gives the same tree. -/
theorem run_closed (tracking : Tracking) (split : tokenize source = front ++ close :: after)
    (isClose : close.kind = .closeDoc) (first : ∀ token ∈ front, token.kind ≠ .closeDoc)
    (isEntry : Cursor.entry (tokenize source) = opening) (inside : opening ≤ front.length)
    (isOpen : ((Cursor.onTokens (tokenize source)).tokenAt opening).kind = .openDoc) :
    ∃ document,
      parser.run tracking (tokenize source) =
        .ok document ((Cursor.onTokens (tokenize source)).standing
          ((Cursor.onTokens (tokenize source)).next front.length) []) ∧
      ∀ others, ofTokens tracking (front ++ close :: others) = .ok document := by
  have isEnd : close.kind ∈ [.closeDoc, .finish] := by simp [isClose]
  have notFinish : close.kind ≠ .finish := by
    rw [isClose]
    decide
  rw [Parser.run, ofTokens_tokenize, isEntry]
  rw [split] at isEntry isOpen ⊢
  have both (next : Token) (others : List Token) : ∃ document,
      parser tracking ((Cursor.onTokens (front ++ close :: after)).standing opening []) =
        .ok document ((Cursor.onTokens (front ++ close :: after)).standing
          ((Cursor.onTokens (front ++ close :: after)).next front.length) []) ∧
      parser tracking ((Cursor.onTokens (front ++ close :: next :: others)).standing opening []) =
        .ok document ((Cursor.onTokens (front ++ close :: next :: others)).standing
          ((Cursor.onTokens (front ++ close :: next :: others)).next front.length) []) := by
    refine parser_closed rfl rfl rfl (whole_upTo split isEnd first (next :: others)) isOpen inside
      ?_ ?_ ?_
    · rw [Cursor.tokenAt_onTokens_append, isClose]
    · rw [Cursor.size_onTokens]
      simpa using List.length_pos_iff.mpr (ne_nil_of_closeDoc split isClose)
    · rw [Cursor.size_onTokens]
      simp
  obtain ⟨document, accepted, -⟩ := both close []
  refine ⟨document, accepted, fun others => ?_⟩
  obtain ⟨next, others', isSealed⟩ := TokenList.exists_sealed_cons notFinish others
  obtain ⟨document', accepted', isSame⟩ := both next others'
  obtain rfl : document = document' := by
    rw [accepted] at accepted'
    exact (Reply.ok.inj accepted').1
  rw [ofTokens, Parser.run, Cursor.ofTokens_eq,
    TokenList.sealed_append front (List.cons_ne_nil close others), isSealed,
    Cursor.entry_append front close after, isEntry, isSame]
  rfl

/-- A text without a close marker is rejected at its end. -/
theorem run_unclosed (tracking : Tracking)
    (unclosed : ∀ token ∈ tokenize source, token.kind ≠ .closeDoc)
    (isEntry : Cursor.entry (tokenize source) = opening)
    (isOpen : ((Cursor.onTokens (tokenize source)).tokenAt opening).kind = .openDoc) :
    ∃ front last, tokenize source = front ++ [last] ∧ last.kind = .finish ∧
      parser.run tracking (tokenize source) =
        .failed (.rejected ⟨last.value, last.kind, (TokenList.text front).utf8ByteSize, last.line,
          ⟨.closeDoc, none⟩⟩) ((Cursor.onTokens (tokenize source)).standing front.length []) := by
  obtain ⟨front, last, split, isFinish⟩ := exists_last source
  refine ⟨front, last, split, isFinish, ?_⟩
  have inside : opening ≤ front.length := by
    rw [← isEntry]
    exact Cursor.entry_le split (by rw [isFinish]; decide)
  have isEnd : last.kind ∈ [.closeDoc, .finish] := by simp [isFinish]
  rw [Parser.run, ofTokens_tokenize, isEntry]
  rw [split] at isOpen unclosed ⊢
  have whole := whole_upTo split isEnd
    (fun token isMember => unclosed token (List.mem_append_left _ isMember)) []
  have isLimit : ((Cursor.onTokens (front ++ [last])).tokenAt front.length).kind = .finish := by
    rw [Cursor.tokenAt_onTokens_append, isFinish]
  rw [← Cursor.unexpected_onTokens front last [] []]
  exact parser_unclosed rfl rfl whole isOpen inside isLimit

theorem isOpened_behindBlank (source : String) :
    TokenList.isOpened (TokenList.behindBlank (tokenize source)) =
      decide (((Cursor.onTokens (tokenize source)).tokenAt (Cursor.entry (tokenize source))).kind =
        .openDoc) := by
  obtain ⟨lead, found, rest, isLed, isLead, -, isBehind⟩ := exists_entry source
  rw [isBehind, ← isLead, isLed, Cursor.tokenAt_onTokens_append]
  rfl

theorem isClosed_behindBlank (source : String) :
    TokenList.isClosed (TokenList.behindBlank (tokenize source)) =
      (tokenize source).any (·.kind = .closeDoc) := by
  obtain ⟨lead, found, rest, isLed, -, blanks, isBehind⟩ := exists_entry source
  have notClose : lead.any (·.kind = .closeDoc) = false := by
    rw [List.any_eq_false]
    intro token isMember
    simp [blanks token isMember]
  rw [isBehind, isLed, List.any_append, notClose, Bool.false_or, TokenList.isClosed]

/-- The three outcomes of reading a comment. -/
theorem run_cases (tracking : Tracking) (source : String) :
    let tokens := TokenList.behindBlank (tokenize source)
    (TokenList.isOpened tokens = true ∧ TokenList.isClosed tokens = true ∧
      ∃ front close after document cursor, tokenize source = front ++ close :: after ∧
        close.kind = .closeDoc ∧ (∀ token ∈ front, token.kind ≠ .closeDoc) ∧
        parser.run tracking (tokenize source) = .ok document cursor ∧
        cursor.tokensFrom cursor.index = TokenList.behindBlank after ∧
        ∀ others, ofTokens tracking (front ++ close :: others) = .ok document) ∨
    (TokenList.isOpened tokens = false ∧
      ∃ front found after cursor, tokenize source = front ++ found :: after ∧
        tokens = found :: after ∧
        parser.run tracking (tokenize source) =
          .failed (.rejected ⟨found.value, found.kind, (TokenList.text front).utf8ByteSize,
            found.line, ⟨.openDoc, none⟩⟩) cursor) ∨
    (TokenList.isOpened tokens = true ∧ TokenList.isClosed tokens = false ∧
      ∃ front last cursor, tokenize source = front ++ [last] ∧ last.kind = .finish ∧
        parser.run tracking (tokenize source) =
          .failed (.rejected ⟨last.value, last.kind, (TokenList.text front).utf8ByteSize, last.line,
            ⟨.closeDoc, none⟩⟩) cursor) := by
  intro tokens
  obtain ⟨lead, found, rest, isLed, isLead, -, isBehind⟩ := exists_entry source
  have isCurrent : (Cursor.onTokens (tokenize source)).tokenAt lead.length = found := by
    rw [isLed, Cursor.tokenAt_onTokens_append]
  have isOpened : TokenList.isOpened tokens = decide (found.kind = .openDoc) := by
    rw [isOpened_behindBlank, ← isLead, isCurrent]
  by_cases isOpen : found.kind = .openDoc
  · have opened : TokenList.isOpened tokens = true := by rw [isOpened, decide_eq_true isOpen]
    rw [← isCurrent] at isOpen
    cases closed : (tokenize source).find? (·.kind = .closeDoc) with
    | some close =>
        obtain ⟨found, front, after, split, first⟩ := List.find?_eq_some_iff_append.mp closed
        have isClose : close.kind = .closeDoc := of_decide_eq_true found
        have isFirst : ∀ token ∈ front, token.kind ≠ .closeDoc := by simpa using first
        have inside : lead.length ≤ front.length := by
          rw [isLead]
          exact Cursor.entry_le split (by rw [isClose]; decide)
        obtain ⟨document, accepted, others⟩ :=
          run_closed tracking split isClose isFirst isLead.symm inside isOpen
        refine .inl ⟨opened, ?_, front, close, after, document, _, split, isClose, isFirst,
          accepted, ?_, others⟩
        · rw [isClosed_behindBlank, List.any_eq_true]
          exact ⟨close, List.mem_of_find?_eq_some closed, found⟩
        · rw [Cursor.tokensFrom_onTokens]
          exact drop_next split (ne_nil_of_closeDoc split isClose)
    | none =>
        have unclosed : ∀ token ∈ tokenize source, token.kind ≠ .closeDoc := by
          simpa using List.find?_eq_none.mp closed
        obtain ⟨front, last, split, isFinish, rejected⟩ :=
          run_unclosed tracking unclosed isLead.symm isOpen
        refine .inr (.inr ⟨opened, ?_, front, last, _, split, isFinish, rejected⟩)
        rw [isClosed_behindBlank, List.any_eq_false]
        simpa using unclosed
  · refine .inr (.inl ⟨by rw [isOpened, decide_eq_false isOpen], lead, found, rest,
      Cursor.ofTokens (tokenize source), isLed, isBehind, ?_⟩)
    have notOpen : (Cursor.ofTokens (tokenize source)).current.kind ≠ .openDoc := by
      rw [ofTokens_tokenize, ← isLead]
      show ((Cursor.onTokens (tokenize source)).tokenAt lead.length).kind ≠ .openDoc
      rwa [isCurrent]
    rw [Parser.run, parser_unopened notOpen, ofTokens_tokenize, ← isLead, isLed,
      Cursor.unexpected_onTokens]

/-- The value of a tag is read without fail and stays in front of every close marker. -/
theorem tagValue_confined (tracking : Tracking) (name : String)
    (split : tokenize source = front ++ close :: after) (isEnd : close.kind ∈ [.closeDoc, .finish])
    {place : Nat} (inside : place ≤ front.length) (saved : List Nat) :
    ∃ value, ∃ stop ≤ front.length, place ≤ stop ∧
      TagValue.parser name tracking ((Cursor.ofTokens (tokenize source)).standing place saved) =
        .ok value ((Cursor.ofTokens (tokenize source)).standing stop saved) := by
  rw [ofTokens_tokenize, split]
  have tandem : (TagValue.parser name).Tandem (Window.upTo split isEnd after) (TagValue.parser name)
      place _ False := TagValue.parser_tandem name inside
  obtain ⟨value, stop, stopInside, ⟨⟨⟨behind, -⟩, -⟩, -⟩, isRead, -⟩ :=
    tandem.exists_ok inside tracking saved saved
  exact ⟨value, stop, stopInside, behind, isRead⟩

theorem findIdx_closeDoc (split : tokenize source = front ++ close :: after)
    (isClose : close.kind = .closeDoc) (first : ∀ token ∈ front, token.kind ≠ .closeDoc) :
    (tokenize source).findIdx (·.kind = .closeDoc) = front.length := by
  have none : front.findIdx (·.kind = .closeDoc) = front.length := by
    rw [List.findIdx_eq_length]
    simpa using first
  rw [split, List.findIdx_append, none, if_neg (Nat.lt_irrefl _), List.findIdx_cons,
    decide_eq_true isClose]
  exact Nat.zero_add _

/-- A comment that is accepted was read in a window that reaches to its close marker. -/
theorem exists_window {document : Document}
    (accepted : ofTokens tracking (tokenize source) = .ok document) :
    ∃ (window : Window) (cursor : Cursor), window.first = Cursor.onTokens (tokenize source) ∧
      window.Whole ∧ window.limit = (tokenize source).findIdx (·.kind = .closeDoc) ∧
      window.kind (Cursor.entry (tokenize source)) = .openDoc ∧
      Cursor.entry (tokenize source) < window.limit ∧
      parser tracking (window.first.standing (Cursor.entry (tokenize source)) []) =
        .ok document cursor := by
  rw [ofTokens] at accepted
  obtain ⟨opened, -, front, close, after, document', cursor, split, isClose, first, isRun, -, -⟩ |
    ⟨-, _, _, _, _, -, -, rejected⟩ | ⟨-, -, _, _, _, -, -, rejected⟩ := run_cases tracking source
  · rw [isRun] at accepted
    cases accepted
    rw [isOpened_behindBlank, decide_eq_true_eq] at opened
    rw [Parser.run, ofTokens_tokenize] at isRun
    have isEnd : close.kind ∈ [.closeDoc, .finish] := by simp [isClose]
    have isFirst : (Window.upTo split isEnd after).first = Cursor.onTokens (tokenize source) := by
      rw [split]
      rfl
    have inside : Cursor.entry (tokenize source) ≤ front.length :=
      Cursor.entry_le split (by rw [isClose]; decide)
    have notLimit : Cursor.entry (tokenize source) ≠ front.length := by
      intro isLimit
      rw [isLimit, split, Cursor.tokenAt_onTokens_append, isClose] at opened
      cases opened
    refine ⟨Window.upTo split isEnd after, cursor, isFirst, whole_upTo split isEnd first after,
      (findIdx_closeDoc split isClose first).symm, ?_, Nat.lt_of_le_of_ne inside notLimit, ?_⟩
    · rw [Window.kind, Window.token, isFirst, opened]
    · rw [isFirst, isRun]
  · rw [rejected] at accepted
    cases accepted
  · rw [rejected] at accepted
    cases accepted

end Texts

/-- A comment fails for its structure only.  It is accepted exactly if it starts with its opening
marker, up to a blank, and has a close marker; then the cursor stops behind the first close
marker and one blank, and the tree depends on the tokens up to that marker only.  Otherwise the
error is at the first token or at the end of the input.  The value of a tag, whatever its name
and its text, is always read and never reaches past a close marker. -/
theorem parser_fails_structurally (tracking : Tracking) (source : String) :
    let tokens := TokenList.behindBlank (tokenize source)
    let reply := parser.run tracking (tokenize source)
    ((∃ document cursor, reply = .ok document cursor) ↔
      TokenList.isOpened tokens = true ∧ TokenList.isClosed tokens = true) ∧
    (∀ document cursor, reply = .ok document cursor →
      ∃ front close after, tokenize source = front ++ close :: after ∧ close.kind = .closeDoc ∧
        (∀ token ∈ front, token.kind ≠ .closeDoc) ∧
        cursor.tokensFrom cursor.index = TokenList.behindBlank after ∧
        ∀ others, ofTokens tracking (front ++ close :: others) = .ok document) ∧
    (∀ failure cursor, reply = .failed failure cursor →
      ∃ front found after expected, tokenize source = front ++ found :: after ∧
        failure = .rejected ⟨found.value, found.kind, (TokenList.text front).utf8ByteSize,
          found.line, expected⟩ ∧
        (TokenList.isOpened tokens = false ∧ tokens = found :: after ∧ expected = ⟨.openDoc, none⟩ ∨
          TokenList.isOpened tokens = true ∧ TokenList.isClosed tokens = false ∧
            found.kind = .finish ∧ after = [] ∧ expected = ⟨.closeDoc, none⟩)) ∧
    ∀ name front close after, tokenize source = front ++ close :: after →
      close.kind ∈ [.closeDoc, .finish] → ∀ place ≤ front.length, ∀ saved,
        ∃ value, ∃ stop ≤ front.length, place ≤ stop ∧
          TagValue.parser name tracking ((Cursor.ofTokens (tokenize source)).standing place saved) =
            .ok value ((Cursor.ofTokens (tokenize source)).standing stop saved) := by
  intro tokens reply
  refine ⟨?_, ?_, ?_, ?_⟩
  · obtain ⟨opened, closed, _, _, _, document, cursor, -, -, -, accepted, -⟩ |
      ⟨unopened, _, _, _, cursor, -, -, rejected⟩ |
      ⟨-, unclosed, _, _, cursor, -, -, rejected⟩ := run_cases tracking source
    · exact iff_of_true ⟨document, cursor, accepted⟩ ⟨opened, closed⟩
    · refine iff_of_false ?_ fun both => Bool.false_ne_true (unopened.symm.trans both.1)
      rintro ⟨document, cursor', accepted⟩
      cases rejected.symm.trans accepted
    · refine iff_of_false ?_ fun both => Bool.false_ne_true (unclosed.symm.trans both.2)
      rintro ⟨document, cursor', accepted⟩
      cases rejected.symm.trans accepted
  · intro document cursor accepted
    obtain ⟨-, -, front, close, after, _, _, split, isClose, first, accepted', atEnd, others⟩ |
      ⟨-, _, _, _, _, -, -, rejected⟩ | ⟨-, -, _, _, _, -, -, rejected⟩ := run_cases tracking source
    · cases accepted'.symm.trans accepted
      exact ⟨front, close, after, split, isClose, first, atEnd, others⟩
    · cases rejected.symm.trans accepted
    · cases rejected.symm.trans accepted
  · intro failure cursor rejected
    obtain ⟨-, -, _, _, _, _, _, -, -, -, accepted, -⟩ |
      ⟨unopened, front, found, after, _, split, isFirst, rejected'⟩ |
      ⟨opened, unclosed, front, last, _, split, isFinish, rejected'⟩ := run_cases tracking source
    · cases accepted.symm.trans rejected
    · cases rejected'.symm.trans rejected
      exact ⟨front, found, after, _, split, rfl, .inl ⟨unopened, isFirst, rfl⟩⟩
    · cases rejected'.symm.trans rejected
      exact ⟨front, last, [], _, split, rfl, .inr ⟨opened, unclosed, isFinish, rfl, rfl⟩⟩
  · intro name front close after split isEnd place inside saved
    exact tagValue_confined tracking name split isEnd inside saved

/-- A blank in front of a comment is not part of what is read, but it counts in the message of an
error that is kept, so it can make a difference for the tree. -/
theorem leadingBlank_counts :
    TokenList.behindBlank (tokenize " /** @param */") = tokenize "/** @param */" ∧
      ∃ document document', ofText " /** @param */" = .ok document ∧
        ofText "/** @param */" = .ok document' ∧ (document == document') = false := by
  refine ⟨by decide +kernel, ?_⟩
  have differ : (match ofText " /** @param */", ofText "/** @param */" with
      | .ok document, .ok document' => document == document'
      | _, _ => true) = false := by decide +kernel
  split at differ
  · next document document' isFirst isSecond =>
      exact ⟨document, document', isFirst, isSecond, differ⟩
  · cases differ

end Document

end Docblock
