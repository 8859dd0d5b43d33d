import Docblock.Proofs.Reading

/-!
# Parsers side by side

Two lists of tokens may agree up to a token that no rule takes, such as the close marker of a
comment.  Up to there nothing can tell the lists apart, so a rule that starts in front of that
token gives the same on both of them and never gets past it.  A *window* is such a pair of
lists; *tandem* parsers, one for each list, keep step as long as they are in the window.  With
the same list on both sides this says where a rule can end and where its error can be.

The two parsers of a tandem differ in their bounds on loops and nesting only, which come from
the numbers of tokens in the two lists.
-/

namespace Docblock

/-- The cursor over the same tokens at another place, with other save points. -/
def Cursor.standing (cursor : Cursor) (place : Nat) (saved : List Nat) : Cursor :=
  { cursor with index := place, savePoints := saved }

/-- The place to which one step from `place` leads. -/
def Cursor.next (cursor : Cursor) (place : Nat) : Nat :=
  if cursor.tokens.size ≤ place + 1 then place
  else if (cursor.tokenAt (place + 1)).kind = .blank ∧ place + 2 < cursor.tokens.size then place + 2
  else place + 1

theorem Cursor.advance_standing (cursor : Cursor) (place : Nat) (saved : List Nat) :
    (cursor.standing place saved).advance = cursor.standing (cursor.next place) saved := by
  show (if cursor.tokens.size ≤ place + 1 then cursor.standing place saved
    else if (cursor.tokenAt (place + 1)).kind = .blank ∧ place + 2 < cursor.tokens.size then
      cursor.standing (place + 2) saved
    else cursor.standing (place + 1) saved) = _
  rw [next, apply_ite (cursor.standing · saved), apply_ite (cursor.standing · saved)]

theorem Cursor.next_of_room (cursor : Cursor) {place : Nat}
    (inside : place + 1 < cursor.tokens.size)
    (room : (cursor.tokenAt (place + 1)).kind = .blank → place + 2 < cursor.tokens.size) :
    cursor.next place =
      if (cursor.tokenAt (place + 1)).kind = .blank then place + 2 else place + 1 := by
  rw [next, if_neg (by omega)]
  by_cases isBlank : (cursor.tokenAt (place + 1)).kind = .blank
  · rw [if_pos ⟨isBlank, room isBlank⟩, if_pos isBlank]
  · rw [if_neg (fun both => isBlank both.1), if_neg isBlank]

theorem Cursor.lastSolid_standing (cursor : Cursor) (place : Nat) (saved : List Nat) (index : Nat) :
    (cursor.standing place saved).lastSolid index = cursor.lastSolid index := by
  induction index with
  | zero => rfl
  | succ index induction =>
      rw [lastSolid, lastSolid, induction]
      rfl

theorem Cursor.lastSolid_le (cursor : Cursor) (index : Nat) : cursor.lastSolid index ≤ index := by
  induction index with
  | zero => exact Nat.le_refl 0
  | succ index induction =>
      rw [lastSolid]
      split
      · exact Nat.le_succ_of_le induction
      · exact Nat.le_refl _

/-- Whether tokens of this kind can be taken by the rules for types and constants. -/
def TokenKind.isContent (kind : TokenKind) : Bool :=
  !([.lineBreak, .blank, .closeDoc, .tag, .finish].contains kind)

/-- Two lists of tokens that agree up to the token at `limit`, which ends the input, closes a
comment or is a tag; a tag comes first on its line.  At `last` the line in front of it ends. -/
structure Window where
  first : Cursor
  second : Cursor
  limit : Nat
  last : Nat
  inFirst : limit < first.tokens.size
  inSecond : limit < second.tokens.size
  tokens : ∀ place ≤ limit, first.tokenAt place = second.tokenAt place
  offsets : ∀ place ≤ limit, first.offsets[place]? = second.offsets[place]?
  bars : (first.tokenAt limit).kind ∈ [.closeDoc, .tag, .finish]
  last_le : last ≤ limit
  near : limit ≤ last + 2
  ends : (first.tokenAt last).kind ∈ [.lineBreak, .closeDoc, .finish]
  blanks : ∀ place, last < place → place < limit → (first.tokenAt place).kind = .blank
  named : ∀ place ≤ limit, (first.tokenAt place).value ∈ ["of", "as"] →
    (first.tokenAt place).kind = .identifier

namespace Window

variable (window : Window) {place : Nat}

/-- The token that both lists have at a place. -/
def token (place : Nat) : Token := window.first.tokenAt place

/-- The kind of the token at a place. -/
def kind (place : Nat) : TokenKind := (window.token place).kind

/-- The error is about a token in the window. -/
def Locates (error : SyntaxError) : Prop :=
  ∃ place ≤ window.limit, ∃ expected, error = (window.first.standing place []).unexpected expected

/-- A rule that started at `place` took a token and stopped no later than the last line ends. -/
def Behind {α : Type} (place : Nat) (_ : α) (stop : Nat) : Prop :=
  place < stop ∧ stop ≤ window.last

/-- A rule that started at `place` did not go back and stopped no later than the last line
ends. -/
def Along {α : Type} (place : Nat) (_ : α) (stop : Nat) : Prop :=
  place ≤ stop ∧ stop ≤ window.last

theorem room_of_blank (before : place < window.limit)
    (isBlank : window.kind (place + 1) = .blank) : place + 2 ≤ window.limit := by
  by_contra isLast
  have isLimit : place + 1 = window.limit := by omega
  have bars := window.bars
  rw [← isLimit, show (window.first.tokenAt (place + 1)).kind = .blank from isBlank] at bars
  exact absurd bars (by decide)

theorem lt_limit_of_lineBreak (inside : place ≤ window.limit)
    (isBreak : window.kind place = .lineBreak) : place < window.limit := by
  refine Nat.lt_of_le_of_ne inside ?_
  rintro rfl
  have bars := window.bars
  rw [show (window.first.tokenAt window.limit).kind = .lineBreak from isBreak] at bars
  exact absurd bars (by decide)

/-- In the window a step passes over one blank, on both lists. -/
theorem next_eq (before : place < window.limit) :
    window.first.next place = (if window.kind (place + 1) = .blank then place + 2 else place + 1) ∧
      window.second.next place =
        (if window.kind (place + 1) = .blank then place + 2 else place + 1) := by
  have inFirst := window.inFirst
  have inSecond := window.inSecond
  have room := window.room_of_blank before
  have isSame : (window.second.tokenAt (place + 1)).kind = window.kind (place + 1) :=
    congrArg Token.kind (window.tokens (place + 1) before).symm
  constructor
  · exact window.first.next_of_room (by omega) fun isBlank => by have := room isBlank; omega
  · rw [← isSame]
    refine window.second.next_of_room (by omega) fun isBlank => ?_
    have := room (isSame.symm.trans isBlank)
    omega

theorem next_same (before : place < window.limit) :
    window.second.next place = window.first.next place := by
  rw [(window.next_eq before).1, (window.next_eq before).2]

theorem lt_next (before : place < window.limit) : place < window.first.next place := by
  rw [(window.next_eq before).1]
  split <;> omega

theorem next_le (before : place < window.limit) : window.first.next place ≤ window.limit := by
  rw [(window.next_eq before).1]
  split
  · next isBlank => exact window.room_of_blank before isBlank
  · exact before

/-- What the rules take stands in front of the place where the last line ends. -/
theorem lt_last_of_content (inside : place ≤ window.limit)
    (content : (window.kind place).isContent = true) : place < window.last := by
  by_contra beyond
  have bars := window.bars
  have ends := window.ends
  have isBarred : window.kind place ∈ [.lineBreak, .blank, .closeDoc, .tag, .finish] := by
    rcases Nat.lt_or_eq_of_le inside with before | rfl
    · rcases Nat.lt_or_eq_of_le (Nat.le_of_not_lt beyond) with behind | rfl
      · rw [kind, token, window.blanks place behind before]
        decide
      · rw [kind, token]
        simp only [List.mem_cons, List.not_mem_nil, or_false] at ends ⊢
        tauto
    · rw [kind, token]
      simp only [List.mem_cons, List.not_mem_nil, or_false] at bars ⊢
      tauto
  rw [TokenKind.isContent, List.contains_iff_mem.mpr isBarred] at content
  cases content

theorem next_le_last (before : place < window.last) : window.first.next place ≤ window.last := by
  have bound := window.last_le
  rw [(window.next_eq (by omega)).1]
  split
  · next isBlank =>
      rcases Nat.lt_or_eq_of_le (Nat.succ_le_of_lt before) with earlier | isLast
      · exact earlier
      · have ends := window.ends
        rw [← isLast, show (window.first.tokenAt (place + 1)).kind = .blank from isBlank] at ends
        exact absurd ends (by decide)
  · exact before

/-- From the end of the last line one step leads to the limit. -/
theorem next_last (before : window.last < window.limit) :
    window.first.next window.last = window.limit := by
  have near := window.near
  have bound := window.next_le before
  rw [(window.next_eq before).1] at bound ⊢
  split at bound
  · next isBlank =>
      rw [if_pos isBlank]
      omega
  · next notBlank =>
      rw [if_neg notBlank]
      by_contra notLimit
      exact notBlank (window.blanks (window.last + 1) (by omega) (by omega))

theorem lineAt_same {index : Nat} (within : index ≤ window.limit) :
    window.second.lineAt index = window.first.lineAt index := by
  have inFirst := window.inFirst
  have inSecond := window.inSecond
  have sameToken := window.tokens index within
  unfold Cursor.tokenAt at sameToken
  unfold Cursor.lineAt
  rw [Array.getElem?_eq_getElem (by omega), Array.getElem?_eq_getElem (by omega)] at sameToken ⊢
  simpa using congrArg Token.line sameToken.symm

theorem lastSolid_same {index : Nat} (within : index ≤ window.limit) :
    window.second.lastSolid index = window.first.lastSolid index := by
  induction index with
  | zero => rfl
  | succ index induction =>
      rw [Cursor.lastSolid, Cursor.lastSolid, window.tokens (index + 1) within,
        induction (by omega)]

theorem tokensFrom_eq (inside : place ≤ window.limit) :
    window.first.tokensFrom place = window.token place :: window.first.tokensFrom (place + 1) ∧
      window.second.tokensFrom place =
        window.token place :: window.second.tokensFrom (place + 1) := by
  have inFirst := window.inFirst
  have inSecond := window.inSecond
  rw [token, window.first.tokensFrom_of_lt (by omega), window.second.tokensFrom_of_lt (by omega),
    window.tokens place inside]
  exact ⟨rfl, rfl⟩

/-- From a place in the window both lists go on alike to the first token of the given kinds, if
there is one at `last`. -/
theorem takeWhile_same {stops : KindSet}
    (stopsLast : stops.contains (window.kind window.last) = true)
    (bound : place ≤ window.last) : ∃ taken : List Token, place + taken.length ≤ window.last ∧
      stops.contains (window.kind (place + taken.length)) = true ∧
      (window.first.tokensFrom place).takeWhile (fun token => !stops.contains token.kind) = taken ∧
      (window.second.tokensFrom place).takeWhile
        (fun token => !stops.contains token.kind) = taken := by
  generalize isDistance : window.last - place = distance
  induction distance generalizing place with
  | zero =>
      obtain rfl : place = window.last := by omega
      obtain ⟨ofFirst, ofSecond⟩ := window.tokensFrom_eq window.last_le
      rw [ofFirst, ofSecond, List.takeWhile_cons, List.takeWhile_cons, ← kind, stopsLast]
      exact ⟨[], Nat.le_refl _, stopsLast, rfl, rfl⟩
  | succ distance induction =>
      obtain ⟨ofFirst, ofSecond⟩ := window.tokensFrom_eq (Nat.le_trans bound window.last_le)
      rw [ofFirst, ofSecond, List.takeWhile_cons, List.takeWhile_cons, ← kind]
      cases isEnd : stops.contains (window.kind place) with
      | true => exact ⟨[], bound, isEnd, rfl, rfl⟩
      | false =>
          obtain ⟨taken, within, atEnd, isFirst, isSecond⟩ :=
            induction (show place + 1 ≤ window.last by omega) (by omega)
          have shifted : place + (window.token place :: taken).length =
              place + 1 + taken.length := by
            rw [List.length_cons]
            omega
          refine ⟨window.token place :: taken, ?_, ?_, ?_, ?_⟩
          · rwa [shifted]
          · rwa [shifted]
          · simp [isFirst]
          · simp [isSecond]

/-- Line breaks are skipped alike on both lists. -/
theorem skipLineBreaksWithin_same {fuel fuel' : Nat} (inside : place ≤ window.limit)
    (enough : window.limit - place < fuel) (enough' : window.limit - place < fuel')
    (saved saved' : List Nat) : ∃ stop ≤ window.limit, place ≤ stop ∧
      Cursor.skipLineBreaksWithin fuel (window.first.standing place saved) =
        window.first.standing stop saved ∧
      Cursor.skipLineBreaksWithin fuel' (window.second.standing place saved') =
        window.second.standing stop saved' := by
  induction fuel generalizing fuel' place with
  | zero => omega
  | succ fuel induction =>
      obtain ⟨fuel', rfl⟩ := Nat.exists_eq_succ_of_ne_zero (Nat.ne_zero_of_lt enough')
      have ofFirst : (window.first.standing place saved).isAt .lineBreak =
          decide (window.kind place = .lineBreak) := rfl
      have ofSecond : (window.second.standing place saved').isAt .lineBreak =
          decide (window.kind place = .lineBreak) :=
        congrArg (fun token : Token => decide (token.kind = .lineBreak))
          (window.tokens place inside).symm
      simp only [Cursor.skipLineBreaksWithin, ofFirst, ofSecond, decide_eq_true_eq]
      by_cases isBreak : window.kind place = .lineBreak
      · have before := window.lt_limit_of_lineBreak inside isBreak
        have further := window.lt_next before
        have enoughBehind : window.limit - window.first.next place < fuel' := by omega
        obtain ⟨stop, stopInside, further', isFirst, isSecond⟩ :=
          induction (window.next_le before) (by omega) enoughBehind
        refine ⟨stop, stopInside, by omega, ?_, ?_⟩
        · rw [if_pos isBreak, Cursor.advance_standing, isFirst]
        · rw [if_pos isBreak, Cursor.advance_standing, window.next_same before, isSecond]
      · rw [if_neg isBreak, if_neg isBreak]
        exact ⟨place, inside, Nat.le_refl _, rfl, rfl⟩

end Window

namespace Reply

variable {α β : Type}

/-- Two replies are alike if they stop at the same place in the window with the same value, and
that value and place are `good`; or if they are the same error about a token in the window,
provided that failure is allowed by `bad`.  The save points are as given. -/
inductive Alike (window : Window) (saved saved' : List Nat) (good : α → Nat → Prop) (bad : Prop) :
    Reply α → Reply α → Prop
  | ok {value : α} {stop : Nat} (inside : stop ≤ window.limit) (isGood : good value stop) :
      Alike window saved saved' good bad (.ok value (window.first.standing stop saved))
        (.ok value (window.second.standing stop saved'))
  | rejected {error : SyntaxError} {stop : Nat} (inside : stop ≤ window.limit)
      (located : window.Locates error) (isBad : bad) :
      Alike window saved saved' good bad
        (.failed (.rejected error) (window.first.standing stop saved))
        (.failed (.rejected error) (window.second.standing stop saved'))

variable {window : Window} {saved saved' : List Nat} {good : α → Nat → Prop} {bad : Prop}
  {reply reply' : Reply α}

theorem Alike.of_eq {value : α} {stop : Nat} (inside : stop ≤ window.limit)
    (isGood : good value stop) (isFirst : reply = .ok value (window.first.standing stop saved))
    (isSecond : reply' = .ok value (window.second.standing stop saved')) :
    Alike window saved saved' good bad reply reply' := by
  rw [isFirst, isSecond]
  exact .ok inside isGood

/-- What replies that are alike can be. -/
theorem Alike.cases (alike : Alike window saved saved' good bad reply reply') :
    (∃ value, ∃ stop ≤ window.limit, good value stop ∧
      reply = .ok value (window.first.standing stop saved) ∧
      reply' = .ok value (window.second.standing stop saved')) ∨
    ∃ error, ∃ stop ≤ window.limit, bad ∧ window.Locates error ∧
      reply = .failed (.rejected error) (window.first.standing stop saved) ∧
      reply' = .failed (.rejected error) (window.second.standing stop saved') := by
  cases alike with
  | ok inside isGood => exact .inl ⟨_, _, inside, isGood, rfl, rfl⟩
  | rejected inside located isBad => exact .inr ⟨_, _, inside, isBad, located, rfl, rfl⟩

end Reply

namespace Parser

variable {α β : Type}

/-- Both parsers start at `place`, each on its list, and give replies that are alike. -/
def Tandem (window : Window) (parser parser' : Parser α) (place : Nat)
    (good : α → Nat → Prop) (bad : Prop) : Prop :=
  place ≤ window.limit → ∀ tracking saved saved', Reply.Alike window saved saved' good bad
    (parser tracking (window.first.standing place saved))
    (parser' tracking (window.second.standing place saved'))

/-- Like `Tandem`, but the parsers start with an innermost save point at `origin`, which they
take off the stack. -/
def HoldingTandem (window : Window) (origin : Nat) (parser parser' : Parser α) (place : Nat)
    (good : α → Nat → Prop) (bad : Prop) : Prop :=
  origin ≤ window.limit → place ≤ window.limit → ∀ tracking saved saved',
    Reply.Alike window saved saved' good bad
      (parser tracking (window.first.standing place (origin :: saved)))
      (parser' tracking (window.second.standing place (origin :: saved')))

section Combinators

variable {window : Window} {parser parser' : Parser α} {next next' : α → Parser β}
  {place origin : Nat} {good : α → Nat → Prop} {bad : Prop}

theorem Tandem.inside
    (tandem : place ≤ window.limit → parser.Tandem window parser' place good bad) :
    parser.Tandem window parser' place good bad :=
  fun inside => tandem inside inside

theorem Tandem.imp {good' : α → Nat → Prop} {bad' : Prop}
    (tandem : parser.Tandem window parser' place good bad)
    (goodImp : ∀ value, ∀ stop ≤ window.limit, good value stop → good' value stop)
    (badImp : bad → bad') : parser.Tandem window parser' place good' bad' := by
  intro inside tracking saved saved'
  rcases (tandem inside tracking saved saved').cases with
    ⟨value, stop, stopInside, isGood, isFirst, isSecond⟩ |
      ⟨error, stop, stopInside, isBad, located, isFirst, isSecond⟩
  · rw [isFirst, isSecond]
    exact .ok stopInside (goodImp value stop stopInside isGood)
  · rw [isFirst, isSecond]
    exact .rejected stopInside located (badImp isBad)

theorem Tandem.mono {good' : α → Nat → Prop} {bad' : Prop}
    (tandem : parser.Tandem window parser' place good bad)
    (goodImp : ∀ value stop, good value stop → good' value stop)
    (badImp : bad → bad') : parser.Tandem window parser' place good' bad' :=
  tandem.imp (fun value stop _ => goodImp value stop) badImp

/-- Parsers of which no failure is allowed give values. -/
theorem Tandem.exists_ok (tandem : parser.Tandem window parser' place good False)
    (inside : place ≤ window.limit) (tracking : Tracking) (saved saved' : List Nat) :
    ∃ value, ∃ stop ≤ window.limit, good value stop ∧
      parser tracking (window.first.standing place saved) =
        .ok value (window.first.standing stop saved) ∧
      parser' tracking (window.second.standing place saved') =
        .ok value (window.second.standing stop saved') := by
  rcases (tandem inside tracking saved saved').cases with found | ⟨_, _, _, impossible, _⟩
  · exact found
  · exact impossible.elim

theorem Tandem.pure {value : α} (isGood : good value place) :
    (pure value : Parser α).Tandem window (pure value) place good bad :=
  fun inside _ _ _ => .ok inside isGood

theorem Tandem.bind {good : β → Nat → Prop} {middle : α → Nat → Prop}
    (first : parser.Tandem window parser' place middle bad)
    (second : ∀ value stop, middle value stop →
      (next value).Tandem window (next' value) stop good bad) :
    (parser >>= next).Tandem window (parser' >>= next') place good bad := by
  intro inside tracking saved saved'
  rw [bind_apply, bind_apply]
  rcases (first inside tracking saved saved').cases with
    ⟨value, stop, stopInside, reached, isFirst, isSecond⟩ |
      ⟨error, stop, stopInside, isBad, located, isFirst, isSecond⟩
  · rw [isFirst, isSecond]
    exact second value stop reached stopInside tracking saved saved'
  · rw [isFirst, isSecond]
    exact .rejected stopInside located isBad

/-- What stands between a save point and its use cannot fail. -/
theorem HoldingTandem.bind {good : β → Nat → Prop} {middle : α → Nat → Prop}
    (first : parser.Tandem window parser' place middle False)
    (second : ∀ value stop, middle value stop →
      (next value).HoldingTandem window origin (next' value) stop good bad) :
    (parser >>= next).HoldingTandem window origin (parser' >>= next') place good bad := by
  intro originInside inside tracking saved saved'
  rw [bind_apply, bind_apply]
  rcases (first inside tracking (origin :: saved) (origin :: saved')).cases with
    ⟨value, stop, stopInside, reached, isFirst, isSecond⟩ |
      ⟨error, stop, stopInside, isBad, located, isFirst, isSecond⟩
  · rw [isFirst, isSecond]
    exact second value stop reached originInside stopInside tracking saved saved'
  · exact isBad.elim

theorem Tandem.push_bind {next next' : Unit → Parser α}
    (opened : (next ()).HoldingTandem window place (next' ()) place good bad) :
    (push >>= next).Tandem window (push >>= next') place good bad :=
  fun inside tracking saved saved' => opened inside inside tracking saved saved'

theorem HoldingTandem.drop_bind {next next' : Unit → Parser α}
    (closed : (next ()).Tandem window (next' ()) place good bad) :
    (drop >>= next).HoldingTandem window origin (drop >>= next') place good bad :=
  fun _ inside tracking saved saved' => closed inside tracking saved saved'

theorem HoldingTandem.rollback_bind {next next' : Unit → Parser α}
    (closed : (next ()).Tandem window (next' ()) origin good bad) :
    (rollback >>= next).HoldingTandem window origin (rollback >>= next') place good bad :=
  fun originInside _ tracking saved saved' => closed originInside tracking saved saved'

end Combinators

section Steps

variable {window : Window} {place : Nat} {bad : Prop} {kind : TokenKind} {value : String}

/-- A view of the cursor that is the same on both lists. -/
theorem Tandem.look {α : Type} {view : Cursor → α} {value : α}
    (ofFirst : ∀ saved, view (window.first.standing place saved) = value)
    (ofSecond : place ≤ window.limit → ∀ saved, view (window.second.standing place saved) = value) :
    (look view).Tandem window (look view) place
      (fun found stop => found = value ∧ place = stop) bad :=
  fun inside _ saved saved' => .of_eq inside ⟨rfl, rfl⟩
    (congrArg (Reply.ok · _) (ofFirst saved)) (congrArg (Reply.ok · _) (ofSecond inside saved'))

/-- A view of the current token. -/
theorem Tandem.lookToken {α : Type} (view : Token → α) :
    (Parser.look (view ·.current)).Tandem window (Parser.look (view ·.current)) place
      (fun found stop => found = view (window.token place) ∧ place = stop) bad :=
  .look (fun _ => rfl) fun inside _ => congrArg view (window.tokens place inside).symm

theorem Tandem.mark :
    mark.Tandem window mark place (fun start stop => place = start ∧ place = stop) bad :=
  fun inside _ _ _ => .ok inside ⟨rfl, rfl⟩

/-- A rule that remembers where it starts. -/
theorem Tandem.marked {α : Type} {next next' : Nat → Parser α} {good : α → Nat → Prop}
    (rest : place ≤ window.limit → (next place).Tandem window (next' place) place good bad) :
    (Parser.mark >>= next).Tandem window (Parser.mark >>= next') place good bad := by
  refine .inside fun inside => .bind .mark ?_
  rintro _ _ ⟨rfl, rfl⟩
  exact rest inside

theorem Tandem.current :
    current.Tandem window current place
      (fun token stop => token = window.token place ∧ place = stop) bad :=
  .lookToken id

theorem Tandem.isAt :
    (isAt kind).Tandem window (isAt kind) place
      (fun found stop => found = decide (window.kind place = kind) ∧ place = stop) bad :=
  .lookToken fun token => decide (token.kind = kind)

theorem Tandem.isAtAny {kinds : KindSet} :
    (isAtAny kinds).Tandem window (isAtAny kinds) place
      (fun found stop => found = kinds.contains (window.kind place) ∧ place = stop) bad :=
  .lookToken fun token => kinds.contains token.kind

theorem Tandem.isAtWord :
    (isAtWord kind value).Tandem window (isAtWord kind value) place
      (fun found stop => (found = true → window.kind place = kind) ∧ place = stop) bad := by
  refine (Tandem.lookToken fun token =>
    decide (token.kind = kind) && decide (token.value = value)).mono ?_ id
  rintro _ _ ⟨rfl, rfl⟩
  exact ⟨fun found => of_decide_eq_true (Bool.and_eq_true_iff.mp found).1, rfl⟩

theorem Tandem.isAfterBlank :
    isAfterBlank.Tandem window isAfterBlank place (fun _ stop => place = stop) bad := by
  have same (inside : place ≤ window.limit) (saved saved' : List Nat) :
      (window.second.standing place saved').isAfterBlank =
        (window.first.standing place saved).isAfterBlank := by
    cases place with
    | zero => rfl
    | succ before =>
        exact congrArg (fun token : Token => decide (token.kind = .blank))
          (window.tokens before (by omega)).symm
  exact (Tandem.look (fun _ => rfl) fun inside saved => same inside [] saved).mono
    (fun _ _ reached => reached.2) id

/-- The two bounds differ, and both are large enough for the window. -/
theorem Tandem.remaining_bind {α : Type} {next next' : Nat → Parser α} {good : α → Nat → Prop}
    (each : ∀ bound bound', window.limit - place < bound → window.limit - place < bound' →
      (next bound).Tandem window (next' bound') place good bad) :
    (Parser.look Cursor.remaining >>= next).Tandem window (Parser.look Cursor.remaining >>= next')
      place good bad := by
  intro inside
  have inFirst := window.inFirst
  have inSecond := window.inSecond
  exact each (window.first.tokens.size - place) (window.second.tokens.size - place)
    (by omega) (by omega) inside

theorem Tandem.advance (before : place < window.limit) :
    advance.Tandem window advance place (fun _ stop => window.first.next place = stop) bad := by
  intro inside tracking saved saved'
  refine .of_eq (window.next_le before) rfl
    (congrArg (Reply.ok ()) (window.first.advance_standing place saved)) ?_
  rw [← window.next_same before]
  exact congrArg (Reply.ok ()) (window.second.advance_standing place saved')

theorem Tandem.advance_line (before : place < window.last) :
    Parser.advance.Tandem window Parser.advance place (window.Behind place) bad := by
  have beforeLimit := Nat.lt_of_lt_of_le before window.last_le
  refine (Tandem.advance beforeLimit).mono ?_ id
  rintro _ _ rfl
  exact ⟨window.lt_next beforeLimit, window.next_le_last before⟩

theorem Tandem.advance_content (content : (window.kind place).isContent = true) :
    Parser.advance.Tandem window Parser.advance place (window.Behind place) bad :=
  .inside fun inside => .advance_line (window.lt_last_of_content inside content)

theorem Tandem.unexpected {α : Type} {good : α → Nat → Prop} {expected : Expected} :
    (unexpected expected : Parser α).Tandem window (unexpected expected) place good True := by
  intro inside tracking saved saved'
  have same : (window.second.standing place saved').unexpected expected =
      (window.first.standing place saved).unexpected expected := by
    have sameToken := window.tokens place inside
    have sameOffset := window.offsets place inside
    simp only [Cursor.unexpected, Cursor.current, Cursor.offset, Cursor.standing, Cursor.tokenAt]
      at sameToken ⊢
    rw [sameToken, sameOffset]
  rw [Parser.unexpected, Parser.unexpected, same]
  exact .rejected inside ⟨place, inside, expected, rfl⟩ trivial

theorem Tandem.expecting {α : Type} {good : α → Nat → Prop} :
    (expecting kind : Parser α).Tandem window (expecting kind) place good True := .unexpected

theorem Tandem.ite {α : Type} {good : α → Nat → Prop} {condition : Bool}
    {yes no yes' no' : Parser α} (ofYes : condition = true → yes.Tandem window yes' place good bad)
    (ofNo : condition = false → no.Tandem window no' place good bad) :
    (if condition then yes else no).Tandem window (if condition then yes' else no')
      place good bad := by
  cases condition with
  | false => exact ofNo rfl
  | true => exact ofYes rfl

/-- A rule that goes on according to the kind of the current token. -/
theorem Tandem.ifAt {α : Type} {good : α → Nat → Prop} {yes no yes' no' : Parser α}
    (ofYes : window.kind place = kind → yes.Tandem window yes' place good bad)
    (ofNo : window.kind place ≠ kind → no.Tandem window no' place good bad) :
    (Parser.isAt kind >>= fun found => if found then yes else no).Tandem window
      (Parser.isAt kind >>= fun found => if found then yes' else no') place good bad := by
  refine .bind .isAt ?_
  rintro _ _ ⟨rfl, rfl⟩
  exact .ite (fun found => ofYes (of_decide_eq_true found))
    fun missing => ofNo (of_decide_eq_false missing)

theorem HoldingTandem.ite {α : Type} {good : α → Nat → Prop} {origin : Nat} {condition : Bool}
    {yes no yes' no' : Parser α}
    (ofYes : condition = true → yes.HoldingTandem window origin yes' place good bad)
    (ofNo : condition = false → no.HoldingTandem window origin no' place good bad) :
    (if condition then yes else no).HoldingTandem window origin (if condition then yes' else no')
      place good bad := by
  cases condition with
  | false => exact ofNo rfl
  | true => exact ofYes rfl

theorem HoldingTandem.ifAt {α : Type} {good : α → Nat → Prop} {origin : Nat}
    {yes no yes' no' : Parser α}
    (ofYes : window.kind place = kind → yes.HoldingTandem window origin yes' place good bad)
    (ofNo : window.kind place ≠ kind → no.HoldingTandem window origin no' place good bad) :
    (Parser.isAt kind >>= fun found => if found then yes else no).HoldingTandem window origin
      (Parser.isAt kind >>= fun found => if found then yes' else no') place good bad := by
  refine .bind .isAt ?_
  rintro _ _ ⟨rfl, rfl⟩
  exact .ite (fun found => ofYes (of_decide_eq_true found))
    fun missing => ofNo (of_decide_eq_false missing)

theorem accept_eq (kind : TokenKind) :
    accept kind = (do if ← isAt kind then advance; pure true else pure false) := by
  funext tracking cursor
  show Reply.ok (cursor.accept kind).1 (cursor.accept kind).2 =
    (if cursor.isAt kind then advance >>= fun _ => pure true else pure false : Parser Bool)
      tracking cursor
  unfold Cursor.accept
  cases cursor.isAt kind <;> rfl

theorem acceptValue_eq (value : String) :
    acceptValue value = (do
      let token ← current
      if decide (token.value = value) then advance; pure true else pure false) := by
  funext tracking cursor
  show Reply.ok (cursor.acceptValue value).1 (cursor.acceptValue value).2 =
    (if cursor.isAtValue value then advance >>= fun _ => pure true else pure false : Parser Bool)
      tracking cursor
  unfold Cursor.acceptValue
  cases cursor.isAtValue value <;> rfl

theorem consume_eq (kind : TokenKind) :
    consume kind = (do
      let token ← current
      if decide (token.kind = kind) then advance; pure token.value else expecting kind) := by
  funext tracking cursor
  show _ = (if cursor.isAt kind then advance >>= fun _ => pure cursor.current.value
    else expecting kind : Parser String) tracking cursor
  unfold consume Cursor.consume
  cases cursor.isAt kind <;> rfl

theorem consumeValue_eq (kind : TokenKind) (value : String) :
    consumeValue kind value = (do
      if ← isAtWord kind value then advance else unexpected ⟨kind, some value⟩) := by
  funext tracking cursor
  show _ = (if cursor.isAt kind && cursor.isAtValue value then advance
    else unexpected ⟨kind, some value⟩ : Parser Unit) tracking cursor
  unfold consumeValue Cursor.consumeValue
  cases cursor.isAt kind && cursor.isAtValue value <;> rfl

theorem Tandem.accept (content : kind.isContent = true) :
    (accept kind).Tandem window (accept kind) place
      (fun taken stop =>
        (taken = true ∧ window.kind place = kind ∧ place < stop ∧ stop ≤ window.last) ∨
          (taken = false ∧ window.kind place ≠ kind ∧ place = stop)) bad := by
  rw [accept_eq]
  refine .ifAt (fun isKind => ?_) fun notKind => .pure (.inr ⟨rfl, notKind, rfl⟩)
  refine .bind (.advance_content (by rwa [isKind])) ?_
  rintro _ stop ⟨further, bound⟩
  exact .pure (.inl ⟨rfl, isKind, further, bound⟩)

theorem Tandem.accept_line (content : kind.isContent = true) (onLine : place ≤ window.last) :
    (Parser.accept kind).Tandem window (Parser.accept kind) place (window.Along place) bad := by
  refine (Tandem.accept content).mono ?_ id
  rintro _ stop (⟨-, -, further, bound⟩ | ⟨-, -, rfl⟩)
  · exact ⟨Nat.le_of_lt further, bound⟩
  · exact ⟨Nat.le_refl _, onLine⟩

theorem Tandem.accept_lineBreak :
    (Parser.accept .lineBreak).Tandem window (Parser.accept .lineBreak) place
      (fun taken stop =>
        (taken = true ∧ window.kind place = .lineBreak ∧ window.first.next place = stop) ∨
          (taken = false ∧ window.kind place ≠ .lineBreak ∧ place = stop)) bad := by
  rw [accept_eq]
  refine .inside fun inside => .ifAt (fun isBreak => ?_) fun notBreak =>
    .pure (.inr ⟨rfl, notBreak, rfl⟩)
  refine .bind (.advance (window.lt_limit_of_lineBreak inside isBreak)) ?_
  rintro _ _ rfl
  exact .pure (.inl ⟨rfl, isBreak, rfl⟩)

theorem Tandem.acceptValue (isName : value ∈ ["of", "as"]) :
    (acceptValue value).Tandem window (acceptValue value) place
      (fun taken stop => (taken = true ∧ place < stop ∧ stop ≤ window.last) ∨
        (taken = false ∧ place = stop)) bad := by
  rw [acceptValue_eq]
  refine .inside fun inside => .bind .current ?_
  rintro _ _ ⟨rfl, rfl⟩
  refine .ite (fun found => ?_) fun missing => .pure (.inr ⟨rfl, rfl⟩)
  have isValue : (window.token place).value = value := by simpa using found
  have isIdentifier : window.kind place = .identifier :=
    window.named place inside (by rw [← isValue] at isName; exact isName)
  refine .bind (.advance_content (by rw [isIdentifier]; rfl)) ?_
  rintro _ stop ⟨further, bound⟩
  exact .pure (.inl ⟨rfl, further, bound⟩)

theorem Tandem.consume (content : kind.isContent = true) :
    (consume kind).Tandem window (consume kind) place (window.Behind place) True := by
  rw [consume_eq]
  refine .bind .current ?_
  rintro _ _ ⟨rfl, rfl⟩
  refine .ite (fun found => ?_) fun _ => .expecting
  have isKind : window.kind place = kind := of_decide_eq_true found
  refine .bind (.advance_content (by rwa [isKind])) ?_
  rintro _ stop passed
  exact .pure passed

theorem Tandem.consume_found (isKind : window.kind place = kind) (content : kind.isContent = true) :
    (Parser.consume kind).Tandem window (Parser.consume kind) place
      (fun _ stop => window.first.next place = stop) bad := by
  rw [consume_eq]
  refine .inside fun inside => .bind .current ?_
  rintro _ _ ⟨rfl, rfl⟩
  refine .ite (fun _ => ?_) fun missing => absurd isKind (of_decide_eq_false missing)
  have before := window.lt_last_of_content inside (by rwa [isKind])
  refine .bind (.advance (Nat.lt_of_lt_of_le before window.last_le)) ?_
  rintro _ _ rfl
  exact .pure rfl

theorem Tandem.consumeValue (content : kind.isContent = true) :
    (consumeValue kind value).Tandem window (consumeValue kind value) place
      (window.Behind place) True := by
  rw [consumeValue_eq]
  refine .bind .isAtWord ?_
  rintro found _ ⟨isKind, rfl⟩
  exact .ite (fun isFound => .advance_content (by rwa [isKind isFound])) fun _ => .unexpected

theorem Tandem.acceptWord (content : kind.isContent = true) :
    (acceptWord kind value).Tandem window (acceptWord kind value) place
      (fun taken stop => (taken = true ∧ place < stop ∧ stop ≤ window.last) ∨
        (taken = false ∧ place = stop)) bad := by
  refine .ifAt (fun isKind => ?_) fun _ => .pure (.inr ⟨rfl, rfl⟩)
  rw [acceptValue_eq]
  refine .bind .current ?_
  rintro _ _ ⟨rfl, rfl⟩
  refine .ite (fun _ => ?_) fun _ => .pure (.inr ⟨rfl, rfl⟩)
  refine .bind (.advance_content (by rwa [isKind])) ?_
  rintro _ stop ⟨further, bound⟩
  exact .pure (.inl ⟨rfl, further, bound⟩)

theorem Tandem.expectFinish :
    expectFinish.Tandem window expectFinish place (fun _ stop => place = stop) True :=
  .ifAt (fun _ => .pure rfl) fun _ => .expecting

theorem Tandem.skipLineBreaks :
    skipLineBreaks.Tandem window skipLineBreaks place (fun _ stop => place ≤ stop) bad := by
  intro inside tracking saved saved'
  have inFirst := window.inFirst
  have inSecond := window.inSecond
  have enough : window.limit - place < window.first.tokens.size - place := by omega
  have enough' : window.limit - place < window.second.tokens.size - place := by omega
  obtain ⟨stop, stopInside, further, isFirst, isSecond⟩ :=
    window.skipLineBreaksWithin_same inside enough enough' saved saved'
  exact .of_eq stopInside further (congrArg (Reply.ok ()) isFirst) (congrArg (Reply.ok ()) isSecond)

theorem Tandem.positionsSince {start : Nat} (fromInside : start ≤ window.limit) :
    (positionsSince start).Tandem window (positionsSince start) place
      (fun _ stop => place = stop) bad := by
  intro inside tracking saved saved'
  have sameRelevant : (window.second.standing place saved').lastRelevant =
      (window.first.standing place saved).lastRelevant := by
    rw [Cursor.lastRelevant, Cursor.lastRelevant, Cursor.lastSolid_standing,
      Cursor.lastSolid_standing]
    exact window.lastSolid_same (Nat.le_trans (Nat.sub_le place 1) inside)
  have relevantInside : (window.first.standing place saved).lastRelevant ≤ window.limit := by
    refine Nat.le_trans (Cursor.lastSolid_le _ _) ?_
    exact Nat.le_trans (Nat.sub_le place 1) inside
  have sameLine {index : Nat} (within : index ≤ window.limit) :
      (window.second.standing place saved').lineAt index =
        (window.first.standing place saved).lineAt index := window.lineAt_same within
  simp only [Parser.positionsSince, sameRelevant, sameLine fromInside, sameLine relevantInside]
  exact .ok inside rfl

/-- A rule that ends with the positions of what it read. -/
theorem Tandem.positioned {α : Type} {form : Attributes → α} {good : α → Nat → Prop} {start : Nat}
    (fromInside : start ≤ window.limit) (isGood : ∀ attributes, good (form attributes) place) :
    (Parser.positionsSince start >>= fun attributes => Pure.pure (form attributes)).Tandem window
      (Parser.positionsSince start >>= fun attributes => Pure.pure (form attributes))
      place good bad := by
  refine .bind (.positionsSince fromInside) ?_
  rintro attributes _ rfl
  exact .pure (isGood attributes)

end Steps

section Bodies

variable {window : Window} {place : Nat} {bad : Prop}

theorem Tandem.attempt {body body' : Parser α} {good : α → Nat → Prop}
    (tandem : body.Tandem window body' place good True) :
    (attempt body).Tandem window (attempt body') place
      (fun outcome stop =>
        match outcome with
        | .ok value => good value stop
        | .error error => place = stop ∧ window.Locates error) bad := by
  intro inside tracking saved saved'
  have push (cursor : Cursor) (saved : List Nat) :
      (cursor.standing place saved).push = cursor.standing place (place :: saved) := rfl
  rw [Parser.attempt, Parser.attempt, push, push]
  rcases (tandem inside tracking (place :: saved) (place :: saved')).cases with
    ⟨value, stop, stopInside, isGood, isFirst, isSecond⟩ |
      ⟨error, stop, stopInside, -, located, isFirst, isSecond⟩
  · rw [isFirst, isSecond]
    exact .ok stopInside isGood
  · rw [isFirst, isSecond]
    exact .ok inside ⟨rfl, located⟩

/-- What a loop does, from what one of its rounds does: a round that gives an item gets further,
so neither loop runs out of rounds. -/
theorem Tandem.gatherWithin {round round' : Parser (Round α β)} (step : Nat → α → Nat → Prop)
    (final : Nat → β → Nat → Prop) (safe : Nat → Prop)
    (each : ∀ here, place ≤ here → safe here → round.Tandem window round' here
      (fun outcome stop =>
        match outcome with
        | .item value => here < stop ∧ step here value stop ∧ safe stop
        | .done result => final here result stop) bad)
    {fuel fuel' here : Nat} (behind : place ≤ here) (isSafe : safe here)
    (enough : window.limit - here < fuel) (enough' : window.limit - here < fuel') :
    (gatherWithin round fuel).Tandem window (gatherWithin round' fuel') here
      (fun gathered stop => Rounds step final here gathered.1 gathered.2 stop) bad := by
  induction fuel generalizing fuel' here with
  | zero => omega
  | succ fuel induction =>
      obtain ⟨fuel', rfl⟩ := Nat.exists_eq_succ_of_ne_zero (Nat.ne_zero_of_lt enough')
      refine .inside fun inside => .bind (each here behind isSafe) fun outcome stop happened => ?_
      cases outcome with
      | item value =>
          obtain ⟨further, stepped, stopSafe⟩ := happened
          refine .inside fun stopInside => ?_
          refine .bind (induction (by omega) stopSafe (by omega) (by omega)) ?_
          intro gathered last rounds
          exact .pure (.item stepped rounds)
      | done result => exact .pure (.done happened)

theorem Tandem.gather {round round' : Parser (Round α β)} (step : Nat → α → Nat → Prop)
    (final : Nat → β → Nat → Prop) (safe : Nat → Prop) (start : safe place)
    (each : ∀ here, place ≤ here → safe here → round.Tandem window round' here
      (fun outcome stop =>
        match outcome with
        | .item value => here < stop ∧ step here value stop ∧ safe stop
        | .done result => final here result stop) bad) :
    (gather round).Tandem window (gather round') place
      (fun gathered stop => Rounds step final place gathered.1 gathered.2 stop) bad :=
  .remaining_bind fun _ _ enough enough' =>
    .gatherWithin step final safe each (Nat.le_refl _) start (by omega) (by omega)

/-- A loop ends where its last round does, if only the place matters. -/
theorem Tandem.gather_until {round round' : Parser (Round α β)} (safe : Nat → Prop)
    (start : safe place)
    (each : ∀ here, place ≤ here → safe here → round.Tandem window round' here
      (fun outcome stop =>
        match outcome with
        | .item _ => here < stop ∧ safe stop
        | .done _ => here ≤ stop ∧ safe stop) bad) :
    (Parser.gather round).Tandem window (Parser.gather round') place
      (fun _ stop => place ≤ stop ∧ safe stop) bad := by
  refine (Tandem.gather (fun here _ stop => here < stop)
    (fun here _ stop => here ≤ stop ∧ safe stop) safe start
    fun here behind isSafe => (each here behind isSafe).mono ?_ id).mono ?_ id
  · rintro (value | result) stop ⟨further, stopSafe⟩
    · exact ⟨further, further, stopSafe⟩
    · exact ⟨further, stopSafe⟩
  · rintro ⟨values, result⟩ stop rounds
    clear start each
    simp only at rounds
    induction rounds with
    | done final => exact final
    | item first _ induction => exact ⟨Nat.le_trans (Nat.le_of_lt first) induction.1, induction.2⟩

/-- What a loop over items does, from what the reading of one item does. -/
theorem Tandem.many {item? item?' : Parser (Option α)} (step : Nat → α → Nat → Prop)
    (final : Nat → Nat → Prop) (safe : Nat → Prop) (start : safe place)
    (each : ∀ here, place ≤ here → safe here → item?.Tandem window item?' here
      (fun found stop =>
        match found with
        | some value => here < stop ∧ step here value stop ∧ safe stop
        | none => final here stop) bad) :
    (many item?).Tandem window (many item?') place
      (fun values stop => Rounds step (fun here (_ : Unit) stop => final here stop)
        place values () stop) bad := by
  refine .bind (.gather step (fun here _ stop => final here stop) safe start
    fun here behind isSafe => ?_) fun gathered stop rounds => .pure rounds
  refine .bind (each here behind isSafe) fun found stop happened => ?_
  cases found with
  | some value => exact .pure happened
  | none => exact .pure happened

/-- A loop over items ends where its last round does, if only the place matters. -/
theorem Tandem.many_until {item? item?' : Parser (Option α)} (safe : Nat → Prop)
    (start : safe place)
    (each : ∀ here, place ≤ here → safe here → item?.Tandem window item?' here
      (fun found stop => (found.isSome = true → here < stop) ∧ here ≤ stop ∧ safe stop) bad) :
    (Parser.many item?).Tandem window (Parser.many item?') place
      (fun _ stop => place ≤ stop ∧ safe stop) bad := by
  refine .bind (.gather_until safe start fun here behind isSafe => ?_)
    fun gathered stop reached => .pure reached
  refine .bind (each here behind isSafe) fun found stop reached => ?_
  cases found with
  | some value => exact .pure ⟨reached.1 rfl, reached.2.2⟩
  | none => exact .pure ⟨reached.2.1, reached.2.2⟩

theorem Tandem.toEnd {body body' : Parser α} {good : α → Nat → Prop}
    (tandem : body.Tandem window body' place good True) :
    (toEnd body).Tandem window (toEnd body') place good True := by
  refine .bind tandem fun value stop isGood => .bind .expectFinish ?_
  rintro _ _ rfl
  exact .pure isGood

end Bodies

end Parser

end Docblock
