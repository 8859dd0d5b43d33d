import Docblock.Proofs.Words

/-!
# Reasoning about parsers by words

`Meets` says what becomes of a parser that starts at given words: the value and
the remaining words satisfy one property, or the parser fails and another one
holds.  With the second property always true this is partial correctness, with
the second one false it is total correctness, and with the first one false it
says that the parser fails.  Each reading step has a rule for either use, and the
rules for sequences, attempts and loops are the same for all.
-/

namespace Docblock

namespace Parser

variable {α β : Type}

/-- Started at `words`, the parser gives a value and remaining words that are `good`,
or it fails and `bad` holds. -/
def Meets (parser : Parser α) (words : List Word) (good : α → List Word → Prop)
    (bad : Prop) : Prop :=
  ∀ tracking cursor, cursor.words = words →
    match parser tracking cursor with
    | .ok value next => good value next.words
    | .failed _ _ => bad

/-- Started at `words`, the parser gives exactly `value` and stops at `rest`. -/
def Returns (parser : Parser α) (words : List Word) (value : α) (rest : List Word) : Prop :=
  parser.Meets words (fun found remaining => found = value ∧ remaining = rest) False

/-- Started at `words`, the parser fails. -/
def Rejects (parser : Parser α) (words : List Word) : Prop :=
  parser.Meets words (fun _ _ => False) True

variable {parser : Parser α} {next : α → Parser β} {words rest : List Word} {word : Word}
  {good : α → List Word → Prop} {bad : Prop} {kind : TokenKind}

theorem Meets.mono {good' : α → List Word → Prop} {bad' : Prop}
    (meets : parser.Meets words good bad)
    (goodImp : ∀ value rest, good value rest → good' value rest) (badImp : bad → bad') :
    parser.Meets words good' bad' := by
  intro tracking cursor seen
  have reply := meets tracking cursor seen
  split at reply
  · exact goodImp _ _ reply
  · exact badImp reply

theorem Meets.pure {value : α} (holds : good value words) :
    (pure value : Parser α).Meets words good bad := by
  intro tracking cursor seen
  rw [← seen] at holds
  exact holds

theorem Meets.bind {middle : α → List Word → Prop} {good : β → List Word → Prop}
    (first : parser.Meets words middle bad)
    (second : ∀ value rest, middle value rest → (next value).Meets rest good bad) :
    (parser >>= next).Meets words good bad := by
  intro tracking cursor seen
  have reply := first tracking cursor seen
  rw [bind_apply]
  cases replied : parser tracking cursor with
  | ok value after =>
      rw [replied] at reply
      exact second value after.words reply tracking after rfl
  | failed failure after =>
      rw [replied] at reply
      exact reply

theorem Returns.bind {value : α} {good : β → List Word → Prop}
    (first : parser.Returns words value rest) (second : (next value).Meets rest good bad) :
    (parser >>= next).Meets words good bad := by
  refine Meets.bind (first.mono (fun _ _ found => found) False.elim) ?_
  rintro _ _ ⟨rfl, rfl⟩
  exact second

theorem Rejects.bind {good : β → List Word → Prop} (first : parser.Rejects words)
    (failing : bad) : (parser >>= next).Meets words good bad :=
  Meets.bind (first.mono (fun _ _ impossible => impossible) fun _ => failing)
    fun _ _ impossible => impossible.elim

theorem Rejects.meets (rejects : parser.Rejects words) : parser.Meets words good True :=
  rejects.mono (fun _ _ impossible => impossible.elim) id

theorem Meets.look {view : Cursor → α}
    (holds : ∀ cursor : Cursor, cursor.words = words → good (view cursor) words) :
    (look view).Meets words good bad := by
  intro tracking cursor seen
  show good (view cursor) cursor.words
  rw [seen]
  exact holds cursor seen

/-- The index of the current token is not determined by the words. -/
theorem Meets.mark : mark.Meets words (fun _ rest => rest = words) bad :=
  .look fun _ _ => rfl

theorem Meets.positionsSince (start : Nat) :
    (positionsSince start).Meets words (fun _ rest => rest = words) bad :=
  fun _ _ seen => seen

theorem Meets.current :
    current.Meets (word :: rest)
      (fun token after => token.kind = word.kind ∧ token.value = word.text ∧
        after = word :: rest) bad :=
  .look fun _ seen => ⟨Cursor.kind_of_words seen, Cursor.value_of_words seen, rfl⟩

theorem Returns.isAt (kind : TokenKind) :
    (isAt kind).Returns (word :: rest) (decide (word.kind = kind)) (word :: rest) :=
  Meets.look fun cursor seen =>
    ⟨by rw [Cursor.isAt, Cursor.kind_of_words seen], rfl⟩

theorem Returns.isAt_yes (isKind : word.kind = kind) :
    (Parser.isAt kind).Returns (word :: rest) true (word :: rest) := by
  rw [← decide_eq_true isKind]
  exact Returns.isAt kind

theorem Returns.isAt_no (notKind : word.kind ≠ kind) :
    (Parser.isAt kind).Returns (word :: rest) false (word :: rest) := by
  rw [← decide_eq_false notKind]
  exact Returns.isAt kind

theorem Returns.isAtAny (kinds : KindSet) :
    (isAtAny kinds).Returns (word :: rest) (kinds.contains word.kind) (word :: rest) :=
  Meets.look fun cursor seen =>
    ⟨by rw [Cursor.isAtAny, Cursor.kind_of_words seen], rfl⟩

theorem Returns.isAtWord (kind : TokenKind) (value : String) :
    (isAtWord kind value).Returns (word :: rest)
      (decide (word.kind = kind ∧ word.text = value)) (word :: rest) :=
  Meets.look fun cursor seen =>
    ⟨by rw [Cursor.isAt, Cursor.isAtValue, Cursor.kind_of_words seen,
          Cursor.value_of_words seen, Bool.decide_and], rfl⟩

theorem Returns.isAfterBlank :
    isAfterBlank.Returns (word :: rest) word.gap (word :: rest) :=
  Meets.look fun _ seen => ⟨Cursor.gap_of_words seen, rfl⟩

theorem Meets.remaining :
    (Parser.look Cursor.remaining).Meets words
      (fun bound rest => words.length ≤ bound ∧ rest = words) bad :=
  .look fun cursor seen => ⟨by rw [← seen]; exact cursor.length_words_le, rfl⟩

theorem Returns.advance (more : rest ≠ []) : advance.Returns (word :: rest) () rest :=
  fun _ _ seen => ⟨rfl, Cursor.words_advance seen more⟩

theorem Returns.accept_yes (isKind : word.kind = kind) (more : rest ≠ []) :
    (accept kind).Returns (word :: rest) true rest := by
  intro tracking cursor seen
  have at_kind : cursor.isAt kind = true := by
    rw [Cursor.isAt, Cursor.kind_of_words seen, decide_eq_true isKind]
  simp only [accept, step, Cursor.accept, at_kind, if_true, true_and]
  exact Cursor.words_advance seen more

theorem Returns.accept_no (notKind : word.kind ≠ kind) :
    (accept kind).Returns (word :: rest) false (word :: rest) := by
  intro tracking cursor seen
  have at_kind : cursor.isAt kind = false := by
    rw [Cursor.isAt, Cursor.kind_of_words seen, decide_eq_false notKind]
  simp only [accept, step, Cursor.accept, at_kind, Bool.false_eq_true, if_false, true_and]
  exact seen

theorem Returns.acceptValue_yes {value : String} (isValue : word.text = value)
    (more : rest ≠ []) : (acceptValue value).Returns (word :: rest) true rest := by
  intro tracking cursor seen
  have at_value : cursor.isAtValue value = true := by
    rw [Cursor.isAtValue, Cursor.value_of_words seen, decide_eq_true isValue]
  simp only [acceptValue, step, Cursor.acceptValue, at_value, if_true, true_and]
  exact Cursor.words_advance seen more

theorem Returns.acceptValue_no {value : String} (notValue : word.text ≠ value) :
    (acceptValue value).Returns (word :: rest) false (word :: rest) := by
  intro tracking cursor seen
  have at_value : cursor.isAtValue value = false := by
    rw [Cursor.isAtValue, Cursor.value_of_words seen, decide_eq_false notValue]
  simp only [acceptValue, step, Cursor.acceptValue, at_value, Bool.false_eq_true, if_false,
    true_and]
  exact seen

theorem Returns.acceptWord_yes {value : String} (isKind : word.kind = kind)
    (isValue : word.text = value) (more : rest ≠ []) :
    (acceptWord kind value).Returns (word :: rest) true rest := by
  refine (Returns.isAt kind).bind ?_
  rw [if_pos (decide_eq_true isKind)]
  exact Returns.acceptValue_yes isValue more

theorem Returns.acceptWord_no {value : String}
    (notWord : ¬(word.kind = kind ∧ word.text = value)) :
    (acceptWord kind value).Returns (word :: rest) false (word :: rest) := by
  refine (Returns.isAt kind).bind ?_
  by_cases isKind : word.kind = kind
  · rw [if_pos (decide_eq_true isKind)]
    exact Returns.acceptValue_no fun isValue => notWord ⟨isKind, isValue⟩
  · rw [if_neg (by simp [isKind])]
    exact .pure ⟨rfl, rfl⟩

theorem Returns.consume (isKind : word.kind = kind) (more : rest ≠ []) :
    (consume kind).Returns (word :: rest) word.text rest := by
  intro tracking cursor seen
  have at_kind : cursor.isAt kind = true := by
    rw [Cursor.isAt, Cursor.kind_of_words seen, decide_eq_true isKind]
  simp only [Parser.consume, Cursor.consume, at_kind, if_true]
  exact ⟨Cursor.value_of_words seen, Cursor.words_advance seen more⟩

theorem Rejects.consume (notKind : word.kind ≠ kind) :
    (consume kind).Rejects (word :: rest) := by
  intro tracking cursor seen
  have at_kind : cursor.isAt kind = false := by
    rw [Cursor.isAt, Cursor.kind_of_words seen, decide_eq_false notKind]
  simp [Parser.consume, Cursor.consume, at_kind]

theorem Returns.consumeValue {value : String} (isKind : word.kind = kind)
    (isValue : word.text = value) (more : rest ≠ []) :
    (consumeValue kind value).Returns (word :: rest) () rest := by
  intro tracking cursor seen
  have at_word : (cursor.isAt kind && cursor.isAtValue value) = true := by
    rw [Cursor.isAt, Cursor.isAtValue, Cursor.kind_of_words seen, Cursor.value_of_words seen,
      decide_eq_true isKind, decide_eq_true isValue, Bool.and_self]
  simp only [Parser.consumeValue, Cursor.consumeValue, at_word, if_true, true_and]
  exact Cursor.words_advance seen more

theorem Rejects.consumeValue {value : String}
    (notWord : ¬(word.kind = kind ∧ word.text = value)) :
    (consumeValue kind value).Rejects (word :: rest) := by
  intro tracking cursor seen
  have at_word : (cursor.isAt kind && cursor.isAtValue value) = false := by
    rw [Cursor.isAt, Cursor.isAtValue, Cursor.kind_of_words seen, Cursor.value_of_words seen,
      ← Bool.decide_and, decide_eq_false notWord]
  simp [Parser.consumeValue, Cursor.consumeValue, at_word]

theorem Rejects.expecting : (expecting kind : Parser α).Rejects words :=
  fun _ _ _ => trivial

theorem Returns.expectFinish (isFinish : word.kind = .finish) :
    Parser.expectFinish.Returns (word :: rest) () (word :: rest) :=
  (Returns.isAt_yes isFinish).bind (.pure ⟨rfl, rfl⟩)

theorem Rejects.expectFinish (notFinish : word.kind ≠ .finish) :
    Parser.expectFinish.Rejects (word :: rest) :=
  (Returns.isAt_no notFinish).bind Rejects.expecting

theorem Returns.skipLineBreaks (ends : Sealed words) :
    skipLineBreaks.Returns words () (behindBreaks words) := by
  have within : ∀ (fuel : Nat) (words : List Word) (cursor : Cursor), Sealed words →
      words.length ≤ fuel → cursor.words = words →
        (Cursor.skipLineBreaksWithin fuel cursor).words = behindBreaks words := by
    intro fuel
    induction fuel with
    | zero =>
        intro words cursor ends bound
        exact absurd (List.eq_nil_of_length_eq_zero (by omega)) ends.ne_nil
    | succ fuel induction =>
        intro words cursor ends bound seen
        obtain ⟨word, rest, rfl⟩ := ends.exists_cons
        simp only [Cursor.skipLineBreaksWithin, Cursor.isAt, Cursor.kind_of_words seen,
          decide_eq_true_eq]
        by_cases isBreak : word.kind = .lineBreak
        · have restEnds : Sealed rest := ends.tail (by rw [isBreak]; decide)
          rw [if_pos isBreak,
            induction rest _ restEnds (by simpa using bound)
              (Cursor.words_advance seen restEnds.ne_nil)]
          simp [behindBreaks, Word.isBreak, isBreak]
        · rw [if_neg isBreak, seen]
          simp [behindBreaks, Word.isBreak, isBreak]
  intro tracking cursor seen
  refine ⟨rfl, within _ words cursor ends ?_ seen⟩
  rw [← seen]
  exact cursor.length_words_le

theorem Returns.skipLineBreaks_none (ends : Sealed (word :: rest))
    (notBreak : word.kind ≠ .lineBreak) :
    Parser.skipLineBreaks.Returns (word :: rest) () (word :: rest) := by
  have stays : behindBreaks (word :: rest) = word :: rest := by
    simp [behindBreaks, Word.isBreak, notBreak]
  have skips := Returns.skipLineBreaks ends
  rwa [stays] at skips

/-- Taking a token that may be absent, when it is not known whether it is there. -/
theorem Meets.accept (ends : Sealed words) (notFinish : kind ≠ .finish) :
    (Parser.accept kind).Meets words
      (fun taken rest =>
        (taken = true ∧ Sealed rest ∧ ∃ word, word.kind = kind ∧ words = word :: rest) ∨
          (taken = false ∧ rest = words ∧ ∀ word ∈ words.head?, word.kind ≠ kind)) bad := by
  obtain ⟨word, rest, rfl⟩ := ends.exists_cons
  by_cases isKind : word.kind = kind
  · have restEnds : Sealed rest := ends.tail (by rw [isKind]; exact notFinish)
    refine (Returns.accept_yes isKind restEnds.ne_nil).mono ?_ False.elim
    rintro _ _ ⟨rfl, rfl⟩
    exact .inl ⟨rfl, restEnds, word, isKind, rfl⟩
  · refine (Returns.accept_no isKind).mono ?_ False.elim
    rintro _ _ ⟨rfl, rfl⟩
    exact .inr ⟨rfl, rfl, by simpa using isKind⟩

/-- Taking a token that must be there. -/
theorem Meets.consume (ends : Sealed words) (notFinish : kind ≠ .finish) :
    (Parser.consume kind).Meets words
      (fun text rest => Sealed rest ∧ ∃ word, word.kind = kind ∧ word.text = text ∧
        words = word :: rest) True := by
  obtain ⟨word, rest, rfl⟩ := ends.exists_cons
  by_cases isKind : word.kind = kind
  · have restEnds : Sealed rest := ends.tail (by rw [isKind]; exact notFinish)
    refine (Returns.consume isKind restEnds.ne_nil).mono ?_ False.elim
    rintro _ _ ⟨rfl, rfl⟩
    exact ⟨restEnds, word, isKind, rfl, rfl⟩
  · exact (Rejects.consume isKind).meets

/-- An attempt never fails; when its body does, it is back at the words where it started. -/
theorem Meets.attempt {good' : Except SyntaxError α → List Word → Prop} {bad' : Prop}
    (steady : parser.Steady) (body : parser.Meets words good bad)
    (found : ∀ value rest, good value rest → good' (.ok value) rest)
    (missed : bad → ∀ error, good' (.error error) words) :
    (Parser.attempt parser).Meets words good' bad' := by
  intro tracking cursor seen
  have reply := body tracking cursor.push (by rw [Cursor.push_eq]; exact seen)
  have bodyReply := steady tracking cursor.push
  rw [attempt_eq steady]
  cases replied : parser tracking cursor.push with
  | ok value after =>
      rw [replied] at reply bodyReply
      obtain ⟨index, rfl⟩ := bodyReply
      exact found value _ reply
  | failed failure after =>
      rw [replied] at reply bodyReply
      cases failure with
      | rejected error =>
          show good' (.error error) cursor.words
          rw [seen]
          exact missed reply error
      | unbalanced use => exact bodyReply.elim

/-- An attempt at something of which only the success is known. -/
theorem Meets.attempt_either (steady : parser.Steady) (body : parser.Meets words good bad) :
    (Parser.attempt parser).Meets words
      (fun outcome rest =>
        match outcome with
        | .ok value => good value rest
        | .error _ => rest = words) False :=
  .attempt steady body (fun _ _ isGood => isGood) fun _ _ => rfl

/-- An attempt at something that is there. -/
theorem Meets.attempt_ok (steady : parser.Steady) (body : parser.Meets words good False) :
    (Parser.attempt parser).Meets words
      (fun outcome rest => ∃ value, outcome = .ok value ∧ good value rest) False :=
  .attempt steady body (fun value _ isGood => ⟨value, rfl, isGood⟩) False.elim

/-- An attempt at something that is not there. -/
theorem Rejects.attempt (steady : parser.Steady) (body : parser.Rejects words) :
    (Parser.attempt parser).Meets words
      (fun outcome rest => rest = words ∧ ∃ error, outcome = .error error) False :=
  .attempt steady body (fun _ _ impossible => impossible.elim) fun _ error => ⟨rfl, error, rfl⟩

/-- Like `Meets`, but the parser starts with an innermost save point at the words
`saved`, which it takes off the stack. -/
def Holds (parser : Parser α) (saved words : List Word) (good : α → List Word → Prop)
    (bad : Prop) : Prop :=
  ∀ tracking (cursor : Cursor) index, cursor.words = words →
    (cursor.moveTo index).words = saved →
    match parser tracking (cursor.withSavePoint index) with
    | .ok value next => good value next.words
    | .failed _ _ => bad

theorem Meets.push_bind {next : Unit → Parser α}
    (opened : (next ()).Holds words words good bad) : (push >>= next).Meets words good bad :=
  fun tracking cursor seen => opened tracking cursor cursor.index seen seen

theorem Holds.drop_bind {next : Unit → Parser α} {saved : List Word}
    (closed : (next ()).Meets words good bad) : (drop >>= next).Holds saved words good bad :=
  fun tracking cursor _ seen _ => closed tracking cursor seen

theorem Holds.rollback_bind {next : Unit → Parser α} {saved : List Word}
    (closed : (next ()).Meets saved good bad) :
    (rollback >>= next).Holds saved words good bad :=
  fun tracking cursor index _ savedSeen => closed tracking (cursor.moveTo index) savedSeen

/-- A steady parser does not touch the save point that is open. -/
theorem Holds.bind {saved : List Word} {middle : α → List Word → Prop}
    {good : β → List Word → Prop} (steady : parser.Steady)
    (first : parser.Meets words middle bad)
    (second : ∀ value rest, middle value rest → (next value).Holds saved rest good bad) :
    (parser >>= next).Holds saved words good bad := by
  intro tracking cursor index seen savedSeen
  have reply := first tracking (cursor.withSavePoint index) seen
  have unchanged := steady tracking (cursor.withSavePoint index)
  rw [bind_apply]
  cases replied : parser tracking (cursor.withSavePoint index) with
  | ok value after =>
      rw [replied] at reply unchanged
      obtain ⟨target, rfl⟩ := unchanged
      exact second value _ reply tracking (cursor.moveTo target) index rfl savedSeen
  | failed failure after =>
      rw [replied] at reply
      exact reply

theorem Returns.bind_holds {saved : List Word} {value : α} {good : β → List Word → Prop}
    (first : parser.Returns words value rest) (steady : parser.Steady)
    (second : (next value).Holds saved rest good bad) :
    (parser >>= next).Holds saved words good bad := by
  refine Holds.bind steady (first.mono (fun _ _ found => found) False.elim) ?_
  rintro _ _ ⟨rfl, rfl⟩
  exact second

section Loops

variable {round : Parser (Round α β)}
  {step : List Word → α → List Word → Prop} {last : List Word → β → List Word → Prop}

/-- Rounds of a loop, each from the state in which the one before it ended: a round that gives
an item makes a `step`, and the final round makes the `last` one. -/
inductive Rounds {σ : Type} (step : σ → α → σ → Prop) (last : σ → β → σ → Prop) :
    σ → List α → β → σ → Prop
  | done {state : σ} {result : β} {rest : σ}
      (final : last state result rest) : Rounds step last state [] result rest
  | item {state middle rest : σ} {value : α} {values : List α} {result : β}
      (first : step state value middle)
      (others : Rounds step last middle values result rest) :
      Rounds step last state (value :: values) result rest

theorem Rounds.imp {step' : List Word → α → List Word → Prop}
    {last' : List Word → β → List Word → Prop} {values : List α} {result : β}
    (rounds : Rounds step last words values result rest)
    (stepImp : ∀ words value rest, step words value rest → step' words value rest)
    (lastImp : ∀ words result rest, last words result rest → last' words result rest) :
    Rounds step' last' words values result rest := by
  induction rounds with
  | done final => exact .done (lastImp _ _ _ final)
  | item first others induction => exact .item (stepImp _ _ _ first) induction

/-- What a loop does, from what one of its rounds does. -/
theorem Meets.gather (step : List Word → α → List Word → Prop)
    (last : List Word → β → List Word → Prop) (safe : List Word → Prop) (start : safe words)
    (each : ∀ words, safe words → round.Meets words
      (fun outcome rest =>
        match outcome with
        | .item value => step words value rest ∧ safe rest
        | .done result => last words result rest) True) :
    (Parser.gather round).Meets words
      (fun gathered rest => Rounds step last words gathered.1 gathered.2 rest) True := by
  refine .bind .remaining ?_
  rintro bound here ⟨-, rfl⟩
  generalize bound + 1 = fuel
  induction fuel generalizing here with
  | zero => exact Rejects.expecting.meets
  | succ fuel induction =>
      refine .bind (each here start) fun outcome rest happened => ?_
      cases outcome with
      | item value =>
          refine .bind (induction _ happened.2) fun gathered after rounds => ?_
          exact .pure (.item happened.1 rounds)
      | done result => exact .pure (.done happened)

/-- A loop succeeds if each of its rounds does and every item takes a word. -/
theorem Meets.gather_total (related : α → α → Prop) {values : List α} {result : β}
    (rounds : Rounds
      (fun words value rest => rest.length < words.length ∧ round.Meets words
        (fun outcome after => after = rest ∧ ∃ found, outcome = .item found ∧
          related value found) False)
      (fun words result rest => round.Returns words (.done result) rest)
      words values result rest) :
    (Parser.gather round).Meets words
      (fun gathered after => after = rest ∧ List.Forall₂ related values gathered.1 ∧
        gathered.2 = result) False := by
  refine .bind .remaining ?_
  rintro bound _ ⟨enough, rfl⟩
  induction rounds generalizing bound with
  | done final =>
      refine final.bind ?_
      exact .pure ⟨rfl, .nil, rfl⟩
  | item first others induction =>
      obtain ⟨shorter, read⟩ := first
      refine .bind read ?_
      rintro _ _ ⟨rfl, found, rfl, foundRelated⟩
      cases bound with
      | zero => omega
      | succ bound =>
          refine .bind (induction bound (by omega)) ?_
          rintro gathered _ ⟨rfl, relatedAll, resultEq⟩
          exact .pure ⟨rfl, .cons foundRelated relatedAll, resultEq⟩

end Loops

section Many

variable {item? : Parser (Option α)}
  {step : List Word → α → List Word → Prop} {last : List Word → List Word → Prop}

/-- What a loop over items does, from what the reading of one item does. -/
theorem Meets.many (step : List Word → α → List Word → Prop)
    (last : List Word → List Word → Prop) (safe : List Word → Prop) (start : safe words)
    (each : ∀ words, safe words → item?.Meets words
      (fun found rest =>
        match found with
        | some value => step words value rest ∧ safe rest
        | none => last words rest) True) :
    (Parser.many item?).Meets words
      (fun values rest => Rounds step (fun words (_ : Unit) rest => last words rest)
        words values () rest) True := by
  refine .bind (Meets.gather step (fun words _ rest => last words rest) safe start
    fun words wordsSafe => ?_)
    fun gathered rest rounds => .pure rounds
  refine .bind (each words wordsSafe) fun found rest happened => ?_
  cases found with
  | some value => exact .pure happened
  | none => exact .pure happened

/-- A loop over items succeeds if the reading of each does and every item takes a word. -/
theorem Meets.many_total (related : α → α → Prop) {values : List α}
    (rounds : Rounds
      (fun words value rest => rest.length < words.length ∧ item?.Meets words
        (fun found after => after = rest ∧ ∃ other, found = some other ∧
          related value other) False)
      (fun words (_ : Unit) rest => item?.Returns words none rest)
      words values () rest) :
    (Parser.many item?).Meets words
      (fun found after => after = rest ∧ List.Forall₂ related values found) False := by
  refine .bind (Meets.gather_total related (rounds.imp ?_ ?_)) ?_
  · rintro words value rest ⟨shorter, read⟩
    refine ⟨shorter, .bind read ?_⟩
    rintro _ _ ⟨rfl, found, rfl, foundRelated⟩
    exact .pure ⟨rfl, found, rfl, foundRelated⟩
  · intro words _ rest none
    refine none.bind ?_
    exact .pure ⟨rfl, rfl⟩
  · rintro gathered _ ⟨rfl, relatedAll, -⟩
    exact .pure ⟨rfl, relatedAll⟩

/-- A loop over items that are not there gives none. -/
theorem Returns.many_none (absent : item?.Returns words none rest) :
    (Parser.many item?).Returns words [] rest := by
  refine (Meets.many_total (fun _ _ => True) (.done absent)).mono ?_ id
  rintro values _ ⟨rfl, related⟩
  cases related
  exact ⟨rfl, rfl⟩

end Many

section Run

variable {tracking : Tracking} {tokens : List Token} {value : α}

/-- What is known of a parser holds of what it makes of tokens. -/
theorem Meets.of_run (meets : parser.Meets (Cursor.ofTokens tokens).words good bad)
    (read : (parser.run tracking tokens).result = .ok value) : ∃ rest, good value rest := by
  have reply := meets tracking (Cursor.ofTokens tokens) rfl
  rw [Parser.run] at read
  cases replied : parser tracking (Cursor.ofTokens tokens) with
  | ok found next =>
      rw [replied] at reply read
      cases read
      exact ⟨next.words, reply⟩
  | failed failure next =>
      rw [replied] at read
      cases read

/-- A parser that does not fail makes something of tokens. -/
theorem Meets.exists_run (meets : parser.Meets (Cursor.ofTokens tokens).words good False)
    (tracking : Tracking) :
    ∃ value rest, (parser.run tracking tokens).result = .ok value ∧ good value rest := by
  have reply := meets tracking (Cursor.ofTokens tokens) rfl
  rw [Parser.run]
  cases replied : parser tracking (Cursor.ofTokens tokens) with
  | ok found next =>
      rw [replied] at reply
      exact ⟨found, next.words, rfl, reply⟩
  | failed failure next =>
      rw [replied] at reply
      exact reply.elim

end Run

end Parser

end Docblock
