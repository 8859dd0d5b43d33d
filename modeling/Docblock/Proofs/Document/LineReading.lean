import Docblock.Proofs.Document.LineTags
import Docblock.Proofs.Document.Lines
import Docblock.Proofs.Document.Sameness
import Mathlib.Data.List.DropRight

/-!
# Comments are read line by line

Reading the tokens of a comment gives the children that its lines make up, as long as the values
of its tags are free text.  For other tags nothing is claimed, except that they are recognised:
a value is free text only if the name of its tag asks for it.
-/

namespace Docblock

open Docblock.Parser

/-- A line that starts with something else than a blank has text. -/
theorem lineText_eq_empty_iff {source : String} {front after : List Token} {token : Token}
    (split : tokenize source = front ++ token :: after) (solid : token.kind ≠ .blank) :
    TokenList.lineText (token :: after) = "" ↔ Prose.lineEnds.contains token.kind = true := by
  constructor
  · intro isEmpty
    by_contra inLine
    rw [Bool.not_eq_true] at inLine
    have more : after ≠ [] := by
      rw [Ne, ← kind_eq_finish_iff split]
      rintro isFinish
      rw [isFinish] at inLine
      exact absurd inLine (by decide)
    obtain ⟨char, rest, isKind, isValue⟩ := exists_lexeme_of_split split more
    have notBlank : Text.isBlank char = false := by
      apply Bool.eq_false_iff.mpr
      intro isBlank
      rw [isKind, Lexeme.first_blank isBlank] at solid
      exact solid rfl
    have allBlank : List.rdropWhile Text.isBlank
        (TokenList.text (TokenList.line (token :: after))).toList = [] := by
      have isNil := congrArg String.toList isEmpty
      rwa [TokenList.lineText, Text.trimEnd, String.toList_ofList] at isNil
    rw [List.rdropWhile_eq_nil_iff] at allBlank
    have isFirst : char ∈ (TokenList.text (TokenList.line (token :: after))).toList := by
      rw [TokenList.line, List.takeWhile_cons, inLine]
      simp [isValue]
    rw [allBlank char isFirst] at notBlank
    cases notBlank
  · exact TokenList.lineText_end

theorem Child.readsText_bare (child : Child) : child.bare.readsText = child.readsText := by
  cases child <;> rfl

namespace Parser

variable {α β : Type} {tracking : Tracking} {cursor : Cursor}

theorem exists_of_bind {first : Parser α} {next : α → Parser β} {value : β} {stop : Cursor}
    (read : (first >>= next) tracking cursor = .ok value stop) :
    ∃ middle passed, first tracking cursor = .ok middle passed ∧
      next middle tracking passed = .ok value stop := by
  rw [bind_apply] at read
  split at read
  · next middle passed isFirst => exact ⟨middle, passed, isFirst, read⟩
  · cases read

theorem exists_of_attempt {body : Parser α} {value : α} {stop : Cursor}
    (read : attempt body tracking cursor = .ok (.ok value) stop) :
    ∃ passed, body tracking cursor.push = .ok value passed := by
  rw [attempt] at read
  split at read
  · next found passed isBody =>
      obtain ⟨-, _, -, isValue⟩ := exists_of_bind read
      cases isValue
      exact ⟨passed, isBody⟩
  · obtain ⟨-, _, -, isError⟩ := exists_of_bind read
    cases isError
  · cases read

/-- What every reply with a value tells about the value. -/
theorem Tandem.gives {window : Window} {place : Nat} {bad : Prop} {parser parser' : Parser α}
    {good : α → Nat → Prop} {holds : α → Prop}
    (tandem : parser.Tandem window parser' place good bad)
    (each : ∀ tracking cursor value stop, parser tracking cursor = .ok value stop → holds value) :
    parser.Tandem window parser' place (fun value stop => good value stop ∧ holds value) bad := by
  intro inside tracking saved saved'
  rcases (tandem inside tracking saved saved').cases with
    ⟨value, stop, stopInside, isGood, isFirst, isSecond⟩ |
      ⟨error, stop, stopInside, isBad, located, isFirst, isSecond⟩
  · rw [isFirst, isSecond]
    exact .ok stopInside ⟨isGood, each _ _ _ _ isFirst⟩
  · rw [isFirst, isSecond]
    exact .rejected stopInside located isBad

/-- An attempt at something that cannot fail succeeds. -/
theorem Tandem.attempt_safe {window : Window} {place : Nat} {bad : Prop} {body body' : Parser α}
    {good : α → Nat → Prop} (tandem : body.Tandem window body' place good False) :
    (Parser.attempt body).Tandem window (Parser.attempt body') place
      (fun outcome stop => ∃ value, outcome = .ok value ∧ good value stop) bad := by
  intro inside tracking saved saved'
  have push (cursor : Cursor) (saved : List Nat) :
      (cursor.standing place saved).push = cursor.standing place (place :: saved) := rfl
  rw [Parser.attempt, Parser.attempt, push, push]
  obtain ⟨value, stop, stopInside, isGood, isFirst, isSecond⟩ :=
    tandem.exists_ok inside tracking (place :: saved) (place :: saved')
  rw [isFirst, isSecond]
  exact .ok stopInside ⟨value, rfl, isGood⟩

end Parser

namespace TagValue

variable {tracking : Tracking} {cursor stop : Cursor} {value : TagValue}

theorem isFreeText_of_readRule {rule : TagRule} (notText : rule ≠ .deprecated)
    (read : readRule rule tracking cursor = .ok value stop) : value.isFreeText = false := by
  have formed {α : Type} {body : Parser α} {form : α → TagValue}
      (isFormed : ∀ part, (form part).isFreeText = false)
      (read : (body >>= fun part => pure (form part)) tracking cursor = .ok value stop) :
      value.isFreeText = false := by
    obtain ⟨part, _, -, isValue⟩ := exists_of_bind read
    cases isValue
    exact isFormed part
  cases rule with
  | deprecated => exact absurd rfl notText
  | _ => exact formed (fun _ => rfl) read

/-- A value is free text only if the name of its tag asks for it. -/
theorem isFreeText_of_read {name : String} (notText : TagRule.readsText name = false)
    (read : parser name tracking cursor = .ok value stop) : value.isFreeText = false := by
  obtain ⟨rule, known, isRuled⟩ := TagRule.exists_of_readsText_eq_false notText
  obtain ⟨start, _, -, read⟩ := exists_of_bind read
  rw [known] at read
  obtain ⟨outcome, _, isAttempt, read⟩ := exists_of_bind read
  cases outcome with
  | ok found =>
      obtain ⟨_, isRead⟩ := exists_of_attempt isAttempt
      obtain ⟨_, _, isRule, isWhole⟩ := exists_of_bind isRead
      obtain ⟨atEnd, _, -, isWhole⟩ := exists_of_bind isWhole
      obtain ⟨_, _, -, isValue⟩ := exists_of_bind read
      cases isValue
      cases atEnd with
      | true =>
          cases isWhole
          have ofRule := isFreeText_of_readRule isRuled isRule
          cases found <;> first | rfl | cases ofRule
      | false => cases isWhole
  | error error =>
      obtain ⟨_, _, -, read⟩ := exists_of_bind read
      obtain ⟨_, _, -, isValue⟩ := exists_of_bind read
      cases isValue
      rfl

end TagValue

/-- The text from a place on, up to the end of the line. -/
def lineTextAt (source : String) (place : Nat) : String :=
  TokenList.lineText ((tokenize source).drop place)

/-- The lines behind the line at a place. -/
def linesBehind (source : String) (place : Nat) : List Line :=
  TokenList.linesAfter ((tokenize source).drop place)

/-- The lines of which the first one starts at a place. -/
def linesOnward (source : String) (place : Nat) : List Line :=
  TokenList.linesFrom ((tokenize source).drop place)

section Reading

variable {source : String} {window : Window} {place : Nat} {bad : Prop}

/-- The tokens of a text from a place in a window on. -/
theorem Window.drop_eq_cons (isText : window.first = Cursor.onTokens (tokenize source))
    (inside : place ≤ window.limit) : (tokenize source).drop place =
      window.token place :: (tokenize source).drop (place + 1) := by
  have dropped (start : Nat) : window.first.tokensFrom start = (tokenize source).drop start := by
    rw [isText]
    exact Cursor.tokensFrom_onTokens (tokenize source) 0 start []
  rw [← dropped, ← dropped]
  exact (window.tokensFrom_eq inside).1

theorem Window.lt_length (isText : window.first = Cursor.onTokens (tokenize source))
    (inside : place ≤ window.limit) : place < (tokenize source).length := by
  have bound := window.inFirst
  rw [isText, Cursor.size_onTokens] at bound
  omega

theorem Window.kind_limit (isText : window.first = Cursor.onTokens (tokenize source))
    (isLimit : window.limit = (tokenize source).findIdx (·.kind = .closeDoc)) :
    window.kind window.limit = .closeDoc := by
  have found : (tokenize source).findIdx (·.kind = .closeDoc) < (tokenize source).length := by
    rw [← isLimit]
    exact window.lt_length isText (Nat.le_refl _)
  rw [Window.kind_eq_kindAt isText, isLimit, kindAt, Cursor.tokenAt_onTokens,
    List.getElem?_eq_getElem found]
  exact of_decide_eq_true (List.findIdx_getElem (w := found))

/-- The rest of the line at a place. -/
theorem Window.lineFrom_eq (isText : window.first = Cursor.onTokens (tokenize source))
    (place : Nat) : window.lineFrom place = TokenList.line ((tokenize source).drop place) := by
  rw [Window.lineFrom, isText]
  exact congrArg (List.takeWhile _) (Cursor.tokensFrom_onTokens (tokenize source) 0 place [])

/-- A step leads behind a token and one blank. -/
theorem Window.drop_next (isText : window.first = Cursor.onTokens (tokenize source))
    (before : place < window.limit) : (tokenize source).drop (window.first.next place) =
      TokenList.behindBlank ((tokenize source).drop (place + 1)) := by
  rw [(window.next_eq before).1, window.drop_eq_cons isText before, TokenList.behindBlank,
    Window.kind]
  split
  · rfl
  · exact window.drop_eq_cons isText before

/-- Behind a step there is no blank. -/
theorem Window.next_solid (isText : window.first = Cursor.onTokens (tokenize source))
    (before : place < window.limit) : window.kind (window.first.next place) ≠ .blank := by
  rw [(window.next_eq before).1]
  split
  · next isBlank =>
      rw [Window.kind_eq_kindAt isText] at isBlank ⊢
      exact kindAt_succ_ne_blank isBlank
  · next notBlank => exact notBlank

theorem lineTextAt_eq_empty_iff (isText : window.first = Cursor.onTokens (tokenize source))
    (inside : place ≤ window.limit) (solid : window.kind place ≠ .blank) :
    lineTextAt source place = "" ↔
      Prose.lineEnds.contains (window.kind place) = true := by
  have isCons := window.drop_eq_cons isText inside
  have split : tokenize source = (tokenize source).take place ++
      window.token place :: (tokenize source).drop (place + 1) := by
    rw [← isCons, List.take_append_drop]
  rw [lineTextAt, isCons]
  exact lineText_eq_empty_iff split solid

/-- Where a line ends without a line break, the comment or the input ends. -/
theorem linesBehind_end (isText : window.first = Cursor.onTokens (tokenize source))
    (inside : place ≤ window.limit)
    (atEnd : Prose.lineEnds.contains (window.kind place) = true)
    (notBreak : window.kind place ≠ .lineBreak) : linesBehind source place = [] := by
  have isEnd : window.kind place ∈ [.closeDoc, .finish] :=
    (Prose.lineEnds_contains_iff.mp atEnd).resolve_left notBreak
  rw [linesBehind, window.drop_eq_cons isText inside, TokenList.linesAfter_end isEnd]

/-- The rest of a line is its text, and the lines behind it stay the same. -/
theorem Window.IsLine.lines (isText : window.first = Cursor.onTokens (tokenize source))
    {text : String} {stop : Nat} (line : window.IsLine place text stop) :
    text = lineTextAt source place ∧ linesBehind source stop = linesBehind source place := by
  have isLine := window.lineFrom_eq isText place
  refine ⟨?_, ?_⟩
  · rw [line.text_eq, isLine]
    rfl
  · rw [linesBehind, line.stop_eq, ← List.drop_drop, isLine, TokenList.linesAfter_drop_line,
      linesBehind]

/-- Where a line breaks, the line behind the break is the next one. -/
theorem linesBehind_lineBreak (isText : window.first = Cursor.onTokens (tokenize source))
    (inside : place ≤ window.limit) (isBreak : window.kind place = .lineBreak) :
    linesBehind source place = linesOnward source (window.first.next place) := by
  have before := window.lt_limit_of_lineBreak inside isBreak
  rw [linesBehind, window.drop_eq_cons isText inside, TokenList.linesAfter_lineBreak isBreak,
    linesOnward, window.drop_next isText before]

/-- A text that goes on does so with the text of the next line. -/
theorem Window.GoesOn.lines (isText : window.first = Cursor.onTokens (tokenize source))
    (inside : place ≤ window.limit) (goesOn : window.GoesOn place) :
    linesBehind source place = ⟨none, lineTextAt source (window.first.next place)⟩ ::
        linesBehind source (window.first.next place) ∧
      lineTextAt source (window.first.next place) ≠ "" := by
  have before := window.lt_limit_of_lineBreak inside goesOn.1
  have nextInside := window.next_le before
  obtain ⟨isBreak, unstopped⟩ := goesOn
  rw [← Bool.not_eq_true, Prose.textEnds_contains_iff, not_or, Bool.not_eq_true] at unstopped
  constructor
  · rw [linesBehind_lineBreak isText inside isBreak, linesOnward, lineTextAt, linesBehind,
      window.drop_eq_cons isText nextInside, TokenList.linesFrom_text unstopped.1 unstopped.2]
  · rw [Ne, lineTextAt_eq_empty_iff isText nextInside (window.next_solid isText before),
      unstopped.1]
    exact Bool.false_ne_true

/-- Where a text does not go on, no line continues it. -/
theorem Window.continues_eq_false (isText : window.first = Cursor.onTokens (tokenize source))
    (inside : place ≤ window.limit)
    (atEnd : Prose.lineEnds.contains (window.kind place) = true) (stops : ¬window.GoesOn place) :
    ∀ line ∈ (linesBehind source place).head?, line.continues = false := by
  by_cases isBreak : window.kind place = .lineBreak
  · have nextInside := window.next_le (window.lt_limit_of_lineBreak inside isBreak)
    have isStopped :
        Prose.textEnds.contains (window.kind (window.first.next place)) = true := by
      simpa [Window.GoesOn, isBreak] using stops
    rw [linesBehind_lineBreak isText inside isBreak, linesOnward,
      window.drop_eq_cons isText nextInside]
    exact TokenList.linesFrom_textEnd isStopped
  · rw [linesBehind_end isText inside atEnd isBreak]
    simp

/-- Each round of a text takes one line, until the text does not go on. -/
theorem Window.lines_of_rounds (isText : window.first = Cursor.onTokens (tokenize source))
    {here stop : Nat} {texts : List String}
    (rounds : Rounds window.NextLine window.StopsText here texts () stop)
    (onLine : here ≤ window.last) :
    (∀ text ∈ texts, text ≠ "") ∧
      linesBehind source here = texts.map (Line.mk none) ++ linesBehind source stop ∧
      ¬window.GoesOn stop := by
  have lastLe := window.last_le
  generalize () = result at rounds
  induction rounds with
  | done final =>
      obtain ⟨stops, rfl⟩ := final
      exact ⟨nofun, rfl, stops⟩
  | item round _ induction =>
      obtain ⟨goesOn, line⟩ := round
      obtain ⟨isNext, hasText⟩ := goesOn.lines isText (by omega)
      obtain ⟨rfl, sameLines⟩ := line.lines isText
      obtain ⟨nonempty, isBehind, stops⟩ := induction line.onLine
      rw [isNext, ← sameLines, isBehind]
      exact ⟨List.forall_mem_cons.mpr ⟨hasText, nonempty⟩, rfl, stops⟩

/-- A text is made of its first line and the lines that continue it. -/
theorem Window.IsText.exists_lines (isText : window.first = Cursor.onTokens (tokenize source))
    (inside : place ≤ window.limit) (solid : window.kind place ≠ .blank) {text : String}
    {stop : Nat} (found : window.IsText place text stop) :
    ∃ others, TextLines (lineTextAt source place) others ∧
      text = String.intercalate "\n" (lineTextAt source place :: others) ∧
      linesBehind source place = others.map (Line.mk none) ++ linesBehind source stop ∧
      (text ≠ "" → ¬window.GoesOn stop) := by
  have isEmpty_iff := lineTextAt_eq_empty_iff isText inside solid
  cases found with
  | nothing isBreak =>
      have isEmpty : lineTextAt source place = "" := by
        rw [isEmpty_iff, isBreak]
        decide
      rw [isEmpty]
      exact ⟨[], ⟨by simp, by simp⟩, rfl, rfl, fun hasText => absurd rfl hasText⟩
  | @lines _ others _ _ notBreak line rounds =>
      obtain ⟨rfl, sameLines⟩ := line.lines isText
      obtain ⟨nonempty, isBehind, stops⟩ := window.lines_of_rounds isText rounds line.onLine
      rw [sameLines] at isBehind
      refine ⟨others, ⟨fun some isEmpty => ?_, nonempty⟩, rfl, isBehind, fun _ => stops⟩
      rw [linesBehind_end isText inside (isEmpty_iff.mp isEmpty) notBreak, eq_comm,
        List.append_eq_nil_iff, List.map_eq_nil_iff] at isBehind
      exact some isBehind.1

namespace Prose

/-- A text is what its first line and the lines that continue it make up. -/
theorem parser_lines (isText : window.first = Cursor.onTokens (tokenize source))
    (onLine : place ≤ window.last) (solid : window.kind place ≠ .blank) :
    parser.Tandem window parser place (fun text stop => window.AtLineEnd place text stop ∧
      ∀ tag, Line.children (⟨tag, lineTextAt source place⟩ :: linesBehind source place) =
        Line.child ⟨tag, text⟩ :: Line.children (linesBehind source stop)) bad := by
  refine .inside fun inside => (parser_reads onLine).mono ?_ id
  intro text stop found
  have reached := found.atLineEnd onLine
  obtain ⟨others, lines, rfl, isBehind, stops⟩ := found.exists_lines isText inside solid
  refine ⟨reached, fun tag => ?_⟩
  rw [isBehind]
  apply lines.children_eq
  intro hasText
  exact Window.continues_eq_false isText (Nat.le_trans reached.1.2 window.last_le) reached.2
    (stops (mt lines.joined_eq_empty.mp hasText))

end Prose

namespace TagValue

/-- Where the name of a tag asks for free text, its value is the text that is read. -/
theorem parser_ofProse {name : String} (readsText : TagRule.readsText name = true)
    {good : String → Nat → Prop} (prose : Prose.parser.Tandem window Prose.parser place good False)
    (atEnd : ∀ text stop, good text stop → Prose.lineEnds.contains (window.kind stop) = true) :
    (parser name).Tandem window (parser name) place
      (fun value stop => ∃ text, good text stop ∧ value.bare = ofProse name text) bad := by
  refine .marked fun inside => ?_
  split
  · next unknown =>
      refine .bind (prose.mono (fun _ _ => id) False.elim) ?_
      intro text stop isGood
      exact .positioned inside fun _ =>
        ⟨text, isGood, by simp [ofProse, unknown, bare, TextTag.bare]⟩
  · next rule known =>
      obtain rfl : rule = .deprecated := by
        rw [TagRule.readsText, known] at readsText
        exact of_decide_eq_true readsText
      have text : (readRule .deprecated).Tandem window (readRule .deprecated) place
          (fun value stop => ∃ text, good text stop ∧ value.bare = ofProse name text) False := by
        refine .bind prose fun text stop isGood => .pure ⟨text, isGood, ?_⟩
        simp [ofProse, known, bare, TextTag.bare]
      have whole := readWholeRule_safe text (by
        rintro _ stop ⟨text, isGood, -⟩
        exact atEnd text stop isGood)
      refine .bind (.attempt_safe whole) ?_
      rintro _ stop ⟨value, rfl, text, isGood, same⟩
      exact .positioned inside fun attributes =>
        ⟨text, isGood, by rw [bare_withAttributes, same]⟩

/-- The lines from `place` on are the value of a tag and the lines behind `stop`. -/
def Spans (source name : String) (place : Nat) (value : TagValue) (stop : Nat) : Prop :=
  Line.children (⟨some name, lineTextAt source place⟩ :: linesBehind source place) =
    .tag ⟨name, value.bare, .empty⟩ :: Line.children (linesBehind source stop)

/-- Where the name of a tag asks for free text, its value is the text of its lines. -/
theorem parser_lines {name : String} (readsText : TagRule.readsText name = true)
    (isText : window.first = Cursor.onTokens (tokenize source))
    (onLine : place ≤ window.last) (solid : window.kind place ≠ .blank) :
    (parser name).Tandem window (parser name) place
      (fun value stop => window.AtLineEnd place value stop ∧ Spans source name place value stop)
      bad := by
  refine (parser_ofProse readsText (Prose.parser_lines isText onLine solid)
    fun _ _ found => found.1.2).mono ?_ id
  rintro value stop ⟨text, ⟨reached, gathered⟩, same⟩
  exact ⟨reached, by rw [Spans, same, gathered, Line.child]⟩

end TagValue

/-- The lines from `place` on are the child and the lines behind `stop`, provided that the child is
free text or the lines ask for free text. -/
def Child.Spans (source : String) (place : Nat) (child : Child) (stop : Nat) : Prop :=
  child.isFreeText = true ∨
      (∀ first ∈ (Line.children (linesOnward source place)).head?, first.readsText = true) →
    child.readsText = true ∧ Line.children (linesOnward source place) =
      child.bare :: Line.children (linesBehind source stop)

theorem linesOnward_eq (isText : window.first = Cursor.onTokens (tokenize source))
    (inside : place ≤ window.limit) (notClose : window.kind place ≠ .closeDoc) :
    linesOnward source place =
      TokenList.lineAt ((tokenize source).drop place) :: linesBehind source place := by
  rw [linesOnward, linesBehind, window.drop_eq_cons isText inside,
    TokenList.linesFrom_open notClose]

/-- A tag that comes first on its line, and the text behind it. -/
theorem linesOnward_tag (isText : window.first = Cursor.onTokens (tokenize source))
    (before : place < window.limit) (isTag : window.kind place = .tag) :
    linesOnward source place =
      ⟨some (window.token place).value, lineTextAt source (window.first.next place)⟩ ::
        linesBehind source (window.first.next place) := by
  have isCons := window.drop_eq_cons isText (Nat.le_of_lt before)
  have sameLines : linesBehind source (window.first.next place) = linesBehind source place := by
    rw [linesBehind, window.drop_next isText before, TokenList.linesAfter_behindBlank, linesBehind,
      isCons, TokenList.linesAfter_inLine]
    rw [← Window.kind, isTag]
    decide
  rw [linesOnward_eq isText (Nat.le_of_lt before) (by rw [isTag]; decide), sameLines, isCons,
    TokenList.lineAt_tag isTag, lineTextAt, window.drop_next isText before]

namespace Document

theorem readTag_lines (isText : window.first = Cursor.onTokens (tokenize source))
    (onLine : place < window.last) (isTag : window.kind place = .tag) :
    readTag.Tandem window readTag place (fun node stop => window.AtLineEnd place node stop ∧
      Child.Spans source place (.tag node) stop) bad := by
  have before : place < window.limit := Nat.lt_of_lt_of_le onLine window.last_le
  have further := window.lt_next before
  have nextOnLine := window.next_le_last onLine
  have isLine := linesOnward_tag isText before isTag
  refine .marked fun inside => ?_
  refine .bind .current ?_
  rintro _ _ ⟨rfl, rfl⟩
  refine .bind (.advance before) ?_
  rintro _ _ rfl
  cases readsText : TagRule.readsText (window.token place).value with
  | true =>
      refine .bind (TagValue.parser_lines readsText isText nextOnLine
        (window.next_solid isText before)) ?_
      rintro value stop ⟨⟨⟨bound, stopOnLine⟩, atEnd⟩, spans⟩
      refine .positioned inside fun _ => ⟨⟨⟨by omega, stopOnLine⟩, atEnd⟩, fun _ => ⟨readsText, ?_⟩⟩
      rw [isLine]
      exact spans
  | false =>
      refine .bind ((TagValue.parser_tandem _ nextOnLine).gives
        fun _ _ _ _ => TagValue.isFreeText_of_read readsText) ?_
      rintro value stop ⟨⟨⟨⟨bound, stopOnLine⟩, atEnd⟩, -⟩, notFree⟩
      refine .positioned inside fun _ => ⟨⟨⟨by omega, stopOnLine⟩, atEnd⟩, ?_⟩
      rintro (isFree | asksFree)
      · cases notFree.symm.trans isFree
      · rw [isLine] at asksFree
        obtain ⟨text, others, isHead⟩ := Line.exists_children_tag (window.token place).value
          (lineTextAt source (window.first.next place))
          (linesBehind source (window.first.next place))
        rw [isHead] at asksFree
        cases readsText.symm.trans (asksFree _ rfl)

theorem readChild_lines (isText : window.first = Cursor.onTokens (tokenize source))
    (onLine : place ≤ window.last) (solid : window.kind place ≠ .blank)
    (notClose : window.kind place ≠ .closeDoc) :
    readChild.Tandem window readChild place (fun child stop => window.AtLineEnd place child stop ∧
      child.Spans source place stop) bad := by
  refine .inside fun inside => .ifAt (fun isTag => ?_) fun notTag => ?_
  · refine .bind (readTag_lines isText (window.lt_last_of_tag onLine isTag) isTag) ?_
    rintro node stop reached
    exact .pure reached
  · have isLine : linesOnward source place =
        ⟨none, lineTextAt source place⟩ :: linesBehind source place := by
      rw [linesOnward_eq isText inside notClose, lineTextAt, window.drop_eq_cons isText inside,
        TokenList.lineAt_text notTag]
    have text : readText.Tandem window readText place (fun node stop =>
        window.AtLineEnd place node stop ∧ Child.Spans source place (.text node) stop) bad := by
      refine .marked fun _ => ?_
      refine .bind (Prose.parser_lines isText onLine solid) ?_
      rintro text stop ⟨reached, gathered⟩
      refine .positioned inside fun _ => ⟨reached, fun _ => ⟨rfl, ?_⟩⟩
      rw [isLine]
      exact gathered none
    refine .bind text ?_
    rintro node stop reached
    exact .pure reached

/-- The lines of a comment: those between its opening marker and its close marker.  A line break
behind the opening marker starts the first line. -/
def lines (source : String) : List Line :=
  let body := TokenList.behindBlank (TokenList.behindBlank (tokenize source)).tail
  if body.head?.any (·.kind = .lineBreak) then
    TokenList.linesFrom (TokenList.behindBlank body.tail)
  else TokenList.linesFrom body

theorem lines_eq_linesOnward (isText : window.first = Cursor.onTokens (tokenize source))
    (inside : Cursor.entry (tokenize source) < window.limit) :
    lines source = linesOnward source (window.bodyStart (Cursor.entry (tokenize source))) := by
  obtain ⟨lead, found, rest, isLed, isLead, -, isBehind⟩ := exists_entry source
  have isRest : rest = (tokenize source).drop (Cursor.entry (tokenize source) + 1) := by
    rw [← isLead, isLed, ← List.drop_drop, List.drop_left]
    rfl
  have nextInside := window.next_le inside
  have isCons := window.drop_eq_cons isText nextInside
  rw [lines, isBehind, List.tail_cons, isRest, ← window.drop_next isText inside, isCons,
    Window.bodyStart, List.head?_cons, Option.any_some, ← Window.kind]
  by_cases isBreak : window.kind (window.first.next (Cursor.entry (tokenize source))) = .lineBreak
  · have before := window.lt_limit_of_lineBreak nextInside isBreak
    rw [if_pos isBreak, linesOnward, window.drop_next isText before,
      if_pos (decide_eq_true isBreak)]
    rfl
  · rw [if_neg isBreak, linesOnward, isCons, if_neg]
    simpa using isBreak

/-- What the children cover together: they and the remaining lines make up the comment, as long as
all of it is free text. -/
def Covered (all : List Child) (children : List Child) (remaining : List Line) : Prop :=
  (∀ child ∈ children, child.isFreeText = true) ∨ (∀ child ∈ all, child.readsText = true) →
    (∀ child ∈ children, child.readsText = true) ∧
      all = children.map Child.bare ++ Line.children remaining

theorem Covered.more {all children : List Child} {child : Child} {stop : Nat}
    (covered : Covered all children (linesOnward source place))
    (spans : child.Spans source place stop) :
    Covered all (children ++ [child]) (linesBehind source stop) := by
  intro isFree
  have earlier := covered (isFree.imp_left fun each other isMember =>
    each other (List.mem_append_left _ isMember))
  have last := spans (isFree.imp (fun each => each child (by simp)) fun each first isHead => by
    apply each
    rw [earlier.2]
    exact List.mem_append_right _ (List.mem_of_mem_head? isHead))
  constructor
  · intro other isMember
    rcases List.mem_append.mp isMember with isEarlier | isLast
    · exact earlier.1 other isEarlier
    · rw [List.mem_singleton.mp isLast]
      exact last.1
  · rw [earlier.2, last.2]
    simp

/-- The children of a comment of free text are those that its lines make up. -/
theorem children_eq_lines {tracking : Tracking} {document : Document}
    (accepted : ofTokens tracking (tokenize source) = .ok document)
    (isFree : (∀ child ∈ document.children, child.isFreeText = true) ∨
      ∀ child ∈ Line.children (lines source), child.readsText = true) :
    (∀ child ∈ document.children, child.readsText = true) ∧
      document.children.map Child.bare = Line.children (lines source) := by
  obtain ⟨window, cursor, isText, whole, isLimit, isOpen, inside, isRun⟩ := exists_window accepted
  have ended : Covered (Line.children (lines source)) document.children
      (linesOnward source window.limit) ∨
      Covered (Line.children (lines source)) document.children
        (linesBehind source window.limit) := by
    refine children_of_accepted whole (Nat.le_of_lt inside) isRun (readBody_phases
      (fun here child stop => child.Spans source here stop)
      (fun children here =>
        Covered (Line.children (lines source)) children (linesOnward source here))
      (fun children here =>
        Covered (Line.children (lines source)) children (linesBehind source here))
      isOpen ?_ ?_ (fun _ _ _ _ => Covered.more) ?_)
    · intro _
      rw [lines_eq_linesOnward isText inside]
      exact ⟨by simp, rfl⟩
    · rintro here ⟨before, beforeLimit, -, rfl⟩ notClose
      have bound := window.next_le beforeLimit
      exact readChild_lines isText (by rwa [whole.last_eq]) (window.next_solid isText beforeLimit)
        notClose
    · intro children here covered before isBreak
      have isOnward : linesBehind source here = linesOnward source (window.first.next here) := by
        rw [linesBehind, window.drop_eq_cons isText (Nat.le_of_lt before),
          TokenList.linesAfter_lineBreak isBreak, linesOnward, window.drop_next isText before]
      rwa [isOnward] at covered
  have isClose := window.kind_limit isText isLimit
  have isCons := window.drop_eq_cons isText (Nat.le_refl _)
  have noneOnward : linesOnward source window.limit = [] := by
    rw [linesOnward, isCons, TokenList.linesFrom_close isClose]
  have noneBehind : linesBehind source window.limit = [] := by
    rw [linesBehind, isCons, TokenList.linesAfter_end]
    rw [← Window.kind, isClose]
    decide
  rw [noneOnward, noneBehind, or_self_iff] at ended
  obtain ⟨readsText, isAll⟩ := ended isFree
  exact ⟨readsText, by rw [isAll, Line.children, List.append_nil]⟩

end Document

end Reading

end Docblock
