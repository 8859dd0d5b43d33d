import Docblock.Proofs.Document.FreeText

/-!
# Texts are read again where they are printed

In a printed comment every place where a line ends is followed by the printed form of the lines
that are left.  Reading a text there takes the lines that were printed for it and stops in front of
the next ones.
-/

namespace Docblock

open Docblock.Parser

/-- From a place on there is the end of a printed line, and then the printed lines. -/
def PrintedFrom (source : String) (place : Nat) (text : List Char) (lines : List Line) : Prop :=
  ∃ number last, (tokenize source).drop place =
    scanFrom number (text ++ Line.printed lines) ++ [Token.finish last]

section Reading

variable {source : String} {window : Window} {place stop : Nat} {text : List Char}
  {lines : List Line}

/-- Behind a line break the next printed line starts. -/
theorem PrintedFrom.next (isText : window.first = Cursor.onTokens (tokenize source))
    (before : place < window.limit) {line : Line} (rereads : line.Rereads)
    (printed : PrintedFrom source place [] (line :: lines)) :
    PrintedFrom source (window.first.next place) line.print.toList lines := by
  obtain ⟨number, last, isDrop⟩ := printed
  obtain ⟨rest, scanned, isBehind⟩ := Line.exists_behind_gutter rereads lines number
  have isCons := window.drop_eq_cons isText (Nat.le_of_lt before)
  rw [isDrop, List.nil_append, scanned, List.cons_append] at isCons
  refine ⟨number + 1, last, ?_⟩
  rw [window.drop_next isText before, ← (List.cons.inj isCons).2, isBehind]

/-- The printed lines behind the end of a line are the lines behind it. -/
theorem PrintedFrom.linesBehind_eq (each : ∀ line ∈ lines, line.Rereads)
    (printed : PrintedFrom source place [] lines) : linesBehind source place = lines := by
  obtain ⟨number, last, isDrop⟩ := printed
  rw [linesBehind, isDrop]
  exact Line.linesAfter_printed each number last

/-- The end of a printed line is a line break. -/
theorem PrintedFrom.isBreak (isText : window.first = Cursor.onTokens (tokenize source))
    (inside : place ≤ window.limit) (printed : PrintedFrom source place [] lines) :
    window.kind place = .lineBreak := by
  obtain ⟨number, last, isDrop⟩ := printed
  obtain ⟨after, isAfter⟩ := Line.exists_printed lines
  rw [List.nil_append, isAfter, scanFrom_cons, List.cons_append,
    window.drop_eq_cons isText inside] at isDrop
  exact congrArg Token.kind (List.cons.inj isDrop).1

/-- The rest of a printed line is its text, and the printed lines follow it. -/
theorem PrintedFrom.isLine (isText : window.first = Cursor.onTokens (tokenize source))
    (again : ∀ number, ∃ tokens,
      scanFrom number (text ++ Line.printed lines) =
        tokens ++ scanFrom number (Line.printed lines) ∧
      ∀ token ∈ tokens, Prose.lineEnds.contains token.kind = false)
    (printed : PrintedFrom source place text lines) {found : String}
    (line : window.IsLine place found stop) : PrintedFrom source stop [] lines := by
  obtain ⟨number, last, isDrop⟩ := printed
  obtain ⟨tokens, scanned, inLine⟩ := again number
  obtain ⟨after, isAfter⟩ := Line.exists_printed lines
  rw [scanned, isAfter, List.append_assoc] at isDrop
  have isLine : TokenList.line ((tokenize source).drop place) = tokens := by
    rw [isDrop, TokenList.line_append inLine (Line.ends_lineFeed number after _)]
  refine ⟨number, last, ?_⟩
  rw [line.stop_eq, window.lineFrom_eq isText, ← List.drop_drop, isLine, isDrop, List.drop_left,
    isAfter, List.nil_append]

/-- A line of text continues the line before it. -/
theorem Line.continues_text {text : String} (hasText : text ≠ "") :
    (⟨none, text⟩ : Line).continues = true := by
  simp [continues, hasText]

/-- The rounds of a text take the printed lines that continue it, and no others. -/
theorem PrintedFrom.rounds (isText : window.first = Cursor.onTokens (tokenize source))
    {others texts : List String} (rereads : ∀ other ∈ others, Line.Rereads ⟨none, other⟩)
    (nonempty : ∀ other ∈ others, other ≠ "") (each : ∀ line ∈ lines, line.Rereads)
    (stops : ∀ line ∈ lines.head?, line.continues = false)
    (printed : PrintedFrom source place [] (others.map (Line.mk none) ++ lines))
    (rounds : Rounds window.NextLine window.StopsText place texts () stop)
    (onLine : place ≤ window.last)
    (atEnd : Prose.lineEnds.contains (window.kind place) = true) :
    texts = others ∧ PrintedFrom source stop [] lines := by
  have lastLe := window.last_le
  have eachLine {others : List String} (rereads : ∀ other ∈ others, Line.Rereads ⟨none, other⟩) :
      ∀ line ∈ others.map (Line.mk none) ++ lines, line.Rereads := by
    intro line isMember
    rcases List.mem_append.mp isMember with inText | isLater
    · obtain ⟨other, isOther, rfl⟩ := List.mem_map.mp inText
      exact rereads other isOther
    · exact each line isLater
  generalize () = result at rounds
  induction rounds generalizing others with
  | done final =>
      obtain ⟨stopped, rfl⟩ := final
      have unfollowed := window.continues_eq_false isText (by omega) atEnd stopped
      rw [printed.linesBehind_eq (eachLine rereads)] at unfollowed
      cases others with
      | nil => exact ⟨rfl, printed⟩
      | cons other others =>
          have goesOn := Line.continues_text (nonempty other List.mem_cons_self)
          rw [unfollowed _ rfl] at goesOn
          cases goesOn
  | item round _ induction =>
      obtain ⟨goesOn, line⟩ := round
      have before := window.lt_limit_of_lineBreak (by omega) goesOn.1
      obtain ⟨isNext, hasText⟩ := goesOn.lines isText (by omega)
      rw [printed.linesBehind_eq (eachLine rereads)] at isNext
      obtain ⟨rfl, -⟩ := line.lines isText
      cases others with
      | nil =>
          rw [List.map_nil, List.nil_append] at isNext
          rw [isNext] at stops
          have ends := stops _ rfl
          rw [Line.continues_text hasText] at ends
          cases ends
      | cons other others =>
          obtain ⟨isOther, -⟩ := List.cons.inj isNext
          obtain ⟨-, rfl⟩ := Line.mk.inj isOther
          have behind := printed.next isText before (rereads _ List.mem_cons_self)
          have further := behind.isLine isText (fun number => by
            obtain ⟨tokens, scanned, inLine, -⟩ :=
              Line.exists_scanFrom_line (rereads _ List.mem_cons_self) _ number
            exact ⟨tokens, scanned, inLine⟩) line
          obtain ⟨rfl, found⟩ := induction
            (fun other isMember => rereads other (List.mem_cons_of_mem _ isMember))
            (fun other isMember => nonempty other (List.mem_cons_of_mem _ isMember))
            further line.onLine line.atEnd
          exact ⟨rfl, found⟩

/-- A printed text is read as the text. -/
theorem PrintedFrom.text_eq (isText : window.first = Cursor.onTokens (tokenize source))
    (inside : place ≤ window.limit) (solid : window.kind place ≠ .blank) {first : String}
    {others : List String} {starts : TokenKind → String → Prop} (recut : Recut first.toList starts)
    (joined : TextLines first others) (rereads : ∀ other ∈ others, Line.Rereads ⟨none, other⟩)
    (each : ∀ line ∈ lines, line.Rereads)
    (stops : first ≠ "" → ∀ line ∈ lines.head?, line.continues = false)
    (printed : PrintedFrom source place first.toList (others.map (Line.mk none) ++ lines))
    {found : String} (read : window.IsText place found stop) :
    found = String.intercalate "\n" (first :: others) ∧ PrintedFrom source stop [] lines := by
  obtain ⟨after, isAfter⟩ := Line.exists_printed (others.map (Line.mk none) ++ lines)
  have isFirst : lineTextAt source place = first := by
    obtain ⟨number, last, isDrop⟩ := printed
    obtain ⟨tokens, scanned, spelled, inLine, -⟩ := recut.again number after
    rw [lineTextAt, isDrop, isAfter, scanned, List.append_assoc,
      recut.lineText_eq spelled inLine (Line.ends_lineFeed number after _)]
  have isBreak_iff : window.kind place = .lineBreak ↔ first = "" := by
    constructor
    · intro isBreak
      rw [← isFirst, lineTextAt_eq_empty_iff isText inside solid, isBreak]
      decide
    · rintro rfl
      exact printed.isBreak isText inside
  cases read with
  | nothing isBreak =>
      obtain rfl := isBreak_iff.mp isBreak
      obtain rfl : others = [] := Classical.not_not.mp fun some => joined.goesOn some rfl
      exact ⟨rfl, printed⟩
  | lines notBreak line rounds =>
      obtain ⟨isLine, -⟩ := line.lines isText
      have behind := printed.isLine isText (fun number => by
        obtain ⟨tokens, scanned, -, inLine, -⟩ := recut.again number after
        exact ⟨tokens, by rw [isAfter, scanned], inLine⟩) line
      obtain ⟨rfl, further⟩ := behind.rounds isText rereads joined.nonempty each
        (stops (mt isBreak_iff.mpr notBreak)) rounds line.onLine line.atEnd
      exact ⟨by rw [isLine, isFirst], further⟩

end Reading

end Docblock
