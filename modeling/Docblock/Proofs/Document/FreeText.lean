import Docblock.Proofs.Document.LineReading
import Docblock.Proofs.Document.LineScanning

/-!
# Free text survives printing

The printed form of a comment puts every line behind a gutter of its own and the close marker on
the last line.  The lines stay what they were, so a comment of free text is read again as the same
comment: the same texts and blank lines, and tags with the same names and texts.
-/

namespace Docblock

open Text

namespace Document

theorem toList_behindGutter (text : String) : (behindGutter text).toList =
    if text = "" then [] else ' ' :: text.toList.flatMap fun char =>
      if char = '\n' then ['\n', ' ', '*', ' '] else [char] := by
  simp only [behindGutter, String.isEmpty_iff]
  split
  · rfl
  · simp

/-- A text of one line behind a gutter is the text behind a space. -/
theorem toList_behindGutter_line {text : String} (inLine : ∀ char ∈ text.toList, char ≠ '\n') :
    (behindGutter text).toList = behindSpace text := by
  have unchanged : (text.toList.flatMap fun char =>
      if char = '\n' then ['\n', ' ', '*', ' '] else [char]) = text.toList := by
    generalize text.toList = chars at inLine
    induction chars with
    | nil => rfl
    | cons char chars induction =>
        rw [List.flatMap_cons, if_neg (inLine char List.mem_cons_self),
          induction fun other isMember => inLine other (List.mem_cons_of_mem _ isMember)]
        rfl
  rw [toList_behindGutter, unchanged, behindSpace]

/-- Each part of a text gets a gutter of its own. -/
theorem toList_behindGutter_append {first second : String} (hasFirst : first ≠ "")
    (hasSecond : second ≠ "") : (behindGutter (first ++ "\n" ++ second)).toList =
      (behindGutter first).toList ++ '\n' :: ' ' :: '*' :: (behindGutter second).toList := by
  simp [toList_behindGutter, hasFirst, hasSecond]

/-- A printed part of a comment on a line of its own. -/
def gutterLine (text : String) : List Char := '\n' :: ' ' :: '*' :: (behindGutter text).toList

theorem toList_print {document : Document} (notEmpty : document.children ≠ []) :
    document.print.toList = '/' :: '*' :: '*' ::
      (document.children.flatMap fun child => gutterLine child.print) ++ ['\n', ' ', '*', '/'] := by
  obtain ⟨child, others, isCons⟩ := List.exists_cons_of_ne_nil notEmpty
  rw [print, isCons, String.toList_append, String.toList_append, List.map_cons,
    toList_intercalate_cons]
  simp [gutterLine, List.flatMap_map]

end Document

namespace Line

open Document

/-- Text that continues a line is printed behind it. -/
theorem print_append {line : Line} (hasText : line.text ≠ "") (more : String) :
    print { line with text := line.text ++ "\n" ++ more } = line.print ++ "\n" ++ more := by
  obtain ⟨tag, text⟩ := line
  cases tag with
  | none => rfl
  | some name =>
      have hasText : text ≠ "" := hasText
      simp [print_tag, hasText, String.append_assoc]

theorem print_ne_empty {line : Line} (hasText : line.text ≠ "") : line.print ≠ "" := by
  obtain ⟨tag, text⟩ := line
  cases tag with
  | none => exact hasText
  | some name =>
      have hasText : text ≠ "" := hasText
      simp [print_tag, hasText]

theorem gutterLine_addTo (line : Line) (children : List Child) :
    ((line.addTo children).flatMap fun child => gutterLine child.print) =
      gutterLine line.print ++ children.flatMap fun child => gutterLine child.print := by
  unfold addTo
  split
  · next node others =>
      split
      · rfl
      · next both =>
          rw [not_or] at both
          have joined : gutterLine (print { line with text := line.text ++ "\n" ++ node.text }) =
              gutterLine line.print ++ gutterLine node.text := by
            rw [print_append both.1, gutterLine,
              toList_behindGutter_append (print_ne_empty both.1) both.2]
            rfl
          rw [List.flatMap_cons, List.flatMap_cons, ← List.append_assoc]
          exact congrArg (· ++ _) joined
  · rfl

/-- The printed children are the printed lines. -/
theorem gutterLine_children (lines : List Line) :
    ((children lines).flatMap fun child => gutterLine child.print) =
      lines.flatMap fun line => gutterLine line.print := by
  induction lines with
  | nil => rfl
  | cons line lines induction => rw [children, gutterLine_addTo, induction, List.flatMap_cons]

/-- What follows the opening marker in the printed form of lines. -/
def printed (lines : List Line) : List Char :=
  (lines.flatMap fun line => gutterLine line.print) ++ ['\n', ' ', '*', '/']

theorem printed_cons (line : Line) (lines : List Line) :
    printed (line :: lines) = '\n' :: ' ' :: '*' ::
      ((behindGutter line.print).toList ++ printed lines) := by
  simp [printed, gutterLine]

/-- Behind the last line there is the close marker on a line of its own. -/
theorem scanFrom_printed_nil (number : UInt32) : scanFrom number (printed []) =
    [⟨.lineBreak, "\n ", number⟩, ⟨.closeDoc, "*/", number + 1⟩] := rfl

theorem exists_printed (lines : List Line) : ∃ after, printed lines = '\n' :: after := by
  cases lines with
  | nil => exact ⟨_, rfl⟩
  | cons line lines => exact ⟨_, printed_cons line lines⟩

/-- A gutter with its star is a line break, unless a close marker follows. -/
theorem scanFrom_gutter (number : UInt32) {text : List Char} (notSlash : text.head? ≠ some '/') :
    scanFrom number ('\n' :: ' ' :: '*' :: text) =
      ⟨.lineBreak, "\n *", number⟩ :: scanFrom (number + 1) text := by
  have isFirst : Lexeme.first '\n' (' ' :: '*' :: text) = ⟨.lineBreak, 2⟩ := by
    have open_ : Lexeme.startsWithClose ('*' :: text) = false := by
      cases text with
      | nil => rfl
      | cons char rest =>
          have differs : char ≠ '/' := by simpa using notSlash
          simp [Lexeme.startsWithClose, differs]
    have gutter : Lexeme.gutter (' ' :: '*' :: text) = 2 := by
      simp [Lexeme.gutter, Lexeme.runLength, isBlank, open_]
    have rule : Lexeme.rule? '\n' (' ' :: '*' :: text) =
        some ⟨.lineBreak, Lexeme.gutter (' ' :: '*' :: text)⟩ := rfl
    rw [gutter] at rule
    exact Lexeme.first_of_rule? rule
  rw [scanFrom_cons, Token.cut, isFirst]
  rfl

/-- A line in front of a line feed is not the end of the comment. -/
theorem linesFrom_lineFeed {tokens : List Token}
    (inLine : ∀ token ∈ tokens, Prose.lineEnds.contains token.kind = false) (number : UInt32)
    (after : List Char) (others : List Token) :
    TokenList.linesFrom (tokens ++ (scanFrom number ('\n' :: after) ++ others)) =
      TokenList.lineAt (tokens ++ (scanFrom number ('\n' :: after) ++ others)) ::
        TokenList.linesAfter (scanFrom number ('\n' :: after) ++ others) := by
  have goesOn :
      TokenList.closes (tokens ++ (scanFrom number ('\n' :: after) ++ others)) = false := by
    cases tokens with
    | nil =>
        rw [scanFrom_cons]
        rfl
    | cons token tokens =>
        apply decide_eq_false
        intro isClose
        have inLine := inLine token List.mem_cons_self
        rw [isClose] at inLine
        exact absurd inLine (by decide)
  rw [TokenList.linesFrom, goesOn, TokenList.linesAfter_append inLine]
  rfl

/-- Behind its gutter a printed line has one blank in front of it, or it is empty. -/
theorem behindBlank_gutter {line : Line} (rereads : line.Rereads) (number : UInt32)
    (after : List Char) (others : List Token) :
    TokenList.behindBlank
        (scanFrom number ((behindGutter line.print).toList ++ '\n' :: after) ++ others) =
      scanFrom number (line.print.toList ++ '\n' :: after) ++ others := by
  rw [toList_behindGutter_line rereads.inLine, behindBlank_behindSpace rereads.solidHead]

/-- A printed line starts behind a line break and its gutter. -/
theorem exists_behind_gutter {line : Line} (rereads : line.Rereads) (lines : List Line)
    (number : UInt32) :
    ∃ rest, scanFrom number (printed (line :: lines)) = ⟨.lineBreak, "\n *", number⟩ :: rest ∧
      ∀ others, TokenList.behindBlank (rest ++ others) =
        scanFrom (number + 1) (line.print.toList ++ printed lines) ++ others := by
  obtain ⟨after, isAfter⟩ := exists_printed lines
  have notSlash : ((behindGutter line.print).toList ++ '\n' :: after).head? ≠ some '/' := by
    rw [toList_behindGutter_line rereads.inLine, behindSpace]
    split <;> simp
  rw [printed_cons, isAfter, scanFrom_gutter number notSlash]
  exact ⟨_, rfl, behindBlank_gutter rereads (number + 1) after⟩

/-- A printed line is cut into its tokens, and the other lines follow. -/
theorem exists_scanFrom_line {line : Line} (rereads : line.Rereads) (lines : List Line)
    (number : UInt32) :
    ∃ tokens, scanFrom number (line.print.toList ++ printed lines) =
        tokens ++ scanFrom number (printed lines) ∧
      (∀ token ∈ tokens, Prose.lineEnds.contains token.kind = false) ∧
      ∀ behind, (∀ token ∈ behind.head?, Prose.lineEnds.contains token.kind = true) →
        TokenList.lineAt (tokens ++ behind) = line := by
  obtain ⟨after, isAfter⟩ := exists_printed lines
  rw [isAfter]
  exact rereads.again number after

/-- A printed line is cut into a line break and its tokens, and the other lines follow. -/
theorem exists_scanFrom_printed {line : Line} (rereads : line.Rereads) (lines : List Line)
    (number : UInt32) :
    ∃ rest tokens, scanFrom number (printed (line :: lines)) =
        ⟨.lineBreak, "\n *", number⟩ :: rest ∧
      (∀ others, TokenList.behindBlank (rest ++ others) =
        tokens ++ (scanFrom (number + 1) (printed lines) ++ others)) ∧
      (∀ token ∈ tokens, Prose.lineEnds.contains token.kind = false) ∧
      ∀ behind, (∀ token ∈ behind.head?, Prose.lineEnds.contains token.kind = true) →
        TokenList.lineAt (tokens ++ behind) = line := by
  obtain ⟨rest, scanned, isBehind⟩ := exists_behind_gutter rereads lines number
  obtain ⟨tokens, isLine, found⟩ := exists_scanFrom_line rereads lines (number + 1)
  refine ⟨rest, tokens, scanned, fun others => ?_, found⟩
  rw [isBehind, isLine, List.append_assoc]

/-- The printed lines are read as the lines. -/
theorem linesAfter_printed {lines : List Line} (each : ∀ line ∈ lines, line.Rereads)
    (number last : UInt32) :
    TokenList.linesAfter (scanFrom number (printed lines) ++ [Token.finish last]) = lines := by
  induction lines generalizing number with
  | nil =>
      rw [scanFrom_printed_nil, List.cons_append, TokenList.linesAfter_lineBreak rfl]
      exact TokenList.linesFrom_close rfl
  | cons line lines induction =>
      have others := induction (fun other isMember => each other (List.mem_cons_of_mem _ isMember))
        (number + 1)
      obtain ⟨rest, tokens, scanned, isBehind, inLine, isLine⟩ :=
        exists_scanFrom_printed (each line List.mem_cons_self) lines number
      obtain ⟨after, isAfter⟩ := exists_printed lines
      rw [isAfter] at others isBehind
      rw [scanned, List.cons_append, TokenList.linesAfter_lineBreak rfl, isBehind,
        linesFrom_lineFeed inLine, isLine _ (ends_lineFeed _ _ _), others]

/-- There is a close marker behind the printed lines. -/
theorem exists_close_printed {lines : List Line} (each : ∀ line ∈ lines, line.Rereads)
    (number : UInt32) : ∃ token ∈ scanFrom number (printed lines), token.kind = .closeDoc := by
  induction lines generalizing number with
  | nil =>
      exact ⟨⟨.closeDoc, "*/", number + 1⟩, by simp [scanFrom_printed_nil], rfl⟩
  | cons line lines induction =>
      obtain ⟨close, isMember, isClose⟩ := induction
        (fun other isMember => each other (List.mem_cons_of_mem _ isMember)) (number + 1)
      obtain ⟨rest, tokens, scanned, isBehind, -⟩ :=
        exists_scanFrom_printed (each line List.mem_cons_self) lines number
      refine ⟨close, ?_, isClose⟩
      rw [scanned]
      apply List.mem_cons_of_mem
      have isLater : close ∈ TokenList.behindBlank (rest ++ []) := by
        rw [isBehind]
        simp [isMember]
      rw [List.append_nil] at isLater
      exact TokenList.behindBlank_subset rest isLater

end Line

namespace Document

section Printed

variable {document : Document} {lines : List Line} (each : ∀ line ∈ lines, line.Rereads)
  (notEmpty : document.children ≠ [])
  (onLines : (document.children.flatMap fun child => gutterLine child.print) =
    lines.flatMap fun line => gutterLine line.print)

include notEmpty onLines

theorem exists_tokenize_print : ∃ last, tokenize document.print =
    ⟨.openDoc, "/**", 1⟩ :: (scanFrom 1 (Line.printed lines) ++ [Token.finish last]) := by
  have isPrint : document.print.toList = '/' :: '*' :: '*' :: Line.printed lines := by
    rw [toList_print notEmpty, onLines]
    rfl
  obtain ⟨last, isTokenized⟩ := exists_tokenize_eq_scanFrom document.print
  obtain ⟨after, isAfter⟩ := Line.exists_printed lines
  refine ⟨last, ?_⟩
  rw [isTokenized, isPrint, isAfter, scanFrom_cons]
  rfl

include each

/-- The lines of a printed comment are the lines that were printed. -/
theorem lines_print : Document.lines document.print = lines := by
  obtain ⟨last, isTokenized⟩ := exists_tokenize_print notEmpty onLines
  obtain ⟨after, isAfter⟩ := Line.exists_printed lines
  have read := Line.linesAfter_printed each 1 last
  have isBody : TokenList.behindBlank (TokenList.behindBlank (tokenize document.print)).tail =
      scanFrom 1 ('\n' :: after) ++ [Token.finish last] := by
    rw [isTokenized, isAfter, TokenList.behindBlank, if_neg TokenKind.noConfusion, List.tail_cons,
      Line.behindBlank_end (Line.ends_lineFeed 1 after _)]
  rw [isAfter, scanFrom_cons, List.cons_append, TokenList.linesAfter_lineBreak rfl] at read
  rw [Document.lines, isBody, scanFrom_cons]
  exact read

theorem exists_ofText_print : ∃ found, ofText document.print = .ok found := by
  obtain ⟨last, isTokenized⟩ := exists_tokenize_print notEmpty onLines
  obtain ⟨close, isMember, isClose⟩ := Line.exists_close_printed each 1
  have opened : TokenList.isOpened (TokenList.behindBlank (tokenize document.print)) = true := by
    rw [isTokenized]
    rfl
  have closed : TokenList.isClosed (TokenList.behindBlank (tokenize document.print)) = true := by
    rw [isClosed_behindBlank, isTokenized, List.any_eq_true]
    exact ⟨close, by simp [isMember], decide_eq_true isClose⟩
  obtain ⟨-, -, _, _, _, found, _, -, -, -, isRun, -⟩ | ⟨unopened, -⟩ | ⟨-, unclosed, -⟩ :=
    run_cases .off document.print
  · exact ⟨found, by rw [ofText, ofTokens, isRun]; rfl⟩
  · cases opened.symm.trans unopened
  · cases closed.symm.trans unclosed

end Printed

theorem isOpened_of_accepted {source : String} {document : Document}
    (accepted : ofText source = .ok document) :
    TokenList.isOpened (TokenList.behindBlank (tokenize source)) = true := by
  rw [ofText, ofTokens] at accepted
  obtain ⟨opened, -⟩ | ⟨-, _, _, _, _, -, -, rejected⟩ | ⟨opened, -⟩ := run_cases .off source
  · exact opened
  · rw [rejected] at accepted
    cases accepted
  · exact opened

/-- Every line of a comment can be printed and read again. -/
theorem rereads_lines {source : String} (paired : PairedReturns source.toList)
    (opened : TokenList.isOpened (TokenList.behindBlank (tokenize source)) = true) :
    ∀ line ∈ Document.lines source, line.Rereads := by
  obtain ⟨-, found, rest, -, -, -, isBehind⟩ := exists_entry source
  have remains := (TokenList.remains_tokenize paired).behindBlank
  rw [isBehind] at opened remains
  have isOpen : found.kind = .openDoc := of_decide_eq_true opened
  have remainsRest : TokenList.Remains rest := by
    apply remains.tail
    rw [isOpen]
    decide
  have remainsBody := remainsRest.behindBlank
  rw [Document.lines, isBehind, List.tail_cons]
  split
  · next isBreak =>
      have remainsLines : TokenList.Remains (TokenList.behindBlank rest).tail := by
        cases isBody : TokenList.behindBlank rest with
        | nil =>
            rw [isBody] at isBreak
            cases isBreak
        | cons token others =>
            rw [isBody] at isBreak remainsBody
            apply remainsBody.tail
            rw [show token.kind = .lineBreak from of_decide_eq_true isBreak]
            decide
      exact remainsLines.behindBlank.rereads_linesFrom remainsLines.behindBlank_solid
  · exact remainsBody.rereads_linesFrom remainsRest.behindBlank_solid

/-- A comment of free text is read from its printed form again.  Its texts, its blank lines and the
names and texts of its tags all come back as they were, provided that the text it was read from has
no carriage return alone. -/
theorem freeText_survives {source : String} {document : Document}
    (paired : PairedReturns source.toList) (accepted : ofText source = .ok document)
    (notEmpty : document.children ≠ [])
    (isFree : ∀ node ∈ document.tags, node.value.isFreeText = true) :
    ∃ found, ofText document.print = .ok found ∧ (found == document) = true := by
  have freeChildren : ∀ child ∈ document.children, child.isFreeText = true := by
    intro child isMember
    cases child with
    | text node => rfl
    | tag node => exact isFree node (List.mem_filterMap.mpr ⟨_, isMember, rfl⟩)
  obtain ⟨readsText, isChildren⟩ := children_eq_lines accepted (.inl freeChildren)
  have each := rereads_lines paired (isOpened_of_accepted accepted)
  have onLines : (document.children.flatMap fun child => gutterLine child.print) =
      (Document.lines source).flatMap fun line => gutterLine line.print := by
    rw [← Line.gutterLine_children, ← isChildren]
    simp only [List.flatMap_map, Child.print_bare]
  obtain ⟨found, acceptedAgain⟩ := exists_ofText_print each notEmpty onLines
  have sameLines := lines_print each notEmpty onLines
  have asksFree : ∀ child ∈ Line.children (Document.lines document.print),
      child.readsText = true := by
    rw [sameLines, ← isChildren]
    intro child isMember
    obtain ⟨child', isMember', rfl⟩ := List.mem_map.mp isMember
    rw [Child.readsText_bare]
    exact readsText child' isMember'
  obtain ⟨-, isFound⟩ := children_eq_lines acceptedAgain (.inr asksFree)
  refine ⟨found, acceptedAgain, ?_⟩
  rw [decisive_bare, Document.bare, Document.bare, isFound, isChildren, sameLines]

/-- Quoted texts that hold close markers, an open quote, a line without gutter, blank lines, a line
that starts with a star, a slash that could open a comment and blanks at the ends of lines. -/
theorem freeText_survives_quotedMarkers :
    let source := "/** It is 'a */ b' & \"\\\"*/\"\t\r\n  no gutter /**\n *\n *\n ** starred /** \n" ++
      " * @deprecated(since 1.) @now \n * don't\n *@see\n * /x */ tail"
    PairedReturns source.toList ∧ ∃ document, ofText source = .ok document ∧
      document.children.length = 7 ∧
      ∃ found, ofText document.print = .ok found ∧ (found == document) = true := by
  intro source
  have paired : PairedReturns source.toList := by decide +kernel
  have isAccepted : (match ofText source with
      | .ok document => document.children.length = 7 &&
          document.tags.all fun node => node.value.isFreeText
      | .error _ => false) = true := by decide +kernel
  refine ⟨paired, ?_⟩
  split at isAccepted
  · next document accepted =>
      rw [Bool.and_eq_true, decide_eq_true_eq] at isAccepted
      obtain ⟨isLength, areFree⟩ := isAccepted
      have notEmpty : document.children ≠ [] := by
        intro isEmpty
        rw [isEmpty] at isLength
        cases isLength
      exact ⟨document, accepted, isLength,
        freeText_survives paired accepted notEmpty (List.all_eq_true.mp areFree)⟩
  · cases isAccepted

end Document

end Docblock
