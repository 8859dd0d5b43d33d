import Docblock.Proofs.Document.Arrangement

/-!
# Printing a comment settles it

A printed comment is read again as the children that were printed, so printing it once more gives
the same text.  Each child is found where its lines start, and leaves the lines of the children
behind it.
-/

namespace Docblock

open Docblock.Parser

theorem exists_ok_of_any {ε α : Type} {result : Except ε α} {holds : α → Bool}
    (isAny : result.toOption.any holds = true) :
    ∃ value, result = .ok value ∧ holds value = true := by
  cases result with
  | error error => cases isAny
  | ok value => exact ⟨value, rfl, isAny⟩

/-- What is known of every reply can be gathered. -/
theorem Parser.Tandem.and_forall {α ι : Type} {window : Window} {place : Nat} {bad : Prop}
    {parser parser' : Parser α} {good : α → Nat → Prop} {holds : ι → Prop}
    {each : ι → α → Nat → Prop} (tandem : parser.Tandem window parser' place good bad)
    (known : ∀ index, holds index → parser.Tandem window parser' place (each index) False) :
    parser.Tandem window parser' place
      (fun value stop => good value stop ∧ ∀ index, holds index → each index value stop) bad := by
  intro inside tracking saved saved'
  rcases (tandem inside tracking saved saved').cases with
    ⟨value, stop, stopInside, isGood, isFirst, isSecond⟩ |
      ⟨error, stop, stopInside, isBad, located, isFirst, isSecond⟩
  · rw [isFirst, isSecond]
    refine .ok stopInside ⟨isGood, fun index isHeld => ?_⟩
    obtain ⟨value', stop', -, isEach, isFirst', -⟩ :=
      (known index isHeld).exists_ok inside tracking saved saved'
    rw [isFirst] at isFirst'
    cases isFirst'
    exact isEach
  · rw [isFirst, isSecond]
    exact .rejected stopInside located isBad

/-- From the end of a line on there are the printed lines of the children. -/
def PrintedBehind (source : String) (place : Nat) (children : List Child) : Prop :=
  ∃ lines, Arranged children lines ∧ PrintedFrom source place [] lines

/-- From the start of a line on there are the printed lines of the children, and then the close
marker. -/
inductive PrintedOnward (source : String) (window : Window) (place : Nat) : List Child → Prop
  | nil (isClose : window.kind place = .closeDoc) : PrintedOnward source window place []
  | cons {child : Child} {children : List Child} {line : Line} {lines : List Line}
      (arranged : Arranged (child :: children) (line :: lines))
      (printed : PrintedFrom source place line.print.toList lines) :
      PrintedOnward source window place (child :: children)

section Reading

variable {source : String} {window : Window} {place : Nat}
  (isText : window.first = Cursor.onTokens (tokenize source))

include isText

/-- Behind the last printed line there is the close marker. -/
theorem PrintedFrom.close (before : place < window.limit)
    (printed : PrintedFrom source place [] []) :
    window.kind (window.first.next place) = .closeDoc := by
  obtain ⟨number, last, isDrop⟩ := printed
  rw [List.nil_append, Line.scanFrom_printed_nil, List.cons_append,
    window.drop_eq_cons isText (Nat.le_of_lt before)] at isDrop
  have isNext := window.drop_next isText before
  rw [(List.cons.inj isDrop).2, window.drop_eq_cons isText (window.next_le before)] at isNext
  exact congrArg Token.kind (List.cons.inj isNext).1

/-- No close marker stands at the start of a printed line. -/
theorem PrintedFrom.notClose {line : Line} {lines : List Line} (rereads : line.Rereads)
    (inside : place ≤ window.limit)
    (printed : PrintedFrom source place line.print.toList lines) :
    window.kind place ≠ .closeDoc := by
  obtain ⟨number, last, isDrop⟩ := printed
  obtain ⟨tokens, scanned, inLine, -⟩ := Line.exists_scanFrom_line rereads lines number
  rw [scanned] at isDrop
  cases tokens with
  | nil =>
      have printed : PrintedFrom source place [] lines := ⟨number, last, isDrop⟩
      rw [printed.isBreak isText inside]
      exact TokenKind.noConfusion
  | cons token tokens =>
      rw [window.drop_eq_cons isText inside] at isDrop
      rw [Window.kind, (List.cons.inj isDrop).1]
      intro isClose
      have inLine := inLine token List.mem_cons_self
      rw [isClose] at inLine
      exact absurd inLine (by decide)

/-- Behind a printed child the line ends. -/
theorem PrintedBehind.isBreak {children : List Child} (inside : place ≤ window.limit)
    (printed : PrintedBehind source place children) : window.kind place = .lineBreak := by
  obtain ⟨lines, -, printed⟩ := printed
  exact printed.isBreak isText inside

/-- A line break leads from behind a child to the next one. -/
theorem PrintedBehind.onward {children : List Child} (before : place < window.limit)
    (printed : PrintedBehind source place children) :
    PrintedOnward source window (window.first.next place) children := by
  obtain ⟨lines, arranged, printed⟩ := printed
  have each := arranged.rereads
  cases children with
  | nil =>
      cases arranged
      exact .nil (printed.close isText before)
  | cons child children =>
      cases lines with
      | nil => cases arranged
      | cons line lines =>
          exact .cons arranged (printed.next isText before (each line List.mem_cons_self))

/-- At the close marker no child is left. -/
theorem PrintedOnward.eq_nil {children : List Child} (inside : place ≤ window.limit)
    (printed : PrintedOnward source window place children)
    (isClose : window.kind place = .closeDoc) : children = [] := by
  cases printed with
  | nil => rfl
  | cons arranged printed =>
      exact absurd isClose
        (printed.notClose isText (arranged.rereads _ List.mem_cons_self) inside)

end Reading

/-- Where printed children stand, the child is the first of them and leaves the others. -/
def Child.IsFirst (source : String) (window : Window) (place : Nat) (child : Child)
    (stop : Nat) : Prop :=
  ∀ children, PrintedOnward source window place children → ∃ first others,
    children = first :: others ∧ child.bare = first.bare ∧ PrintedBehind source stop others

namespace Document

variable {source : String} {window : Window} {place : Nat}

/-- The child that was printed first is read first. -/
theorem readChild_isFirst (isText : window.first = Cursor.onTokens (tokenize source))
    (onLine : place < window.last) (solid : window.kind place ≠ .blank)
    (notClose : window.kind place ≠ .closeDoc) :
    readChild.Tandem window readChild place (fun child stop =>
      window.AtLineEnd place child stop ∧ child.IsFirst source window place stop) False := by
  -- Which children are left at a place is known only to the run, so all lists are considered.
  have known (children : List Child) (printed : PrintedOnward source window place children) :
      readChild.Tandem window readChild place (fun child stop => ∃ first others,
        children = first :: others ∧ child.bare = first.bare ∧ PrintedBehind source stop others)
        False := by
    cases printed with
    | nil isClose => exact absurd isClose notClose
    | @cons first children _ _ arranged printed =>
        cases arranged with
        | cons laid joined rereads stops behind =>
            refine (readChild_printed isText onLine solid laid joined rereads behind.rereads stops
              printed).mono ?_ id
            rintro child stop ⟨-, same, left⟩
            exact ⟨first, children, rfl, same, _, behind, left⟩
  refine ((readChild_tandem (Nat.le_of_lt onLine)).and_forall known).mono ?_ id
  rintro child stop ⟨⟨reached, -⟩, isFirst⟩
  exact ⟨reached, isFirst⟩

/-- Of all children some were found again, and the others are left. -/
def FoundUpTo (all found left : List Child) : Prop :=
  all.map Child.bare = found.map Child.bare ++ left.map Child.bare

theorem FoundUpTo.more {all found others : List Child} {child expected : Child}
    (same : child.bare = expected.bare) (upTo : FoundUpTo all found (expected :: others)) :
    FoundUpTo all (found ++ [child]) others := by
  rw [FoundUpTo, upTo, List.map_append, List.map_singleton, List.map_cons, same,
    List.append_assoc, List.singleton_append]

section Printed

variable {document : Document} {lines : List Line} (arranged : Arranged document.children lines)
  (notEmpty : document.children ≠ [])

include arranged notEmpty

/-- In a printed comment the lines of the children stand behind the opening marker. -/
theorem printedBehind_entry (isText : window.first = Cursor.onTokens (tokenize document.print))
    (inside : Cursor.entry (tokenize document.print) < window.limit) :
    PrintedBehind document.print
      (window.first.next (Cursor.entry (tokenize document.print))) document.children := by
  obtain ⟨last, isTokenized⟩ := exists_tokenize_print notEmpty arranged.gutterLine_eq
  obtain ⟨after, isAfter⟩ := Line.exists_printed lines
  have isEntry : Cursor.entry (tokenize document.print) = 0 := by
    rw [isTokenized]
    rfl
  refine ⟨lines, arranged, 1, last, ?_⟩
  rw [window.drop_next isText inside, isEntry, isTokenized, List.nil_append, isAfter]
  exact Line.behindBlank_end (Line.ends_lineFeed 1 after _)

/-- A printed comment is read as the children that were printed. -/
theorem exists_children_eq : ∃ found, ofText document.print = .ok found ∧
    document.children.map Child.bare = found.children.map Child.bare := by
  obtain ⟨found, accepted⟩ :=
    exists_ofText_print arranged.rereads notEmpty arranged.gutterLine_eq
  obtain ⟨window, cursor, isText, whole, isLimit, isOpen, inside, isRun⟩ := exists_window accepted
  have isClose := window.kind_limit isText isLimit
  have started := printedBehind_entry arranged notEmpty isText inside
  have nextInside := window.next_le inside
  have isBreak := started.isBreak isText nextInside
  have read : (∃ left, PrintedOnward document.print window window.limit left ∧
        FoundUpTo document.children found.children left) ∨
      ∃ left, PrintedBehind document.print window.limit left ∧
        FoundUpTo document.children found.children left := by
    refine children_of_accepted whole (Nat.le_of_lt inside) isRun (readBody_phases
      (fun here child stop => child.IsFirst document.print window here stop)
      (fun children here => ∃ left, PrintedOnward document.print window here left ∧
        FoundUpTo document.children children left)
      (fun children here => ∃ left, PrintedBehind document.print here left ∧
        FoundUpTo document.children children left)
      isOpen ?_ ?_ ?_ ?_)
    · rw [Window.bodyStart, if_pos isBreak]
      exact ⟨_, started.onward isText (window.lt_limit_of_lineBreak nextInside isBreak), rfl⟩
    · rintro _ ⟨before, beforeLimit, -, rfl⟩ notClose
      have bound := window.next_le beforeLimit
      have onLine : window.first.next before < window.last := by
        rw [whole.last_eq]
        refine Nat.lt_of_le_of_ne bound fun isLast => notClose ?_
        rw [isLast, isClose]
      exact readChild_isFirst isText onLine (window.next_solid isText beforeLimit) notClose
    · rintro children here child stop ⟨left, printed, upTo⟩ isFirst
      obtain ⟨expected, others, rfl, same, behind⟩ := isFirst left printed
      exact ⟨others, behind, upTo.more same⟩
    · rintro children here ⟨left, printed, upTo⟩ before -
      exact ⟨left, printed.onward isText before, upTo⟩
  refine ⟨found, accepted, ?_⟩
  rcases read with ⟨left, printed, upTo⟩ | ⟨left, printed, upTo⟩
  · obtain rfl := printed.eq_nil isText (Nat.le_refl _) isClose
    simpa [FoundUpTo] using upTo
  · have breaks := printed.isBreak isText (Nat.le_refl _)
    rw [isClose] at breaks
    cases breaks

end Printed

section RoundTrip

variable {source : String} {document : Document} (paired : PairedReturns source.toList)
  (numbers : WellFormedNumbers (tokenize source)) (accepted : ofText source = .ok document)
  (each : ∀ node ∈ document.tags, node.value.Unambiguous)

include paired numbers accepted each

/-- A comment whose tags can be told from others is read again from its printed form. -/
theorem survives (notEmpty : document.children ≠ []) :
    ∃ found, ofText document.print = .ok found ∧ (found == document) = true := by
  obtain ⟨lines, arranged⟩ := exists_arranged paired numbers accepted each
  obtain ⟨found, acceptedAgain, same⟩ := exists_children_eq arranged notEmpty
  exact ⟨found, acceptedAgain, by rw [decisive_bare, Document.bare, Document.bare, same]⟩

/-- Printing a comment, reading it again and printing what was read gives the same text. -/
theorem print_idempotent :
    ∃ found, ofText document.print = .ok found ∧ found.print = document.print := by
  by_cases isEmpty : document.children = []
  · have isPrint : document.print = "/**\n *\n */" := by
      rw [print, isEmpty]
      rfl
    have isAgain : (ofText "/**\n *\n */").toOption.any (fun found =>
        found.print = "/**\n *\n */") = true := by decide +kernel
    obtain ⟨found, acceptedAgain, same⟩ := exists_ok_of_any isAgain
    rw [isPrint]
    exact ⟨found, acceptedAgain, of_decide_eq_true same⟩
  · obtain ⟨found, acceptedAgain, same⟩ := survives paired numbers accepted each isEmpty
    rw [decisive_bare] at same
    exact ⟨found, acceptedAgain, by rw [← found.print_bare, same, document.print_bare]⟩

end RoundTrip

theorem faithful_identifier (name : String) : TypeExpr.Faithful ⟨.identifier name, .empty⟩ where
  points := TypeExpr.throughout_leaf trivial rfl
  negations := TypeExpr.throughout_leaf trivial rfl

/-- A type that loses its parentheses, in front of a description of two lines, and a description
that starts with a parenthesis behind the name of a parameter. -/
theorem print_idempotent_described :
    let source := "/** Sums up.\n * @return (A) - both\n * of them\n * @param int $x (or more) */"
    let document : Document :=
      ⟨[.text ⟨"Sums up.", .empty⟩,
        .tag ⟨"@return",
          .typed .returned ⟨⟨.identifier "A", .empty⟩, "- both\nof them", .empty⟩, .empty⟩,
        .tag ⟨"@param",
          .param ⟨⟨.identifier "int", .empty⟩, false, false, "x", "(or more)", .empty⟩, .empty⟩],
        .empty⟩
    PairedReturns source.toList ∧ WellFormedNumbers (tokenize source) ∧
      ofText source = .ok document ∧ (∀ node ∈ document.tags, node.value.Unambiguous) ∧
      document.print =
        "/**\n * Sums up.\n * @return A - both\n * of them\n * @param int $x (or more)\n */" ∧
      ∃ found, ofText document.print = .ok found ∧ found.print = document.print := by
  intro source document
  have paired : PairedReturns source.toList := by decide +kernel
  have isTokenized : tokenize source =
      [⟨.openDoc, "/**", 1⟩, ⟨.blank, " ", 1⟩, ⟨.identifier, "Sums", 1⟩, ⟨.blank, " ", 1⟩,
        ⟨.identifier, "up", 1⟩, ⟨.other, ".", 1⟩, ⟨.lineBreak, "\n *", 1⟩, ⟨.blank, " ", 2⟩,
        ⟨.tag, "@return", 2⟩, ⟨.blank, " ", 2⟩, ⟨.openParen, "(", 2⟩, ⟨.identifier, "A", 2⟩,
        ⟨.closeParen, ")", 2⟩, ⟨.blank, " ", 2⟩, ⟨.minus, "-", 2⟩, ⟨.blank, " ", 2⟩,
        ⟨.identifier, "both", 2⟩, ⟨.lineBreak, "\n *", 2⟩, ⟨.blank, " ", 3⟩,
        ⟨.identifier, "of", 3⟩, ⟨.blank, " ", 3⟩, ⟨.identifier, "them", 3⟩,
        ⟨.lineBreak, "\n *", 3⟩, ⟨.blank, " ", 4⟩, ⟨.tag, "@param", 4⟩, ⟨.blank, " ", 4⟩,
        ⟨.identifier, "int", 4⟩, ⟨.blank, " ", 4⟩, ⟨.namedVariable, "$x", 4⟩, ⟨.blank, " ", 4⟩,
        ⟨.openParen, "(", 4⟩, ⟨.identifier, "or", 4⟩, ⟨.blank, " ", 4⟩,
        ⟨.identifier, "more", 4⟩, ⟨.closeParen, ")", 4⟩, ⟨.blank, " ", 4⟩, ⟨.closeDoc, "*/", 4⟩,
        Token.finish 4] := by
    decide +kernel
  have numbers : WellFormedNumbers (tokenize source) := by
    have noNumber : ∀ token ∈ tokenize source, ¬(token.kind = .integer ∨ token.kind = .float) := by
      rw [isTokenized]
      decide
    exact fun token isMember isNumber => absurd isNumber (noNumber token isMember)
  have accepted : ofText source = .ok document := by
    rw [ofText, isTokenized]
    rfl
  have each : ∀ node ∈ document.tags, node.value.Unambiguous := by
    have ofTypes {value : TagValue} {name : String}
        (isType : value.types = [⟨.identifier name, .empty⟩]) :
        ∀ type ∈ value.types, type.Faithful := by
      rw [isType]
      rintro _ (_ | ⟨_, ⟨⟩⟩)
      exact faithful_identifier name
    have isTags : document.tags = _ := rfl
    rw [isTags]
    rintro _ (_ | ⟨_, (_ | ⟨_, ⟨⟩⟩)⟩)
    · refine ⟨fun _ => TagValue.noConfusion, ofTypes rfl, fun _ => TagValue.noConfusion, ?_⟩
      rintro _ ⟨⟩ kind opens
      cases kind <;> first | rfl | cases opens
    · exact ⟨fun _ => TagValue.noConfusion, ofTypes rfl, fun _ => TagValue.noConfusion,
        fun _ _ _ _ => rfl⟩
  exact ⟨paired, numbers, accepted, each, by decide +kernel,
    print_idempotent paired numbers accepted each⟩

/-- A description that starts with an angle bracket becomes part of a type that loses its
parentheses. -/
theorem print_changes_parenthesized :
    ∃ document found, ofText "/** @return (A) <b> */" = .ok document ∧
      ofText document.print = .ok found ∧ document.print = "/**\n * @return A <b>\n */" ∧
      found.print = "/**\n * @return A<b>\n */" := by
  have isChanged : (ofText "/** @return (A) <b> */").toOption.any (fun document =>
      (ofText document.print).toOption.any fun found =>
        document.print = "/**\n * @return A <b>\n */" &&
          found.print = "/**\n * @return A<b>\n */") = true := by decide +kernel
  obtain ⟨document, accepted, isChanged⟩ := exists_ok_of_any isChanged
  obtain ⟨found, acceptedAgain, printed⟩ := exists_ok_of_any isChanged
  rw [Bool.and_eq_true, decide_eq_true_eq, decide_eq_true_eq] at printed
  exact ⟨document, found, accepted, acceptedAgain, printed⟩

/-- An invalid value can become a valid one.  In front of the point the ampersand marks a reference,
but in the printed form the gutter of the next line follows it. -/
example : (ofText "/** @return (A &\n.5) */").toOption.any (fun document =>
    document.print = "/**\n * @return (A &\n * .5)\n */" &&
      (ofText document.print).toOption.any fun found =>
        found.print = "/**\n * @return A&.5\n */") = true := by
  decide +kernel

end Document

end Docblock
