import Docblock.Proofs.Document.Structure

/-!
# Comments line by line

A comment of free text is decided by its lines: the tag that comes first on a line, and the text
behind it.  A line with text takes the lines of text that follow it, so the children of a comment
can be built from its lines alone, from the last one up.
-/

namespace Docblock

/-- A line of a comment: the name of the tag that comes first on it, and its text without the
blanks at the end. -/
structure Line where
  tag : Option String
  text : String
  deriving DecidableEq

/-- Whether the value of a tag with this name is read as free text. -/
def TagRule.readsText (name : String) : Bool :=
  (ofName? name).all fun rule => rule = .deprecated

/-- A name that does not ask for free text has a rule that describes parts. -/
theorem TagRule.exists_of_readsText_eq_false {name : String} (notText : readsText name = false) :
    ∃ rule, ofName? name = some rule ∧ rule ≠ .deprecated := by
  rw [readsText] at notText
  cases known : ofName? name with
  | none =>
      rw [known] at notText
      cases notText
  | some rule =>
      rw [known] at notText
      exact ⟨rule, rfl, by simpa using notText⟩

namespace TagValue

/-- Whether the value is free text. -/
def isFreeText : TagValue → Bool
  | generic _ => true
  | deprecated _ => true
  | _ => false

/-- Free text as the value of a tag. -/
def ofProse (name text : String) : TagValue :=
  if (TagRule.ofName? name).isNone then .generic ⟨text, .empty⟩ else .deprecated ⟨text, .empty⟩

theorem print_ofProse (name text : String) : (ofProse name text).print = text := by
  rw [ofProse]
  split <;> rfl

end TagValue

/-- Whether the child is a text, or a tag whose value is free text. -/
def Child.isFreeText : Child → Bool
  | .text _ => true
  | .tag node => node.value.isFreeText

/-- Whether the child is a text, or a tag whose name asks for free text. -/
def Child.readsText : Child → Bool
  | .text _ => true
  | .tag node => TagRule.readsText node.name

namespace Line

/-- Whether the line goes on with the text of the line before it. -/
def continues (line : Line) : Bool := line.tag.isNone && !line.text.isEmpty

/-- What the line is read as if no other line continues it. -/
def child (line : Line) : Child :=
  match line.tag with
  | none => .text ⟨line.text, .empty⟩
  | some name => .tag ⟨name, .ofProse name line.text, .empty⟩

/-- The children of a comment with a line in front of them: a line with text takes the text that
follows it. -/
def addTo (line : Line) : List Child → List Child
  | .text node :: others =>
      if line.text = "" ∨ node.text = "" then line.child :: .text node :: others
      else child { line with text := line.text ++ "\n" ++ node.text } :: others
  | children => line.child :: children

/-- The children of a comment with the given lines. -/
def children : List Line → List Child
  | [] => []
  | line :: others => line.addTo (children others)

theorem addTo_empty {line : Line} (empty : line.text = "") (children : List Child) :
    line.addTo children = line.child :: children := by
  unfold addTo
  split
  · rw [if_pos (.inl empty)]
  · rfl

/-- Text comes first only where a line has text and no tag. -/
theorem continues_of_addTo {line : Line} {children others : List Child} {node : TextNode}
    (isText : line.addTo children = .text node :: others) (hasText : node.text ≠ "") :
    line.continues = true := by
  have onlyText (text : String) (isNode : child { line with text } = .text node) :
      line.tag = none ∧ node.text = text := by
    cases isTag : line.tag with
    | none =>
        rw [child, isTag] at isNode
        cases isNode
        exact ⟨rfl, rfl⟩
    | some name =>
        rw [child, isTag] at isNode
        cases isNode
  have nonempty (isEmpty : line.text ≠ "") (noTag : line.tag = none) : line.continues = true := by
    simp [continues, noTag, isEmpty]
  unfold addTo at isText
  split at isText
  · split at isText
    · obtain ⟨noTag, sameText⟩ := onlyText line.text (List.cons.inj isText).1
      exact nonempty (by rwa [← sameText]) noTag
    · next both =>
        rw [not_or] at both
        exact nonempty both.1 (onlyText _ (List.cons.inj isText).1).1
  · obtain ⟨noTag, sameText⟩ := onlyText line.text (List.cons.inj isText).1
    exact nonempty (by rwa [← sameText]) noTag

/-- A line with a tag starts a child with the same tag. -/
theorem exists_children_tag (name text : String) (lines : List Line) :
    ∃ whole others, children (⟨some name, text⟩ :: lines) = child ⟨some name, whole⟩ :: others := by
  rw [children]
  unfold addTo
  split
  · split
    · exact ⟨_, _, rfl⟩
    · exact ⟨_, _, rfl⟩
  · exact ⟨_, _, rfl⟩

/-- A line that nothing continues is a child of its own. -/
theorem children_cons_of_stops {line : Line} {lines : List Line}
    (stops : ∀ next ∈ lines.head?, next.continues = false) :
    children (line :: lines) = line.child :: children lines := by
  rw [children]
  cases lines with
  | nil => rfl
  | cons next others =>
      unfold addTo
      split
      · next node children isText =>
          split
          · rw [isText]
          · next both =>
              rw [not_or] at both
              have goesOn : next.continues = true := continues_of_addTo isText both.2
              rw [stops next rfl] at goesOn
              cases goesOn
      · rfl

/-- A line with text takes the text that the following lines make up. -/
theorem children_cons_of_text {line : Line} {lines : List Line} {text : String}
    {others : List Child} (hasText : line.text ≠ "") (goesOn : text ≠ "")
    (isText : children lines = child ⟨none, text⟩ :: others) :
    children (line :: lines) = child { line with text := line.text ++ "\n" ++ text } :: others := by
  rw [children, isText, child, addTo, if_neg]
  rw [not_or]
  exact ⟨hasText, goesOn⟩

end Line

/-- The lines of a text: each of them has text, unless there is only one. -/
structure TextLines (first : String) (others : List String) : Prop where
  goesOn : others ≠ [] → first ≠ ""
  nonempty : ∀ other ∈ others, other ≠ ""

namespace TextLines

/-- There is no text on a line alone. -/
theorem empty : TextLines "" [] where
  goesOn more := absurd rfl more
  nonempty := by simp

variable {first next : String} {others : List String}

theorem tail (lines : TextLines first (next :: others)) : TextLines next others where
  goesOn _ := lines.nonempty next List.mem_cons_self
  nonempty other isMember := lines.nonempty other (List.mem_cons_of_mem _ isMember)

/-- The text is empty only where its first line is. -/
theorem joined_eq_empty (lines : TextLines first others) :
    String.intercalate "\n" (first :: others) = "" ↔ first = "" := by
  cases others with
  | nil => rw [String.intercalate_singleton]
  | cons next others =>
      refine iff_of_false ?_ (lines.goesOn (by simp))
      simp [String.intercalate_cons_cons]

/-- A line and the lines of text that continue it are one child. -/
theorem children_eq (lines : TextLines first others) {rest : List Line}
    (stops : first ≠ "" → ∀ line ∈ rest.head?, line.continues = false) (tag : Option String) :
    Line.children (⟨tag, first⟩ :: (others.map (Line.mk none) ++ rest)) =
      Line.child ⟨tag, String.intercalate "\n" (first :: others)⟩ :: Line.children rest := by
  induction others generalizing first tag with
  | nil =>
      rw [String.intercalate_singleton, List.map_nil, List.nil_append]
      by_cases isEmpty : first = ""
      · rw [Line.children, Line.addTo_empty isEmpty]
      · exact Line.children_cons_of_stops (stops isEmpty)
  | cons next others induction =>
      have hasText := lines.goesOn (by simp)
      rw [List.map_cons, List.cons_append,
        Line.children_cons_of_text hasText (mt lines.tail.joined_eq_empty.mp
          (lines.nonempty next List.mem_cons_self))
          (induction lines.tail (fun _ => stops hasText) none),
        String.intercalate_cons_cons]

end TextLines

namespace TokenList

/-- The tokens up to the end of the line. -/
def line (tokens : List Token) : List Token :=
  tokens.takeWhile fun token => !Prose.lineEnds.contains token.kind

/-- The text up to the end of the line, without the blanks at its end. -/
def lineText (tokens : List Token) : String :=
  Text.trimEnd Text.isBlank (text (line tokens))

/-- The line that the tokens start with. -/
def lineAt : List Token → Line
  | [] => ⟨none, ""⟩
  | token :: rest =>
      if token.kind = .tag then ⟨some token.value, lineText (behindBlank rest)⟩
      else ⟨none, lineText (token :: rest)⟩

/-- Whether the comment ends here. -/
def closes (tokens : List Token) : Bool := tokens.head?.all (·.kind = .closeDoc)

/-- The lines behind the one that the tokens start with. -/
def linesAfter : List Token → List Line
  | [] => []
  | token :: rest =>
      if token.kind = .lineBreak then
        if closes (behindBlank rest) then [] else lineAt (behindBlank rest) :: linesAfter rest
      else if token.kind ∈ [.closeDoc, .finish] then []
      else linesAfter rest

/-- The lines of which the first one starts here. -/
def linesFrom (tokens : List Token) : List Line :=
  if closes tokens then [] else lineAt tokens :: linesAfter tokens

variable {token : Token} {rest : List Token}

theorem lineAt_tag (isTag : token.kind = .tag) :
    lineAt (token :: rest) = ⟨some token.value, lineText (behindBlank rest)⟩ := by
  rw [lineAt, if_pos isTag]

theorem lineAt_text (notTag : token.kind ≠ .tag) :
    lineAt (token :: rest) = ⟨none, lineText (token :: rest)⟩ := by
  rw [lineAt, if_neg notTag]

theorem linesAfter_inLine (inLine : Prose.lineEnds.contains token.kind = false) :
    linesAfter (token :: rest) = linesAfter rest := by
  rw [← Bool.not_eq_true, Prose.lineEnds_contains_iff, not_or] at inLine
  rw [linesAfter, if_neg inLine.1, if_neg inLine.2]

theorem linesAfter_behindBlank (tokens : List Token) :
    linesAfter (behindBlank tokens) = linesAfter tokens := by
  cases tokens with
  | nil => rfl
  | cons token rest =>
      rw [behindBlank]
      split
      · next isBlank =>
          rw [linesAfter_inLine]
          rw [isBlank]
          decide
      · rfl

theorem linesAfter_lineBreak (isBreak : token.kind = .lineBreak) :
    linesAfter (token :: rest) = linesFrom (behindBlank rest) := by
  rw [linesAfter, if_pos isBreak, linesFrom, linesAfter_behindBlank]

theorem linesAfter_end (isEnd : token.kind ∈ [.closeDoc, .finish]) :
    linesAfter (token :: rest) = [] := by
  rw [linesAfter, if_neg, if_pos isEnd]
  intro isBreak
  rw [isBreak] at isEnd
  exact absurd isEnd (by decide)

/-- The end of a line has the same lines behind it as its start. -/
theorem linesAfter_drop_line (tokens : List Token) :
    linesAfter (tokens.drop (line tokens).length) = linesAfter tokens := by
  induction tokens with
  | nil => rfl
  | cons token rest induction =>
      rw [line, List.takeWhile_cons]
      cases inLine : Prose.lineEnds.contains token.kind with
      | true => rfl
      | false =>
          rw [linesAfter_inLine inLine]
          exact induction

theorem lineText_end (isEnd : Prose.lineEnds.contains token.kind = true) :
    lineText (token :: rest) = "" := by
  rw [lineText, line, List.takeWhile_cons, isEnd]
  rfl

theorem linesFrom_close (isClose : token.kind = .closeDoc) : linesFrom (token :: rest) = [] := by
  have ends : closes (token :: rest) = true := decide_eq_true isClose
  rw [linesFrom, if_pos ends]

theorem linesFrom_open (notClose : token.kind ≠ .closeDoc) :
    linesFrom (token :: rest) = lineAt (token :: rest) :: linesAfter (token :: rest) := by
  have goesOn : closes (token :: rest) = false := decide_eq_false notClose
  rw [linesFrom, goesOn]
  rfl

/-- No text goes on where a text ends. -/
theorem linesFrom_textEnd (stops : Prose.textEnds.contains token.kind = true) :
    ∀ line ∈ (linesFrom (token :: rest)).head?, line.continues = false := by
  intro line isHead
  rw [linesFrom] at isHead
  split at isHead
  · cases isHead
  · obtain rfl := Option.some.inj isHead
    rw [lineAt]
    split
    · rfl
    · next notTag =>
        rw [lineText_end ((Prose.textEnds_contains_iff.mp stops).resolve_right notTag)]
        rfl

/-- A line of text that starts with one of its tokens. -/
theorem linesFrom_text (inLine : Prose.lineEnds.contains token.kind = false)
    (notTag : token.kind ≠ .tag) :
    linesFrom (token :: rest) = ⟨none, lineText (token :: rest)⟩ :: linesAfter (token :: rest) := by
  have notClose : token.kind ≠ .closeDoc := by
    intro isClose
    rw [isClose] at inLine
    exact absurd inLine (by decide)
  rw [linesFrom_open notClose, lineAt_text notTag]

end TokenList

end Docblock
