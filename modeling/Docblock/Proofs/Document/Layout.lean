import Docblock.Proofs.Document.Pieces
import Docblock.Proofs.Document.PrintedText
import Docblock.Proofs.TagValue.Methods

/-!
# How a comment is laid out on lines

Each child of a comment is printed on a line of its own and on the lines that continue its text.
The line of a tag with parts has the parts, and behind a space the first line of the description.
What follows the parts must not be taken for more of them, and nothing may continue a text that is
not its own.
-/

namespace Docblock

open Text

/-- The text starts with something else than a blank. -/
def StartsSolid (text : String) : Prop :=
  ∃ char rest, text.toList = char :: rest ∧ isBlank char = false

namespace StartsSolid

variable {text : String}

theorem ne_empty (starts : StartsSolid text) : text ≠ "" := by
  rintro rfl
  obtain ⟨char, rest, isCons, -⟩ := starts
  cases isCons

theorem solidHead (starts : StartsSolid text) :
    ∀ char ∈ text.toList.head?, isBlank char = false := by
  obtain ⟨char, rest, isCons, solid⟩ := starts
  rw [isCons]
  rintro _ ⟨⟩
  exact solid

theorem append (starts : StartsSolid text) (others : String) : StartsSolid (text ++ others) := by
  obtain ⟨char, rest, isCons, solid⟩ := starts
  exact ⟨char, rest ++ others.toList, by rw [String.toList_append, isCons]; rfl, solid⟩

theorem spaced (starts : StartsSolid text) (parts : List String) :
    StartsSolid (Text.spaced (text :: parts)) := by
  have isSpaced := toList_spaced starts.ne_empty parts
  obtain ⟨char, rest, isCons, solid⟩ := starts
  exact ⟨char, rest ++ parts.flatMap behindSpace, by rw [isSpaced, isCons]; rfl, solid⟩

/-- A text whose first word stands without a blank does not start with one. -/
theorem of_cut {word : Word} {more : List Word}
    (cut : Cut Delimited false text.toList (word :: more)) (close : word.gap = false) : StartsSolid text := by
  have scanned := cut [] [] .nil .done
  rw [List.append_nil, List.append_nil] at scanned
  cases isCons : text.toList with
  | nil =>
      rw [isCons] at scanned
      cases scanned
  | cons char rest =>
      refine ⟨char, rest, isCons, Bool.eq_false_iff.mpr fun blank => ?_⟩
      rw [isCons] at scanned
      rw [(scanned.behind_blank blank).gap_eq_true] at close
      cases close

theorem of_isName (isName : IsName text) : StartsSolid text :=
  of_cut (isName.cut false) rfl

theorem of_reprints {type : TypeExpr} (reprints : type.Reprints) : StartsSolid type.print := by
  obtain ⟨kind, value, more, ending, cut, -⟩ := reprints false
  exact of_cut cut rfl

theorem of_reprintsGeneric {type : TypeExpr} (reprints : type.ReprintsGeneric) :
    StartsSolid type.print := by
  obtain ⟨name, inner, arguments, outer, rfl, isName, -, each⟩ := reprints
  obtain ⟨slots, list, -, -, -, cut⟩ := TypeExpr.exists_generic inner outer isName each
  exact of_cut (cut false) rfl

theorem of_value {value : TagValue} (structured : value.isStructured = true)
    (reprints : value.Reprints) : StartsSolid value.print := by
  cases value with
  | var tag => exact (of_reprints reprints.1).spaced _
  | param tag => exact (of_reprints reprints.1).spaced _
  | typed role tag =>
      rw [TagValue.Reprints] at reprints
      split at reprints
      · exact (of_reprintsGeneric reprints).spaced _
      · exact (of_reprints reprints).spaced _
  | deprecated tag => cases structured
  | property tag => exact (of_reprints reprints.1).spaced _
  | method tag =>
      have signature : StartsSolid tag.printSignature :=
        (((of_isName reprints.name).append _).append _).append _
      rw [TagValue.print, MethodTag.print]
      cases tag.isStatic with
      | true => exact StartsSolid.spaced ⟨'s', _, rfl, rfl⟩ _
      | false =>
          rw [if_neg Bool.false_ne_true, spaced_absent]
          cases isType : tag.returnType with
          | none => exact signature.spaced _
          | some type => exact (of_reprints (reprints.returnType type isType)).spaced _
  | template tag => exact (of_isName reprints.1).spaced _
  | typeAlias tag => exact ((of_isName reprints.1).append _).append _
  | imported tag => exact (((of_isName reprints.1).append _).append _).append _
  | generic tag => cases structured
  | invalid tag => cases structured

end StartsSolid

section Described

variable {text first : String} {words : List Word} {starts : TokenKind → String → Prop}
  (unbroken : Unbroken words) (cut : Cut Delimited true text.toList words)
  (recut : Recut first.toList starts)

include unbroken cut recut

/-- Parts with a text behind them are cut into the words of the parts and the tokens of the text. -/
theorem exists_cutsOff_described (number : UInt32) (after : List Char) : ∃ tokens gap,
    scanFrom number (text.toList ++ behindSpace first ++ '\n' :: after) =
        tokens ++ scanFrom number (first.toList ++ '\n' :: after) ∧
      CutsOff true words tokens gap ∧ (first ≠ "" → gap = true) := by
  have scanned := cut [] [] .nil .done
  rw [List.append_nil, List.append_nil] at scanned
  have solid := solidHead_append recut.solidHead after
  have delimited : Delimited (behindSpace first ++ '\n' :: after) := by
    unfold behindSpace
    split <;> exact .cons (by decide)
  obtain ⟨others, scannedOthers⟩ := Scanned.exists_words false (behindSpace first ++ '\n' :: after)
  have whole := cut _ _ delimited scannedOthers
  by_cases isEmpty : first = ""
  · subst isEmpty
    have noBlanks : ∀ char ∈ ([] : List Char), isBlank char = true := nofun
    obtain ⟨tokens, gap, cutOff, cutsOff, -⟩ :=
      scanned.exists_cutsOff noBlanks solid unbroken whole number
    exact ⟨tokens, gap, by simpa [behindSpace] using cutOff, cutsOff, fun some => absurd rfl some⟩
  · have isSpaced : behindSpace first ++ '\n' :: after =
        [' '] ++ (first.toList ++ '\n' :: after) := by
      simp [behindSpace, isEmpty]
    have areBlank : ∀ char ∈ [' '], isBlank char = true := by simp [isBlank]
    rw [isSpaced] at whole
    obtain ⟨tokens, gap, cutOff, cutsOff, apart⟩ :=
      scanned.exists_cutsOff areBlank solid unbroken whole number
    exact ⟨tokens, gap, by rw [List.append_assoc, isSpaced, cutOff], cutsOff,
      fun _ => apart (by simp)⟩

/-- Parts with a text behind them are cut into tokens again. -/
theorem recut_described (startsSolid : StartsSolid text) :
    Recut (text.toList ++ behindSpace first) fun _ _ => True := by
  obtain ⟨char, rest, isCons, solid⟩ := startsSolid
  have scanned := cut [] [] .nil .done
  rw [List.append_nil, List.append_nil] at scanned
  constructor
  · rw [isCons]
    rintro _ ⟨⟩
    exact solid
  · by_cases isEmpty : first = ""
    · have scannedBreak : Scanned false ['\n'] [⟨false, .lineBreak, "\n"⟩] :=
        .word (show Lexeme.first '\n' [] = ⟨.lineBreak, 0⟩ from rfl) (by decide) .done
      simpa [behindSpace, isEmpty] using
        scanned.solidEnd unbroken (cut _ _ (.cons (by decide)) scannedBreak) rfl
    · have some : first.toList ≠ [] := by simpa using isEmpty
      rw [behindSpace, if_neg isEmpty, ← List.singleton_append, ← List.append_assoc,
        List.getLast?_append_of_ne_nil _ some]
      exact recut.solidEnd
  · intro char isMember
    rcases List.mem_append.mp isMember with inText | isBehind
    · exact scanned.inLine unbroken char inText
    · unfold behindSpace at isBehind
      split at isBehind
      · cases isBehind
      · rcases List.mem_cons.mp isBehind with rfl | inFirst
        · rfl
        · exact recut.inLine char inFirst
  · intro number after
    obtain ⟨tokens, gap, cutOff, cutsOff, -⟩ :=
      exists_cutsOff_described unbroken cut recut number after
    obtain ⟨tokens', scannedAgain, -, inLine, -⟩ := recut.again number after
    rw [scannedAgain, ← List.append_assoc] at cutOff
    refine ⟨tokens ++ tokens', cutOff, ?_, ?_, by simp⟩
    · have texts := congrArg (fun tokens => (TokenList.text tokens).toList) cutOff
      rw [TokenList.text_append, String.toList_append, scanFrom, scanFrom,
        text_scanWithin number (Nat.le_refl _), text_scanWithin number (Nat.le_refl _)] at texts
      exact (List.append_cancel_right texts).symm
    · intro token isMember
      rcases List.mem_append.mp isMember with inText | inFirst
      · exact cutsOff.inLine token inText
      · exact inLine token inFirst

end Described

/-- The parts are read again in front of the text on their line. -/
structure PartsLaid (name : String) (rule : TagRule) (parts : TagValue)
    (first : String) : Prop where
  isName : IsTagName name
  known : TagRule.ofName? name = some rule
  isRule : parts.rule? = some rule
  structured : parts.isStructured = true
  undescribed : parts.describe "" = parts
  reads : parts.RereadsParts rule
  startsSolid : StartsSolid parts.print
  recut : Recut first.toList fun kind text =>
    ∀ rest, Sealed rest → parts.EndsParts (⟨true, kind, text⟩ :: rest)
  place : rule.isDescribed = false → first = ""

/-- A child is printed on a line with the given text at its end, and on the lines that continue this
text. -/
inductive Child.Laid (child : Child) : Line → String → List String → Prop
  | prose {tag : Option String} {first : String} {others : List String}
      (named : ∀ name ∈ tag, IsTagName name ∧ TagRule.readsText name = true)
      (recut : Recut first.toList fun kind _ => tag = none → kind ≠ .tag)
      (same : child.bare = Line.child ⟨tag, String.intercalate "\n" (first :: others)⟩) :
      child.Laid ⟨tag, first⟩ first others
  | parts {name : String} {rule : TagRule} {parts : TagValue} {first : String}
      {others : List String} (laid : PartsLaid name rule parts first)
      (same : child.bare =
        .tag ⟨name, (parts.describe (String.intercalate "\n" (first :: others))).bare, .empty⟩) :
      child.Laid ⟨some name, (parts.describe first).print⟩ first others

/-- The children are printed on the lines. -/
inductive Arranged : List Child → List Line → Prop
  | nil : Arranged [] []
  | cons {child : Child} {children : List Child} {line : Line} {lines : List Line} {first : String}
      {others : List String} (laid : child.Laid line first others) (joined : TextLines first others)
      (rereads : ∀ other ∈ others, Line.Rereads ⟨none, other⟩)
      (stops : first ≠ "" → ∀ next ∈ lines.head?, next.continues = false)
      (behind : Arranged children lines) :
      Arranged (child :: children) (line :: (others.map (Line.mk none) ++ lines))

namespace PartsLaid

variable {name first text : String} {rule : TagRule} {parts : TagValue}

theorem toList_print (laid : PartsLaid name rule parts first)
    (place : rule.isDescribed = false → text = "") :
    (parts.describe text).print.toList = parts.print.toList ++ behindSpace text := by
  have printed := TagValue.toList_print_describe laid.isRule laid.structured
    (by rw [laid.undescribed]; exact laid.startsSolid.ne_empty) place
  rwa [laid.undescribed] at printed

theorem startsSolid_describe (laid : PartsLaid name rule parts first)
    (place : rule.isDescribed = false → text = "") :
    StartsSolid (parts.describe text).print := by
  have printed := laid.toList_print place
  obtain ⟨char, rest, isCons, solid⟩ := laid.startsSolid
  exact ⟨char, rest ++ behindSpace text, by rw [printed, isCons]; rfl, solid⟩

/-- A tag with parts is printed as its name and, behind a space, its value. -/
theorem print_tag (laid : PartsLaid name rule parts first)
    (place : rule.isDescribed = false → text = "") :
    Child.print (.tag ⟨name, (parts.describe text).bare, .empty⟩) =
      name ++ " " ++ (parts.describe text).print := by
  rw [Child.print, TagNode.print, TagValue.print_bare, if_neg]
  rw [String.isEmpty_iff]
  exact (laid.startsSolid_describe place).ne_empty

/-- The line of the parts can be printed and read again. -/
theorem rereads (laid : PartsLaid name rule parts first) :
    Line.Rereads ⟨some name, (parts.describe first).print⟩ := by
  obtain ⟨words, -, unbroken, cut, -⟩ := laid.reads
  have recut := recut_described unbroken cut laid.recut laid.startsSolid
  rw [← laid.toList_print laid.place] at recut
  exact Line.rereads_tag laid.isName recut

end PartsLaid

namespace Child.Laid

variable {child : Child} {line : Line} {first : String} {others : List String}

/-- The line of a child can be printed and read again. -/
theorem rereads (laid : child.Laid line first others) : line.Rereads := by
  cases laid with
  | @prose tag _ _ named recut same =>
      cases tag with
      | none => exact Line.rereads_text (recut.imp fun _ _ notTag => notTag rfl)
      | some name => exact Line.rereads_tag (named name rfl).1 recut
  | parts laid same => exact laid.rereads

/-- A child is printed as the text of its lines. -/
theorem print_eq (laid : child.Laid line first others) (joined : TextLines first others) :
    child.print = String.intercalate "\n" (line.print :: others) := by
  rw [← child.print_bare]
  cases laid with
  | @prose tag _ _ named recut same =>
      rw [same]
      cases others with
      | nil => rw [String.intercalate_singleton, String.intercalate_singleton, Line.print]
      | cons next others =>
          have hasText : (⟨tag, first⟩ : Line).text ≠ "" := joined.goesOn (by simp)
          rw [String.intercalate_cons_cons, String.intercalate_cons_cons]
          exact Line.print_append hasText _
  | @parts name rule parts _ _ laid same =>
      have place (undescribed : rule.isDescribed = false) :
          String.intercalate "\n" (first :: others) = "" :=
        joined.joined_eq_empty.mpr (laid.place undescribed)
      rw [same, laid.print_tag place, Line.print_tag,
        if_neg (laid.startsSolid_describe laid.place).ne_empty]
      cases others with
      | nil => rw [String.intercalate_singleton, String.intercalate_singleton]
      | cons next others =>
          have hasText := joined.goesOn (by simp)
          rw [String.intercalate_cons_cons] at place
          rw [String.intercalate_cons_cons, String.intercalate_cons_cons, ← String.toList_inj]
          simp only [String.toList_append, laid.toList_print place, laid.toList_print laid.place]
          simp [behindSpace, hasText]

theorem print_ne_empty (laid : child.Laid line first others) (hasText : first ≠ "") :
    line.print ≠ "" := by
  cases laid with
  | prose => exact Line.print_ne_empty hasText
  | parts laid => exact Line.print_ne_empty (laid.startsSolid_describe laid.place).ne_empty

end Child.Laid

open Document

/-- A text is printed line by line. -/
theorem TextLines.gutterLine_eq {first : String} {others : List String}
    (joined : TextLines first others) :
    gutterLine (String.intercalate "\n" (first :: others)) =
      gutterLine first ++ others.flatMap gutterLine := by
  induction others generalizing first with
  | nil => simp
  | cons next others induction =>
      have behind := joined.tail
      have hasNext := mt behind.joined_eq_empty.mp (joined.nonempty next List.mem_cons_self)
      rw [String.intercalate_cons_cons, gutterLine,
        toList_behindGutter_append (joined.goesOn (by simp)) hasNext, List.flatMap_cons,
        ← induction behind]
      rfl

namespace Arranged

variable {children : List Child} {lines : List Line}

/-- The printed children are the printed lines. -/
theorem gutterLine_eq (arranged : Arranged children lines) :
    (children.flatMap fun child => gutterLine child.print) =
      lines.flatMap fun line => gutterLine line.print := by
  induction arranged with
  | nil => rfl
  | @cons child children line lines first others laid joined _ _ _ induction =>
      have printed : TextLines line.print others :=
        ⟨fun some => laid.print_ne_empty (joined.goesOn some), joined.nonempty⟩
      rw [List.flatMap_cons, List.flatMap_cons, List.flatMap_append, induction,
        laid.print_eq joined, printed.gutterLine_eq, List.flatMap_map, List.append_assoc]
      rfl

/-- Every line can be printed and read again. -/
theorem rereads (arranged : Arranged children lines) : ∀ line ∈ lines, line.Rereads := by
  induction arranged with
  | nil => simp
  | cons laid _ rereads _ _ induction =>
      intro line isMember
      rcases List.mem_cons.mp isMember with rfl | isLater
      · exact laid.rereads
      · rcases List.mem_append.mp isLater with inText | isBehind
        · obtain ⟨other, isOther, rfl⟩ := List.mem_map.mp inText
          exact rereads other isOther
        · exact induction line isBehind

end Arranged

end Docblock
