import Docblock.Proofs.Document.Rereading
import Docblock.Proofs.Document.TagRoundTrip

/-!
# Children are laid out on lines

What was read from a text can be laid out on lines again.  The first token of a description stood
behind the parts of its value before, so it is not one more part.  But the printed parts may have
lost parentheses, and then it could become more of the last one, so the first character of the
description must not be one with which a part goes on.
-/

namespace Docblock

open Docblock.Parser

namespace TagValue

variable {value : TagValue} {rule : TagRule}

theorem description_undescribed (value : TagValue) : (value.describe "").description = "" := by
  cases value <;> rfl

theorem description_describe (isRule : value.rule? = some rule) (notText : rule ≠ .deprecated)
    (described : rule.isDescribed = true) (text : String) :
    (value.describe text).description = text := by
  cases value <;> cases isRule <;> first | rfl | exact absurd rfl notText | cases described

theorem describe_of_undescribed (isRule : value.rule? = some rule)
    (undescribed : rule.isDescribed = false) (text : String) : value.describe text = value := by
  cases value <;> cases isRule <;> first | rfl | cases undescribed

theorem types_describe (text : String) (value : TagValue) :
    (value.describe text).types = value.types := by
  cases value <;> rfl

theorem isStructured_of_rule? (isRule : value.rule? = some rule) (notText : rule ≠ .deprecated) :
    value.isStructured = true := by
  cases value <;> cases isRule <;> first | rfl | exact absurd rfl notText

theorem extendedBy_describe (text : String) (kind : TokenKind) (value : TagValue) :
    (value.describe text).extendedBy kind = value.extendedBy kind := by
  cases value <;> rfl

theorem leaves_describe {kind : TokenKind} {text : String} (description : String)
    (leaves : value.Leaves kind text) : (value.describe description).Leaves kind text := by
  cases value <;> exact leaves

theorem leaves_withAttributes {kind : TokenKind} {text : String} (attributes : Attributes)
    (leaves : value.Leaves kind text) : (value.withAttributes attributes).Leaves kind text := by
  cases value <;> exact leaves

theorem describe_withAttributes (text : String) (attributes : Attributes) (value : TagValue) :
    (value.withAttributes attributes).describe text =
      (value.describe text).withAttributes attributes := by
  cases value <;> rfl

/-- What resembles a token is not taken for a part of a value if the token is not. -/
theorem Leaves.of_resembles {token : Token} {kind : TokenKind} {text : String}
    (leaves : value.Leaves token.kind token.value) (resembles : token.Resembles kind text) :
    value.Leaves kind text := by
  cases value with
  | var tag => exact fun unnamed => resembles.kind_ne rfl (leaves unnamed)
  | template tag =>
      intro undefaulted
      obtain ⟨notEqual, unbound⟩ := leaves undefaulted
      rw [resembles.value] at unbound
      exact ⟨resembles.kind_ne rfl notEqual, unbound⟩
  | _ => trivial

/-- The printed form of the value is that of no other one.  The value was read with its rule, its
types can be told from their printed forms, a method does not look static, and the description
does not start with a character that could make more of the parts. -/
structure Unambiguous (value : TagValue) : Prop where
  valid : ∀ tag, value ≠ .invalid tag
  types : ∀ type ∈ value.types, type.Faithful
  static : ∀ tag, value.describe "" = .method tag → ¬tag.LooksStatic
  detached : ∀ char ∈ value.description.toList.head?, ∀ kind,
    Lexeme.opens kind char = true → value.extendedBy kind = false

end TagValue

/-- A text whose lines can be printed and read again, and which does not go on at `stop`. -/
structure Window.TextUpTo (window : Window) (first : String) (others : List String)
    (stop : Nat) : Prop where
  joined : TextLines first others
  rereads : ∀ other ∈ others, Line.Rereads ⟨none, other⟩
  stops : first ≠ "" → ¬window.GoesOn stop

theorem Window.TextUpTo.empty (window : Window) (stop : Nat) : window.TextUpTo "" [] stop where
  joined := .empty
  rereads := by simp
  stops hasText := absurd rfl hasText

/-- The value was read with the rule, and the text up to `stop` is its description. -/
structure TagValue.ReadUpTo (value : TagValue) (window : Window) (rule : TagRule) (first : String)
    (others : List String) (stop : Nat) : Prop where
  isRule : value.rule? = some rule
  sourced : value.Sourced
  text : window.TextUpTo first others stop
  recut : Recut first.toList fun kind text => value.Leaves kind text
  place : rule.isDescribed = false → first = ""
  same : value.describe (String.intercalate "\n" (first :: others)) = value

/-- The child is laid out on lines.  Nothing that follows at `stop` continues it, and if its own
first line continues a text, then the place is one where a text goes on. -/
def Child.LaidUpTo (window : Window) (place : Nat) (child : Child) (stop : Nat) : Prop :=
  ∃ line first others, child.Laid line first others ∧ window.TextUpTo first others stop ∧
    (line.continues = true → Prose.textEnds.contains (window.kind place) = false)

namespace TagValue.ReadUpTo

variable {value : TagValue} {window : Window} {rule : TagRule} {name first : String}
  {others : List String} {stop : Nat}

theorem withAttributes (read : value.ReadUpTo window rule first others stop)
    (attributes : Attributes) :
    (value.withAttributes attributes).ReadUpTo window rule first others stop where
  isRule := by rw [rule?_withAttributes, read.isRule]
  sourced := sourced_withAttributes attributes read.sourced
  text := read.text
  recut := read.recut.imp fun _ _ => leaves_withAttributes attributes
  place := read.place
  same := by rw [describe_withAttributes, read.same]

/-- The description starts with the first character of its first line. -/
theorem head_description (read : value.ReadUpTo window rule first others stop)
    (notText : rule ≠ .deprecated) :
    ∀ char ∈ first.toList.head?, char ∈ value.description.toList.head? := by
  intro char isHead
  have described : rule.isDescribed = true := by
    by_contra undescribed
    rw [read.place (by simpa using undescribed)] at isHead
    cases isHead
  have isWhole := description_describe read.isRule notText described
    (String.intercalate "\n" (first :: others))
  rw [read.same] at isWhole
  obtain ⟨rest, isCons⟩ := List.head?_eq_some_iff.mp isHead
  rw [isWhole, toList_intercalate_cons, isCons]
  rfl

/-- The description starts with nothing that is taken for more of the parts. -/
theorem recut_endsParts (read : value.ReadUpTo window rule first others stop)
    (notText : rule ≠ .deprecated) (unambiguous : value.Unambiguous) :
    Recut first.toList fun kind text => ∀ rest, Sealed rest →
      (value.describe "").EndsParts (⟨true, kind, text⟩ :: rest) := by
  refine read.recut.opened.imp ?_
  rintro kind text ⟨leaves, char, isHead, opens⟩ rest ends
  refine ⟨ends.cons _, ?_, ?_⟩
  · rintro _ ⟨⟩
    exact leaves_describe "" leaves
  · rintro _ ⟨⟩
    refine .inr ⟨rfl, ?_⟩
    rw [extendedBy_describe]
    exact unambiguous.detached char (read.head_description notText char isHead) kind opens

/-- The parts of the value can be laid out in front of its description. -/
theorem partsLaid (read : value.ReadUpTo window rule first others stop) (isName : IsTagName name)
    (known : TagRule.ofName? name = some rule) (notText : rule ≠ .deprecated)
    (unambiguous : value.Unambiguous) : PartsLaid name rule (value.describe "") first := by
  have isRule : (value.describe "").rule? = some rule := by rw [rule?_describe, read.isRule]
  have structured := isStructured_of_rule? isRule notText
  have reprints : (value.describe "").Reprints := by
    apply sourced_describe "" read.sourced
    rw [types_describe]
    exact unambiguous.types
  exact {
    isName
    known
    isRule
    structured
    undescribed := describe_describe "" "" value
    reads := rereadsParts_of_reprints isRule structured (description_undescribed value) reprints
      unambiguous.static
    startsSolid := .of_value structured reprints
    recut := read.recut_endsParts notText unambiguous
    place := read.place }

end TagValue.ReadUpTo

section Reading

variable {source : String} {window : Window} {place : Nat} {bad : Prop}
  (isText : window.first = Cursor.onTokens (tokenize source))
  (paired : PairedReturns source.toList) (numbers : WellFormedNumbers (tokenize source))

include isText

section Texts

include paired

/-- A text is laid out on the lines on which it stood. -/
theorem Prose.parser_lays (onLine : place ≤ window.last) (solid : window.kind place ≠ .blank) :
    Prose.parser.Tandem window Prose.parser place (fun text stop =>
      window.AtLineEnd place text stop ∧ ∃ first others,
        text = String.intercalate "\n" (first :: others) ∧ window.TextUpTo first others stop ∧
        (Recut first.toList fun kind text => (window.token place).Resembles kind text) ∧
        (first ≠ "" → Prose.lineEnds.contains (window.kind place) = false)) bad := by
  refine .inside fun inside => (Prose.parser_reads onLine).mono ?_ id
  intro text stop found
  obtain ⟨others, joined, isJoined, isBehind, stops⟩ := found.exists_lines isText inside solid
  have remains := (TokenList.remains_tokenize paired).drop (window.lt_length isText inside)
  have isCons := window.drop_eq_cons isText inside
  refine ⟨found.atLineEnd onLine, lineTextAt source place, others, isJoined, ⟨joined, ?_, ?_⟩,
    ?_, ?_⟩
  · intro other isMember
    apply remains.rereads_linesAfter
    show ⟨none, other⟩ ∈ linesBehind source place
    rw [isBehind]
    exact List.mem_append_left _ (List.mem_map_of_mem isMember)
  · intro hasText
    apply stops
    rw [isJoined]
    exact mt joined.joined_eq_empty.mp hasText
  · refine (remains.recut ?_).imp ?_
    · rw [isCons]
      rintro _ ⟨⟩
      exact solid
    · rintro kind value ⟨token, isHead, resembles⟩
      rw [isCons] at isHead
      obtain rfl := Option.some.inj isHead
      exact resembles
  · intro hasText
    exact Bool.eq_false_iff.mpr (mt (lineTextAt_eq_empty_iff isText inside solid).mpr hasText)

end Texts

include numbers

/-- The parts of a value can be read again, and the token behind them is not taken for one. -/
theorem TagValue.readParts_leaves {rule : TagRule} (onLine : place ≤ window.last)
    (solid : window.kind place ≠ .blank) :
    (TagValue.readParts rule).Tandem window (TagValue.readParts rule) place (fun parts stop =>
      window.Along place parts stop ∧ window.kind stop ≠ .blank ∧ parts.rule? = some rule ∧
        parts.Sourced ∧ parts.Leaves (window.kind stop) (window.token stop).value) True := by
  refine .inside fun inside => ?_
  have legible : Legible (window.first.standing place []).words := by
    rw [isText]
    refine legible_standing numbers (window.lt_length isText inside) ?_ []
    rwa [Window.kind_eq_kindAt isText] at solid
  refine ((TagValue.readParts_tandem onLine).and_meets (readParts_sourced rule legible) rfl).mono ?_
    fun _ => trivial
  rintro parts stop ⟨⟨along, -⟩, behind, isRule, sourced, leaves⟩
  obtain ⟨word, rest, isCons⟩ := behind.ends.exists_cons
  have isKind : window.kind stop = word.kind := Cursor.kind_of_words isCons
  have isValue : (window.token stop).value = word.text := Cursor.value_of_words isCons
  rw [isKind, isValue]
  rw [isCons] at leaves behind
  exact ⟨along, behind.solid word List.mem_cons_self, isRule, sourced, leaves word rfl⟩

include paired

/-- A value that is read with a rule has its description on lines. -/
theorem TagValue.readRule_lays {rule : TagRule} (onLine : place ≤ window.last)
    (solid : window.kind place ≠ .blank) :
    (TagValue.readRule rule).Tandem window (TagValue.readRule rule) place (fun value stop =>
      window.Along place value stop ∧
        ∃ first others, value.ReadUpTo window rule first others stop) True := by
  rw [readRule_eq]
  refine .bind (readParts_leaves isText numbers onLine solid) ?_
  rintro parts next ⟨⟨further, nextOnLine⟩, nextSolid, isRule, sourced, leaves⟩
  rw [readDescription]
  split
  · next described =>
      refine .bind (Prose.parser_lays isText paired nextOnLine nextSolid) ?_
      rintro _ stop ⟨⟨⟨bound, stopOnLine⟩, -⟩, first, others, rfl, text, recut, -⟩
      refine .pure ⟨⟨Nat.le_trans further bound, stopOnLine⟩, first, others, ?_⟩
      exact {
        isRule := by rw [rule?_describe, isRule]
        sourced := sourced_describe _ sourced
        text
        recut := recut.imp fun _ _ resembles => leaves_describe _ (leaves.of_resembles resembles)
        place := fun undescribed => absurd (described.symm.trans undescribed) (by decide)
        same := describe_describe _ _ parts }
  · next undescribed =>
      have undescribed : rule.isDescribed = false := by simpa using undescribed
      refine .pure ⟨⟨further, nextOnLine⟩, "", [], ?_⟩
      exact {
        isRule
        sourced
        text := .empty window next
        recut := .nil
        place := fun _ => rfl
        same := describe_of_undescribed isRule undescribed _ }

/-- A value that can be told from others was read with the rule for the name of the tag. -/
theorem TagValue.parser_lays {name : String} {rule : TagRule}
    (known : TagRule.ofName? name = some rule) (onLine : place ≤ window.last)
    (solid : window.kind place ≠ .blank) :
    (TagValue.parser name).Tandem window (TagValue.parser name) place (fun value stop =>
      window.AtLineEnd place value stop ∧
        (value.Unambiguous →
          ∃ first others, value.ReadUpTo window rule first others stop)) bad := by
  refine .marked fun inside => ?_
  rw [known]
  refine .bind
    (.attempt (readWholeRule_either (readRule_lays isText paired numbers onLine solid))) ?_
  rintro (error | value) next
  · rintro ⟨rfl, -⟩
    refine .bind (Prose.parser_tandem onLine) ?_
    rintro text stop reached
    exact .positioned inside fun _ => ⟨reached, fun unambiguous => absurd rfl (unambiguous.valid _)⟩
  · rintro ⟨⟨along, first, others, read⟩, atEnd⟩
    exact .positioned inside fun attributes =>
      ⟨⟨along, atEnd⟩, fun _ => ⟨first, others, read.withAttributes attributes⟩⟩

namespace Document

/-- A child that was read from a text can be laid out on lines. -/
theorem readChild_lays (onLine : place ≤ window.last) (solid : window.kind place ≠ .blank) :
    readChild.Tandem window readChild place (fun child stop =>
      window.AtLineEnd place child stop ∧
        ((∀ node ∈ child.tag?, node.value.Unambiguous) →
          child.LaidUpTo window place stop)) bad := by
  refine .inside fun inside => ?_
  by_cases isTag : window.kind place = .tag
  · have inFront := window.lt_last_of_tag onLine isTag
    have before : place < window.limit := Nat.lt_of_lt_of_le inFront window.last_le
    have further := window.lt_next before
    have nextOnLine := window.next_le_last inFront
    have nextSolid := window.next_solid isText before
    have isName : IsTagName (window.token place).value := by
      have remains := (TokenList.remains_tokenize paired).drop (window.lt_length isText inside)
      rw [window.drop_eq_cons isText inside] at remains
      exact remains.isTagName isTag
    cases readsText : TagRule.readsText (window.token place).value with
    | true =>
        refine (readChild_tag before isTag rfl (TagValue.parser_ofProse readsText
          (Prose.parser_lays isText paired nextOnLine nextSolid) fun _ _ found => found.1.2)).mono
          ?_ id
        rintro _ stop ⟨node, rfl, isValue, text, ⟨⟨⟨bound, stopOnLine⟩, atEnd⟩, first, others, rfl,
          lines, recut, -⟩, same⟩
        refine ⟨⟨⟨by omega, stopOnLine⟩, atEnd⟩, fun _ => ⟨⟨some node.name, first⟩, first, others,
          .prose ?_ (recut.imp fun _ _ _ isNone => absurd isNone (Option.some_ne_none _)) ?_,
          lines, fun isText => absurd isText Bool.false_ne_true⟩⟩
        · rintro _ ⟨⟩
          rw [isValue]
          exact ⟨isName, readsText⟩
        · rw [Child.bare, TagNode.bare, same, isValue, Line.child]
    | false =>
        obtain ⟨rule, known, notText⟩ := TagRule.exists_of_readsText_eq_false readsText
        refine (readChild_tag before isTag rfl (TagValue.parser_lays isText paired numbers known
          nextOnLine nextSolid)).mono ?_ id
        rintro _ stop ⟨node, rfl, isValue, ⟨⟨bound, stopOnLine⟩, atEnd⟩, lays⟩
        refine ⟨⟨⟨by omega, stopOnLine⟩, atEnd⟩, fun each => ?_⟩
        have unambiguous := each node rfl
        obtain ⟨first, others, read⟩ := lays unambiguous
        rw [← isValue] at isName known
        refine ⟨_, first, others, .parts (read.partsLaid isName known notText unambiguous) ?_,
          read.text, fun isText => absurd isText Bool.false_ne_true⟩
        rw [TagValue.describe_describe, read.same, Child.bare, TagNode.bare]
  · refine (readChild_text isTag (Prose.parser_lays isText paired onLine solid)).mono ?_ id
    rintro _ stop ⟨node, rfl, reached, first, others, isJoined, lines, recut, started⟩
    refine ⟨reached, fun _ => ⟨⟨none, first⟩, first, others, .prose (by simp)
      (recut.imp fun _ _ resembles _ => resembles.kind_ne rfl isTag) ?_, lines, ?_⟩⟩
    · rw [Child.bare, TextNode.bare, isJoined, Line.child]
    · intro goesOn
      have hasText : first ≠ "" := by simpa [Line.continues] using goesOn
      rw [← Bool.not_eq_true, Prose.textEnds_contains_iff, started hasText]
      simp [isTag]

end Document

end Reading

/-- If they can be told from others, the children are laid out in front of any lines, of which the
first one continues a text only where it may.  A child is laid out when the lines behind it are
known, so the children are found from the first one on and laid out from the last one up. -/
def LaysInFront (children : List Child) (goesOn : Prop) : Prop :=
  (∀ child ∈ children, ∀ node ∈ child.tag?, node.value.Unambiguous) →
    ∀ rest lines, Arranged rest lines → (∀ line ∈ lines.head?, line.continues = true → goesOn) →
      ∃ all, Arranged (children ++ rest) all

namespace LaysInFront

variable {children : List Child} {goesOn goesOn' : Prop}

theorem imp (lays : LaysInFront children goesOn) (implies : goesOn' → goesOn) :
    LaysInFront children goesOn' :=
  fun each rest lines arranged continues =>
    lays each rest lines arranged fun line isHead isText => implies (continues line isHead isText)

/-- A child is laid out behind the others. -/
theorem more {window : Window} {place stop : Nat} {child : Child}
    (lays : LaysInFront children (Prose.textEnds.contains (window.kind place) = false))
    (laid : (∀ node ∈ child.tag?, node.value.Unambiguous) → child.LaidUpTo window place stop) :
    LaysInFront (children ++ [child]) (window.GoesOn stop) := by
  intro each rest lines arranged continues
  obtain ⟨line, first, others, laid, text, starts⟩ := laid (each child (by simp))
  have stops : first ≠ "" → ∀ next ∈ lines.head?, next.continues = false := by
    intro hasText next isHead
    exact Bool.eq_false_iff.mpr (mt (continues next isHead) (text.stops hasText))
  rw [List.append_assoc, List.singleton_append]
  apply lays (fun other isMember => each other (List.mem_append_left _ isMember)) _ _
    (.cons laid text.joined text.rereads stops arranged)
  rintro _ ⟨⟩ isText
  exact starts isText

end LaysInFront

/-- The children of a comment that was read from a text can be laid out on lines. -/
theorem Document.exists_arranged {source : String} {document : Document}
    (paired : PairedReturns source.toList) (numbers : WellFormedNumbers (tokenize source))
    (accepted : ofText source = .ok document)
    (each : ∀ node ∈ document.tags, node.value.Unambiguous) :
    ∃ lines, Arranged document.children lines := by
  obtain ⟨window, cursor, isText, whole, -, isOpen, inside, isRun⟩ := exists_window accepted
  have lays : LaysInFront document.children
        (Prose.textEnds.contains (window.kind window.limit) = false) ∨
      LaysInFront document.children (window.GoesOn window.limit) := by
    refine children_of_accepted whole (Nat.le_of_lt inside) isRun (readBody_phases
      (fun here child stop => (∀ node ∈ child.tag?, node.value.Unambiguous) →
        child.LaidUpTo window here stop)
      (fun children here =>
        LaysInFront children (Prose.textEnds.contains (window.kind here) = false))
      (fun children here => LaysInFront children (window.GoesOn here))
      isOpen ?_ ?_ (fun _ _ _ _ => LaysInFront.more) ?_)
    · exact fun _ rest lines arranged _ => ⟨lines, arranged⟩
    · rintro here ⟨before, beforeLimit, -, rfl⟩ -
      have bound := window.next_le beforeLimit
      exact readChild_lays isText paired numbers (by rwa [whole.last_eq])
        (window.next_solid isText beforeLimit)
    · intro children here lays _ isBreak
      exact lays.imp fun goesOn => ⟨isBreak, goesOn⟩
  have eachChild : ∀ child ∈ document.children, ∀ node ∈ child.tag?, node.value.Unambiguous :=
    fun child isMember node isTag => each node (List.mem_filterMap.mpr ⟨child, isMember, isTag⟩)
  have alone := lays.elim (fun lays => lays eachChild [] [] .nil nofun)
    fun lays => lays eachChild [] [] .nil nofun
  rwa [List.append_nil] at alone

end Docblock
