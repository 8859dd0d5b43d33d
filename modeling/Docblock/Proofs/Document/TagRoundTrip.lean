import Docblock.Parse
import Docblock.Proofs.Document.FreeText
import Docblock.Proofs.Document.Pieces
import Docblock.Proofs.TagValue.Methods
import Docblock.Proofs.TypeExpr.RoundTrip

/-!
# Tags with parts survive printing

A tag whose value was read with a rule of its own is printed on a line of its own.  The name of
the tag selects the same rule again, and the rule reads the printed parts as what they were, so a
comment that has nothing but such a tag is read again from its printed form.
-/

namespace Docblock

open Docblock.Parser

-- Parsers are taken apart with the rules for `Meets`, never by running them.
attribute [local irreducible] Parser.Meets

namespace TagValue

theorem exists_rule {value : TagValue} (structured : value.isStructured = true) :
    ∃ rule, value.rule? = some rule := by
  cases value <;> first | exact ⟨_, rfl⟩ | cases structured

/-- The parts of every value that has some are read again with the rule that describes it. -/
theorem rereadsParts_of_reprints {value : TagValue} {rule : TagRule}
    (isRule : value.rule? = some rule) (structured : value.isStructured = true)
    (undescribed : value.description = "") (reprints : value.Reprints)
    (unambiguous : ∀ tag, value = method tag → ¬tag.LooksStatic) : value.RereadsParts rule := by
  cases value with
  | var tag =>
      cases isRule
      exact rereadsParts_var reprints undescribed
  | param tag =>
      cases isRule
      exact rereadsParts_param reprints undescribed
  | typed role tag =>
      cases isRule
      exact rereadsParts_typed reprints undescribed
  | deprecated tag => cases structured
  | property tag =>
      cases isRule
      exact rereadsParts_property reprints undescribed
  | method tag =>
      cases isRule
      exact rereadsParts_method reprints undescribed (unambiguous tag rfl)
  | template tag =>
      cases isRule
      exact rereadsParts_template reprints undescribed
  | typeAlias tag =>
      cases isRule
      exact rereadsParts_typeAlias reprints
  | imported tag =>
      cases isRule
      exact rereadsParts_imported reprints
  | generic tag => cases structured
  | invalid tag => cases structured

/-- A value is read again in front of the end of the line, if its rule reads it. -/
theorem parser_rereads {name : String} {value : TagValue} {rule : TagRule} {words rest : List Word}
    (isRule : TagRule.ofName? name = some rule) (endsValue : EndsValue rest)
    (reads : (readRule rule).Meets (words ++ rest)
      (fun found after => after = rest ∧ found.bare = value.bare) False) :
    (TagValue.parser name).Meets (words ++ rest)
      (fun found after => after = rest ∧ found.bare = value.bare) False := by
  have whole : (readWholeRule rule).Meets (words ++ rest)
      (fun found after => after = rest ∧ found.bare = value.bare) False := by
    apply Meets.bind reads
    rintro found _ ⟨rfl, same⟩
    obtain ⟨others, rfl⟩ := endsValue.exists_cons
    apply (Returns.isAtAny Prose.lineEnds).bind
    rw [if_pos (by decide)]
    exact .pure ⟨rfl, same⟩
  apply Meets.bind .mark
  rintro start _ rfl
  rw [isRule]
  apply Meets.bind (Meets.attempt_ok (readWholeRule_built rule).steady whole)
  rintro _ _ ⟨found, rfl, rfl, same⟩
  apply Meets.bind (.positionsSince start)
  rintro attributes _ rfl
  exact .pure ⟨rfl, by rw [bare_withAttributes, same]⟩

end TagValue

/-- The name of the tag can be read again.  If its value has parts, it was read with the rule for
that name, and its parts can be read again. -/
structure TagNode.Sourced (node : TagNode) : Prop where
  name : IsLexeme .tag node.name.toList
  value : node.value.isStructured = true →
    TagRule.ofName? node.name = node.value.rule? ∧ node.value.Sourced

/-- The words from a token of a text on, if it is no blank. -/
theorem legible_standing {source : String} (numbers : WellFormedNumbers (tokenize source))
    {place : Nat} (inside : place < (tokenize source).length)
    (isSolid : ((Cursor.onTokens (tokenize source)).tokenAt place).kind ≠ .blank)
    (saved : List Nat) :
    Legible ((Cursor.onTokens (tokenize source)).standing place saved).words := by
  obtain ⟨front, last, final, isRest, isFinish, isWords⟩ :=
    exists_words_standing inside isSolid saved
  constructor
  · rw [isWords]
    simp [Sealed]
  · intro word isMember
    have isWords' : ((Cursor.onTokens (tokenize source)).standing place saved).words =
        wordsOf _ ((tokenize source).drop place) :=
      congrArg _ (Cursor.tokensFrom_onTokens (tokenize source) place place saved)
    rw [isWords'] at isMember
    obtain ⟨token, isToken, sameWord⟩ := mem_wordsOf isMember
    exact lexical_of_token numbers ⟨token, List.mem_of_mem_drop isToken, sameWord⟩
  · intro word isMember
    rw [isWords] at isMember
    rcases List.mem_append.mp isMember with isInner | isLast
    · exact kind_ne_blank_of_mem_solidWords isInner
    · rw [List.mem_singleton.mp isLast]
      exact TokenKind.noConfusion

namespace Document

variable {words rest : List Word}

theorem readTag_sourced {word : Word} (isTag : word.kind = .tag)
    (legible : Legible (word :: rest)) :
    readTag.Meets (word :: rest) (fun node _ => node.Sourced) True := by
  have ends : Sealed rest := legible.ends.tail (by rw [isTag]; decide)
  apply Meets.bind .mark
  rintro start _ rfl
  apply Meets.bind .current
  rintro token _ ⟨-, isName, rfl⟩
  have named : IsLexeme .tag token.value.toList := by
    have lexical := legible.lexical word List.mem_cons_self (.inl (by rw [isTag]; rfl))
    rwa [isTag, ← isName] at lexical
  apply (Returns.advance ends.ne_nil).bind
  apply Meets.bind (TagValue.parser_sourced token.value (legible.tail ends))
  intro value _ sourced
  exact .bind .any fun attributes _ _ => .pure ⟨named, sourced⟩

theorem readChild_sourced (legible : Legible words) :
    readChild.Meets words (fun child _ => ∀ node ∈ child.tag?, node.Sourced) True := by
  obtain ⟨word, rest, rfl⟩ := legible.ends.exists_cons
  by_cases isTag : word.kind = .tag
  · apply (Returns.isAt_yes isTag).bind
    rw [if_pos rfl]
    apply Meets.bind (readTag_sourced isTag legible)
    intro node _ sourced
    apply Meets.pure
    rintro _ ⟨⟩
    exact sourced
  · apply (Returns.isAt_no isTag).bind
    rw [if_neg (by decide)]
    exact .bind .any fun node _ _ => .pure nofun

/-- The first of these parts, if it is a tag, has a value that can be read again. -/
def FirstSourced (children : List Child) : Prop :=
  ∀ child ∈ children.head?, ∀ node ∈ child.tag?, node.Sourced

theorem readChildren_sourced (legible : Legible words) :
    readChildren.Meets words (fun children _ => FirstSourced children) True := by
  obtain ⟨word, rest, rfl⟩ := legible.ends.exists_cons
  apply (Returns.isAt .closeDoc).bind
  split
  · exact .pure nofun
  · apply Meets.bind (readChild_sourced legible)
    intro child _ sourced
    apply Meets.bind .any
    intro others _ _
    apply Meets.pure
    rintro _ ⟨⟩
    exact sourced

theorem parser_sourced (legible : Legible words) :
    parser.Meets words (fun document _ => FirstSourced document.children) True := by
  have body : readBody.Meets words (fun children _ => FirstSourced children) True := by
    apply Meets.bind (.consume_legible legible (by decide))
    rintro _ _ ⟨legible, -⟩
    apply Meets.bind (.accept_legible legible (by decide))
    rintro _ _ ⟨legible, -⟩
    exact readChildren_sourced legible
  apply Meets.bind .mark
  rintro start _ rfl
  apply Meets.bind body
  intro children _ sourced
  exact .bind .any fun _ _ _ => .bind .any fun _ _ _ => .pure sourced

/-- What stands behind the value of the only tag of a printed comment. -/
def closingWords (last : Word) : List Word :=
  [⟨false, .lineBreak, "\n "⟩, ⟨false, .closeDoc, "*/"⟩, last]

theorem endsValue_closingWords {last : Word} (isFinish : last.kind = .finish) :
    EndsValue (closingWords last) :=
  ⟨by simp [Sealed, closingWords, isFinish], rfl⟩

theorem scanned_closing : Scanned false ['\n', ' ', '*', '/']
    [⟨false, .lineBreak, "\n "⟩, ⟨false, .closeDoc, "*/"⟩] := by
  have scannedClose : Scanned false ['*', '/'] [⟨false, .closeDoc, "*/"⟩] :=
    .doubleMark rfl (by decide) .done
  have isBreak : Lexeme.first '\n' [' ', '*', '/'] = ⟨.lineBreak, 1⟩ := rfl
  exact .word isBreak (by decide) scannedClose

theorem scanned_opening {text : List Char} (scanned : Scanned true text words) :
    Scanned false ('/' :: '*' :: '*' :: '\n' :: ' ' :: '*' :: ' ' :: text)
      (⟨false, .openDoc, "/**"⟩ :: ⟨false, .lineBreak, "\n *"⟩ :: words) := by
  have isBreak : Lexeme.first '\n' (' ' :: '*' :: ' ' :: text) = ⟨.lineBreak, 2⟩ := rfl
  have scannedBreak : Scanned false ('\n' :: ' ' :: '*' :: ' ' :: text) _ :=
    .word isBreak (by decide) (.space scanned)
  have isOpen : Lexeme.first '/' ('*' :: '*' :: '\n' :: ' ' :: '*' :: ' ' :: text) =
      ⟨.openDoc, 2⟩ := rfl
  exact .word isOpen (by decide) scannedBreak

/-- A tag is cut into its name and the words of its value. -/
theorem cut_tag {node : TagNode} {used : List Word} (isName : IsLexeme .tag node.name.toList)
    (some : used ≠ []) (cut : Cut Delimited true node.value.print.toList used) :
    Cut Delimited true node.print.toList (⟨true, .tag, node.name⟩ :: used) := by
  have hasValue : node.value.print ≠ "" := by simpa using cut.ne_nil some
  intro after rest delimited scanned
  have scannedName := isName.cut (by decide) true _ _ (.cons (by decide))
    (.space (cut after rest delimited scanned))
  simpa [TagNode.print, hasValue] using scannedName

/-- The words of a printed comment that has nothing but one tag. -/
theorem exists_words_print {document : Document} {node : TagNode} {used : List Word}
    (single : document.children = [.tag node]) (isName : IsLexeme .tag node.name.toList)
    (some : used ≠ []) (unbroken : Unbroken used)
    (cut : Cut Delimited true node.value.print.toList used) :
    ∃ last, last.kind = .finish ∧ (Cursor.ofTokens (tokenize document.print)).words =
      ⟨false, .openDoc, "/**"⟩ :: ⟨false, .lineBreak, "\n *"⟩ :: ⟨true, .tag, node.name⟩ ::
        (used ++ closingWords last) := by
  have cutNode := cut_tag isName some cut
  have hasText : node.print ≠ "" := by simpa using cutNode.ne_nil (by simp)
  have inLine : ∀ char ∈ node.print.toList, char ≠ '\n' := by
    have scanned := cutNode [] [] .nil .done
    rw [List.append_nil, List.append_nil] at scanned
    exact fun char isMember => Line.ne_lineFeed (scanned.inLine (by simp [unbroken]) char isMember)
  have isPrint : document.print.toList = '/' :: '*' :: '*' :: '\n' :: ' ' :: '*' :: ' ' ::
      (node.print.toList ++ ['\n', ' ', '*', '/']) := by
    rw [toList_print (by simp [single]), single, List.flatMap_singleton, gutterLine,
      Child.print, toList_behindGutter_line inLine, behindSpace, if_neg hasText]
    rfl
  have scanned := scanned_opening (cutNode _ _ (.cons (by decide)) scanned_closing)
  rw [← isPrint] at scanned
  obtain ⟨last, isFinish, seen⟩ := scanned.words_tokenize
  exact ⟨last, isFinish, by simpa [closingWords] using seen⟩

section Rereading

variable {name : String} {value : TagValue} {rule : TagRule} {used : List Word}
  (isRule : TagRule.ofName? name = some rule)
  (reads : ∀ rest, EndsValue rest → (TagValue.readRule rule).Meets (used ++ rest)
    (fun found after => after = rest ∧ found.bare = value.bare) False)

include isRule reads

theorem readTag_rereads (endsValue : EndsValue rest) :
    readTag.Meets (⟨true, .tag, name⟩ :: (used ++ rest))
      (fun node after => after = rest ∧ node.bare = ⟨name, value.bare, .empty⟩) False := by
  apply Meets.bind .mark
  rintro start _ rfl
  apply Meets.bind .current
  rintro token _ ⟨-, isName, rfl⟩
  apply (Returns.advance (endsValue.ends.append used).ne_nil).bind
  have isRule : TagRule.ofName? token.value = some rule := by rw [isName, isRule]
  apply Meets.bind (TagValue.parser_rereads isRule endsValue (reads rest endsValue))
  rintro found _ ⟨rfl, same⟩
  apply Meets.bind (.positionsSince start)
  rintro attributes _ rfl
  exact .pure ⟨rfl, by rw [TagNode.bare, isName, same]⟩

theorem readChildren_rereads {last : Word} (isFinish : last.kind = .finish) :
    readChildren.Meets (⟨true, .tag, name⟩ :: (used ++ closingWords last))
      (fun children after => after = [⟨false, .closeDoc, "*/"⟩, last] ∧
        children.map Child.bare = [.tag ⟨name, value.bare, .empty⟩]) False := by
  have isTag : (⟨true, .tag, name⟩ : Word).kind = .tag := rfl
  have isBreak : (⟨false, .lineBreak, "\n "⟩ : Word).kind = .lineBreak := rfl
  have isClose : (⟨false, .closeDoc, "*/"⟩ : Word).kind = .closeDoc := rfl
  have child : readChild.Meets (⟨true, .tag, name⟩ :: (used ++ closingWords last))
      (fun child after => after = closingWords last ∧
        child.bare = .tag ⟨name, value.bare, .empty⟩) False := by
    apply (Returns.isAt_yes isTag).bind
    rw [if_pos rfl]
    apply Meets.bind (readTag_rereads isRule reads (endsValue_closingWords isFinish))
    rintro node _ ⟨rfl, same⟩
    exact .pure ⟨rfl, by rw [Child.bare, same]⟩
  apply (Returns.isAt_no (by rw [isTag]; decide)).bind
  rw [if_neg (by decide)]
  apply Meets.bind child
  rintro child _ ⟨rfl, same⟩
  -- The line break behind the tag is in front of the close marker, so no other part follows.
  apply (Returns.many_none ?_).bind
  · exact .pure ⟨rfl, by rw [List.map_singleton, same]⟩
  · apply (Returns.accept_yes isBreak (by simp)).bind
    rw [if_pos rfl]
    apply (Returns.isAt_yes isClose).bind
    rw [if_pos rfl]
    exact .pure ⟨rfl, rfl⟩

/-- A printed comment that has nothing but one tag is read again. -/
theorem parser_rereads {last : Word} (isFinish : last.kind = .finish) :
    parser.Meets (⟨false, .openDoc, "/**"⟩ :: ⟨false, .lineBreak, "\n *"⟩ :: ⟨true, .tag, name⟩ ::
        (used ++ closingWords last))
      (fun document _ => document.children.map Child.bare =
        [.tag ⟨name, value.bare, .empty⟩]) False := by
  have isOpen : (⟨false, .openDoc, "/**"⟩ : Word).kind = .openDoc := rfl
  have isBreak : (⟨false, .lineBreak, "\n *"⟩ : Word).kind = .lineBreak := rfl
  have isClose : (⟨false, .closeDoc, "*/"⟩ : Word).kind = .closeDoc := rfl
  have body : readBody.Meets (⟨false, .openDoc, "/**"⟩ :: ⟨false, .lineBreak, "\n *"⟩ ::
      ⟨true, .tag, name⟩ :: (used ++ closingWords last))
      (fun children after => after = [⟨false, .closeDoc, "*/"⟩, last] ∧
        children.map Child.bare = [.tag ⟨name, value.bare, .empty⟩]) False := by
    apply (Returns.consume isOpen (by simp)).bind
    apply (Returns.accept_yes isBreak (by simp)).bind
    exact readChildren_rereads isRule reads isFinish
  apply Meets.bind .mark
  rintro start _ rfl
  apply Meets.bind body
  rintro children _ ⟨rfl, same⟩
  apply (Returns.consume isClose (by simp)).bind
  apply Meets.bind (.positionsSince start)
  rintro attributes _ rfl
  exact .pure same

end Rereading

/-- A comment that has nothing but one tag, whose value has parts and no description, is read
again from its printed form.  The numbers in the text that it was read from are well formed, the
types in the value can be told from their printed forms, and a method is not taken for a static
one. -/
theorem structuredTag_survives {source : String} {document : Document} {node : TagNode}
    (accepted : ofText source = .ok document) (single : document.children = [.tag node])
    (structured : node.value.isStructured = true) (undescribed : node.value.description = "")
    (numbers : WellFormedNumbers (tokenize source))
    (points : ∀ type ∈ node.value.types, type.Throughout TypeForm.PointsApart)
    (negations : ∀ type ∈ node.value.types, type.Throughout TypeForm.NegationsApart)
    (unambiguous : ∀ tag, node.value = .method tag → ¬tag.LooksStatic) :
    ∃ found, ofText document.print = .ok found ∧ (found == document) = true := by
  have legible : Legible (Cursor.ofTokens (tokenize source)).words := by
    obtain ⟨window, -, isText, -, -, isOpen, inside, -⟩ := exists_window accepted
    rw [ofTokens_tokenize]
    apply legible_standing numbers
    · have bound := window.inFirst
      rw [isText, Cursor.size_onTokens] at bound
      omega
    · rw [← isText]
      exact fun isBlank => TokenKind.noConfusion (isOpen.symm.trans isBlank)
  rw [ofText, ofTokens] at accepted
  obtain ⟨-, sourced⟩ := (parser_sourced legible).of_run accepted
  have ofNode : node.Sourced := sourced (.tag node) (by simp [single]) node rfl
  obtain ⟨sameRule, ofValue⟩ := ofNode.value structured
  obtain ⟨rule, isRule⟩ := TagValue.exists_rule structured
  have reprints := ofValue fun type isType => ⟨points type isType, negations type isType⟩
  obtain ⟨used, some, unbroken, cut, reads⟩ := (TagValue.rereadsParts_of_reprints isRule structured
    undescribed reprints unambiguous).rereads structured undescribed
  obtain ⟨last, isFinish, seen⟩ := exists_words_print single ofNode.name some unbroken cut
  have rereads := parser_rereads (sameRule.trans isRule) reads isFinish
  rw [← seen] at rereads
  obtain ⟨found, -, acceptedAgain, same⟩ := rereads.exists_run .off
  refine ⟨found, acceptedAgain, ?_⟩
  rw [decisive_bare, Document.bare, Document.bare, same, single]
  rfl

/-- A method that looks static is not read again. -/
example : (ofText "/** @method (static|int) f() */").toOption.any (fun document =>
    (ofText document.print).toOption.any fun found => !(found == document)) = true := by
  decide +kernel

/-- What `static build( A&B &$items=-1.5, ...$rest )` is read as. -/
def builder : MethodTag where
  isStatic := false
  returnType := some ⟨.identifier "static", .empty⟩
  name := "build"
  parameters :=
    [{ type := some ⟨.intersection [⟨.identifier "A", .empty⟩, ⟨.identifier "B", .empty⟩], .empty⟩
       isReference := true
       isVariadic := false
       name := "items"
       default := some ⟨.literal .float "-1.5", .empty⟩
       attributes := .empty },
     { type := none
       isReference := false
       isVariadic := true
       name := "rest"
       default := none
       attributes := .empty }]
  description := ""
  attributes := .empty

theorem throughout_builder {property : TypeForm → Prop}
    (ofName : ∀ name, property (.identifier name))
    (ofBoth : property (.intersection [⟨.identifier "A", .empty⟩, ⟨.identifier "B", .empty⟩])) :
    ∀ type ∈ (TagValue.method builder).types, type.Throughout property := by
  have named (name : String) : TypeExpr.Throughout property ⟨.identifier name, .empty⟩ :=
    TypeExpr.throughout_leaf (ofName name) rfl
  intro type isType
  simp only [TagValue.types, builder, Option.toList_some, List.filterMap_cons, List.filterMap_nil,
    List.mem_append, List.mem_cons, List.not_mem_nil, or_false] at isType
  rcases isType with rfl | rfl
  · exact named "static"
  · apply TypeExpr.throughout_of_parts ofBoth
    intro operand isOperand
    simp only [TypeForm.parts, List.mem_cons, List.not_mem_nil, or_false] at isOperand
    rcases isOperand with rfl | rfl
    · exact named "A"
    · exact named "B"

/-- The word `static` is the return type of a method whose parameters look like those of a callable
type up to a default value. -/
theorem structuredTag_survives_builder :
    let source := "/** @method static build( A&B &$items=-1.5, ...$rest ) */"
    let document : Document := ⟨[.tag ⟨"@method", .method builder, .empty⟩], .empty⟩
    ofText source = .ok document ∧
      document.print = "/**\n * @method static build(A&B &$items = -1.5, ...$rest)\n */" ∧
      ∃ found, ofText document.print = .ok found ∧ (found == document) = true := by
  intro source document
  have isTokenized : tokenize source =
      [⟨.openDoc, "/**", 1⟩, ⟨.blank, " ", 1⟩, ⟨.tag, "@method", 1⟩, ⟨.blank, " ", 1⟩,
        ⟨.identifier, "static", 1⟩, ⟨.blank, " ", 1⟩, ⟨.identifier, "build", 1⟩,
        ⟨.openParen, "(", 1⟩, ⟨.blank, " ", 1⟩, ⟨.identifier, "A", 1⟩, ⟨.intersection, "&", 1⟩,
        ⟨.identifier, "B", 1⟩, ⟨.blank, " ", 1⟩, ⟨.reference, "&", 1⟩,
        ⟨.namedVariable, "$items", 1⟩, ⟨.equal, "=", 1⟩, ⟨.float, "-1.5", 1⟩, ⟨.comma, ",", 1⟩,
        ⟨.blank, " ", 1⟩, ⟨.variadic, "...", 1⟩, ⟨.namedVariable, "$rest", 1⟩, ⟨.blank, " ", 1⟩,
        ⟨.closeParen, ")", 1⟩, ⟨.blank, " ", 1⟩, ⟨.closeDoc, "*/", 1⟩, Token.finish 1] := by
    decide +kernel
  have accepted : ofText source = .ok document := by
    rw [ofText, isTokenized]
    rfl
  have isNumber : Number.WellFormed .float ['-', '1', '.', '5'] :=
    .negative (@Number.Unsigned.pointed ['1'] ['5'] [] (.last rfl) (.inr (.last rfl)) (.inl rfl))
  have onlyNumber : ∀ token ∈ tokenize source, token.kind = .integer ∨ token.kind = .float →
      token.kind = .float ∧ token.value = "-1.5" := by
    rw [isTokenized]
    decide
  have numbers : WellFormedNumbers (tokenize source) := by
    intro token isMember isKind
    obtain ⟨isFloat, isValue⟩ := onlyNumber token isMember isKind
    rw [isFloat, isValue]
    simpa using isNumber
  have apart : TypeForm.PointsApart
      (.intersection [⟨.identifier "A", .empty⟩, ⟨.identifier "B", .empty⟩]) := by
    intro operand isOperand
    obtain rfl := List.mem_singleton.mp isOperand
    decide +kernel
  have unambiguous : ∀ tag, TagValue.method builder = .method tag → ¬tag.LooksStatic := by
    rintro _ ⟨⟩ ⟨-, -, differs⟩
    exact differs rfl
  refine ⟨accepted, by decide +kernel, ?_⟩
  exact structuredTag_survives accepted rfl rfl rfl numbers
    (throughout_builder (fun _ => trivial) apart) (throughout_builder (fun _ => trivial) trivial)
    unambiguous

end Document

end Docblock
