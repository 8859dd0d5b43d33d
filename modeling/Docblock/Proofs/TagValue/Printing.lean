import Docblock.Proofs.Document.Sameness
import Docblock.Proofs.TagValue.Soundness
import Docblock.Proofs.TypeExpr.LineBreaks

/-!
# Reading printed values of tags

The printed form of a value is cut into the words of its parts, and the rule that describes the
value reads them as the same parts, if the line ends behind them.
-/

namespace Docblock

open Docblock.Parser

-- Parsers are taken apart with the rules for `Meets`, never by running them.
attribute [local irreducible] Parser.Meets

section Spacing

variable {text text' : List Char} {words words' : List Word} {gap : Bool}

theorem toList_spaced {part : String} (some : part ≠ "") (parts : List String) :
    (Text.spaced (part :: parts)).toList = part.toList ++ parts.flatMap behindSpace := by
  rw [Text.spaced, List.filter_cons_of_pos (by simpa using some), toList_intercalate_cons]
  congr 1
  induction parts with
  | nil => rfl
  | cons other parts induction =>
      by_cases isEmpty : other = "" <;> simpa [behindSpace, isEmpty] using induction

theorem spaced_absent (parts : List String) : Text.spaced ("" :: parts) = Text.spaced parts := rfl

/-- The last part stands behind a space, unless there is no other one. -/
theorem toList_spaced_concat (parts : List String) (some : Text.spaced (parts ++ [""]) ≠ "")
    (text : String) : (Text.spaced (parts ++ [text])).toList =
      (Text.spaced (parts ++ [""])).toList ++ behindSpace text := by
  induction parts with
  | nil => exact absurd rfl some
  | cons part parts induction =>
      by_cases isEmpty : part = ""
      · subst isEmpty
        exact induction some
      · rw [List.cons_append, List.cons_append, toList_spaced isEmpty, toList_spaced isEmpty]
        simp [behindSpace]

theorem delimited_behindSpaces (parts : List String) {after : List Char}
    (delimited : Delimited after) : Delimited (parts.flatMap behindSpace ++ after) := by
  induction parts with
  | nil => exact delimited
  | cons other parts induction =>
      by_cases isEmpty : other = ""
      · simpa [behindSpace, isEmpty] using induction
      · simp [behindSpace, isEmpty, Delimited, Lexeme.delimiters]

theorem Cut.append (first : Cut Delimited gap text words)
    (second : Cut Delimited false text' words')
    (delimits : ∀ after, Delimited after → Delimited (text' ++ after)) :
    Cut Delimited gap (text ++ text') (words ++ words') := by
  intro after rest delimited scanned
  rw [List.append_assoc, List.append_assoc]
  exact first _ _ (delimits after delimited) (second after rest delimited scanned)

theorem Cut.ne_nil (cut : Cut Delimited gap text words) (some : words ≠ []) : text ≠ [] := by
  rintro rfl
  have scanned := cut [] [] .nil .done
  rw [List.append_nil, List.append_nil] at scanned
  cases scanned
  exact some rfl

/-- A part of a printed value with the words that it is cut into behind a space. -/
inductive SpacedPart : String → List Word → Prop
  | absent : SpacedPart "" []
  | present {part : String} {words : List Word} (some : words ≠ [])
      (cut : Cut Delimited true part.toList words) : SpacedPart part words

theorem SpacedPart.cut {part : String} (spaced : SpacedPart part words) :
    Cut Delimited false (behindSpace part) words := by
  cases spaced with
  | absent => exact .nil _
  | present some cut =>
      have nonempty : part ≠ "" := by simpa using cut.ne_nil some
      intro after rest delimited scanned
      rw [behindSpace, if_neg nonempty]
      exact .space (cut after rest delimited scanned)

/-- The parts of a printed value are cut into their words. -/
theorem cut_spaced {part : String} {parts : List String} {pieces : List (List Word)}
    (some : words ≠ []) (cut : Cut Delimited gap part.toList words)
    (others : List.Forall₂ SpacedPart parts pieces) :
    Cut Delimited gap (Text.spaced (part :: parts)).toList (words ++ pieces.flatten) := by
  rw [toList_spaced (by simpa using cut.ne_nil some)]
  refine cut.append ?_ fun after => delimited_behindSpaces parts
  induction others with
  | nil => exact .nil _
  | cons first _ induction =>
      exact first.cut.append induction fun after => delimited_behindSpaces _

end Spacing

section Pieces

variable {gap : Bool} {text after : List Char} {words rest : List Word}

theorem IsName.cut {name : String} (isName : IsName name) (gap : Bool) :
    Cut Delimited gap name.toList [⟨gap, .identifier, name⟩] :=
  IsLexeme.cut isName (by decide) gap

theorem TypeExpr.Reprints.exists_words {type : TypeExpr} (reprints : type.Reprints) (gap : Bool) :
    ∃ words ending, words ≠ [] ∧ Cut Delimited gap type.print.toList words ∧
      (TypePhrase.chain .union type).Spelled words ending := by
  obtain ⟨kind, value, more, ending, cut, isSpelled⟩ := reprints.union gap
  exact ⟨_, ending, by simp, cut, isSpelled⟩

/-- The words of a parameter: its marks and its name. -/
def parameterWords (gap isReference isVariadic : Bool) (name : String) : List Word :=
  TypeExpr.markWords gap .reference "&" isReference ++
    (TypeExpr.markWords (gap && !isReference) .variadic "..." isVariadic ++
      [⟨gap && !isReference && !isVariadic, .namedVariable, "$" ++ name⟩])

theorem cut_parameterName {name : String} (named : IsVariableName name)
    (gap isReference isVariadic : Bool) :
    Cut Delimited gap (printParameterName isReference isVariadic name).toList
      (parameterWords gap isReference isVariadic name) := by
  intro after rest delimited scanned
  have scannedName := IsLexeme.cut named (by decide) (gap && !isReference && !isVariadic) after rest
    delimited scanned
  have scannedDots := TypeExpr.scanned_markWords .variadic "..." scannedName
    fun _ others => by simpa using others.ellipsis
  have isReferenceMark := Lexeme.first_ampersand_reference
    (TypeExpr.ampersandKind_variable isVariadic named delimited)
  have scannedMarks := TypeExpr.scanned_markWords .reference "&" scannedDots
    fun _ others => by simpa using Scanned.mark isReferenceMark (by decide) others
  rw [printParameterName, parameterWords]
  simpa [List.append_assoc] using scannedMarks

end Pieces

/-- Words of this kind stand behind a type in the value of a tag. -/
def TokenKind.endsType (kind : TokenKind) : Bool :=
  [.reference, .variadic, .namedVariable, .equal, .lineBreak].contains kind

/-- A type goes on with words of this kind, even where they stand apart from it. -/
def TokenKind.extendsType (kind : TokenKind) : Bool :=
  [.union, .intersection, .openAngle, .openParen, .openSquare, .doubleColon].contains kind

/-- The next word stands behind a type: a mark, a variable, an equals sign, the end of the line,
or a word apart from the type with which no type goes on. -/
def EndsType (words : List Word) : Prop :=
  ∀ word ∈ words.head?,
    word.kind.endsType = true ∨ (word.gap = true ∧ word.kind.extendsType = false)

namespace TagValue

/-- The value goes on with words of this kind, even where they stand apart from it.  Behind a name
that is given to a type nothing may follow at all. -/
def extendedBy (kind : TokenKind) : TagValue → Bool
  | var tag => tag.variableName.isNone && kind.extendsType
  | typed role _ => !role.isInherited && kind.extendsType
  | method _ => kind = .colon
  | template tag => (tag.bound.isSome || tag.default.isSome) && kind.extendsType
  | typeAlias _ => true
  | imported _ => true
  | _ => false

/-- The words behind the parts of a value: the line ends there, or behind a blank there is
something that is neither taken for another part nor for more of the last one. -/
structure EndsParts (value : TagValue) (words : List Word) : Prop where
  ends : Sealed words
  leaves : ∀ word ∈ words.head?, value.Leaves word.kind word.text
  apart : ∀ word ∈ words.head?, word.kind = .lineBreak ∨
    (word.gap = true ∧ value.extendedBy word.kind = false)

end TagValue

/-- The words behind the value of a tag: the line ends there. -/
structure EndsValue (words : List Word) : Prop where
  ends : Sealed words
  line : words.head? = some ⟨false, .lineBreak, "\n "⟩

theorem EndsValue.exists_cons {words : List Word} (endsValue : EndsValue words) :
    ∃ rest, words = ⟨false, .lineBreak, "\n "⟩ :: rest :=
  List.head?_eq_some_iff.mp endsValue.line

section Reading

variable {type : TypeExpr} {used rest : List Word} {ending : Ending}

theorem TypeExpr.behind_of_endsType (ends : Sealed rest) (endsType : EndsType rest) :
    Behind ending rest := by
  obtain ⟨word, others, rfl⟩ := ends.exists_cons
  rcases endsType word rfl with isEnd | ⟨apart, unextended⟩
  · have settled : word.kind.settles = true ∧ word.kind ≠ .openSquare := by
      revert isEnd
      cases word.kind <;> decide
    exact .of_settles ends settled.1 settled.2
  · have differs (kind : TokenKind) (isExtending : kind.extendsType = true) :
        word.kind ≠ kind := by
      rintro rfl
      rw [isExtending] at unextended
      cases unextended
    refine ⟨ends, ?_, ?_⟩
    · cases ending with
      | closed => trivial
      | part wild =>
          rintro _ ⟨⟩ _
          exact apart
      | constant text =>
          rintro _ ⟨⟩
          exact ⟨differs .doubleColon rfl, fun _ => differs .openParen rfl⟩
      | name text =>
          rintro _ ⟨⟩
          exact ⟨differs .doubleColon rfl, differs .openAngle rfl,
            fun isOpen => absurd isOpen (differs .openParen rfl), fun _ _ => apart⟩
    · cases others with
      | nil => trivial
      | cons next others => exact fun isSuffix => absurd isSuffix.1 (differs .openSquare rfl)

theorem TypeExpr.stops_of_endsType (endsType : EndsType rest) : Stops .union false rest := by
  intro word isHead
  rcases endsType word isHead with isEnd | ⟨-, unextended⟩
  · revert isEnd
    cases word.kind <;> decide
  · revert unextended
    cases word.kind <;> decide

/-- A type is read again where a tag goes on behind it. -/
theorem TypeExpr.parser_rereads (isSpelled : (TypePhrase.chain .union type).Spelled used ending)
    (ends : Sealed rest) (endsType : EndsType rest) :
    TypeExpr.parser.Meets (used ++ rest)
      (fun found after => after = rest ∧ found.bare = type.bare) False := by
  refine (parser_reads isSpelled (behind_of_endsType ends endsType)
    (stops_of_endsType endsType)).mono ?_ id
  rintro found _ ⟨rfl, same⟩
  exact ⟨rfl, ((same_iff type found).mp same).symm⟩

theorem Prose.parser_absent (endsValue : EndsValue rest) :
    Prose.parser.Returns rest "" rest := by
  obtain ⟨others, rfl⟩ := endsValue.exists_cons
  refine (Returns.isAt .lineBreak).bind ?_
  rw [if_pos (decide_eq_true rfl)]
  exact .pure ⟨rfl, rfl⟩

theorem endsType_of_head (head : ∀ word ∈ rest.head?, word.kind.endsType = true) :
    EndsType rest :=
  fun word isHead => .inl (head word isHead)

/-- The end of a line ends a value of any kind. -/
theorem TagValue.EndsParts.of_break {word : Word} (ends : Sealed (word :: rest))
    (isBreak : word.kind = .lineBreak) (differs : word.text ≠ "of" ∧ word.text ≠ "as")
    (value : TagValue) : value.EndsParts (word :: rest) where
  ends := ends
  leaves := by
    rintro _ ⟨⟩
    rw [isBreak]
    cases value with
    | var => exact fun _ => by decide
    | template => exact fun _ => ⟨by decide, fun _ => differs⟩
    | _ => trivial
  apart := by
    rintro _ ⟨⟩
    exact .inl isBreak

theorem EndsValue.endsParts (endsValue : EndsValue rest) (value : TagValue) :
    value.EndsParts rest := by
  have ends := endsValue.ends
  obtain ⟨others, rfl⟩ := endsValue.exists_cons
  exact .of_break ends rfl (by decide) value

namespace TagValue.EndsParts

variable {value : TagValue}

/-- A type at the end of the parts ends there. -/
theorem endsType (endsParts : value.EndsParts rest)
    (extends_ : ∀ kind : TokenKind, kind.extendsType = true → value.extendedBy kind = true) :
    EndsType rest := by
  intro word isHead
  rcases endsParts.apart word isHead with isBreak | ⟨apart, unextended⟩
  · rw [isBreak]
    exact .inl (by decide)
  · refine .inr ⟨apart, Bool.eq_false_iff.mpr fun isExtending => ?_⟩
    rw [extends_ _ isExtending] at unextended
    cases unextended

/-- Where nothing may follow, the line ends. -/
theorem isBreak (endsParts : value.EndsParts rest)
    (extends_ : ∀ kind : TokenKind, value.extendedBy kind = true) :
    ∀ word ∈ rest.head?, word.kind = .lineBreak := by
  intro word isHead
  refine (endsParts.apart word isHead).resolve_right ?_
  rintro ⟨-, unextended⟩
  rw [extends_] at unextended
  cases unextended

end TagValue.EndsParts

theorem TagValue.readVariableName_rereads (gap : Bool) (name : String) (ends : Sealed rest) :
    readVariableName.Returns (⟨gap, .namedVariable, "$" ++ name⟩ :: rest) name rest := by
  have isVariable : (⟨gap, .namedVariable, "$" ++ name⟩ : Word).kind = .namedVariable := rfl
  refine (Returns.consume isVariable ends.ne_nil).bind ?_
  rw [TypeExpr.variableName_dollar]
  exact .pure ⟨rfl, rfl⟩

/-- The marks of a parameter are read again, up to its name. -/
theorem exists_accept_marks (gap isReference isVariadic : Bool) (name : String)
    (ends : Sealed rest) :
    ∃ middle nameGap,
      (accept .reference).Returns (parameterWords gap isReference isVariadic name ++ rest)
        isReference middle ∧
      (accept .variadic).Returns middle isVariadic
        (⟨nameGap, .namedVariable, "$" ++ name⟩ :: rest) := by
  have endsName : Sealed (⟨gap && !isReference && !isVariadic, .namedVariable, "$" ++ name⟩ ::
      rest) := ends.cons _
  have referenceMark := TypeExpr.mark_markWords gap .reference "&" isReference
  have variadicMark := TypeExpr.mark_markWords (gap && !isReference) .variadic "..." isVariadic
  refine ⟨_, _, ?_, TypeExpr.accept_mark_reads variadicMark endsName fun _ => by simp⟩
  rw [parameterWords, List.append_assoc, List.append_assoc, List.singleton_append]
  apply TypeExpr.accept_mark_reads referenceMark (endsName.append _)
  intro _
  exact TypeExpr.head_marks (· ≠ .reference) variadicMark (by decide) (by simp)

theorem head_parameterWords (holds : TokenKind → Prop) (gap isReference isVariadic : Bool)
    (name : String) (atReference : holds .reference) (atVariadic : holds .variadic)
    (atName : holds .namedVariable) :
    ∀ word ∈ (parameterWords gap isReference isVariadic name ++ rest).head?, holds word.kind := by
  rw [parameterWords, List.append_assoc, List.append_assoc]
  exact TypeExpr.head_marks holds (TypeExpr.mark_markWords _ _ _ _) atReference <|
    TypeExpr.head_marks holds (TypeExpr.mark_markWords _ _ _ _) atVariadic (by simpa using atName)

end Reading

namespace TagValue

/-- Behind a space and in front of the end of a line, the printed form of the value is cut into
words in that line, which the rule reads as the value, attributes aside. -/
def Rereads (value : TagValue) (rule : TagRule) : Prop :=
  ∃ words, words ≠ [] ∧ Unbroken words ∧ Cut Delimited true value.print.toList words ∧
    ∀ rest, EndsValue rest → (readRule rule).Meets (words ++ rest)
      (fun found after => after = rest ∧ found.bare = value.bare) False

/-- Behind a space the printed form of the value is cut into words in one line, which are read as
the parts of the value, attributes aside, in front of anything that does not extend them. -/
def RereadsParts (value : TagValue) (rule : TagRule) : Prop :=
  ∃ words, words ≠ [] ∧ Unbroken words ∧ Cut Delimited true value.print.toList words ∧
    ∀ rest, value.EndsParts rest → (readParts rule).Meets (words ++ rest)
      (fun found after => after = rest ∧ found.bare = value.bare) False

theorem bare_describe (text : String) (value : TagValue) :
    (value.describe text).bare = value.bare.describe text := by
  cases value <;> rfl

theorem describe_description {value : TagValue} (structured : value.isStructured = true) :
    value.describe value.description = value := by
  cases value <;> first | rfl | cases structured

/-- The description is printed behind the parts. -/
theorem toList_print_describe {value : TagValue} {rule : TagRule} (isRule : value.rule? = some rule)
    (structured : value.isStructured = true) (some : (value.describe "").print ≠ "") {text : String}
    (place : rule.isDescribed = false → text = "") :
    (value.describe text).print.toList =
      (value.describe "").print.toList ++ behindSpace text := by
  by_cases isEmpty : text = ""
  · simp [isEmpty, behindSpace]
  have described : rule.isDescribed = true := by simpa using mt place isEmpty
  cases value with
  | var tag => exact toList_spaced_concat [_, _] some text
  | param tag => exact toList_spaced_concat [_, _] some text
  | typed role tag => exact toList_spaced_concat [_] some text
  | deprecated tag => cases structured
  | property tag => exact toList_spaced_concat [_, _] some text
  | method tag => exact toList_spaced_concat [_, _, _] some text
  | template tag => exact toList_spaced_concat [_, _, _] some text
  | typeAlias tag =>
      cases isRule
      cases described
  | imported tag =>
      cases isRule
      cases described
  | generic tag => cases structured
  | invalid tag => cases structured

/-- In front of the end of a line there is no description. -/
theorem RereadsParts.rereads {value : TagValue} {rule : TagRule} (reads : value.RereadsParts rule)
    (structured : value.isStructured = true) (undescribed : value.description = "") :
    value.Rereads rule := by
  obtain ⟨words, some, unbroken, cut, reads⟩ := reads
  refine ⟨words, some, unbroken, cut, fun rest endsValue => ?_⟩
  rw [readRule_eq]
  refine .bind (reads rest (endsValue.endsParts value)) ?_
  rintro found _ ⟨rfl, same⟩
  rw [readDescription]
  split
  · refine (Prose.parser_absent endsValue).bind (.pure ⟨rfl, ?_⟩)
    rw [bare_describe, same, ← bare_describe, ← undescribed, describe_description structured]
  · exact .pure ⟨rfl, same⟩

theorem unbroken_parameterWords (gap isReference isVariadic : Bool) (name : String) :
    Unbroken (parameterWords gap isReference isVariadic name) := by
  simp [parameterWords, (TypeExpr.mark_markWords _ _ _ _).unbroken]

theorem rereadsParts_var {tag : VarTag} (reprints : (var tag).Reprints)
    (undescribed : tag.description = "") : (var tag).RereadsParts .var := by
  obtain ⟨words, ending, some, cut, isSpelled⟩ := reprints.1.exists_words true
  have nameMark := TypeExpr.nameMark_nameWords true tag.variableName
  have spacedName : SpacedPart (tag.variableName.elim "" ("$" ++ ·))
      (TypeExpr.nameWords true tag.variableName) := by
    cases isName : tag.variableName with
    | none => exact .absent
    | some name =>
        exact .present (by simp [TypeExpr.nameWords])
          (cut_parameterName (reprints.2 name isName) true false false)
  refine ⟨words ++ TypeExpr.nameWords true tag.variableName, by simp [some],
    by simp [isSpelled.unbroken, nameMark.unbroken], ?_, ?_⟩
  · have cutAll := cut_spaced some cut (.cons spacedName (.cons .absent .nil))
    simpa [TagValue.print, VarTag.print, undescribed] using cutAll
  · intro rest endsParts
    have endsType : EndsType (TypeExpr.nameWords true tag.variableName ++ rest) := by
      cases isName : tag.variableName with
      | none =>
          refine endsParts.endsType fun kind isExtending => ?_
          rw [extendedBy, isName, isExtending]
          rfl
      | some name => exact endsType_of_head (by simp [TypeExpr.nameWords, TokenKind.endsType])
    rw [List.append_assoc]
    refine .bind (TypeExpr.parser_rereads isSpelled (endsParts.ends.append _) endsType) ?_
    rintro type _ ⟨rfl, sameType⟩
    refine (TypeExpr.readVariableName?_reads nameMark endsParts.ends fun isNone word isHead =>
      endsParts.leaves word isHead isNone).bind ?_
    exact .pure ⟨rfl, by simp [TagValue.bare, VarTag.bare, sameType, undescribed]⟩

theorem rereadsParts_param {tag : ParamTag} (reprints : (param tag).Reprints)
    (undescribed : tag.description = "") : (param tag).RereadsParts .param := by
  obtain ⟨words, ending, some, cut, isSpelled⟩ := reprints.1.exists_words true
  generalize isMarks : parameterWords true tag.isReference tag.isVariadic tag.name = marks
  have spacedMarks : SpacedPart (printParameterName tag.isReference tag.isVariadic tag.name)
      marks := by
    rw [← isMarks]
    exact .present (by simp [parameterWords]) (cut_parameterName reprints.2 true _ _)
  refine ⟨words ++ marks, by simp [some], ?_, ?_, ?_⟩
  · simp [isSpelled.unbroken, ← isMarks, unbroken_parameterWords]
  · have cutAll := cut_spaced some cut (.cons spacedMarks (.cons .absent .nil))
    simpa [TagValue.print, ParamTag.print, undescribed] using cutAll
  · intro rest endsParts
    rw [List.append_assoc]
    refine .bind (TypeExpr.parser_rereads isSpelled (endsParts.ends.append _)
      (endsType_of_head ?_)) ?_
    · rw [← isMarks]
      exact head_parameterWords (fun kind => kind.endsType = true) _ _ _ _ (by decide) (by decide)
        (by decide)
    rintro type _ ⟨rfl, sameType⟩
    obtain ⟨middle, gap, reference, variadic⟩ :=
      exists_accept_marks true tag.isReference tag.isVariadic tag.name endsParts.ends
    rw [← isMarks]
    refine reference.bind (variadic.bind ?_)
    refine (readVariableName_rereads gap tag.name endsParts.ends).bind ?_
    exact .pure ⟨rfl, by simp [TagValue.bare, ParamTag.bare, sameType, undescribed]⟩

theorem rereadsParts_property {tag : PropertyTag} (reprints : (property tag).Reprints)
    (undescribed : tag.description = "") : (property tag).RereadsParts .property := by
  obtain ⟨words, ending, some, cut, isSpelled⟩ := reprints.1.exists_words true
  have spacedName : SpacedPart ("$" ++ tag.name) [⟨true, .namedVariable, "$" ++ tag.name⟩] :=
    .present (by simp) (cut_parameterName reprints.2 true false false)
  refine ⟨words ++ [⟨true, .namedVariable, "$" ++ tag.name⟩], by simp,
    by simp [isSpelled.unbroken], ?_, ?_⟩
  · have cutAll := cut_spaced some cut (.cons spacedName (.cons .absent .nil))
    simpa [TagValue.print, PropertyTag.print, undescribed] using cutAll
  · intro rest endsParts
    rw [List.append_assoc]
    refine .bind (TypeExpr.parser_rereads isSpelled (endsParts.ends.append _)
      (endsType_of_head (by simp [TokenKind.endsType]))) ?_
    rintro type _ ⟨rfl, sameType⟩
    refine (readVariableName_rereads true tag.name endsParts.ends).bind ?_
    exact .pure ⟨rfl, by simp [TagValue.bare, PropertyTag.bare, sameType, undescribed]⟩

/-- The printed form of a type is cut into words in one line, which the parser reads as the type,
attributes aside, in front of words that end it. -/
def RereadsType (parser : Parser TypeExpr) (stops : List Word → Prop) (type : TypeExpr) : Prop :=
  ∃ words, words ≠ [] ∧ Unbroken words ∧ Cut Delimited true type.print.toList words ∧
    ∀ rest, Sealed rest → stops rest → parser.Meets (words ++ rest)
      (fun found after => after = rest ∧ found.bare = type.bare) False

theorem RereadsType.imp {parser : Parser TypeExpr} {stops stops' : List Word → Prop}
    {type : TypeExpr} (rereads : RereadsType parser stops type)
    (implies : ∀ rest, stops' rest → stops rest) : RereadsType parser stops' type := by
  obtain ⟨words, some, unbroken, cut, reads⟩ := rereads
  exact ⟨words, some, unbroken, cut, fun rest ends stopped =>
    reads rest ends (implies rest stopped)⟩

theorem parser_rereadsType {type : TypeExpr} (reprints : type.Reprints) :
    RereadsType TypeExpr.parser EndsType type := by
  obtain ⟨words, ending, some, cut, isSpelled⟩ := reprints.exists_words true
  exact ⟨words, some, isSpelled.unbroken, cut, fun rest ends endsType =>
    TypeExpr.parser_rereads isSpelled ends endsType⟩

theorem genericParser_rereadsType {type : TypeExpr} (reprints : type.ReprintsGeneric) :
    RereadsType TypeExpr.genericParser (fun _ => True) type := by
  obtain ⟨name, inner, arguments, outer, rfl, isName, nonempty, each⟩ := reprints
  obtain ⟨slots, list, rfl, areSpelled, listed, cut⟩ :=
    TypeExpr.exists_generic inner outer isName each
  have slotsUnbroken := listed.unbroken (by decide)
    (Slot.forall_words fun slot isSlot => (areSpelled slot isSlot).unbroken)
  refine ⟨_, by simp, by simp [slotsUnbroken], cut true, ?_⟩
  intro rest ends _
  have isKind : (⟨true, .identifier, name⟩ : Word).kind = .identifier := rfl
  refine .bind .mark ?_
  rintro start _ rfl
  refine (Returns.consume isKind (List.cons_ne_nil _ _)).bind ?_
  refine .bind (TypeExpr.node_gives start) ?_
  rintro _ _ ⟨rfl, attributes, rfl⟩
  have sameName : (⟨.identifier name, inner⟩ : TypeExpr).same ⟨.identifier name, attributes⟩ =
      true := by
    simp [TypeExpr.same, TypeForm.same]
  refine (TypeExpr.readGeneric_reads outer start sameName rfl (by simpa using nonempty) areSpelled
    listed (fun slot isSlot tail behind stops _ =>
      TypeExpr.parser_reads (areSpelled slot isSlot) behind stops)
    ends (Nat.le_refl _)).mono ?_ id
  rintro found _ ⟨rfl, same⟩
  exact ⟨rfl, ((TypeExpr.same_iff _ _).mp same).symm⟩

/-- The end of the type in a role matters only where it need not be a generic one. -/
theorem readRoleType_rereadsType {role : TypedRole} {tag : TypedTag}
    (reprints : (typed role tag).Reprints) : RereadsType (readRoleType role)
      (fun rest => role.isInherited = false → EndsType rest) tag.type := by
  have plain (isPlain : role.isInherited = false) (rereads : RereadsType TypeExpr.parser EndsType
      tag.type) := rereads.imp fun rest (endsType : role.isInherited = false → EndsType rest) =>
    endsType isPlain
  have generic (rereads : RereadsType TypeExpr.genericParser (fun _ => True) tag.type) :=
    rereads.imp fun rest (_ : role.isInherited = false → EndsType rest) => trivial
  cases role with
  | returned => exact plain rfl (parser_rereadsType reprints)
  | thrown => exact plain rfl (parser_rereadsType reprints)
  | mixin => exact plain rfl (parser_rereadsType reprints)
  | parent => exact generic (genericParser_rereadsType reprints)
  | interface => exact generic (genericParser_rereadsType reprints)
  | trait => exact generic (genericParser_rereadsType reprints)

theorem rereadsParts_typed {role : TypedRole} {tag : TypedTag}
    (reprints : (typed role tag).Reprints) (undescribed : tag.description = "") :
    (typed role tag).RereadsParts (.typed role) := by
  obtain ⟨words, some, unbroken, cut, reads⟩ := readRoleType_rereadsType reprints
  refine ⟨words, some, unbroken, ?_, ?_⟩
  · have cutAll := cut_spaced some cut (.cons .absent .nil)
    simpa [TagValue.print, TypedTag.print, undescribed] using cutAll
  · intro rest endsParts
    have endsType (isPlain : role.isInherited = false) : EndsType rest := by
      refine endsParts.endsType fun kind isExtending => ?_
      rw [extendedBy, isPlain, isExtending]
      rfl
    refine .bind (reads rest endsParts.ends endsType) ?_
    rintro type _ ⟨rfl, sameType⟩
    exact .pure ⟨rfl, by simp [TagValue.bare, TypedTag.bare, sameType, undescribed]⟩

theorem isName_of : IsName "of" :=
  Lexeme.isLexeme_identifier (show Lexeme.rule? 'o' ['f'] = some ⟨.identifier, 1⟩ from rfl)

theorem isName_from : IsName "from" :=
  Lexeme.isLexeme_identifier
    (show Lexeme.rule? 'f' ['r', 'o', 'm'] = some ⟨.identifier, 3⟩ from rfl)

theorem isName_as : IsName "as" :=
  Lexeme.isLexeme_identifier (show Lexeme.rule? 'a' ['s'] = some ⟨.identifier, 1⟩ from rfl)

/-- A type behind a word or a sign, both of which may be absent. -/
inductive Introduced (sign : Word) : Option TypeExpr → List Word → Prop
  | absent : Introduced sign none []
  | present {type : TypeExpr} {words : List Word} {ending : Ending}
      (isSpelled : (TypePhrase.chain .union type).Spelled words ending) :
      Introduced sign (some type) (sign :: words)

theorem exists_introduced (sign : Word) (opening : String) {type : Option TypeExpr}
    (reprints : ∀ found ∈ type, found.Reprints)
    (cutSign : ∀ after rest, Scanned true after rest →
      Scanned true (opening.toList ++ after) (sign :: rest)) :
    ∃ words, Introduced sign type words ∧
      SpacedPart (type.elim "" (opening ++ ·.print)) words := by
  cases type with
  | none => exact ⟨[], .absent, .absent⟩
  | some type =>
      obtain ⟨words, ending, -, cut, isSpelled⟩ := (reprints type rfl).exists_words true
      refine ⟨sign :: words, .present isSpelled, .present (by simp) ?_⟩
      intro after rest delimited scanned
      have scannedAll := cutSign _ _ (cut after rest delimited scanned)
      simpa using scannedAll

theorem Introduced.unbroken {sign : Word} {type : Option TypeExpr} {words : List Word}
    (introduced : Introduced sign type words)
    (inLine : sign.kind ∉ [.lineBreak, .closeDoc, .finish, .other]) : Unbroken words := by
  cases introduced with
  | absent => simp
  | present isSpelled => simpa [isSpelled.unbroken] using inLine

/-- The word in front of the bound of a type variable. -/
def boundSign : Word := ⟨true, .identifier, "of"⟩

/-- The sign in front of the default type of a type variable. -/
def defaultSign : Word := ⟨true, .equal, "="⟩

theorem scanned_boundSign {after : List Char} {rest : List Word}
    (scanned : Scanned true after rest) :
    Scanned true ("of ".toList ++ after) (boundSign :: rest) := by
  have scannedOf := isName_of.cut true (' ' :: after) rest (.cons (by decide)) (.space scanned)
  simpa [boundSign] using scannedOf

theorem scanned_defaultSign {after : List Char} {rest : List Word}
    (scanned : Scanned true after rest) :
    Scanned true ("= ".toList ++ after) (defaultSign :: rest) :=
  .mark rfl (by decide) (.space scanned)

theorem readBound_rereads {bound : Option TypeExpr} {words rest : List Word}
    (introduced : Introduced boundSign bound words) (ends : Sealed rest)
    (endsType : bound.isSome = true → EndsType rest)
    (noWord : bound = none → ∀ word ∈ rest.head?, word.text ≠ "of" ∧ word.text ≠ "as") :
    readBound.Meets (words ++ rest) (fun found after => after = rest ∧
      found.map TypeExpr.bare = bound.map TypeExpr.bare) False := by
  cases introduced with
  | absent =>
      obtain ⟨word, others, rfl⟩ := ends.exists_cons
      obtain ⟨notOf, notAs⟩ := noWord rfl word rfl
      refine (Returns.acceptValue_no notOf).bind ?_
      rw [if_neg (by decide)]
      refine (Returns.acceptValue_no notAs).bind ?_
      rw [if_neg (by decide)]
      exact .pure ⟨rfl, rfl⟩
  | present isSpelled =>
      have isOf : boundSign.text = "of" := rfl
      refine (Returns.acceptValue_yes isOf (ends.append _).ne_nil).bind ?_
      rw [if_pos rfl]
      refine .bind (TypeExpr.parser_rereads isSpelled ends (endsType rfl)) ?_
      rintro found _ ⟨rfl, same⟩
      exact .pure ⟨rfl, by simp [same]⟩

theorem readDefaultType?_rereads {default : Option TypeExpr} {words rest : List Word}
    (introduced : Introduced defaultSign default words) (ends : Sealed rest)
    (endsType : default.isSome = true → EndsType rest)
    (noEqual : default = none → ∀ word ∈ rest.head?, word.kind ≠ .equal) :
    readDefaultType?.Meets (words ++ rest) (fun found after => after = rest ∧
      found.map TypeExpr.bare = default.map TypeExpr.bare) False := by
  cases introduced with
  | absent =>
      obtain ⟨word, others, rfl⟩ := ends.exists_cons
      refine (Returns.accept_no (noEqual rfl word rfl)).bind ?_
      rw [if_neg (by decide)]
      exact .pure ⟨rfl, rfl⟩
  | present isSpelled =>
      have isEqual : defaultSign.kind = .equal := rfl
      refine (Returns.accept_yes isEqual (ends.append _).ne_nil).bind ?_
      rw [if_pos rfl]
      refine .bind (TypeExpr.parser_rereads isSpelled ends (endsType rfl)) ?_
      rintro found _ ⟨rfl, same⟩
      exact .pure ⟨rfl, by simp [same]⟩

/-- What stands behind the bound of a type variable: its default type, or the end of its parts. -/
theorem Introduced.behindBound {tag : TemplateTag} {words rest : List Word}
    (introduced : Introduced defaultSign tag.default words)
    (endsParts : (template tag).EndsParts rest) :
    (tag.bound.isSome = true → EndsType (words ++ rest)) ∧ (tag.bound = none →
      ∀ word ∈ (words ++ rest).head?, word.text ≠ "of" ∧ word.text ≠ "as") := by
  generalize isDefault : tag.default = default at introduced
  cases introduced with
  | absent =>
      constructor
      · intro isBound
        refine endsParts.endsType fun kind isExtending => ?_
        rw [extendedBy, isBound, isExtending]
        rfl
      · intro isNone word isHead
        exact (endsParts.leaves word isHead isDefault).2 isNone
  | present isSpelled =>
      constructor
      · intro _
        refine endsType_of_head ?_
        rintro _ ⟨⟩
        decide
      · rintro _ _ ⟨⟩
        decide

theorem rereadsParts_template {tag : TemplateTag} (reprints : (template tag).Reprints)
    (undescribed : tag.description = "") : (template tag).RereadsParts .template := by
  obtain ⟨named, ofBound, ofDefault⟩ := reprints
  obtain ⟨boundWords, bound, spacedBound⟩ :=
    exists_introduced boundSign "of " ofBound fun _ _ => scanned_boundSign
  obtain ⟨defaultWords, default, spacedDefault⟩ :=
    exists_introduced defaultSign "= " ofDefault fun _ _ => scanned_defaultSign
  refine ⟨⟨true, .identifier, tag.name⟩ :: (boundWords ++ defaultWords), by simp, ?_, ?_, ?_⟩
  · simp [bound.unbroken (by decide), default.unbroken (by decide)]
  · have cutAll := cut_spaced (List.cons_ne_nil _ _) (named.cut true)
      (.cons spacedBound (.cons spacedDefault (.cons .absent .nil)))
    simpa [TagValue.print, TemplateTag.print, undescribed] using cutAll
  · intro rest endsParts
    have endsDefault : Sealed (defaultWords ++ rest) := endsParts.ends.append _
    have isKind : (⟨true, .identifier, tag.name⟩ : Word).kind = .identifier := rfl
    rw [List.cons_append, List.append_assoc]
    refine (Returns.consume isKind (endsDefault.append _).ne_nil).bind ?_
    obtain ⟨endsType, noWord⟩ := default.behindBound endsParts
    refine .bind (readBound_rereads bound endsDefault endsType noWord) ?_
    rintro found _ ⟨rfl, sameBound⟩
    refine .bind (readDefaultType?_rereads default endsParts.ends ?_ ?_) ?_
    · intro isDefault
      refine endsParts.endsType fun kind isExtending => ?_
      rw [extendedBy, isDefault, isExtending, Bool.or_true, Bool.and_self]
    · exact fun isNone word isHead => (endsParts.leaves word isHead isNone).1
    rintro foundDefault _ ⟨rfl, sameDefault⟩
    exact .pure ⟨rfl, by simp [TagValue.bare, TemplateTag.bare, sameBound, sameDefault,
      undescribed]⟩

theorem rereadsParts_typeAlias {tag : AliasTag} (reprints : (typeAlias tag).Reprints) :
    (typeAlias tag).RereadsParts .typeAlias := by
  obtain ⟨named, ofType⟩ := reprints
  obtain ⟨words, ending, some, cut, isSpelled⟩ := ofType.exists_words true
  refine ⟨⟨true, .identifier, tag.name⟩ :: words, by simp, by simp [isSpelled.unbroken], ?_, ?_⟩
  · intro after rest delimited scanned
    have scannedType := cut after rest delimited scanned
    have scannedAll := named.cut true _ _ (.cons (by decide)) (.space scannedType)
    simpa [TagValue.print, AliasTag.print, List.append_assoc] using scannedAll
  · intro rest endsParts
    have isKind : (⟨true, .identifier, tag.name⟩ : Word).kind = .identifier := rfl
    have endsType : Sealed (words ++ rest) := endsParts.ends.append words
    refine .bind ((Returns.consume isKind endsType.ne_nil).bind ?_) fun _ _ found => .pure found
    have noEqual : (accept .equal).Returns (words ++ rest) false (words ++ rest) := by
      obtain ⟨word, more, rfl, isStart⟩ := isSpelled.starts
      refine Returns.accept_no ?_
      intro isEqual
      rw [isEqual] at isStart
      cases isStart
    refine noEqual.bind ?_
    refine .bind (TypeExpr.parser_rereads isSpelled endsParts.ends
      (endsParts.endsType fun _ _ => rfl)) ?_
    rintro type _ ⟨rfl, sameType⟩
    exact .pure ⟨rfl, by simp [TagValue.bare, AliasTag.bare, sameType]⟩

/-- The words of the name that a type has here. -/
def localWords : Option String → List Word
  | none => []
  | some name => [⟨true, .identifier, "as"⟩, ⟨true, .identifier, name⟩]

theorem readLocalName?_rereads (name : Option String) {rest : List Word} (ends : Sealed rest)
    (isBreak : ∀ word ∈ rest.head?, word.kind = .lineBreak) :
    readLocalName?.Returns (localWords name ++ rest) name rest := by
  cases name with
  | none =>
      obtain ⟨word, others, rfl⟩ := ends.exists_cons
      refine (Returns.acceptWord_no (by simp [isBreak word rfl])).bind ?_
      rw [if_neg (by decide)]
      exact .pure ⟨rfl, rfl⟩
  | some name =>
      have isName : (⟨true, .identifier, name⟩ : Word).kind = .identifier := rfl
      have isAs : (⟨true, .identifier, "as"⟩ : Word).kind = .identifier := rfl
      refine (Returns.acceptWord_yes isAs rfl (List.cons_ne_nil _ _)).bind ?_
      rw [if_pos rfl]
      exact (Returns.consume isName ends.ne_nil).bind (.pure ⟨rfl, rfl⟩)

theorem rereadsParts_imported {tag : ImportTag} (reprints : (imported tag).Reprints) :
    (imported tag).RereadsParts .imported := by
  obtain ⟨named, ⟨className, attributes, isSource, classNamed⟩, ofLocal⟩ := reprints
  have isPrinted : tag.source.print = className := by
    rw [isSource, TypeExpr.print, TypeForm.print]
  have cutLocal : Cut Delimited false (tag.localName.elim "" (" as " ++ ·)).toList
      (localWords tag.localName) := by
    cases isLocal : tag.localName with
    | none => exact .nil _
    | some name =>
        intro after rest delimited scanned
        have scannedName := (ofLocal name isLocal).cut true after rest delimited scanned
        have scannedAll := isName_as.cut true _ _ (.cons (by decide)) (.space scannedName)
        simpa [localWords] using Scanned.space scannedAll
  have delimitsLocal (after : List Char) (delimited : Delimited after) :
      Delimited ((tag.localName.elim "" (" as " ++ ·)).toList ++ after) := by
    cases tag.localName with
    | none => exact delimited
    | some name => simp [Delimited, Lexeme.delimiters]
  refine ⟨⟨true, .identifier, tag.name⟩ :: ⟨true, .identifier, "from"⟩ ::
    ⟨true, .identifier, className⟩ :: localWords tag.localName, by simp, ?_, ?_, ?_⟩
  · cases tag.localName <;> simp [localWords]
  · intro after rest delimited scanned
    have scannedClass := classNamed.cut true _ _ (delimitsLocal after delimited)
      (cutLocal after rest delimited scanned)
    have scannedFrom := isName_from.cut true _ _ (.cons (by decide)) (.space scannedClass)
    have scannedAll := named.cut true _ _ (.cons (by decide)) (.space scannedFrom)
    simpa [TagValue.print, ImportTag.print, isPrinted, List.append_assoc] using scannedAll
  · intro rest endsParts
    have endsLocal : Sealed (localWords tag.localName ++ rest) := endsParts.ends.append _
    have isName (name : String) : (⟨true, .identifier, name⟩ : Word).kind = .identifier := rfl
    refine .bind ((Returns.consume (isName tag.name) (List.cons_ne_nil _ _)).bind ?_)
      fun _ _ found => .pure found
    refine (Returns.consumeValue (isName "from") rfl (List.cons_ne_nil _ _)).bind ?_
    refine .bind .mark ?_
    rintro start _ rfl
    refine (Returns.consume (isName className) endsLocal.ne_nil).bind ?_
    refine .bind (TypeExpr.node_gives start) ?_
    rintro _ _ ⟨rfl, attributes, rfl⟩
    refine (readLocalName?_rereads tag.localName endsParts.ends
      (endsParts.isBreak fun _ => rfl)).bind (.pure ⟨rfl, ?_⟩)
    simp [TagValue.bare, ImportTag.bare, isSource, TypeExpr.bare]

end TagValue

end Docblock
