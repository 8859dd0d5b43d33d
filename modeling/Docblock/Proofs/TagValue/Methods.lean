import Docblock.Proofs.TagValue.Printing

/-!
# Reading printed methods

The name of a method stands in front of parentheses, like that of a callable type, and the word
`static` can be a return type.  A printed method is read again because no colon follows its
parameters, so that no callable type is there, and because a method that is not static is not
printed with `static` at its start unless that is its return type.
-/

namespace Docblock

open Docblock.Parser

-- Parsers are taken apart with the rules for `Meets`, never by running them.
attribute [local irreducible] Parser.Meets

/-- The words of a type that may be absent. -/
inductive TypeWords : Option TypeExpr → List Word → Prop
  | absent : TypeWords none []
  | present {type : TypeExpr} {words : List Word} {ending : Ending}
      (isSpelled : (TypePhrase.chain .union type).Spelled words ending) :
      TypeWords (some type) words

/-- The words of a default value, which may be absent, with the sign in front of it. -/
inductive DefaultWords : Option ConstExpr → List Word → Prop
  | absent : DefaultWords none []
  | present {sign : Word} {expr : ConstExpr} {words : List Word} {ending : Ending}
      (isEqual : sign.kind = .equal) (isSpelled : (ConstPhrase.expr expr).Spelled words ending) :
      DefaultWords (some expr) (sign :: words)

theorem DefaultWords.head {default : Option ConstExpr} {words rest : List Word}
    (ofDefault : DefaultWords default words) (holds : TokenKind → Prop) (atEqual : holds .equal)
    (ofRest : ∀ word ∈ rest.head?, holds word.kind) :
    ∀ word ∈ (words ++ rest).head?, holds word.kind := by
  cases ofDefault with
  | absent => exact ofRest
  | present isEqual =>
      rintro _ ⟨⟩
      rw [isEqual]
      exact atEqual

namespace MethodParameter

/-- The words of a parameter of a method. -/
inductive Spelled (parameter : MethodParameter) : List Word → Prop
  | parts {gap : Bool} {typeWords defaultWords : List Word}
      (ofType : TypeWords parameter.type typeWords)
      (ofDefault : DefaultWords parameter.default defaultWords) :
      Spelled parameter (typeWords ++ (parameterWords gap parameter.isReference
        parameter.isVariadic parameter.name ++ defaultWords))

variable {parameter : MethodParameter} {words rest : List Word}

theorem exists_default {default : Option ConstExpr} (reprints : ∀ expr ∈ default, expr.Reprints) :
    ∃ words, DefaultWords default words ∧
      Cut Delimited false (default.elim "" (" = " ++ ·.print)).toList words ∧
      ∀ after, Delimited after →
        Delimited ((default.elim "" (" = " ++ ·.print)).toList ++ after) := by
  cases default with
  | none => exact ⟨[], .absent, .nil _, fun _ delimited => delimited⟩
  | some expr =>
      obtain ⟨kind, value, more, ending, cut, isSpelled⟩ := reprints expr rfl true
      refine ⟨⟨true, .equal, "="⟩ :: ⟨true, kind, value⟩ :: more, .present rfl isSpelled, ?_, ?_⟩
      · intro after rest delimited scanned
        have scannedSign : Scanned true ('=' :: ' ' :: _) _ :=
          .mark rfl (by decide) (.space (cut after rest delimited scanned))
        simpa using Scanned.space scannedSign
      · intro after _
        simp [Delimited, Lexeme.delimiters]

theorem exists_words (reprints : parameter.Reprints) (gap : Bool) :
    ∃ words, words ≠ [] ∧ Cut Delimited gap parameter.print.toList words ∧
      parameter.Spelled words := by
  obtain ⟨defaultWords, ofDefault, cutDefault, delimits⟩ := exists_default reprints.default
  have cutName (gap : Bool) := cut_parameterName reprints.name gap parameter.isReference
    parameter.isVariadic
  have someName (gap : Bool) : parameterWords gap parameter.isReference parameter.isVariadic
      parameter.name ≠ [] := by simp [parameterWords]
  cases isType : parameter.type with
  | none =>
      have ofType : TypeWords parameter.type [] := isType ▸ .absent
      refine ⟨_, by simp [someName gap], ?_, @Spelled.parts parameter gap _ _ ofType ofDefault⟩
      have cut := (cut_spaced (someName gap) (cutName gap) .nil).append cutDefault delimits
      simpa [MethodParameter.print, printOptional, isType, spaced_absent] using cut
  | some type =>
      obtain ⟨typeWords, ending, some, cutType, isSpelled⟩ :=
        (reprints.type type isType).exists_words gap
      have ofType : TypeWords parameter.type typeWords := isType ▸ .present isSpelled
      refine ⟨_, by simp [some], ?_, @Spelled.parts parameter true _ _ ofType ofDefault⟩
      have cut := (cut_spaced some cutType
        (.cons (.present (someName true) (cutName true)) .nil)).append cutDefault delimits
      simpa [MethodParameter.print, printOptional, isType] using cut

/-- What a parameter starts with. -/
theorem Spelled.head (isSpelled : parameter.Spelled words) (holds : TokenKind → Prop)
    (ofStarts : ∀ kind, TypeExpr.starts kind = true → holds kind) (atReference : holds .reference)
    (atVariadic : holds .variadic) (atName : holds .namedVariable) :
    ∃ word more, words = word :: more ∧ holds word.kind := by
  cases isSpelled with
  | @parts gap typeWords defaultWords ofType ofDefault =>
      have marks : ∀ word ∈ (parameterWords gap parameter.isReference parameter.isVariadic
          parameter.name ++ defaultWords).head?, holds word.kind :=
        head_parameterWords holds _ _ _ _ atReference atVariadic atName
      generalize parameter.type = type at ofType
      cases ofType with
      | absent =>
          have some : parameterWords gap parameter.isReference parameter.isVariadic
              parameter.name ++ defaultWords ≠ [] := by simp [parameterWords]
          obtain ⟨word, more, eq⟩ := List.exists_cons_of_ne_nil some
          exact ⟨word, more, eq, marks word (by rw [eq]; rfl)⟩
      | present isSpelled =>
          obtain ⟨word, more, rfl, isStart⟩ := isSpelled.starts
          exact ⟨word, _, rfl, ofStarts word.kind isStart⟩

theorem Spelled.unbroken (isSpelled : parameter.Spelled words) : Unbroken words := by
  cases isSpelled with
  | parts ofType ofDefault =>
      generalize parameter.type = type at ofType
      generalize parameter.default = default at ofDefault
      simp only [unbroken_append_iff, TagValue.unbroken_parameterWords, true_and]
      constructor
      · cases ofType with
        | absent => simp
        | present isSpelled => exact isSpelled.unbroken
      · cases ofDefault with
        | absent => simp
        | present isEqual isSpelled => simp [isEqual, isSpelled.unbroken]

theorem readParameterType?_rereads {type : Option TypeExpr} (ofType : TypeWords type words)
    (ends : Sealed rest)
    (marks : ∀ word ∈ rest.head?, TagValue.untypedStarts.contains word.kind = true)
    (endsType : EndsType rest) :
    TagValue.readParameterType?.Meets (words ++ rest) (fun found after => after = rest ∧
      found.map TypeExpr.bare = type.map TypeExpr.bare) False := by
  cases ofType with
  | absent =>
      obtain ⟨word, others, rfl⟩ := ends.exists_cons
      apply (Returns.isAtAny TagValue.untypedStarts).bind
      rw [if_pos (marks word rfl)]
      exact .pure ⟨rfl, rfl⟩
  | @present type words ending isSpelled =>
      have typed : (isAtAny TagValue.untypedStarts).Returns (words ++ rest) false
          (words ++ rest) := by
        obtain ⟨word, more, rfl, isStart⟩ := isSpelled.starts
        have notMark : TagValue.untypedStarts.contains word.kind = false := by
          have isStart : TypeExpr.starts word.kind = true := isStart
          revert isStart
          cases word.kind <;> decide
        rw [← notMark]
        exact Returns.isAtAny _
      apply typed.bind
      rw [if_neg (by decide)]
      apply Meets.bind (TypeExpr.parser_rereads isSpelled ends endsType)
      rintro found _ ⟨rfl, same⟩
      exact .pure ⟨rfl, by simp [same]⟩

theorem readDefaultValue?_rereads {default : Option ConstExpr}
    (ofDefault : DefaultWords default words) (ends : Sealed rest)
    (endsItem : EndsItem .closeParen rest) :
    TagValue.readDefaultValue?.Meets (words ++ rest) (fun found after => after = rest ∧
      found.map ConstExpr.bare = default.map ConstExpr.bare) False := by
  cases ofDefault with
  | absent =>
      obtain ⟨word, others, rfl⟩ := ends.exists_cons
      have noEqual := TypeExpr.head_endsItem (· ≠ .equal) endsItem (by decide) (by decide)
      apply (Returns.accept_no (noEqual word rfl)).bind
      rw [if_neg (by decide)]
      exact .pure ⟨rfl, rfl⟩
  | @present sign expr words ending isEqual isSpelled =>
      have settled : Settled rest :=
        TypeExpr.head_endsItem (fun kind => kind.settles = true) endsItem rfl rfl
      apply (Returns.accept_yes isEqual (ends.append words).ne_nil).bind
      rw [if_pos rfl]
      apply Meets.bind (ConstExpr.parser_reads isSpelled ends (ending.allows_of_settled settled))
      rintro found _ ⟨rfl, same⟩
      exact .pure ⟨rfl, by simp [(ConstExpr.same_iff expr found).mp same]⟩

/-- A parameter is read again in front of a comma or of the closing parenthesis. -/
theorem Spelled.rereads (isSpelled : parameter.Spelled words) (ends : Sealed rest)
    (endsItem : EndsItem .closeParen rest) :
    TagValue.readMethodParameter.Meets (words ++ rest)
      (fun found after => after = rest ∧ found.bare = parameter.bare) False := by
  cases isSpelled with
  | @parts gap typeWords defaultWords ofType ofDefault =>
      have endsMarks : Sealed (parameterWords gap parameter.isReference parameter.isVariadic
          parameter.name ++ (defaultWords ++ rest)) := (ends.append _).append _
      rw [List.append_assoc, List.append_assoc]
      apply Meets.bind .mark
      rintro start _ rfl
      apply Meets.bind (readParameterType?_rereads ofType endsMarks ?_ ?_)
      · rintro type _ ⟨rfl, sameType⟩
        obtain ⟨middle, nameGap, reference, variadic⟩ := exists_accept_marks gap
          parameter.isReference parameter.isVariadic parameter.name (ends.append defaultWords)
        apply reference.bind
        apply variadic.bind
        apply (TagValue.readVariableName_rereads nameGap parameter.name (ends.append _)).bind
        apply Meets.bind (readDefaultValue?_rereads ofDefault ends endsItem)
        rintro default _ ⟨rfl, sameDefault⟩
        apply Meets.bind (.positionsSince start)
        rintro attributes _ rfl
        exact .pure ⟨rfl, by simp [MethodParameter.bare, sameType, sameDefault]⟩
      · exact head_parameterWords (fun kind => TagValue.untypedStarts.contains kind = true) _ _ _ _
          (by decide) (by decide) (by decide)
      · exact endsType_of_head (head_parameterWords (fun kind => kind.endsType = true) _ _ _ _
          (by decide) (by decide) (by decide))

/-- Further parameters, each behind a comma. -/
inductive More : List MethodParameter → List Word → Prop
  | done : More [] []
  | next {comma : Word} {parameter : MethodParameter} {parameters : List MethodParameter}
      {words others : List Word} (isComma : comma.kind = .comma)
      (isSpelled : parameter.Spelled words) (more : More parameters others) :
      More (parameter :: parameters) (comma :: (words ++ others))

/-- The parameters of a method and the closing parenthesis. -/
inductive Listing : List MethodParameter → List Word → Prop
  | none {close : Word} (isClose : close.kind = .closeParen) : Listing [] [close]
  | some {parameter : MethodParameter} {parameters : List MethodParameter} {close : Word}
      {words others : List Word} (isSpelled : parameter.Spelled words)
      (more : More parameters others) (isClose : close.kind = .closeParen) :
      Listing (parameter :: parameters) (words ++ (others ++ [close]))

variable {parameters : List MethodParameter}

theorem exists_more (each : ∀ parameter ∈ parameters, parameter.Reprints) :
    ∃ words, More parameters words ∧ Cut Delimited false
      (parameters.flatMap fun parameter => ", ".toList ++ parameter.print.toList) words := by
  induction parameters with
  | nil => exact ⟨[], .done, .nil _⟩
  | cons parameter parameters induction =>
      obtain ⟨others, more, cutMore⟩ := induction fun later isLater =>
        each later (List.mem_cons_of_mem _ isLater)
      obtain ⟨words, some, cut, isSpelled⟩ := exists_words (each parameter List.mem_cons_self) true
      refine ⟨⟨false, .comma, ","⟩ :: (words ++ others), .next rfl isSpelled more, ?_⟩
      intro after rest delimited scanned
      have delimits : Delimited ((parameters.flatMap fun parameter =>
          ", ".toList ++ parameter.print.toList) ++ after) := by
        cases parameters with
        | nil => exact delimited
        | cons next parameters => simp [Delimited, Lexeme.delimiters]
      have scannedFirst := cut _ _ delimits (cutMore after rest delimited scanned)
      have scannedAll : Scanned false (',' :: ' ' :: _) _ :=
        .mark rfl (by decide) (.space scannedFirst)
      simpa [List.append_assoc] using scannedAll

theorem exists_listing (each : ∀ parameter ∈ parameters, parameter.Reprints) :
    ∃ words, Listing parameters words ∧ Cut Delimited false
      ((String.intercalate ", " (parameters.map MethodParameter.print)).toList ++ [')']) words := by
  have cutClose : Cut Delimited false [')'] [⟨false, .closeParen, ")"⟩] :=
    fun _ _ _ scanned => .mark rfl (by decide) scanned
  cases parameters with
  | nil => exact ⟨_, .none rfl, cutClose⟩
  | cons parameter parameters =>
      obtain ⟨words, some, cut, isSpelled⟩ := exists_words (each parameter List.mem_cons_self) false
      obtain ⟨others, more, cutMore⟩ := exists_more fun later isLater =>
        each later (List.mem_cons_of_mem _ isLater)
      refine ⟨_, @Listing.some _ _ ⟨false, .closeParen, ")"⟩ _ _ isSpelled more rfl, ?_⟩
      have closes (after : List Char) : Delimited ([')'] ++ after) := .cons (by decide)
      have cutAll := cut.append (cutMore.append cutClose fun after _ => closes after) ?_
      · rw [List.map_cons, toList_intercalate_cons, List.flatMap_map]
        simpa [List.append_assoc] using cutAll
      · intro after _
        cases parameters with
        | nil => exact closes after
        | cons next parameters => simp [Delimited, Lexeme.delimiters]

theorem More.endsItem {close : Word} (more : More parameters words)
    (isClose : close.kind = .closeParen) : EndsItem .closeParen (words ++ close :: rest) := by
  cases more with
  | done => exact ⟨close, rest, rfl, .inr isClose⟩
  | next isComma => exact ⟨_, _, rfl, .inl isComma⟩

theorem More.unbroken (more : More parameters words) : Unbroken words := by
  induction more with
  | done => simp
  | next isComma isSpelled _ induction => simp [isComma, isSpelled.unbroken, induction]

theorem Listing.unbroken (listing : Listing parameters words) : Unbroken words := by
  cases listing with
  | none isClose => simp [isClose]
  | some isSpelled more isClose => simp [isSpelled.unbroken, more.unbroken, isClose]

/-- Nothing that a list of parameters starts with is a line break, and a list that is not empty
does not start with the closing parenthesis. -/
theorem Spelled.notBreak (isSpelled : parameter.Spelled words) :
    ∃ word more, words = word :: more ∧ word.kind ≠ .lineBreak ∧ word.kind ≠ .closeParen := by
  apply isSpelled.head (fun kind => kind ≠ .lineBreak ∧ kind ≠ .closeParen)
  · intro kind isStart
    constructor
    · rintro rfl
      cases isStart
    · rintro rfl
      cases isStart
  · decide
  · decide
  · decide

theorem Listing.skipLineBreaks (listing : Listing parameters words) (ends : Sealed rest) :
    Parser.skipLineBreaks.Returns (words ++ rest) () (words ++ rest) := by
  have endsAll : Sealed (words ++ rest) := ends.append words
  cases listing with
  | none isClose => exact Returns.skipLineBreaks_none endsAll (by rw [isClose]; decide)
  | some isSpelled =>
      obtain ⟨word, more, rfl, notBreak, -⟩ := isSpelled.notBreak
      exact Returns.skipLineBreaks_none endsAll notBreak

theorem map_bare_of_forall₂ {found : List MethodParameter}
    (related : List.Forall₂ (fun parameter other => other.bare = parameter.bare) parameters found) :
    found.map bare = parameters.map bare := by
  induction related with
  | nil => rfl
  | cons first _ induction => rw [List.map_cons, List.map_cons, first, induction]

/-- The next parameter is read again behind its comma. -/
theorem Spelled.nextParameter_rereads {comma : Word} (isComma : comma.kind = .comma)
    (isSpelled : parameter.Spelled words) (ends : Sealed rest)
    (endsItem : EndsItem .closeParen rest) :
    TagValue.nextParameter.Meets (comma :: (words ++ rest))
      (fun found after => after = rest ∧ ∃ other, found = some other ∧
        other.bare = parameter.bare) False := by
  apply (Returns.accept_yes isComma (ends.append words).ne_nil).bind
  rw [if_pos rfl]
  apply Meets.bind (isSpelled.rereads ends endsItem)
  rintro found _ ⟨rfl, same⟩
  exact .pure ⟨rfl, found, rfl, same⟩

theorem nextParameter_close {close : Word} (isClose : close.kind = .closeParen) :
    TagValue.nextParameter.Returns (close :: rest) none (close :: rest) := by
  apply (Returns.accept_no (by rw [isClose]; decide)).bind
  rw [if_neg (by decide)]
  exact .pure ⟨rfl, rfl⟩

/-- Further parameters are read again. -/
theorem More.rereads (more : More parameters words) {close : Word}
    (isClose : close.kind = .closeParen) (ends : Sealed (close :: rest)) :
    (many TagValue.nextParameter).Meets (words ++ close :: rest)
      (fun found after => after = close :: rest ∧ found.map bare = parameters.map bare) False := by
  apply (Meets.many_total (fun parameter other : MethodParameter => other.bare = parameter.bare)
    (?rounds : Rounds _ _ _ parameters () (close :: rest))).mono ?_ id
  case rounds =>
    induction more with
    | done => exact .done (nextParameter_close isClose)
    | @next comma parameter parameters words others isComma isSpelled more induction =>
        rw [List.cons_append, List.append_assoc]
        have shorter : (others ++ close :: rest).length <
            (comma :: (words ++ (others ++ close :: rest))).length := by
          simp only [List.length_cons, List.length_append]
          omega
        refine .item ⟨shorter, ?_⟩ induction
        exact isSpelled.nextParameter_rereads isComma (ends.append others) (more.endsItem isClose)
  rintro found _ ⟨rfl, related⟩
  exact ⟨rfl, map_bare_of_forall₂ related⟩

/-- The parameters of a method are read again. -/
theorem Listing.rereads (listing : Listing parameters words) {paren : Word}
    (isOpen : paren.kind = .openParen) (ends : Sealed rest) :
    TagValue.readMethodParameters.Meets (paren :: (words ++ rest))
      (fun found after => after = rest ∧ found.map bare = parameters.map bare) False := by
  have list : TagValue.readMethodParameterList.Meets (words ++ rest)
      (fun found after => (∃ close : Word, close.kind = .closeParen ∧ after = close :: rest) ∧
        found.map bare = parameters.map bare) False := by
    cases listing with
    | none isClose =>
        apply (Returns.isAt_yes isClose).bind
        rw [if_pos rfl]
        exact .pure ⟨⟨_, isClose, rfl⟩, rfl⟩
    | @some parameter parameters close words others isSpelled more isClose =>
        have endsClose : Sealed (close :: rest) := ends.cons close
        rw [List.append_assoc, List.append_assoc, List.singleton_append]
        have notClose : (isAt .closeParen).Returns (words ++ (others ++ close :: rest)) false
            (words ++ (others ++ close :: rest)) := by
          obtain ⟨word, following, rfl, -, notClose⟩ := isSpelled.notBreak
          exact Returns.isAt_no notClose
        apply notClose.bind
        rw [if_neg (by decide)]
        apply Meets.bind (isSpelled.rereads (endsClose.append others) (more.endsItem isClose))
        rintro first _ ⟨rfl, sameFirst⟩
        apply Meets.bind (more.rereads isClose endsClose)
        rintro found _ ⟨rfl, same⟩
        exact .pure ⟨⟨close, isClose, rfl⟩, by rw [List.map_cons, List.map_cons, sameFirst, same]⟩
  apply (Returns.consume isOpen (ends.append words).ne_nil).bind
  apply Meets.bind list
  rintro found _ ⟨⟨close, isClose, rfl⟩, same⟩
  exact (Returns.consume isClose ends.ne_nil).bind (.pure ⟨rfl, same⟩)

end MethodParameter

namespace TypeExpr

/-- No type starts with a word that is neither the start of one nor a line break. -/
theorem goalWithin_rejects {depth : Nat} {multiline : Bool} {word : Word} {more : List Word}
    (ends : Sealed (word :: more)) (notStart : starts word.kind = false)
    (notBreak : word.kind ≠ .lineBreak) :
    (goalWithin depth (.union multiline)).Rejects (word :: more) := by
  apply ((goalWithin_grounded depth).union multiline _ ends).mono ?_ id
  rintro type rest ⟨used, ending, consumes, isSpelled, -⟩
  obtain ⟨first, others, isUsed, isStart⟩ := isSpelled.starts
  obtain ⟨tail, eq⟩ := consumes.head notBreak (by simp [isUsed])
  obtain ⟨rfl, -⟩ := List.cons.inj (isUsed.symm.trans eq)
  rw [show starts first.kind = true from isStart] at notStart
  cases notStart

theorem eq_identifier_of_name? {type : TypeExpr} {name : String}
    (isName : type.identifierName? = some name) :
    ∃ attributes, type = ⟨.identifier name, attributes⟩ := by
  obtain ⟨form, attributes⟩ := type
  cases form <;> cases isName
  exact ⟨attributes, rfl⟩

end TypeExpr

namespace MethodParameter

variable {parameter : MethodParameter} {parameters : List MethodParameter}
  {words rest tail : List Word} {depth : Nat}

/-- The default value of a parameter comes next, where a parameter of a callable type ends. -/
def AtDefault (words : List Word) : Prop :=
  Sealed words ∧ ∃ word more, words = word :: more ∧ ConstExpr.starts word.kind = true

/-- Tried as a parameter of a callable type, a parameter of a method is read up to its end or
up to its default value, if it is read at all. -/
theorem Spelled.readParameter (isSpelled : parameter.Spelled words) (ends : Sealed rest)
    (endsItem : EndsItem .closeParen rest) (fits : (words ++ rest).length ≤ depth) :
    (TypeExpr.readParameter (TypeExpr.goalWithin (depth + 1))).Meets (words ++ rest)
      (fun _ after => after = rest ∨ AtDefault after) True := by
  cases isSpelled with
  | @parts gap typeWords defaultWords ofType ofDefault =>
      rw [List.append_assoc, List.append_assoc] at fits ⊢
      have endsDefault : Sealed (defaultWords ++ rest) := ends.append defaultWords
      have endsMarks : Sealed (parameterWords gap parameter.isReference parameter.isVariadic
          parameter.name ++ (defaultWords ++ rest)) := endsDefault.append _
      have marks (holds : TokenKind → Prop) := @head_parameterWords (defaultWords ++ rest) holds gap
        parameter.isReference parameter.isVariadic parameter.name
      generalize parameter.type = type at ofType
      generalize parameter.default = default at ofDefault
      apply Meets.bind .mark
      rintro start _ rfl
      cases ofType with
      | absent =>
          have untyped := marks (fun kind => TypeExpr.starts kind = false ∧ kind ≠ .lineBreak)
            (by decide) (by decide) (by decide)
          obtain ⟨word, more, eq⟩ := endsMarks.exists_cons
          rw [eq] at endsMarks untyped
          rw [List.nil_append, eq]
          obtain ⟨notStart, notBreak⟩ := untyped word rfl
          exact (TypeExpr.goalWithin_rejects endsMarks notStart notBreak).bind trivial
      | @present type typeWords ending isSpelled =>
          have endsType := endsType_of_head (marks (fun kind => kind.endsType = true) (by decide)
            (by decide) (by decide))
          have reads : TypeExpr.Reads (.chain .union type) typeWords ending :=
            TypeExpr.reads_of_spelled isSpelled
          have behind : TypeExpr.Behind ending _ := TypeExpr.behind_of_endsType endsMarks endsType
          have stops := TypeExpr.stops_of_endsType endsType
          apply Meets.bind ((reads.nestedUnion false behind stops fits).mono
            (fun _ _ found => found) False.elim)
          rintro found _ ⟨rfl, -⟩
          have notName := ofDefault.head (· ≠ .namedVariable) (by decide)
            (TypeExpr.head_endsItem (· ≠ .namedVariable) endsItem (by decide) (by decide))
          obtain ⟨middle, nameGap, reference, variadic⟩ := exists_accept_marks gap
            parameter.isReference parameter.isVariadic parameter.name endsDefault
          have nameMark := TypeExpr.nameMark_nameWords nameGap (some parameter.name)
          apply reference.bind
          apply variadic.bind
          apply (TypeExpr.readVariableName?_reads nameMark endsDefault fun _ => notName).bind
          cases ofDefault with
          | absent =>
              obtain ⟨word, others, rfl⟩ := ends.exists_cons
              have noEqual := TypeExpr.head_endsItem (· ≠ .equal) endsItem (by decide) (by decide)
              apply (Returns.accept_no (noEqual word rfl)).bind
              apply Meets.bind (.positionsSince start)
              rintro attributes _ rfl
              exact .pure (.inl rfl)
          | @present sign expr words ending isEqual isSpelled =>
              obtain ⟨word, more, rfl, isStart⟩ := ConstExpr.starts_of_spelled isSpelled
              have endsExpr : Sealed (word :: more ++ rest) := ends.append _
              apply (Returns.accept_yes isEqual endsExpr.ne_nil).bind
              apply Meets.bind (.positionsSince start)
              rintro attributes _ rfl
              exact .pure (.inr ⟨endsExpr, word, _, rfl, isStart⟩)

/-- What comes next while the parameters of a method are tried as those of a callable type: the
parameters that are left, or a default value. -/
def Pending (tail : List Word) (depth : Nat) (words : List Word) : Prop :=
  AtDefault words ∨ ∃ parameters others, More parameters others ∧ words = others ++ tail ∧
    words.length ≤ depth

theorem AtDefault.head (atDefault : AtDefault words) :
    ∃ word more, words = word :: more ∧ word.kind ≠ .lineBreak ∧ word.kind ≠ .comma ∧
      word.kind ≠ .closeParen := by
  obtain ⟨-, word, more, rfl, isStart⟩ := atDefault
  refine ⟨word, more, rfl, ?_⟩
  revert isStart
  cases word.kind <;> decide

theorem AtDefault.skipLineBreaks (atDefault : AtDefault words) :
    Parser.skipLineBreaks.Returns words () words := by
  obtain ⟨word, more, rfl, notBreak, -⟩ := atDefault.head
  exact Returns.skipLineBreaks_none atDefault.1 notBreak

section Tried

variable {close : Word} (isClose : close.kind = .closeParen) (ends : Sealed (close :: rest))

include isClose ends

theorem Pending.skipLineBreaks (pending : Pending (close :: rest) depth words) :
    Parser.skipLineBreaks.Returns words () words := by
  obtain atDefault | ⟨parameters, others, more, rfl, -⟩ := pending
  · exact atDefault.skipLineBreaks
  · exact TypeExpr.skipLineBreaks_endsItem (by decide) (ends.append others) (more.endsItem isClose)

/-- Tried as a parameter of a callable type, a parameter leaves the ones behind it, or its
default value. -/
theorem Spelled.readParameter_pending {others : List Word} (isSpelled : parameter.Spelled words)
    (more : More parameters others) (fits : (words ++ (others ++ close :: rest)).length ≤ depth) :
    (TypeExpr.readParameter (TypeExpr.goalWithin (depth + 1))).Meets
      (words ++ (others ++ close :: rest)) (fun _ after => Pending (close :: rest) depth after)
      True := by
  apply (isSpelled.readParameter (ends.append others) (more.endsItem isClose) fits).mono ?_ id
  rintro _ after (rfl | atDefault)
  · rw [List.length_append] at fits
    exact .inr ⟨parameters, others, more, rfl, by omega⟩
  · exact .inl atDefault

/-- The next of the parameters behind the first one, tried as one of a callable type. -/
theorem Pending.nextSeparated (pending : Pending (close :: rest) depth words) :
    (TypeExpr.nextSeparated (TypeExpr.readParameter (TypeExpr.goalWithin (depth + 1)))
      .closeParen).Meets words
      (fun found after =>
        match found with
        | some _ => Pending (close :: rest) depth after
        | none => after = close :: rest ∨ AtDefault after) True := by
  obtain atDefault | ⟨parameters, others, more, rfl, fits⟩ := pending
  · obtain ⟨word, following, rfl, -, notComma, -⟩ := atDefault.head
    apply (Returns.accept_no notComma).bind
    rw [if_neg (by decide)]
    exact .pure (.inr atDefault)
  · cases more with
    | done =>
        apply (Returns.accept_no (by rw [isClose]; decide)).bind
        rw [if_neg (by decide)]
        exact .pure (.inl rfl)
    | @next comma parameter parameters words others isComma isSpelled more =>
        rw [List.cons_append, List.append_assoc] at fits ⊢
        have endsItem : Sealed (words ++ (others ++ close :: rest)) :=
          (ends.append others).append words
        apply (Returns.accept_yes isComma endsItem.ne_nil).bind
        rw [if_pos rfl]
        obtain ⟨first, following, eq, notBreak, notClose⟩ := isSpelled.notBreak
        have stays : Parser.skipLineBreaks.Returns (words ++ (others ++ close :: rest)) ()
            (words ++ (others ++ close :: rest)) := by
          rw [eq] at endsItem ⊢
          exact Returns.skipLineBreaks_none endsItem notBreak
        have goesOn : (isAt .closeParen).Returns (words ++ (others ++ close :: rest)) false
            (words ++ (others ++ close :: rest)) := by
          rw [eq]
          exact Returns.isAt_no notClose
        apply stays.bind
        apply goesOn.bind
        rw [if_neg (by decide)]
        apply Meets.bind (isSpelled.readParameter_pending isClose ends more
          (Nat.le_of_succ_le fits))
        intro found after pending
        apply (pending.skipLineBreaks isClose ends).bind
        exact .pure pending

/-- The parameters behind the first one, tried as those of a callable type. -/
theorem Pending.many (pending : Pending (close :: rest) depth words) :
    (Parser.many (TypeExpr.nextSeparated
      (TypeExpr.readParameter (TypeExpr.goalWithin (depth + 1))) .closeParen)).Meets words
      (fun _ after => after = close :: rest ∨ AtDefault after) True := by
  apply (Meets.many (fun _ _ _ => True) (fun _ after => after = close :: rest ∨ AtDefault after)
    (Pending (close :: rest) depth) pending ?_).mono ?_ id
  · intro words pending
    apply (pending.nextSeparated isClose ends).mono ?_ id
    rintro (- | parameter) after found
    · exact found
    · exact ⟨trivial, found⟩
  · intro found after rounds
    clear pending
    generalize () = result at rounds
    induction rounds with
    | done final => exact final
    | item _ _ induction => exact induction

end Tried

/-- Tried as parameters of a callable type, the parameters of a method are read up to the closing
parenthesis or up to a default value, if they are read at all. -/
theorem Listing.readParameters (listing : Listing parameters words) (ends : Sealed rest)
    (fits : (words ++ rest).length ≤ depth) :
    (TypeExpr.readParameters (TypeExpr.goalWithin (depth + 1))).Meets (words ++ rest)
      (fun _ after => (∃ close : Word, close.kind = .closeParen ∧ after = close :: rest) ∨
        AtDefault after) True := by
  cases listing with
  | none isClose =>
      apply (Returns.isAt_yes isClose).bind
      rw [if_pos rfl]
      exact .pure (.inl ⟨_, isClose, rfl⟩)
  | @some parameter parameters close words others isSpelled more isClose =>
      have endsClose : Sealed (close :: rest) := ends.cons close
      rw [List.append_assoc, List.append_assoc, List.singleton_append] at fits ⊢
      have goesOn : (isAt .closeParen).Returns (words ++ (others ++ close :: rest)) false
          (words ++ (others ++ close :: rest)) := by
        obtain ⟨first, following, rfl, -, notClose⟩ := isSpelled.notBreak
        exact Returns.isAt_no notClose
      apply goesOn.bind
      rw [if_neg (by decide)]
      apply Meets.bind (isSpelled.readParameter_pending isClose endsClose more fits)
      intro first after pending
      apply (pending.skipLineBreaks isClose endsClose).bind
      apply Meets.bind (pending.many isClose endsClose)
      intro others after stopped
      apply Meets.pure
      exact stopped.imp (fun atClose => ⟨close, isClose, atClose⟩) id

/-- The name and the parameters of a method are no callable type, since no colon follows them. -/
theorem Listing.noCallable (listing : Listing parameters words) {paren next : Word}
    (isOpen : paren.kind = .openParen) (ends : Sealed (next :: rest))
    (notColon : next.kind ≠ .colon) : NoCallable (paren :: (words ++ next :: rest)) := by
  intro depth identifier start fits
  cases depth with
  | zero => simp at fits
  | succ depth =>
      apply (Returns.consume isOpen (ends.append words).ne_nil).bind
      apply (listing.skipLineBreaks ends).bind
      apply Meets.bind (listing.readParameters ends (by simpa using fits))
      rintro found after (⟨close, isClose, rfl⟩ | atDefault)
      · apply (Returns.consume isClose ends.ne_nil).bind
        exact (Rejects.consume notColon).bind trivial
      · obtain ⟨word, more, rfl, -, -, notClose⟩ := atDefault.head
        exact (Rejects.consume notClose).bind trivial

end MethodParameter

/-- A text with further parts behind it is cut into words, if the text is. -/
theorem Rescans.spaced {part : String} {parts : List String} {pieces : List (List Word)}
    {spelling : List Word → Ending → Prop} (rescans : Rescans Delimited part spelling)
    (others : List.Forall₂ SpacedPart parts pieces) :
    Rescans Delimited (Text.spaced (part :: parts)) (fun words ending =>
      ∃ used, words = used ++ pieces.flatten ∧ spelling used ending) := by
  intro gap
  obtain ⟨kind, value, more, ending, cut, isSpelled⟩ := rescans gap
  exact ⟨kind, value, more ++ pieces.flatten, ending, cut_spaced (List.cons_ne_nil _ _) cut others,
    _, rfl, isSpelled⟩

/-- The words of the name of a method, its parameters and what follows them. -/
def signatureWords (gap : Bool) (name : String) (words : List Word) : List Word :=
  ⟨gap, .identifier, name⟩ :: ⟨false, .openParen, "("⟩ :: words

namespace MethodTag

variable {tag : MethodTag} {list rest : List Word}

/-- The method is not static, but it is printed with the word `static` at its start although that
is not its return type. -/
def LooksStatic (tag : MethodTag) : Prop :=
  tag.isStatic = false ∧
    (∃ token ∈ (tokenize tag.print).head?, token.kind = .identifier ∧ token.value = "static") ∧
    tag.returnType.bind TypeExpr.identifierName? ≠ some "static"

theorem exists_signature (reprints : tag.Reprints) :
    ∃ list, MethodParameter.Listing tag.parameters list ∧
      ∀ gap, Cut Delimited gap tag.printSignature.toList (signatureWords gap tag.name list) := by
  obtain ⟨list, listing, cut⟩ := MethodParameter.exists_listing reprints.parameters
  refine ⟨list, listing, fun gap after rest delimited scanned => ?_⟩
  have scannedParen : Scanned false ('(' :: _) _ :=
    .mark rfl (by decide) (cut after rest delimited scanned)
  have scannedName := reprints.name.cut gap _ _ (.cons (by decide)) scannedParen
  simpa [printSignature, signatureWords, List.append_assoc] using scannedName

end MethodTag

namespace TagValue

variable {tag : MethodTag} {list rest : List Word}

theorem readStatic?_yes (gap : Bool) (ends : Sealed rest) :
    readStatic?.Meets (⟨gap, .identifier, "static"⟩ :: rest) (fun found after => after = rest ∧
      ∃ attributes, found = some ⟨.identifier "static", attributes⟩) False := by
  have isStatic : (⟨gap, .identifier, "static"⟩ : Word).kind = .identifier := rfl
  apply Meets.bind .mark
  rintro start _ rfl
  apply (Returns.acceptWord_yes isStatic rfl ends.ne_nil).bind
  rw [if_pos rfl]
  apply Meets.bind (TypeExpr.node_gives start)
  rintro _ _ ⟨rfl, attributes, rfl⟩
  exact .pure ⟨rfl, attributes, rfl⟩

theorem readStatic?_no {word : Word}
    (notStatic : ¬(word.kind = .identifier ∧ word.text = "static")) :
    readStatic?.Returns (word :: rest) none (word :: rest) := by
  apply Meets.bind .mark
  rintro start _ rfl
  apply (Returns.acceptWord_no notStatic).bind
  rw [if_neg (by decide)]
  exact .pure ⟨rfl, rfl⟩

/-- A return type and a name are read again. -/
theorem readTypeAndName_typed {type : TypeExpr} {used : List Word} {ending : Ending}
    (static : Option TypeExpr) (name : String)
    (isSpelled : (TypePhrase.chain .union type).Spelled used ending) (ends : Sealed rest) :
    (readTypeAndName static).Meets (used ++ ⟨true, .identifier, name⟩ :: rest)
      (fun found after => after = rest ∧
        ∃ other, found = (static.isSome, some other, name) ∧ other.bare = type.bare) False := by
  have isName : (⟨true, .identifier, name⟩ : Word).kind = .identifier := rfl
  have endsType : EndsType (⟨true, .identifier, name⟩ :: rest) := by
    rintro _ ⟨⟩
    exact .inr ⟨rfl, rfl⟩
  apply Meets.bind (TypeExpr.parser_rereads isSpelled (ends.cons _) endsType)
  rintro other _ ⟨rfl, same⟩
  apply (Returns.isAt_yes isName).bind
  rw [if_pos rfl]
  apply (Returns.consume isName ends.ne_nil).bind
  exact .pure ⟨rfl, other, rfl, same⟩

/-- A name alone is read again, since the parameters behind it are not those of a callable type. -/
theorem readTypeAndName_named {parameters : List MethodParameter} (static : Option TypeExpr)
    (gap : Bool) (name : String) (listing : MethodParameter.Listing parameters list)
    (endsRest : Sealed rest) (noColon : ∀ word ∈ rest.head?, word.kind ≠ .colon) :
    (readTypeAndName static).Returns (signatureWords gap name (list ++ rest)) (false, static, name)
      (⟨false, .openParen, "("⟩ :: (list ++ rest)) := by
  have isSpelled : (TypePhrase.chain .union ⟨.identifier name, .empty⟩).Spelled
      [⟨gap, .identifier, name⟩] (.name name) :=
    spelled_union (@TypePhrase.Spelled.name ⟨gap, .identifier, name⟩ .empty rfl).atomic
  have ends : Sealed (⟨false, .openParen, "("⟩ :: (list ++ rest)) :=
    (endsRest.append list).cons _
  have noCallable : NoCallable (⟨false, .openParen, "("⟩ :: (list ++ rest)) := by
    obtain ⟨next, others, rfl⟩ := endsRest.exists_cons
    exact listing.noCallable rfl endsRest (noColon next rfl)
  have allows : (Ending.name name).Allows (⟨false, .openParen, "("⟩ :: (list ++ rest)) := by
    rintro _ ⟨⟩
    exact ⟨by decide, by decide, fun _ => noCallable, by simp⟩
  have noSuffix : TypeExpr.NoSuffix (⟨false, .openParen, "("⟩ :: (list ++ rest)) := by
    obtain ⟨word, others, eq⟩ := (endsRest.append list).exists_cons
    rw [eq]
    rintro ⟨isSquare, -⟩
    cases isSquare
  have stops : TypeExpr.Stops .union false (⟨false, .openParen, "("⟩ :: (list ++ rest)) :=
    TypeExpr.stops_of_kind rfl (by decide) .union false
  apply Meets.bind (TypeExpr.parser_reads isSpelled ⟨ends, allows, noSuffix⟩ stops)
  rintro found _ ⟨rfl, same⟩
  have isName : found.identifierName? = some name := by
    rw [← found.identifierName?_bare, ← (TypeExpr.same_iff _ _).mp same,
      TypeExpr.identifierName?_bare]
    rfl
  apply (Returns.isAt_no (by decide)).bind
  rw [if_neg (by decide), isName]
  exact .pure ⟨rfl, rfl⟩

/-- What stands in front of the parameters was read as in the given method, attributes aside. -/
def IsHeadOf (tag : MethodTag) (found : Bool × Option TypeExpr × String) : Prop :=
  found.1 = tag.isStatic ∧ found.2.1.map TypeExpr.bare = tag.returnType.map TypeExpr.bare ∧
    found.2.2 = tag.name

/-- Behind the parts of a method there is no colon. -/
theorem EndsParts.noColon (endsParts : (method tag).EndsParts rest) :
    ∀ word ∈ rest.head?, word.kind ≠ .colon := by
  intro word isHead isColon
  rcases endsParts.apart word isHead with isBreak | ⟨-, unextended⟩
  · rw [isColon] at isBreak
    cases isBreak
  · exact of_decide_eq_false unextended isColon

/-- A method is read again, if what stands in front of its parameters is. -/
theorem rereadsParts_method_of_head {head : List Word} {gap : Bool}
    (undescribed : tag.description = "") (listing : MethodParameter.Listing tag.parameters list) (unbroken : Unbroken head)
    (cut : Cut Delimited true tag.print.toList (head ++ signatureWords gap tag.name list))
    (reads : ∀ rest, (method tag).EndsParts rest →
      readMethodHead.Meets (head ++ signatureWords gap tag.name (list ++ rest))
        (fun found after => after = ⟨false, .openParen, "("⟩ :: (list ++ rest) ∧
          IsHeadOf tag found) False) :
    (method tag).RereadsParts .method := by
  refine ⟨_, by simp [signatureWords], ?_, cut, ?_⟩
  · simp [signatureWords, unbroken, listing.unbroken]
  · intro rest endsParts
    rw [List.append_assoc]
    apply Meets.bind (reads rest endsParts)
    rintro ⟨isStatic, returnType, name⟩ _ ⟨rfl, rfl, sameType, rfl⟩
    apply Meets.bind (listing.rereads rfl endsParts.ends)
    rintro parameters _ ⟨rfl, sameParameters⟩
    exact .pure ⟨rfl, by simp [TagValue.bare, MethodTag.bare, sameType, sameParameters,
      undescribed]⟩

/-- The first word of a method that is not ambiguous is not `static`, if it is not static and does
not return that. -/
theorem notStatic_of_cut {word : Word} {more : List Word} {spelling : List Word → Ending → Prop}
    (unambiguous : ¬tag.LooksStatic) (notStatic : tag.isStatic = false)
    (differs : tag.returnType.bind TypeExpr.identifierName? ≠ some "static")
    (rescans : Rescans Delimited tag.print spelling)
    (cut : Cut Delimited true tag.print.toList (word :: more)) :
    ¬(word.kind = .identifier ∧ word.text = "static") := by
  rintro ⟨isName, isText⟩
  obtain ⟨token, isFirst, sameKind, sameText⟩ := TypeExpr.exists_first_token rescans cut
  exact unambiguous ⟨notStatic, ⟨token, isFirst, sameKind.trans isName, sameText.trans isText⟩,
    differs⟩

section Heads

variable {type : TypeExpr} (reprints : tag.Reprints) (undescribed : tag.description = "")

include reprints undescribed

theorem rereadsParts_method_static (isStatic : tag.isStatic = true)
    (isType : tag.returnType = some type) : (method tag).RereadsParts .method := by
  obtain ⟨list, listing, cutSignature⟩ := MethodTag.exists_signature reprints
  obtain ⟨words, ending, some, cutType, isSpelled⟩ :=
    (reprints.returnType type isType).exists_words true
  have signature : SpacedPart tag.printSignature (signatureWords true tag.name list) :=
    .present (by simp [signatureWords]) (cutSignature true)
  have cut := cut_spaced (List.cons_ne_nil _ _) (isName_static.cut true)
    (.cons (.present some cutType) (.cons signature (.cons .absent .nil)))
  apply @rereadsParts_method_of_head tag list (⟨true, .identifier, "static"⟩ :: words) true
    undescribed listing
  · simp [isSpelled.unbroken]
  · simpa [MethodTag.print, printOptional, isStatic, isType, undescribed] using cut
  · intro rest endsParts
    have ends : Sealed (⟨false, .openParen, "("⟩ :: (list ++ rest)) :=
      (endsParts.ends.append list).cons _
    rw [readMethodHead]
    apply Meets.bind (readStatic?_yes true ((ends.cons _).append words))
    rintro _ _ ⟨rfl, attributes, rfl⟩
    apply (readTypeAndName_typed _ tag.name isSpelled ends).mono ?_ id
    rintro _ _ ⟨rfl, other, rfl, same⟩
    exact ⟨rfl, isStatic.symm, by simp [isType, same], rfl⟩

theorem rereadsParts_method_typed (unambiguous : ¬tag.LooksStatic)
    (notStatic : tag.isStatic = false) (isType : tag.returnType = some type) (differs : type.identifierName? ≠ some "static") :
    (method tag).RereadsParts .method := by
  obtain ⟨list, listing, cutSignature⟩ := MethodTag.exists_signature reprints
  have signature : SpacedPart tag.printSignature (signatureWords true tag.name list) :=
    .present (by simp [signatureWords]) (cutSignature true)
  have rescans := (reprints.returnType type isType).union.spaced
    (.cons signature (.cons .absent .nil))
  have isPrinted : tag.print = Text.spaced [type.print, tag.printSignature, ""] := by
    simp [MethodTag.print, printOptional, notStatic, isType, undescribed, spaced_absent]
  rw [← isPrinted] at rescans
  obtain ⟨kind, value, more, ending, cut, words, isWords, isSpelled⟩ := rescans true
  have first := notStatic_of_cut unambiguous notStatic (by simpa [isType] using differs) rescans cut
  rw [isWords] at cut
  apply @rereadsParts_method_of_head tag list words true undescribed listing isSpelled.unbroken
  · simpa using cut
  · intro rest endsParts
    have ends : Sealed (⟨false, .openParen, "("⟩ :: (list ++ rest)) :=
      (endsParts.ends.append list).cons _
    rw [readMethodHead]
    obtain ⟨word, others, rfl, -⟩ := isSpelled.starts
    obtain ⟨rfl, -⟩ := List.cons.inj isWords
    apply (readStatic?_no first).bind
    apply (readTypeAndName_typed none tag.name isSpelled ends).mono ?_ id
    rintro _ _ ⟨rfl, other, rfl, same⟩
    exact ⟨rfl, notStatic.symm, by simp [isType, same], rfl⟩

theorem rereadsParts_method_returnsStatic (notStatic : tag.isStatic = false)
    (isType : tag.returnType = some type) (isName : type.identifierName? = some "static") :
    (method tag).RereadsParts .method := by
  obtain ⟨list, listing, cutSignature⟩ := MethodTag.exists_signature reprints
  have signature : SpacedPart tag.printSignature (signatureWords true tag.name list) :=
    .present (by simp [signatureWords]) (cutSignature true)
  have cut := cut_spaced (List.cons_ne_nil _ _) (isName_static.cut true)
    (.cons signature (.cons .absent .nil))
  obtain ⟨attributes, rfl⟩ := TypeExpr.eq_identifier_of_name? isName
  apply @rereadsParts_method_of_head tag list [⟨true, .identifier, "static"⟩] true undescribed
    listing
  · simp
  · simpa [MethodTag.print, printOptional, notStatic, isType, undescribed, spaced_absent,
      TypeExpr.print, TypeForm.print] using cut
  · intro rest endsParts
    have ends : Sealed (signatureWords true tag.name (list ++ rest)) :=
      ((endsParts.ends.append list).cons _).cons _
    rw [readMethodHead]
    apply Meets.bind (readStatic?_yes true ends)
    rintro _ _ ⟨rfl, attributes, rfl⟩
    apply (readTypeAndName_named _ true tag.name listing endsParts.ends
      endsParts.noColon).mono ?_ id
    rintro _ _ ⟨rfl, rfl⟩
    exact ⟨rfl, notStatic.symm, by simp [isType, TypeExpr.bare], rfl⟩

theorem rereadsParts_method_untyped (unambiguous : ¬tag.LooksStatic)
    (notStatic : tag.isStatic = false) (untyped : tag.returnType = none) : (method tag).RereadsParts .method := by
  obtain ⟨list, listing, cutSignature⟩ := MethodTag.exists_signature reprints
  have rescansSignature : Rescans Delimited tag.printSignature fun words _ =>
      words.tail = ⟨false, .openParen, "("⟩ :: list :=
    fun gap => ⟨.identifier, tag.name, _, .closed, cutSignature gap, rfl⟩
  have rescans := rescansSignature.spaced (.cons .absent .nil)
  have isPrinted : tag.print = Text.spaced [tag.printSignature, ""] := by
    simp [MethodTag.print, printOptional, notStatic, untyped, undescribed, spaced_absent]
  rw [← isPrinted] at rescans
  have cut := cut_spaced (List.cons_ne_nil _ _) (cutSignature true) (.cons .absent .nil)
  rw [← isPrinted] at cut
  have first := notStatic_of_cut unambiguous notStatic (by simp [untyped]) rescans cut
  apply @rereadsParts_method_of_head tag list [] true undescribed listing
  · simp
  · simpa [signatureWords] using cut
  · intro rest endsParts
    rw [readMethodHead, List.nil_append]
    apply (readStatic?_no first).bind
    apply (readTypeAndName_named none true tag.name listing endsParts.ends
      endsParts.noColon).mono ?_ id
    rintro _ _ ⟨rfl, rfl⟩
    exact ⟨rfl, notStatic.symm, by simp [untyped], rfl⟩

/-- A method is read again, unless it looks like a static one although it is not. -/
theorem rereadsParts_method (unambiguous : ¬tag.LooksStatic) :
    (method tag).RereadsParts .method := by
  cases isStatic : tag.isStatic with
  | true =>
      obtain ⟨type, isType⟩ := Option.isSome_iff_exists.mp (reprints.static isStatic)
      exact rereadsParts_method_static reprints undescribed isStatic isType
  | false =>
      cases isType : tag.returnType with
      | none => exact rereadsParts_method_untyped reprints undescribed unambiguous isStatic isType
      | some type =>
          by_cases isName : type.identifierName? = some "static"
          · exact rereadsParts_method_returnsStatic reprints undescribed isStatic isType isName
          · exact rereadsParts_method_typed reprints undescribed unambiguous isStatic isType isName

end Heads

end TagValue

end Docblock
