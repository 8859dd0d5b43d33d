import Docblock.Proofs.ConstExpr.Printing
import Docblock.Proofs.TypeExpr.Spelling
import Docblock.TypeExpr.Print

/-!
# Printed type expressions

The printed form of a type expression that was read is cut into words that spell the
expression, wherever it stands, with two exceptions.  An ampersand in front of a point
marks a reference and does not join operands, and the word `not` behind the word `is`
negates a condition and is not a type.  Trees without these two are called faithful.
-/

namespace Docblock

open Text

/-- The type expressions in a subject. -/
def ConditionalSubject.parts : ConditionalSubject → List TypeExpr
  | .type expr => [expr]
  | .parameter _ => []

/-- The type expressions directly below a form. -/
def TypeForm.parts : TypeForm → List TypeExpr
  | .nullable inner => [inner]
  | .array inner => [inner]
  | .generic base arguments => base :: arguments
  | .union operands => operands
  | .intersection operands => operands
  | .callable name parameters returnType =>
      name :: returnType :: parameters.map CallableParameter.type
  | .shape _ items _ => items.map ShapeItem.value
  | .conditional subject _ target ifType elseType =>
      target :: ifType :: elseType :: subject.parts
  | _ => []

/-- A type expression is, or occurs in, another one. -/
inductive TypeExpr.Within (part : TypeExpr) : TypeExpr → Prop
  | refl : Within part part
  | step {inner outer : TypeExpr} (isPart : inner ∈ outer.form.parts)
      (within : Within part inner) : Within part outer

/-- The first token of the text is the word `not`. -/
def StartsWithNot (text : String) : Prop :=
  ∃ token ∈ (tokenize text).head?, token.kind = .identifier ∧ token.value = "not"

/-- No operand behind an ampersand is printed with a point at its start. -/
def TypeForm.PointsApart : TypeForm → Prop
  | .intersection operands =>
      ∀ operand ∈ operands.tail, (operand.printOperand 2).toList.head? ≠ some '.'
  | _ => True

/-- The target of a condition that is not negated is not printed with `not` at its start. -/
def TypeForm.NegationsApart : TypeForm → Prop
  | .conditional _ negated target _ _ => negated = false → ¬StartsWithNot target.print
  | _ => True

/-- The form of the type expression and those of all its parts have the property. -/
def TypeExpr.Throughout (property : TypeForm → Prop) (type : TypeExpr) : Prop :=
  ∀ part : TypeExpr, part.Within type → property part.form

theorem TypeExpr.Throughout.part {property : TypeForm → Prop} {type inner : TypeExpr}
    (throughout : type.Throughout property) (isPart : inner ∈ type.form.parts) :
    inner.Throughout property :=
  fun part within => throughout part (.step isPart within)

theorem TypeExpr.throughout_of_parts {property : TypeForm → Prop} {form : TypeForm}
    {attributes : Attributes} (ofForm : property form)
    (ofParts : ∀ part ∈ form.parts, part.Throughout property) :
    TypeExpr.Throughout property ⟨form, attributes⟩ := by
  intro part within
  cases within with
  | refl => exact ofForm
  | step isPart within => exact ofParts _ isPart part within

theorem TypeExpr.throughout_leaf {property : TypeForm → Prop} {form : TypeForm}
    {attributes : Attributes} (ofForm : property form) (isLeaf : form.parts = []) :
    TypeExpr.Throughout property ⟨form, attributes⟩ :=
  throughout_of_parts ofForm (by simp [isLeaf])

/-- Every part of the type expression can be told from its printed form. -/
structure TypeExpr.Faithful (type : TypeExpr) : Prop where
  points : type.Throughout TypeForm.PointsApart
  negations : type.Throughout TypeForm.NegationsApart

theorem TypeExpr.Faithful.part {type inner : TypeExpr} (faithful : type.Faithful)
    (isPart : inner ∈ type.form.parts) : inner.Faithful :=
  ⟨faithful.points.part isPart, faithful.negations.part isPart⟩

/-- The tightest place in which a type expression is printed without parentheses. -/
def TypeExpr.tightest (type : TypeExpr) : TypePhrase :=
  match type.form with
  | .union _ => .chain .union type
  | .intersection _ => .chain .intersection type
  | .nullable _ => .operand type
  | _ => .atomic type

/-- The printed form of the type expression is cut into a spelling of it. -/
def TypeExpr.Reprints (type : TypeExpr) : Prop :=
  Rescans Delimited type.print type.tightest.Spelled

section Places

variable {type : TypeExpr} {words : List Word} {ending : Ending}

theorem spelled_operand (tight : 2 ≤ type.form.strength)
    (isSpelled : type.tightest.Spelled words ending) :
    (TypePhrase.operand type).Spelled words ending := by
  unfold TypeExpr.tightest at isSpelled
  split at isSpelled
  · next isForm => simp [isForm, TypeForm.strength] at tight
  · next isForm => simp [isForm, TypeForm.strength] at tight
  · exact isSpelled
  · exact .plain isSpelled

theorem spelled_intersection (tight : 1 ≤ type.form.strength)
    (isSpelled : type.tightest.Spelled words ending) :
    (TypePhrase.chain .intersection type).Spelled words ending := by
  unfold TypeExpr.tightest at isSpelled
  split at isSpelled
  · next isForm => simp [isForm, TypeForm.strength] at tight
  · exact isSpelled
  · exact .single isSpelled
  · exact .single (.plain isSpelled)

theorem spelled_union (isSpelled : type.tightest.Spelled words ending) :
    (TypePhrase.chain .union type).Spelled words ending := by
  unfold TypeExpr.tightest at isSpelled
  split at isSpelled
  · exact isSpelled
  · exact .single isSpelled
  · exact .single (.single isSpelled)
  · exact .single (.single (.plain isSpelled))

theorem TypeExpr.Reprints.union (reprints : type.Reprints) :
    Rescans Delimited type.print (TypePhrase.chain .union type).Spelled :=
  reprints.imp fun _ ending isSpelled => ⟨ending, spelled_union isSpelled⟩

theorem Rescans.parenthesized {text : String}
    (rescans : Rescans Delimited text (TypePhrase.enclosed type).Spelled) :
    Rescans Delimited ("(" ++ text ++ ")") (TypePhrase.primary type).Spelled := by
  obtain ⟨kind, value, more, ending, cut, isSpelled⟩ := rescans false
  intro gap
  refine ⟨.openParen, "(", ⟨false, kind, value⟩ :: more ++ [⟨false, .closeParen, ")"⟩], .closed,
    ?_, ?_⟩
  · intro after rest _ scanned
    have scannedClose : Scanned false (')' :: after) _ := .mark rfl (by decide) scanned
    have scannedInner := cut _ _ (.cons (by decide)) scannedClose
    have scannedAll : Scanned gap ('(' :: _) _ := .mark rfl (by decide) scannedInner
    simpa using scannedAll
  · exact @TypePhrase.Spelled.parenthesized ⟨gap, .openParen, "("⟩ ⟨false, .closeParen, ")"⟩ type
      _ _ rfl isSpelled rfl

/-- An operand is printed so that it can be read in its place. -/
theorem TypeExpr.Reprints.printOperand {least : Nat} {spelled : List Word → Ending → Prop}
    (reprints : type.Reprints)
    (loose : ∀ words ending, (TypePhrase.primary type).Spelled words ending → spelled words ending)
    (tight : least ≤ type.form.strength →
      ∀ words ending, type.tightest.Spelled words ending → spelled words ending) :
    Rescans Delimited (type.printOperand least) spelled := by
  rw [TypeExpr.printOperand_eq, parenthesizedIf]
  split
  · have enclosed : Rescans Delimited type.print (TypePhrase.enclosed type).Spelled :=
      reprints.union.imp fun _ ending isSpelled => ⟨ending, .aboutType (.unconditional isSpelled)⟩
    exact enclosed.parenthesized.imp fun words ending isSpelled =>
      ⟨ending, loose words ending isSpelled⟩
  · next isTight =>
      exact reprints.imp fun words ending isSpelled =>
        ⟨ending, tight (by simpa using isTight) words ending isSpelled⟩

end Places

/-- A comma or a closing parenthesis follows, as behind a parameter. -/
def EndsParameter (after : List Char) : Prop :=
  after.head? = some ',' ∨ after.head? = some ')'

namespace Lexeme

/-- No type starts with a space character. -/
theorem kind_first_space {char : Char} (space : isSpace char = true) (rest : List Char) :
    TypeExpr.starts (first char rest).kind = false := by
  rcases eq_of_isSpace space with rfl | rfl | rfl | rfl | rfl | rfl
  · rfl
  · rfl
  · rfl
  · rfl
  · rfl
  · have lineEnd : rule? '\r' rest = lineEnd? rest := rfl
    rw [first, lineEnd]
    split
    · next found =>
        unfold lineEnd? at found
        split at found <;> cases found
        rfl
    · rfl

theorem kind_first_dollar (rest : List Char) : (first '$' rest).kind = .thisVariable ∨
    (first '$' rest).kind = .namedVariable ∨ (first '$' rest).kind = .other := by
  have dollar : rule? '$' rest = dollar? rest := rfl
  rw [first, dollar]
  unfold dollar?
  simp only
  split
  · next found =>
      split at found
      · split at found <;> cases found
        · exact .inl rfl
        · exact .inr (.inl rfl)
      · cases found
  · exact .inr (.inr rfl)

theorem spellsThis_of_first {rest : List Char}
    (isThis : (first '$' rest).kind = .thisVariable) : spellsThis rest = true := by
  have dollar : rule? '$' rest = dollar? rest := rfl
  have name : (rest.takeWhile isVariablePart).map Char.toLower = ['t', 'h', 'i', 's'] := by
    rw [first, dollar, dollar?] at isThis
    simp only [take_runLength] at isThis
    by_contra notThis
    rw [if_neg notThis] at isThis
    split at isThis
    · next found =>
        split at found <;> cases found
        cases isThis
    · cases isThis
  have length : runLength isVariablePart rest = 4 := by
    simpa [runLength] using congrArg List.length name
  have stops := head_drop_runLength isVariablePart rest
  have taken := take_runLength isVariablePart rest
  rw [length] at stops taken
  have ended : (rest.drop 4).head?.any isVariablePart = false := by
    cases isHead : (rest.drop 4).head? with
    | none => rfl
    | some char => exact stops char isHead
  rw [spellsThis, taken, name, ended]
  rfl

/-- An ampersand in front of a type joins operands, unless the type starts with a point. -/
theorem first_ampersand {char : Char} {rest : List Char}
    (starts : TypeExpr.starts (first char rest).kind = true) (notPoint : char ≠ '.') :
    first '&' (char :: rest) = ⟨.intersection, 0⟩ := by
  have notSpace : isSpace char = false := by
    apply Bool.eq_false_iff.mpr
    intro space
    rw [kind_first_space space] at starts
    cases starts
  have notComma : char ≠ ',' := by
    rintro rfl
    cases starts
  have notClose : char ≠ ')' := by
    rintro rfl
    cases starts
  have notEqual : char ≠ '=' := by
    rintro rfl
    by_cases isArrow : rest.head? = some '>'
    · have cut : first '=' rest = ⟨.doubleArrow, 1⟩ := first_of_rule? (if_pos isArrow)
      rw [cut] at starts
      cases starts
    · have cut : first '=' rest = ⟨.equal, 0⟩ := first_of_rule? (if_neg isArrow)
      rw [cut] at starts
      cases starts
  have dollarThis : char = '$' → spellsThis rest = true := by
    rintro rfl
    apply spellsThis_of_first
    rcases kind_first_dollar rest with isKind | isKind | isKind
    · exact isKind
    · rw [isKind] at starts
      cases starts
    · rw [isKind] at starts
      cases starts
  have ampersand : first '&' (char :: rest) = ⟨ampersandKind (char :: rest), 0⟩ := rfl
  rw [ampersand, ampersandKind, List.dropWhile_cons, if_neg (by simp [notSpace])]
  by_cases isDollar : char = '$'
  · simp [isDollar, dollarThis isDollar]
  · simp [notPoint, notComma, notClose, notEqual, isDollar]

theorem isNameStart_of_toLower {char lower : Char} (isLower : char.toLower = lower)
    (isStart : isNameStart lower = true) : isNameStart char = true := by
  by_cases upper : char.isUpper = true
  · have isLetter : char.isAlpha = true := Bool.or_eq_true_iff.mpr (.inl upper)
    rw [isNameStart, isLetter, Bool.true_or, Bool.true_or]
  · have unchanged : char.toLower = char := by
      unfold Char.toLower
      exact dif_neg fun bounds => upper (decide_eq_true bounds)
    rwa [← isLower, unchanged] at isStart

/-- What is spelled like the current object is cut off as such. -/
theorem kind_first_of_spellsThis {rest : List Char} (spells : spellsThis rest = true) :
    (first '$' rest).kind = .thisVariable := by
  simp only [spellsThis, Bool.and_eq_true, decide_eq_true_eq, Bool.not_eq_true'] at spells
  obtain ⟨name, ended⟩ := spells
  have starts : ∀ char ∈ rest.take 4, isNameStart char = true := by
    intro char isMember
    have isLower : char.toLower ∈ ['t', 'h', 'i', 's'] := name ▸ List.mem_map_of_mem isMember
    have allStart : ['t', 'h', 'i', 's'].all isNameStart = true := by decide
    exact isNameStart_of_toLower rfl (List.all_eq_true.mp allStart _ isLower)
  have taken : rest.takeWhile isVariablePart = rest.take 4 := by
    have stopped : (rest.drop 4).takeWhile isVariablePart = [] := by
      cases isRest : rest.drop 4 with
      | nil => rfl
      | cons char others =>
          have notPart : isVariablePart char = false := by simpa [isRest] using ended
          rw [List.takeWhile_cons, notPart, if_neg (by simp)]
    have split : rest.take 4 ++ rest.drop 4 = rest := List.take_append_drop 4 rest
    nth_rewrite 1 [← split]
    rw [List.takeWhile_append_of_pos, stopped, List.append_nil]
    intro char isMember
    rw [isVariablePart, starts char isMember, Bool.true_or]
  have isStart : rest.head?.any isNameStart = true := by
    cases rest with
    | nil => simp at name
    | cons char rest => simpa using starts char (by simp)
  have dollar : rule? '$' rest = dollar? rest := rfl
  rw [first, dollar, dollar?, if_pos isStart]
  simp only [take_runLength, taken, if_pos name]

/-- The name of a parameter is not the name of the current object. -/
theorem spellsThis_eq_false {rest : List Char} (isName : (first '$' rest).kind = .namedVariable) :
    spellsThis rest = false := by
  apply Bool.eq_false_iff.mpr
  intro spells
  rw [kind_first_of_spellsThis spells] at isName
  cases isName

/-- What makes an ampersand in front of it mark a reference. -/
theorem first_ampersand_reference {text : List Char}
    (isReference : ampersandKind text = .reference) : first '&' text = ⟨.reference, 0⟩ := by
  have ampersand : first '&' text = ⟨ampersandKind text, 0⟩ := rfl
  rw [ampersand, isReference]

theorem ampersandKind_dollar {rest : List Char} (isName : (first '$' rest).kind = .namedVariable) :
    ampersandKind ('$' :: rest) = .reference := by
  have notThis := spellsThis_eq_false isName
  have notSpace : isSpace '$' = false := by decide
  simp [ampersandKind, notSpace, notThis]

end Lexeme

section Chains

variable {text : String} {spelling : List Word → Ending → Prop}

/-- An operand behind an operator that is the same everywhere. -/
theorem Rescans.behindMark {char : Char} {kind : TokenKind}
    (rescans : Rescans Delimited text spelling)
    (isMark : ∀ after, Lexeme.first char after = ⟨kind, 0⟩) (solid : kind ≠ .blank) :
    ∃ separator words ending, separator.kind = kind ∧ spelling words ending ∧
      Cut Delimited false (char :: text.toList) (separator :: words) := by
  obtain ⟨firstKind, value, more, ending, cut, isSpelled⟩ := rescans false
  refine ⟨⟨false, kind, String.ofList [char]⟩, _, ending, rfl, isSpelled, ?_⟩
  intro after rest delimited scanned
  exact .mark (isMark _) solid (cut after rest delimited scanned)

/-- An operand behind an ampersand. -/
theorem Rescans.behindAmpersand (rescans : Rescans Delimited text spelling)
    (starts : ∀ word words ending, spelling (word :: words) ending →
      TypeExpr.starts word.kind = true)
    (notPoint : text.toList.head? ≠ some '.') :
    ∃ separator words ending, separator.kind = .intersection ∧ spelling words ending ∧
      Cut Delimited false ('&' :: text.toList) (separator :: words) := by
  obtain ⟨kind, value, more, ending, cut, isSpelled⟩ := rescans false
  refine ⟨⟨false, .intersection, "&"⟩, _, ending, rfl, isSpelled, ?_⟩
  intro after rest delimited scanned
  obtain ⟨char, chars, isText, isFirst⟩ := cut.first .nil
  obtain ⟨extra, isFirst⟩ := isFirst after rest delimited scanned
  have isStart : TypeExpr.starts (Lexeme.first char (chars ++ after)).kind = true := by
    rw [isFirst]
    exact starts _ _ _ isSpelled
  have isAmpersand : Lexeme.first '&' (char :: (chars ++ after)) = ⟨.intersection, 0⟩ :=
    Lexeme.first_ampersand isStart (by simpa [isText] using notPoint)
  have scannedOperand := cut after rest delimited scanned
  rw [isText, List.cons_append] at scannedOperand
  rw [isText]
  exact .mark isAmpersand (by decide) scannedOperand

/-- Operands with an operator between them are cut into a chain. -/
theorem rescans_chain (level : Level) {operator : Char} {separator : String}
    (isSeparator : separator.toList = [operator]) (isDelimiter : operator ∈ Lexeme.delimiters)
    (print : TypeExpr → String) {first : TypeExpr} {others : List TypeExpr}
    (several : others ≠ []) (attributes : Attributes)
    (ofFirst : Rescans Delimited (print first) (level.below first).Spelled)
    (each : ∀ other ∈ others, ∃ separator words ending, separator.kind = level.operator ∧
      (level.below other).Spelled words ending ∧
      Cut Delimited false (operator :: (print other).toList) (separator :: words)) :
    Rescans Delimited (String.intercalate separator ((first :: others).map print))
      (TypePhrase.chain level ⟨level.combine (first :: others), attributes⟩).Spelled := by
  obtain ⟨slots, words, rfl, areSpelled, links, restCut⟩ :=
    exists_separated (fun other => operator :: (print other).toList) others [] each
      (fun _ _ _ => Delimited.cons isDelimiter) Links.done (Cut.nil Delimited)
      (fun _ delimited => delimited)
      fun separator part parts tail isOperator others => .more isOperator others
  rw [List.append_nil] at restCut
  intro gap
  obtain ⟨kind, value, more, ending, cut, isSpelled⟩ := ofFirst gap
  refine ⟨kind, value, more ++ words, _, ?_,
    .joined (by simpa using several) isSpelled areSpelled links⟩
  intro after rest delimited scanned
  have following : Delimited (((slots.map Slot.value).flatMap fun other =>
      operator :: (print other).toList) ++ after) := by
    cases slots with
    | nil => exact delimited
    | cons slot slots => exact .cons isDelimiter
  have scannedAll := cut _ _ following (restCut after rest delimited scanned)
  rw [List.map_cons, toList_intercalate_cons, isSeparator, List.flatMap_map]
  simpa [List.append_assoc] using scannedAll

end Chains

theorem KeyWord.print_eq {key : ShapeKey} {word : Word} (isKey : KeyWord key word) :
    key.print = word.text := by
  cases isKey with
  | name => rfl
  | integer => rw [ShapeKey.print, ConstExpr.print, ConstForm.print]
  | string => rw [ShapeKey.print, ConstExpr.print, ConstForm.print]

theorem KeyWord.regap {key : ShapeKey} {word : Word} (isKey : KeyWord key word) (gap : Bool) :
    KeyWord key ⟨gap, word.kind, word.text⟩ := by
  cases isKey with
  | name isName => exact @KeyWord.name ⟨gap, word.kind, word.text⟩ isName
  | @integer _ attributes isInteger =>
      exact @KeyWord.integer ⟨gap, word.kind, word.text⟩ attributes isInteger
  | @string _ attributes isQuoted =>
      exact @KeyWord.string ⟨gap, word.kind, word.text⟩ attributes isQuoted

theorem KeyWord.isLexeme {key : ShapeKey} {word : Word} (isKey : KeyWord key word)
    (lexical : word.Lexical) : IsLexeme word.kind word.text.toList := by
  apply lexical
  cases isKey with
  | name isName => exact .inl (by rw [isName]; rfl)
  | integer isInteger => exact .inr (.inl isInteger)
  | string isQuoted =>
      rcases isQuoted with isKind | isKind
      · exact .inl (by rw [isKind]; rfl)
      · exact .inl (by rw [isKind]; rfl)

namespace TypeExpr

theorem starts_of_spelled_operand {type : TypeExpr} {word : Word} {words : List Word}
    {ending : Ending} (isSpelled : (TypePhrase.operand type).Spelled (word :: words) ending) :
    starts word.kind = true := by
  obtain ⟨_, _, isCons, isStart⟩ := isSpelled.starts
  obtain ⟨rfl, -⟩ := List.cons.inj isCons
  exact isStart

theorem reprints_union {first : TypeExpr} {others : List TypeExpr} (several : others ≠ [])
    (attributes : Attributes) (ofFirst : first.Reprints) (each : ∀ other ∈ others, other.Reprints) :
    Reprints ⟨.union (first :: others), attributes⟩ := by
  have operand {type : TypeExpr} (reprints : type.Reprints) :
      Rescans Delimited (type.printOperand 1) (TypePhrase.chain .intersection type).Spelled :=
    reprints.printOperand (fun _ _ isSpelled => .single (.plain isSpelled.atomic))
      fun tight _ _ => spelled_intersection tight
  unfold Reprints
  rw [TypeExpr.print, TypeForm.print_union]
  exact rescans_chain .union rfl (by decide) (printOperand 1) several attributes
    (operand ofFirst) fun other isOther =>
      (operand (each other isOther)).behindMark (fun _ => rfl) (by decide)

theorem reprints_intersection {first : TypeExpr} {others : List TypeExpr} (several : others ≠ [])
    (attributes : Attributes) (ofFirst : first.Reprints) (each : ∀ other ∈ others, other.Reprints)
    (noPoints : ∀ other ∈ others, (other.printOperand 2).toList.head? ≠ some '.') :
    Reprints ⟨.intersection (first :: others), attributes⟩ := by
  have operand {type : TypeExpr} (reprints : type.Reprints) :
      Rescans Delimited (type.printOperand 2) (TypePhrase.operand type).Spelled :=
    reprints.printOperand (fun _ _ isSpelled => .plain isSpelled.atomic)
      fun tight _ _ => spelled_operand tight
  unfold Reprints
  rw [TypeExpr.print, TypeForm.print_intersection]
  exact rescans_chain .intersection rfl (by decide) (printOperand 2) several attributes
    (operand ofFirst) fun other isOther => (operand (each other isOther)).behindAmpersand
      (fun _ _ _ => starts_of_spelled_operand) (noPoints other isOther)

/-- An operand that is not a nullable type is printed so that it can be read behind a mark. -/
theorem reprints_nullable {inner : TypeExpr} (attributes : Attributes)
    (reprints : inner.Reprints) : Reprints ⟨.nullable inner, attributes⟩ := by
  have operand : Rescans Delimited
      (inner.printOperand (if inner.form.isNullable then 3 else 2))
      (TypePhrase.atomic inner).Spelled := by
    refine reprints.printOperand (fun _ _ isSpelled => isSpelled.atomic) ?_
    intro tight words ending isSpelled
    unfold TypeExpr.tightest at isSpelled
    split at isSpelled
    · next isForm => simp [isForm, TypeForm.strength, TypeForm.isNullable] at tight
    · next isForm => simp [isForm, TypeForm.strength, TypeForm.isNullable] at tight
    · next isForm => simp [isForm, TypeForm.strength, TypeForm.isNullable] at tight
    · exact isSpelled
  obtain ⟨kind, value, more, ending, cut, isSpelled⟩ := operand false
  unfold Reprints
  rw [TypeExpr.print, TypeForm.print]
  intro gap
  refine ⟨.nullable, "?", ⟨false, kind, value⟩ :: more, ending, ?_, .nullable rfl isSpelled⟩
  intro after rest delimited scanned
  have scannedAll : Scanned gap ('?' :: _) _ :=
    .mark rfl (by decide) (cut after rest delimited scanned)
  simpa using scannedAll

/-- The words spell a type behind which array brackets can be put. -/
def Suffixable (type : TypeExpr) (words : List Word) (ending : Ending) : Prop :=
  ∃ base baseWords baseEnding brackets, (TypePhrase.primary base).Spelled baseWords baseEnding ∧
    Suffixes base baseEnding type brackets ending ∧ words = baseWords ++ brackets

theorem suffixable_of_primary {type : TypeExpr} {words : List Word} {ending : Ending}
    (isSpelled : (TypePhrase.primary type).Spelled words ending) :
    Suffixable type words ending :=
  ⟨type, words, ending, [], isSpelled, .done, (List.append_nil words).symm⟩

theorem suffixable_of_tightest {type : TypeExpr} {words : List Word} {ending : Ending}
    (tight : 3 ≤ type.form.strength) (isSpelled : type.tightest.Spelled words ending) :
    Suffixable type words ending := by
  unfold TypeExpr.tightest at isSpelled
  split at isSpelled
  · next isForm => simp [isForm, TypeForm.strength] at tight
  · next isForm => simp [isForm, TypeForm.strength] at tight
  · next isForm => simp [isForm, TypeForm.strength] at tight
  · cases isSpelled with
    | suffixed inner suffixes => exact ⟨_, _, _, _, inner, suffixes, rfl⟩
    | callable => simp [TypeForm.strength] at tight

theorem reprints_array {inner : TypeExpr} (attributes : Attributes) (reprints : inner.Reprints) :
    Reprints ⟨.array inner, attributes⟩ := by
  have operand : Rescans Delimited (inner.printOperand 3) (Suffixable inner) :=
    reprints.printOperand (fun _ _ => suffixable_of_primary)
      fun tight _ _ => suffixable_of_tightest tight
  unfold Reprints
  rw [TypeExpr.print, TypeForm.print]
  intro gap
  obtain ⟨kind, value, more, ending, cut, base, baseWords, _, brackets, isSpelled, suffixes, eq⟩ :=
    operand gap
  refine ⟨kind, value, more ++ [⟨false, .openSquare, "["⟩, ⟨false, .closeSquare, "]"⟩], .closed,
    ?_, ?_⟩
  · intro after rest delimited scanned
    have scannedClose : Scanned false (']' :: after) _ := .mark rfl (by decide) scanned
    have scannedOpen : Scanned false ('[' :: _) _ := .mark rfl (by decide) scannedClose
    have scannedAll := cut _ _ (.cons (by decide)) scannedOpen
    simpa [List.append_assoc] using scannedAll
  · rw [← List.cons_append, eq, List.append_assoc]
    exact .suffixed isSpelled (suffixes.concat attributes rfl rfl)

theorem reprints_suffixes {type outer : TypeExpr} {ending final : Ending} {brackets : List Word}
    (suffixes : Suffixes type ending outer brackets final) (reprints : type.Reprints) :
    outer.Reprints := by
  induction suffixes with
  | done => exact reprints
  | @more _ _ _ _ _ _ _ attributes _ _ _ induction =>
      exact induction (reprints_array attributes reprints)

theorem within_suffixes {type outer : TypeExpr} {ending final : Ending} {brackets : List Word}
    (suffixes : Suffixes type ending outer brackets final) (faithful : outer.Faithful) :
    type.Faithful := by
  induction suffixes with
  | done => exact faithful
  | more _ _ _ induction => exact (induction faithful).part (by simp [TypeForm.parts])

theorem reprints_name {name : String} (attributes : Attributes)
    (isLexeme : IsLexeme .identifier name.toList) : Reprints ⟨.identifier name, attributes⟩ := by
  unfold Reprints
  rw [TypeExpr.print, TypeForm.print]
  refine isLexeme.rescans (by decide) (.name name) fun gap => ?_
  exact (@TypePhrase.Spelled.name ⟨gap, .identifier, name⟩ attributes rfl).atomic

theorem isLexeme_this : IsLexeme .thisVariable "$this".toList := by
  have chars : "$this".toList = ['$', 't', 'h', 'i', 's'] := by simp
  rw [chars]
  apply IsLexeme.of_rule?
  intro after delimited
  have stops : ∀ char ∈ after.head?, Lexeme.isVariablePart char = false :=
    delimited.head (by decide)
  have name : ['t', 'h', 'i', 's'].takeWhile Lexeme.isVariablePart = ['t', 'h', 'i', 's'] := by
    decide
  have taken := Lexeme.takeWhile_takeWhile_append ['t', 'h', 'i', 's'] stops
  rw [name] at taken
  have dollar (text : List Char) : Lexeme.rule? '$' text = Lexeme.dollar? text := rfl
  have isStart : (['t', 'h', 'i', 's'] ++ after).head?.any Lexeme.isNameStart = true := rfl
  rw [dollar, Lexeme.dollar?, if_pos isStart]
  simp only [Lexeme.runLength, taken, List.take_left]
  rfl

theorem reprints_this (attributes : Attributes) : Reprints ⟨.this, attributes⟩ := by
  unfold Reprints
  rw [TypeExpr.print, TypeForm.print]
  refine isLexeme_this.rescans (by decide) .closed fun gap => ?_
  exact (@TypePhrase.Spelled.this ⟨gap, .thisVariable, "$this"⟩ attributes rfl).atomic

/-- A generic type is printed as its name and its arguments in brackets. -/
theorem exists_generic {name : String} {arguments : List TypeExpr} (inner outer : Attributes)
    (isLexeme : IsLexeme .identifier name.toList)
    (each : ∀ argument ∈ arguments, argument.Reprints) :
    ∃ (slots : List (Slot TypeExpr)) (list : List Word), slots.map Slot.value = arguments ∧
      (∀ slot ∈ slots, (TypePhrase.chain .union slot.value).Spelled slot.words slot.ending) ∧
      Listed .closeAngle (slots.map Slot.words) list ∧
      ∀ gap, Cut Delimited gap
        (print ⟨.generic ⟨.identifier name, inner⟩ arguments, outer⟩).toList
        (⟨gap, .identifier, name⟩ :: ⟨false, .openAngle, "<"⟩ :: list) := by
  obtain ⟨slots, list, rfl, areSpelled, listed, scans⟩ := exists_listed TypeExpr.print
    (fun type => (TypePhrase.chain .union type).Spelled)
    (fun argument isArgument => (each argument isArgument).union)
    (fun _ => Delimited.cons (by decide))
    (fun _ => Delimited.cons (show '>' ∈ Lexeme.delimiters by decide)) (fun _ => rfl) (by decide)
  refine ⟨slots, list, rfl, areSpelled, listed, ?_⟩
  intro gap after rest _ scanned
  have scannedList : Scanned false ('<' :: _) _ :=
    .mark rfl (by decide) (scans after rest scanned)
  have scannedAll : Scanned gap _ _ :=
    isLexeme.scanned (by decide) (.cons (by decide)) scannedList
  rw [String.ofList_toList] at scannedAll
  rw [TypeExpr.print, TypeForm.print_generic]
  simpa [TypeExpr.print, TypeForm.print, List.append_assoc] using scannedAll

theorem reprints_generic {name : String} {arguments : List TypeExpr} (inner outer : Attributes)
    (isLexeme : IsLexeme .identifier name.toList) (some : arguments ≠ [])
    (each : ∀ argument ∈ arguments, argument.Reprints) :
    Reprints ⟨.generic ⟨.identifier name, inner⟩ arguments, outer⟩ := by
  obtain ⟨slots, list, rfl, areSpelled, listed, cut⟩ := exists_generic inner outer isLexeme each
  intro gap
  exact ⟨.identifier, name, ⟨false, .openAngle, "<"⟩ :: list, .closed, cut gap,
    (@TypePhrase.Spelled.generic ⟨gap, .identifier, name⟩ ⟨false, .openAngle, "<"⟩ slots list
      inner outer rfl rfl (by simpa using some) areSpelled listed).atomic⟩

theorem variableName_dollar (name : String) : variableName ("$" ++ name) = name := by
  have chars : ("$" ++ name).toList = '$' :: name.toList := by simp
  rw [variableName, chars]
  simp

/-- The word of a mark that may be absent. -/
def markWords (gap : Bool) (kind : TokenKind) (text : String) (present : Bool) : List Word :=
  if present then [⟨gap, kind, text⟩] else []

theorem mark_markWords (gap : Bool) (kind : TokenKind) (text : String) (present : Bool) :
    Mark kind present (markWords gap kind text present) := by
  cases present with
  | false => exact .absent
  | true => exact .present rfl

/-- A mark that may be absent; a blank in front of it stands in front of what follows if the
mark is absent. -/
theorem scanned_markWords {gap present : Bool} (kind : TokenKind) (text : String)
    {after : List Char} {rest : List Word} (scanned : Scanned (gap && !present) after rest)
    (isMark : present = true → Scanned false after rest →
      Scanned gap (text.toList ++ after) (⟨gap, kind, text⟩ :: rest)) :
    Scanned gap ((if present then text else "").toList ++ after)
      (markWords gap kind text present ++ rest) := by
  cases present with
  | false => simpa [markWords] using scanned
  | true => exact isMark rfl (by simpa using scanned)

/-- The word of a name that may be absent. -/
def nameWords (gap : Bool) : Option String → List Word
  | none => []
  | some name => [⟨gap, .namedVariable, "$" ++ name⟩]

theorem nameMark_nameWords (gap : Bool) (name : Option String) :
    NameMark name (nameWords gap name) := by
  cases name with
  | none => exact .absent
  | some name =>
      have mark := @NameMark.present ⟨gap, .namedVariable, "$" ++ name⟩ rfl
      rwa [variableName_dollar] at mark

/-- A comma, a closing parenthesis or an equals sign follows, as behind a parameter whose
default is not looked at. -/
def EndsName (after : List Char) : Prop :=
  ∃ char rest, after = char :: rest ∧ (char = ',' ∨ char = ')' ∨ char = '=')

theorem EndsName.delimited {after : List Char} (endsName : EndsName after) : Delimited after := by
  obtain ⟨char, rest, rfl, rfl | rfl | rfl⟩ := endsName
  · exact .cons (by decide)
  · exact .cons (by decide)
  · exact .cons (by decide)

theorem EndsName.ampersandKind {after : List Char} (endsName : EndsName after) :
    Lexeme.ampersandKind after = .reference := by
  obtain ⟨char, rest, rfl, rfl | rfl | rfl⟩ := endsName
  · rfl
  · rfl
  · rfl

/-- The name behind the type of a parameter. -/
theorem scanned_nameWords {gap : Bool} {name : Option String} {after : List Char}
    {rest : List Word} (named : ∀ text ∈ name, IsLexeme .namedVariable ("$" ++ text).toList)
    (endsName : EndsName after) (scanned : Scanned false after rest)
    (unspaced : name = none → gap = false) :
    Scanned gap ((name.elim "" ("$" ++ ·)).toList ++ after) (nameWords gap name ++ rest) := by
  cases name with
  | none =>
      rw [unspaced rfl]
      exact scanned
  | some name =>
      have scannedName : Scanned gap _ _ :=
        (named name rfl).scanned (by decide) endsName.delimited scanned
      rwa [String.ofList_toList] at scannedName

/-- An ampersand in front of a variable, or of an ellipsis with one, marks a reference. -/
theorem ampersandKind_variable (isVariadic : Bool) {name : String} {after : List Char}
    (named : IsLexeme .namedVariable ("$" ++ name).toList) (delimited : Delimited after) :
    Lexeme.ampersandKind ((if isVariadic then "..." else "").toList ++
      (("$" ++ name).toList ++ after)) = .reference := by
  cases isVariadic with
  | true => rfl
  | false =>
      obtain ⟨char, rest, isText, again⟩ := named
      have chars : ("$" ++ name).toList = '$' :: name.toList := by simp
      rw [chars] at isText
      obtain ⟨rfl, rfl⟩ := List.cons.inj isText
      have isKind : (Lexeme.first '$' (name.toList ++ after)).kind = .namedVariable := by
        rw [again after delimited]
      simpa using Lexeme.ampersandKind_dollar isKind

/-- An ampersand in front of the further marks of a parameter marks a reference. -/
theorem ampersandKind_parameter (isVariadic : Bool) {name : Option String} {after : List Char}
    (named : ∀ text ∈ name, IsLexeme .namedVariable ("$" ++ text).toList)
    (endsName : EndsName after) :
    Lexeme.ampersandKind ((if isVariadic then "..." else "").toList ++
      ((name.elim "" ("$" ++ ·)).toList ++ after)) = .reference := by
  cases name with
  | some name => exact ampersandKind_variable isVariadic (named name rfl) endsName.delimited
  | none =>
      cases isVariadic with
      | true => rfl
      | false => exact endsName.ampersandKind

/-- The marks and the name behind the type of a parameter.  A space is printed in front of
the first of them. -/
theorem scanned_parameterTail {gap isReference isVariadic : Bool} {name : Option String}
    {after : List Char} {rest : List Word}
    (isGap : gap = (isReference || isVariadic || name.isSome))
    (named : ∀ text ∈ name, IsLexeme .namedVariable ("$" ++ text).toList)
    (endsName : EndsName after) (scanned : Scanned false after rest) :
    Scanned false ((parameterTail isReference isVariadic name).toList ++ after)
      (markWords gap .reference "&" isReference ++
        (markWords (gap && !isReference) .variadic "..." isVariadic ++
          (nameWords (gap && !isReference && !isVariadic) name ++ rest))) := by
  have unspaced : name = none → (gap && !isReference && !isVariadic) = false := by
    rintro rfl
    rw [isGap]
    cases isReference <;> cases isVariadic <;> rfl
  have scannedName := scanned_nameWords named endsName scanned unspaced
  have scannedDots := scanned_markWords .variadic "..." scannedName
    fun _ others => by simpa using others.ellipsis
  have isReferenceMark := Lexeme.first_ampersand_reference
    (ampersandKind_parameter isVariadic named endsName)
  have scannedMarks := scanned_markWords .reference "&" scannedDots
    fun _ others => by simpa using Scanned.mark isReferenceMark (by decide) others
  rw [parameterTail, ← isGap]
  cases gap with
  | false =>
      obtain ⟨⟨rfl, rfl⟩, rfl⟩ : (isReference = false ∧ isVariadic = false) ∧ name = none := by
        simpa using isGap.symm
      simpa using scannedMarks
  | true =>
      have scannedAll : Scanned false (' ' :: _) _ := .space scannedMarks
      simpa using scannedAll

theorem rescans_parameter {type : TypeExpr} {isReference isVariadic isOptional : Bool}
    {name : Option String} (attributes : Attributes) (reprints : type.Reprints)
    (named : ∀ text ∈ name, IsLexeme .namedVariable ("$" ++ text).toList) :
    Rescans EndsParameter
      (CallableParameter.print ⟨type, isReference, isVariadic, name, isOptional, attributes⟩)
      (TypePhrase.parameter
        ⟨type, isReference, isVariadic, name, isOptional, attributes⟩).Spelled := by
  intro gap
  obtain ⟨kind, value, more, ending, cut, isSpelled⟩ := reprints.union gap
  generalize isGap : (isReference || isVariadic || name.isSome) = spaced
  have marked : (TypePhrase.parameter
      ⟨type, isReference, isVariadic, name, isOptional, attributes⟩).Spelled _ .closed :=
    .parameter isSpelled
    (mark_markWords spaced .reference "&" isReference)
    (mark_markWords (spaced && !isReference) .variadic "..." isVariadic)
    (nameMark_nameWords (spaced && !isReference && !isVariadic) name)
    (mark_markWords false .equal "=" isOptional)
  refine ⟨kind, value, _, .closed, ?_, marked⟩
  intro after rest ends scanned
  have isEqual : Lexeme.first '=' after = ⟨.equal, 0⟩ := by
    have noArrow : after.head? ≠ some '>' := by
      rcases ends with isHead | isHead <;> rw [isHead] <;> decide
    exact Lexeme.first_of_rule? (if_neg noArrow)
  have scannedEqual : Scanned false ((if isOptional then "=" else "").toList ++ after)
      (markWords false .equal "=" isOptional ++ rest) :=
    scanned_markWords .equal "=" scanned
      fun _ others => by simpa using Scanned.mark isEqual (by decide) others
  have endsName : EndsName ((if isOptional then "=" else "").toList ++ after) := by
    cases isOptional with
    | true => exact ⟨'=', after, rfl, .inr (.inr rfl)⟩
    | false =>
        rcases ends with isHead | isHead
        · obtain ⟨others, rfl⟩ := List.head?_eq_some_iff.mp isHead
          exact ⟨',', others, rfl, .inl rfl⟩
        · obtain ⟨others, rfl⟩ := List.head?_eq_some_iff.mp isHead
          exact ⟨')', others, rfl, .inr (.inl rfl)⟩
  have scannedTail := scanned_parameterTail isGap.symm named endsName scannedEqual
  have delimited : Delimited ((parameterTail isReference isVariadic name).toList ++
      ((if isOptional then "=" else "").toList ++ after)) := by
    rw [parameterTail]
    split
    · rw [String.toList_append, String.toList_append, String.toList_append]
      exact Delimited.cons (show ' ' ∈ Lexeme.delimiters by decide)
    · exact endsName.delimited
  have scannedAll := cut _ _ delimited scannedTail
  rw [CallableParameter.print]
  simpa [List.append_assoc] using scannedAll

theorem reprints_callable {name : String} {parameters : List CallableParameter}
    {returnType : TypeExpr} (inner outer : Attributes)
    (isLexeme : IsLexeme .identifier name.toList)
    (each : ∀ parameter ∈ parameters,
      Rescans EndsParameter parameter.print (TypePhrase.parameter parameter).Spelled)
    (result : returnType.Reprints) :
    Reprints ⟨.callable ⟨.identifier name, inner⟩ parameters returnType, outer⟩ := by
  have bracketFollows (after : List Char) : EndsParameter (')' :: after) := .inr rfl
  obtain ⟨slots, list, rfl, areSpelled, listed, scans⟩ := exists_listed CallableParameter.print
    (fun parameter => (TypePhrase.parameter parameter).Spelled) each (fun _ => .inl rfl)
    bracketFollows (fun _ => rfl) (by decide)
  have operand : Rescans Delimited (returnType.printOperand 2)
      (TypePhrase.operand returnType).Spelled :=
    result.printOperand (fun _ _ isSpelled => .plain isSpelled.atomic)
      fun tight _ _ => spelled_operand tight
  obtain ⟨kind, value, more, ending, cut, isSpelled⟩ := operand true
  unfold Reprints
  rw [TypeExpr.print, TypeForm.print_callable]
  intro gap
  refine ⟨.identifier, name, ⟨false, .openParen, "("⟩ :: list ++ ⟨false, .colon, ":"⟩ ::
    ⟨true, kind, value⟩ :: more, ending, ?_, ?_⟩
  · intro after rest delimited scanned
    have scannedResult := cut after rest delimited scanned
    have scannedColon : Scanned false (':' :: ' ' :: _) _ :=
      .mark rfl (by decide) (.space scannedResult)
    have scannedList : Scanned false ('(' :: _) _ :=
      .mark rfl (by decide) (scans _ _ scannedColon)
    have scannedAll : Scanned gap _ _ :=
      isLexeme.scanned (by decide) (.cons (by decide)) scannedList
    rw [String.ofList_toList] at scannedAll
    simpa [TypeExpr.print, TypeForm.print, List.append_assoc] using scannedAll
  · exact @TypePhrase.Spelled.callable ⟨gap, .identifier, name⟩ ⟨false, .openParen, "("⟩
      ⟨false, .colon, ":"⟩ slots list returnType _ _ inner outer rfl rfl areSpelled listed rfl
      isSpelled

theorem rescans_value {type : TypeExpr} (attributes : Attributes) (reprints : type.Reprints) :
    Rescans Delimited (ShapeItem.print ⟨none, false, type, attributes⟩)
      (TypePhrase.item ⟨none, false, type, attributes⟩).Spelled := by
  rw [ShapeItem.print]
  exact reprints.union.imp fun _ _ isSpelled => ⟨.closed, .value isSpelled⟩

theorem rescans_entry {key : ShapeKey} {word : Word} {type : TypeExpr} (isOptional : Bool)
    (attributes : Attributes) (isKey : KeyWord key word) (lexical : word.Lexical)
    (reprints : type.Reprints) :
    Rescans Delimited (ShapeItem.print ⟨some key, isOptional, type, attributes⟩)
      (TypePhrase.item ⟨some key, isOptional, type, attributes⟩).Spelled := by
  have isLexeme := isKey.isLexeme lexical
  have solid : word.kind ≠ .blank := by
    intro isBlank
    cases isKey <;> simp_all
  obtain ⟨kind, value, more, ending, cut, isSpelled⟩ := reprints.union true
  intro gap
  refine ⟨word.kind, word.text, markWords false .nullable "?" isOptional ++
    ⟨false, .colon, ":"⟩ :: ⟨true, kind, value⟩ :: more, .closed, ?_, ?_⟩
  · intro after rest delimited scanned
    have scannedColon : Scanned false (':' :: ' ' :: _) _ :=
      .mark rfl (by decide) (.space (cut after rest delimited scanned))
    have scannedMark : Scanned false _ (markWords false .nullable "?" isOptional ++ _) :=
      scanned_markWords .nullable "?" scannedColon
        fun _ others => .mark rfl (by decide) others
    have colonFollows : Delimited ((if isOptional then "?" else "").toList ++
        ':' :: ' ' :: (type.print.toList ++ after)) := by
      cases isOptional with
      | true => exact Delimited.cons (show '?' ∈ Lexeme.delimiters by decide)
      | false => exact Delimited.cons (show ':' ∈ Lexeme.delimiters by decide)
    have scannedAll : Scanned gap _ _ := isLexeme.scanned solid colonFollows scannedMark
    rw [String.ofList_toList] at scannedAll
    rw [ShapeItem.print, isKey.print_eq]
    cases isOptional <;> simpa [List.append_assoc] using scannedAll
  · exact .entry (isKey.regap gap) (mark_markWords false .nullable "?" isOptional) rfl isSpelled

/-- What is printed behind the last item of a shape. -/
def shapeEnd (closed : Bool) : List Char :=
  if closed then ['\x7d'] else [',', ' ', '.', '.', '.', '\x7d']

theorem exists_shapeTail (closed : Bool) :
    ∃ tail, ShapeTail closed [] tail ∧ Cut (fun _ => True) false (shapeEnd closed) tail := by
  cases closed with
  | true =>
      refine ⟨[⟨false, .closeCurly, "\x7d"⟩], .close rfl, ?_⟩
      intro after rest _ scanned
      exact .mark rfl (by decide) scanned
  | false =>
      refine ⟨[⟨false, .comma, ","⟩, ⟨true, .variadic, "..."⟩, ⟨false, .closeCurly, "\x7d"⟩],
        .last rfl (.unclosed rfl .absent rfl), ?_⟩
      intro after rest _ scanned
      have scannedClose : Scanned false ('\x7d' :: after) _ := .mark rfl (by decide) scanned
      exact .mark rfl (by decide) (.space scannedClose.ellipsis)

/-- The items of a shape and its end. -/
theorem exists_shapeBody {items : List ShapeItem} (closed : Bool)
    (each : ∀ item ∈ items, Rescans Delimited item.print (TypePhrase.item item).Spelled) :
    ∃ (slots : List (Slot ShapeItem)) (body : List Word), slots.map Slot.value = items ∧
      (∀ slot ∈ slots, (TypePhrase.item slot.value).Spelled slot.words slot.ending) ∧
      ShapeBody closed (slots.map Slot.words) body ∧
      ∀ after rest, Scanned false after rest →
        Scanned false ((String.intercalate ", " (if closed then items.map ShapeItem.print
          else items.map ShapeItem.print ++ ["..."])).toList ++ '\x7d' :: after)
        (body ++ rest) := by
  cases items with
  | nil =>
      have closing (after : List Char) (rest : List Word) (scanned : Scanned false after rest) :
          Scanned false ('\x7d' :: after) (⟨false, .closeCurly, "\x7d"⟩ :: rest) :=
        .mark rfl (by decide) scanned
      cases closed with
      | true =>
          exact ⟨[], [⟨false, .closeCurly, "\x7d"⟩], rfl, by simp, .empty (.closed rfl), closing⟩
      | false =>
          refine ⟨[], [⟨false, .variadic, "..."⟩, ⟨false, .closeCurly, "\x7d"⟩], rfl, by simp,
            .empty (.unclosed rfl .absent rfl), ?_⟩
          intro after rest scanned
          simpa using (closing after rest scanned).ellipsis
  | cons item items =>
      obtain ⟨kind, value, more, ending, cut, isSpelled⟩ := each item List.mem_cons_self false
      obtain ⟨tail, isTail, tailCut⟩ := exists_shapeTail closed
      have tailFollows (after : List Char) : Delimited (shapeEnd closed ++ after) := by
        cases closed with
        | true => exact Delimited.cons (show '\x7d' ∈ Lexeme.delimiters by decide)
        | false => exact Delimited.cons (show ',' ∈ Lexeme.delimiters by decide)
      obtain ⟨slots, words, rfl, areSpelled, isRest, restCut⟩ :=
        exists_separated (fun item => ',' :: ' ' :: item.print.toList) items (shapeEnd closed)
          (fun later isLater => (each later (List.mem_cons_of_mem _ isLater)).behindComma)
          (fun _ _ _ => Delimited.cons (by decide)) isTail tailCut
          (fun after _ => tailFollows after)
          fun separator part parts tail isComma others => .more isComma others
      refine ⟨⟨item, ⟨false, kind, value⟩ :: more, ending⟩ :: slots, _, rfl,
        by simpa using ⟨isSpelled, areSpelled⟩, .items isRest, ?_⟩
      intro after rest scanned
      have following : Delimited (((slots.map Slot.value).flatMap fun item =>
          ',' :: ' ' :: item.print.toList) ++ shapeEnd closed ++ after) := by
        cases slots with
        | nil => exact tailFollows after
        | cons slot slots => exact Delimited.cons (show ',' ∈ Lexeme.delimiters by decide)
      have scannedAll := cut _ _ following (restCut after rest trivial scanned)
      cases closed with
      | true =>
          rw [if_pos rfl, List.map_cons, toList_intercalate_cons, List.flatMap_map]
          simpa [shapeEnd, List.append_assoc] using scannedAll
      | false =>
          rw [if_neg (by decide), List.map_cons, List.cons_append, toList_intercalate_cons,
            List.flatMap_append, List.flatMap_map]
          simpa [shapeEnd, List.append_assoc] using scannedAll

theorem isLexeme_word (kind : ShapeKind) : IsLexeme .identifier kind.word.toList := by
  cases kind with
  | array => exact isLexeme_array
  | list =>
      have cut : Lexeme.rule? 'l' ['i', 's', 't'] = some ⟨.identifier, 3⟩ := rfl
      exact Lexeme.isLexeme_identifier cut

theorem ofWord?_word (kind : ShapeKind) : ShapeKind.ofWord? kind.word = some kind := by
  cases kind <;> decide

theorem reprints_shape {items : List ShapeItem} (kind : ShapeKind) (closed : Bool)
    (attributes : Attributes)
    (each : ∀ item ∈ items, Rescans Delimited item.print (TypePhrase.item item).Spelled) :
    Reprints ⟨.shape kind items closed, attributes⟩ := by
  obtain ⟨slots, body, rfl, areSpelled, isBody, scans⟩ := exists_shapeBody closed each
  unfold Reprints
  rw [TypeExpr.print, TypeForm.print_shape, printShape]
  intro gap
  refine ⟨.identifier, kind.word, ⟨false, .openCurly, "\x7b"⟩ :: body, .closed, ?_, ?_⟩
  · intro after rest _ scanned
    have scannedBody : Scanned false ('\x7b' :: _) _ :=
      .mark rfl (by decide) (scans after rest scanned)
    have scannedAll : Scanned gap _ _ :=
      (isLexeme_word kind).scanned (by decide) (.cons (by decide)) scannedBody
    rw [String.ofList_toList] at scannedAll
    simpa [List.append_assoc] using scannedAll
  · exact (@TypePhrase.Spelled.shape ⟨gap, .identifier, kind.word⟩ ⟨false, .openCurly, "\x7b"⟩ kind
      closed slots body attributes rfl (ofWord?_word kind) rfl rfl areSpelled isBody).atomic

/-- The constants that can stand in the place of a type. -/
def isTypeConstant (expr : ConstExpr) : Bool :=
  match expr.form with
  | .literal .integer _ => true
  | .literal .float _ => true
  | .literal .string _ => true
  | .fetch (some _) _ => true
  | .minus _ => true
  | _ => false

theorem startsConstant_iff {expr : ConstExpr} {words : List Word} {ending : Ending}
    (isSpelled : (ConstPhrase.expr expr).Spelled words ending) :
    StartsConstant words ↔ isTypeConstant expr = true := by
  cases isSpelled with
  | integer isKind => exact ⟨fun _ => rfl, fun _ => .literal (by simp [isKind])⟩
  | float isKind => exact ⟨fun _ => rfl, fun _ => .literal (by simp [isKind])⟩
  | string isQuoted =>
      refine ⟨fun _ => rfl, fun _ => .literal ?_⟩
      rcases isQuoted with isKind | isKind <;> simp [isKind]
  | @keyword word kind attributes isName isKeyword =>
      constructor
      · intro start
        cases start with
        | literal isLiteral => simp [isName] at isLiteral
      · intro isType
        unfold keyword? at isKeyword
        split_ifs at isKeyword <;> cases isKeyword <;> cases isType
  | constant isName =>
      constructor
      · intro start
        cases start with
        | literal isLiteral => simp [isName] at isLiteral
      · intro isType
        cases isType
  | classConstant isName isColons => exact ⟨fun _ => rfl, fun _ => .named isName isColons⟩
  | minus isMinus => exact ⟨fun _ => rfl, fun _ => .literal (by simp [isMinus])⟩
  | bracketed isOpen =>
      constructor
      · intro start
        cases start with
        | literal isLiteral => simp [isOpen] at isLiteral
        | named isName => simp [isOpen] at isName
      · intro isType
        cases isType
  | longArray isName _ isOpen =>
      constructor
      · intro start
        cases start with
        | literal isLiteral => simp [isName] at isLiteral
        | named _ isColons => simp [isOpen] at isColons
      · intro isType
        cases isType

theorem reprints_constant {expr : ConstExpr} {words : List Word} {ending : Ending}
    (attributes : Attributes) (start : StartsConstant words)
    (isSpelled : (ConstPhrase.expr expr).Spelled words ending)
    (lexical : ∀ word ∈ words, word.Lexical) : Reprints ⟨.constant expr, attributes⟩ := by
  have isType := (startsConstant_iff isSpelled).mp start
  have rescans : Rescans Delimited expr.print (ConstPhrase.expr expr).Spelled :=
    isSpelled.rescans lexical
  unfold Reprints
  rw [TypeExpr.print, TypeForm.print]
  refine rescans.imp fun words ending isSpelled => ⟨ending, ?_⟩
  have constant : (TypePhrase.primary ⟨.constant expr, attributes⟩).Spelled words ending :=
    .constant ((startsConstant_iff isSpelled).mpr isType) isSpelled
  exact constant.atomic

/-- The first word of a printed form is its first token. -/
theorem exists_first_token {text : String} {spelling : List Word → Ending → Prop} {gap : Bool}
    {word : Word} {more : List Word} (rescans : Rescans Delimited text spelling)
    (cut : Cut Delimited gap text.toList (word :: more)) :
    ∃ token ∈ (tokenize text).head?, token.kind = word.kind ∧ token.value = word.text := by
  obtain ⟨kind, value, others, ending, cutFirst, -⟩ := rescans false
  obtain ⟨char, chars, isText, isFirst⟩ := cutFirst.first .nil
  have scanned := cut [] [] .nil .done
  have scannedFirst := cutFirst [] [] .nil .done
  rw [isText, List.append_nil] at scanned scannedFirst
  obtain ⟨solid, extra, isLexeme, -⟩ := scannedFirst.first_eq
  obtain ⟨line, isTokenized⟩ := exists_tokenize_eq text
  rw [List.append_nil] at scanned
  cases scanned with
  | blank cutBlank =>
      rw [isLexeme] at cutBlank
      exact absurd (congrArg Lexeme.kind cutBlank) solid
  | @word _ _ _ kind extra _ cutWord _ _ =>
      refine ⟨⟨kind, String.ofList (char :: chars.take extra), 1⟩, ?_, rfl, rfl⟩
      rw [isTokenized, isText, scan, List.length_cons, scanWithin, cutWord]
      rfl

/-- If the first word of a printed form is the word `not`, so is its first token. -/
theorem startsWithNot_of_cut {text : String} {spelling : List Word → Ending → Prop} {gap : Bool}
    {word : Word} {more : List Word} (rescans : Rescans Delimited text spelling)
    (cut : Cut Delimited gap text.toList (word :: more)) (negates : word.negates) :
    StartsWithNot text := by
  obtain ⟨token, isHead, isKind, isText⟩ := exists_first_token rescans cut
  exact ⟨token, isHead, isKind.trans negates.1, isText.trans negates.2⟩

end TypeExpr

end Docblock
