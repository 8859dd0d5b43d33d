import Docblock.Proofs.TypeExpr.Completeness

/-!
# The grammar of type expressions

The grammar as a system of rules that derive lists of words, without trees and
without a preferred reading:

```text
type         = intersection { "|" intersection }
intersection = operand { "&" operand }
operand      = [ "?" ] atomic
atomic       = primary { "[" "]" }
primary      = "(" enclosed ")" | "$this" | constant
             | identifier [ "<" arguments ">" | "(" parameters ")" ":" operand | shape ]
enclosed     = variable condition | subject
subject      = type [ condition ]
condition    = "is" [ "not" ] type "?" type ":" subject
parameter    = type [ "&" ] [ "..." ] [ variable ] [ "=" ]
item         = [ ( identifier | integer | string ) [ "?" ] ":" ] type
```

A list of words is derivable exactly if it spells some type expression.  The
derivations are more than the spellings, because brackets behind a callable type can
be derived as part of the return type or not; both derive the same words.
-/

namespace Docblock

/-- The symbols of the grammar. -/
inductive Symbol
  | type
  | intersection
  | operand
  | atomic
  | primary
  | enclosed
  | subject
  | condition
  | parameter
  | item
  | constant
  | constantItem

/-- A wildcard at the end of the first words does not touch the next word. -/
def Unglued (words rest : List Word) : Prop :=
  ∀ last ∈ words.getLast?, last.kind = .wildcard → ∀ next ∈ rest.head?, next.gap = true

/-- The words that the grammar derives from a symbol.  If `maximal` is set, the name of a
class constant is as long as it can be, so a wildcard at its end may not touch the word
that opens a condition. -/
inductive Derives (maximal : Bool) : Symbol → List Word → Prop
  | type {first : List Word} {parts : List (List Word)} {words : List Word}
      (ofFirst : Derives maximal .intersection first)
      (each : ∀ part ∈ parts, Derives maximal .intersection part)
      (links : Links .union parts words) : Derives maximal .type (first ++ words)
  | intersection {first : List Word} {parts : List (List Word)} {words : List Word}
      (ofFirst : Derives maximal .operand first)
      (each : ∀ part ∈ parts, Derives maximal .operand part)
      (links : Links .intersection parts words) : Derives maximal .intersection (first ++ words)
  | nullable {word : Word} {words : List Word} (isMark : word.kind = .nullable)
      (inner : Derives maximal .atomic words) : Derives maximal .operand (word :: words)
  | plain {words : List Word} (inner : Derives maximal .atomic words) :
      Derives maximal .operand words
  | unsuffixed {words : List Word} (inner : Derives maximal .primary words) :
      Derives maximal .atomic words
  | suffixed {words : List Word} {bracket close : Word} (inner : Derives maximal .atomic words)
      (isOpen : bracket.kind = .openSquare) (isClose : close.kind = .closeSquare) :
      Derives maximal .atomic (words ++ [bracket, close])
  | parenthesized {paren close : Word} {words : List Word} (isOpen : paren.kind = .openParen)
      (inner : Derives maximal .enclosed words) (isClose : close.kind = .closeParen) :
      Derives maximal .primary (paren :: words ++ [close])
  | this {word : Word} (isThis : word.kind = .thisVariable) : Derives maximal .primary [word]
  | name {word : Word} (isName : word.kind = .identifier) : Derives maximal .primary [word]
  | generic {name angle : Word} {parts : List (List Word)} {list : List Word}
      (isName : name.kind = .identifier) (isOpen : angle.kind = .openAngle) (some : parts ≠ [])
      (each : ∀ part ∈ parts, Derives maximal .type part) (listed : Listed .closeAngle parts list) :
      Derives maximal .primary (name :: angle :: list)
  | callable {name paren colon : Word} {parts : List (List Word)} {list words : List Word}
      (isName : name.kind = .identifier) (isOpen : paren.kind = .openParen)
      (each : ∀ part ∈ parts, Derives maximal .parameter part)
      (listed : Listed .closeParen parts list) (isColon : colon.kind = .colon)
      (result : Derives maximal .operand words) :
      Derives maximal .primary (name :: paren :: list ++ colon :: words)
  | shape {name curly : Word} {closed : Bool} {parts : List (List Word)} {body : List Word}
      (isName : name.kind = .identifier) (opens : (ShapeKind.ofWord? name.text).isSome = true)
      (isOpen : curly.kind = .openCurly) (glued : curly.gap = false)
      (each : ∀ part ∈ parts, Derives maximal .item part) (items : ShapeBody closed parts body) :
      Derives maximal .primary (name :: curly :: body)
  | constant {words : List Word} (start : StartsConstant words)
      (inner : Derives maximal .constant words) : Derives maximal .primary words
  | aboutParameter {word : Word} {words : List Word} (isVariable : word.kind = .namedVariable)
      (rest : Derives maximal .condition words) : Derives maximal .enclosed (word :: words)
  | aboutType {words : List Word} (inner : Derives maximal .subject words) :
      Derives maximal .enclosed words
  | unconditional {words : List Word} (inner : Derives maximal .type words) :
      Derives maximal .subject words
  | conditional {words rest : List Word} (inner : Derives maximal .type words)
      (condition : Derives maximal .condition rest)
      (unglued : maximal = true → Unglued words rest) : Derives maximal .subject (words ++ rest)
  | condition {negated : Bool} {is question colon : Word}
      {marks targetWords ifWords elseWords : List Word}
      (isCondition : is.kind = .identifier ∧ is.text = "is")
      (negation : Negation negated marks targetWords) (ofTarget : Derives maximal .type targetWords)
      (isQuestion : question.kind = .nullable) (ofIf : Derives maximal .type ifWords)
      (isColon : colon.kind = .colon) (ofElse : Derives maximal .subject elseWords) :
      Derives maximal .condition
        (is :: marks ++ targetWords ++ question :: ifWords ++ colon :: elseWords)
  | parameter {isReference isVariadic isOptional : Bool} {name : Option String}
      {words reference dots variable_ equal : List Word} (inner : Derives maximal .type words)
      (referenceMark : Mark .reference isReference reference)
      (variadicMark : Mark .variadic isVariadic dots) (nameMark : NameMark name variable_)
      (optionalMark : Mark .equal isOptional equal) :
      Derives maximal .parameter (words ++ (reference ++ (dots ++ (variable_ ++ equal))))
  | value {words : List Word} (inner : Derives maximal .type words) : Derives maximal .item words
  | entry {isOptional : Bool} {word colon : Word} {marks words : List Word}
      (isKey : word.kind ∈ [.identifier, .integer, .singleQuoted, .doubleQuoted])
      (mark : Mark .nullable isOptional marks) (isColon : colon.kind = .colon)
      (inner : Derives maximal .type words) :
      Derives maximal .item (word :: marks ++ colon :: words)
  | literal {word : Word}
      (isLiteral : word.kind ∈
        [.integer, .float, .singleQuoted, .doubleQuoted, .identifier]) :
      Derives maximal .constant [word]
  | classConstant {word colons first : Word} {parts : List Word} {wild final : Bool}
      (isName : word.kind = .identifier) (isColons : colons.kind = .doubleColon)
      (isPart : first.kind = partKind wild) (others : NameTail wild parts final) :
      Derives maximal .constant (word :: colons :: first :: parts)
  | minus {word : Word} {words : List Word} (isMinus : word.kind = .minus)
      (inner : Derives maximal .constant words) : Derives maximal .constant (word :: words)
  | bracketed {word : Word} {parts : List (List Word)} {list : List Word}
      (isOpen : word.kind = .openSquare)
      (each : ∀ part ∈ parts, Derives maximal .constantItem part)
      (listed : Listed .closeSquare parts list) : Derives maximal .constant (word :: list)
  | longArray {word paren : Word} {parts : List (List Word)} {list : List Word}
      (isName : word.kind = .identifier) (isArray : Text.lowercase word.text = "array")
      (isOpen : paren.kind = .openParen)
      (each : ∀ part ∈ parts, Derives maximal .constantItem part)
      (listed : Listed .closeParen parts list) : Derives maximal .constant (word :: paren :: list)
  | constantValue {words : List Word} (inner : Derives maximal .constant words) :
      Derives maximal .constantItem words
  | constantEntry {key words : List Word} {arrow : Word} (left : Derives maximal .constant key)
      (isArrow : arrow.kind = .doubleArrow) (right : Derives maximal .constant words) :
      Derives maximal .constantItem (key ++ arrow :: words)

theorem Derives.type_of_primary {maximal : Bool} {words : List Word}
    (primary : Derives maximal .primary words) : Derives maximal .type words := by
  have operand : Derives maximal .operand words := .plain (.unsuffixed primary)
  have intersection := Derives.intersection operand (by simp) .done
  have type := Derives.type intersection (by simp) .done
  rwa [List.append_nil, List.append_nil] at type

/-- The symbol whose words the spellings of a part of a type expression are. -/
def TypePhrase.symbol : TypePhrase → Symbol
  | .chain .union _ => .type
  | .chain .intersection _ => .intersection
  | .operand _ => .operand
  | .atomic _ => .atomic
  | .primary _ => .primary
  | .enclosed _ => .enclosed
  | .subject _ => .subject
  | .condition _ _ => .condition
  | .parameter _ => .parameter
  | .item _ => .item

/-- The symbol whose words the spellings of a part of a constant expression are. -/
def ConstPhrase.symbol : ConstPhrase → Symbol
  | .expr _ => .constant
  | .item _ => .constantItem

theorem NameTail.kind_getLast? {wild final : Bool} {first : Word} {parts : List Word}
    (others : NameTail wild parts final) (isPart : first.kind = partKind wild) :
    ∀ last ∈ (first :: parts).getLast?, last.kind = partKind final := by
  induction others generalizing first with
  | nil => simpa using isPart
  | cons isNext glued others induction =>
      intro last isLast
      rw [List.getLast?_cons_cons] at isLast
      exact induction isNext last isLast

/-- A spelling ends with a wildcard exactly if it ends with the name of a class constant
that does. -/
def EndsAs (words : List Word) (ending : Ending) : Prop :=
  ∀ last ∈ words.getLast?, last.kind = .wildcard ↔ ending = .part true

theorem endsAs_of_last {words : List Word} {last : Word} {ending : Ending}
    (notWild : last.kind ≠ .wildcard) (notPart : ending ≠ .part true) :
    EndsAs (words ++ [last]) ending := by
  intro word isLast
  rw [List.getLast?_concat, Option.mem_some_iff] at isLast
  subst isLast
  exact ⟨fun isWild => absurd isWild notWild, fun isPart => absurd isPart notPart⟩

theorem EndsAs.append {words : List Word} {ending : Ending} (endsAs : EndsAs words ending)
    (some : words ≠ []) (front : List Word) : EndsAs (front ++ words) ending := by
  obtain ⟨word, others, rfl⟩ := List.exists_cons_of_ne_nil some
  intro last isLast
  exact endsAs last (by simpa [List.getLast?_append] using isLast)

theorem endsAs_single {word : Word} {ending : Ending} (notWild : word.kind ≠ .wildcard)
    (notPart : ending ≠ .part true) : EndsAs [word] ending := by
  rw [← List.nil_append [word]]
  exact endsAs_of_last notWild notPart

theorem Listed.ne_nil {close : TokenKind} {parts : List (List Word)} {list : List Word}
    (listed : Listed close parts list) : list ≠ [] := by
  cases listed <;> simp

theorem Listed.endsAs {close : TokenKind} {parts : List (List Word)} {list : List Word}
    (listed : Listed close parts list) (notWild : close ≠ .wildcard) : EndsAs list .closed := by
  cases listed with
  | none isClose => exact endsAs_single (by rwa [isClose]) (by simp)
  | some further isClose => exact endsAs_of_last (by rwa [isClose]) (by simp)

theorem ShapeEnd.endsAs {closed : Bool} {words : List Word} (final : ShapeEnd closed words) :
    EndsAs words .closed := by
  cases final with
  | closed isClose => exact endsAs_single (by rw [isClose]; decide) (by simp)
  | unclosed isDots mark isClose => exact endsAs_of_last (by rw [isClose]; decide) (by simp)

theorem ShapeEnd.ne_nil {closed : Bool} {words : List Word} (final : ShapeEnd closed words) :
    words ≠ [] := by
  cases final <;> simp

theorem ShapeTail.ne_nil {closed : Bool} {parts : List (List Word)} {words : List Word}
    (tail : ShapeTail closed parts words) : words ≠ [] := by
  cases tail <;> simp

theorem ShapeTail.endsAs {closed : Bool} {parts : List (List Word)} {words : List Word}
    (tail : ShapeTail closed parts words) : EndsAs words .closed := by
  induction tail with
  | close isClose => exact (ShapeEnd.closed isClose).endsAs
  | @last _ comma _ isComma final => exact final.endsAs.append final.ne_nil [comma]
  | @more _ part _ comma _ isComma others induction =>
      exact induction.append others.ne_nil (comma :: part)

theorem ShapeBody.endsAs {closed : Bool} {parts : List (List Word)} {words : List Word}
    (body : ShapeBody closed parts words) : EndsAs words .closed := by
  cases body with
  | empty final => exact final.endsAs
  | items others => exact others.endsAs.append others.ne_nil _

theorem ShapeBody.ne_nil {closed : Bool} {parts : List (List Word)} {words : List Word}
    (body : ShapeBody closed parts words) : words ≠ [] := by
  cases body with
  | empty final => exact final.ne_nil
  | items others => simp [others.ne_nil]

theorem Suffixes.endsAs {type outer : TypeExpr} {ending final : Ending}
    {words brackets : List Word} (suffixes : Suffixes type ending outer brackets final)
    (endsAs : EndsAs words ending) : EndsAs (words ++ brackets) final := by
  induction suffixes generalizing words with
  | done => rwa [List.append_nil]
  | @more _ _ _ _ bracket close brackets _ isOpen isClose others induction =>
      have shifted : words ++ bracket :: close :: brackets =
          words ++ [bracket] ++ [close] ++ brackets := by simp
      rw [shifted]
      exact induction (endsAs_of_last (by rw [isClose]; decide) (by simp))

/-- The last of the joined operands ends the chain. -/
theorem Links.endsAs {α : Type} {operator : TokenKind} {slots : List (Slot α)}
    {first words : List Word} {ending : Ending}
    (links : Links operator (slots.map Slot.words) words) (endsAs : EndsAs first ending)
    (each : ∀ slot ∈ slots, slot.words ≠ [] ∧ EndsAs slot.words slot.ending) :
    EndsAs (first ++ words) (Slot.lastEnding ending slots) := by
  induction slots generalizing first words ending with
  | nil =>
      cases links
      rwa [List.append_nil]
  | cons slot slots induction =>
      cases links with
      | @more _ _ word words isOperator others =>
          obtain ⟨some, slotEndsAs⟩ := each slot List.mem_cons_self
          have shifted : first ++ (word :: slot.words ++ words) =
              first ++ [word] ++ slot.words ++ words := by simp
          rw [shifted, Slot.lastEnding]
          exact induction others (slotEndsAs.append some _)
            fun later isLater => each later (List.mem_cons_of_mem _ isLater)

theorem ConstPhrase.Spelled.endsAs {phrase : ConstPhrase} {words : List Word} {ending : Ending}
    (isSpelled : phrase.Spelled words ending) : EndsAs words ending := by
  induction isSpelled with
  | integer isKind => exact endsAs_single (by rw [isKind]; decide) (by simp)
  | float isKind => exact endsAs_single (by rw [isKind]; decide) (by simp)
  | string isQuoted =>
      refine endsAs_single ?_ (by simp)
      rcases isQuoted with isKind | isKind <;> rw [isKind] <;> decide
  | keyword isKind _ => exact endsAs_single (by rw [isKind]; decide) (by simp)
  | constant isKind _ => exact endsAs_single (by rw [isKind]; decide) (by simp)
  | @classConstant word colons first parts wild final _ _ _ isPart others =>
      refine EndsAs.append ?_ (by simp) [word, colons]
      intro last isLast
      rw [others.kind_getLast? isPart last isLast]
      cases final <;> simp [partKind]
  | @minus word _ _ _ _ _ inner induction =>
      obtain ⟨_, _, rfl, -⟩ := ConstExpr.starts_of_spelled inner
      exact induction.append (by simp) [word]
  | @bracketed word _ _ _ _ _ listed =>
      exact (listed.endsAs (by decide)).append listed.ne_nil [word]
  | @longArray word paren _ _ _ _ _ _ _ listed =>
      exact (listed.endsAs (by decide)).append listed.ne_nil [word, paren]
  | value _ induction => exact induction
  | @entry _ _ keyWords _ _ _ arrow _ _ _ right _ induction =>
      obtain ⟨_, _, rfl, -⟩ := ConstExpr.starts_of_spelled right
      rw [List.append_cons]
      exact induction.append (by simp) _

/-- Whether the next word can belong to the part of a type expression is told by how the
part ends.  Parameters and items are always followed by a separator. -/
def TypePhrase.TellsEnding : TypePhrase → Prop
  | .parameter _ | .item _ => False
  | _ => True

theorem TypePhrase.Spelled.endsAs {phrase : TypePhrase} {words : List Word} {ending : Ending}
    (isSpelled : phrase.Spelled words ending) (tells : phrase.TellsEnding) :
    EndsAs words ending := by
  induction isSpelled with
  | @single level _ _ _ _ induction => exact induction (by cases level <;> trivial)
  | @joined level _ _ _ _ _ _ _ _ each links ofFirst ofEach =>
      refine links.endsAs (ofFirst (by cases level <;> trivial)) fun slot isMember => ⟨?_, ?_⟩
      · obtain ⟨_, _, isCons, -⟩ := (each slot isMember).starts
        simp [isCons]
      · exact ofEach slot isMember (by cases level <;> trivial)
  | @nullable word _ _ _ _ _ inner induction =>
      obtain ⟨_, _, rfl, -⟩ := inner.starts
      exact (induction trivial).append (by simp) [word]
  | plain _ induction => exact induction trivial
  | suffixed _ suffixes induction => exact suffixes.endsAs (induction trivial)
  | @callable name paren colon _ list _ _ _ _ _ _ _ _ _ _ result _ induction =>
      obtain ⟨_, _, rfl, -⟩ := result.starts
      rw [List.append_cons]
      exact (induction trivial).append (by simp) _
  | parenthesized _ _ isClose => exact endsAs_of_last (by rw [isClose]; decide) (by simp)
  | this isThis => exact endsAs_single (by rw [isThis]; decide) (by simp)
  | name isName => exact endsAs_single (by rw [isName]; decide) (by simp)
  | @generic name angle _ _ _ _ _ _ _ _ listed =>
      exact (listed.endsAs (by decide)).append listed.ne_nil [name, angle]
  | @shape name curly _ _ _ _ _ _ _ _ _ _ items =>
      exact items.endsAs.append items.ne_nil [name, curly]
  | constant _ inner => exact inner.endsAs
  | @aboutParameter word _ _ _ _ rest induction =>
      obtain ⟨_, _, rfl, -⟩ := rest.starts
      exact (induction trivial).append (by simp) [word]
  | aboutType _ induction => exact induction trivial
  | unconditional _ induction => exact induction trivial
  | conditional _ condition _ _ induction =>
      obtain ⟨_, _, rfl, -⟩ := condition.starts
      exact (induction trivial).append (by simp) _
  | condition _ _ _ _ _ _ ofElse _ _ induction =>
      obtain ⟨_, _, rfl, -⟩ := ofElse.starts
      rw [List.append_cons]
      exact (induction trivial).append (by simp) _
  | parameter => exact tells.elim
  | value => exact tells.elim
  | entry => exact tells.elim

theorem Slot.forall_words {α : Type} {slots : List (Slot α)} {property : List Word → Prop}
    (each : ∀ slot ∈ slots, property slot.words) :
    ∀ part ∈ slots.map Slot.words, property part := by
  intro part isPart
  obtain ⟨slot, isMember, rfl⟩ := List.mem_map.mp isPart
  exact each slot isMember

/-- The words that spell a part of a constant expression are derivable. -/
theorem ConstPhrase.Spelled.derives {phrase : ConstPhrase} {words : List Word} {ending : Ending}
    (maximal : Bool) (isSpelled : phrase.Spelled words ending) :
    Derives maximal phrase.symbol words := by
  induction isSpelled with
  | integer isKind => exact .literal (by simp [isKind])
  | float isKind => exact .literal (by simp [isKind])
  | string isQuoted => exact .literal (by rcases isQuoted with isKind | isKind <;> simp [isKind])
  | keyword isKind _ => exact .literal (by simp [isKind])
  | constant isKind _ => exact .literal (by simp [isKind])
  | classConstant isName isColons isPart others =>
      exact .classConstant isName isColons isPart others
  | minus isMinus _ induction => exact .minus isMinus induction
  | bracketed isOpen _ listed induction =>
      exact .bracketed isOpen (Slot.forall_words induction) listed
  | longArray isName isArray isOpen _ listed induction =>
      exact .longArray isName isArray isOpen (Slot.forall_words induction) listed
  | value _ induction => exact .constantValue induction
  | entry _ isArrow _ left right => exact .constantEntry left isArrow right

theorem KeyWord.mem_kinds {key : ShapeKey} {word : Word} (isKey : KeyWord key word) :
    word.kind ∈ [TokenKind.identifier, .integer, .singleQuoted, .doubleQuoted] := by
  cases isKey with
  | name isName => simp [isName]
  | integer isInteger => simp [isInteger]
  | string isQuoted => rcases isQuoted with isKind | isKind <;> simp [isKind]

theorem EndsAs.unglued {words rest : List Word} {ending : Ending} (endsAs : EndsAs words ending)
    (apart : ending.Apart rest) (named : ∀ word ∈ rest.head?, word.kind = .identifier) :
    Unglued words rest := by
  intro last isLast isWild next isNext
  obtain rfl := (endsAs last isLast).mp isWild
  exact apart next isNext (named next isNext)

theorem Suffixes.derives {maximal : Bool} {type outer : TypeExpr} {ending final : Ending}
    {words brackets : List Word} (suffixes : Suffixes type ending outer brackets final)
    (inner : Derives maximal .atomic words) : Derives maximal .atomic (words ++ brackets) := by
  induction suffixes generalizing words with
  | done => rwa [List.append_nil]
  | more isOpen isClose _ induction =>
      rw [List.append_cons, List.append_cons, List.append_assoc words]
      exact induction (.suffixed inner isOpen isClose)

/-- A condition starts with the word `is`. -/
theorem TypePhrase.Spelled.head_condition {subject : ConditionalSubject} {type : TypeExpr}
    {words : List Word} {ending : Ending}
    (isSpelled : (TypePhrase.condition subject type).Spelled words ending) :
    ∀ word ∈ words.head?, word.kind = .identifier := by
  cases isSpelled with
  | condition isCondition => simpa using isCondition.1

/-- The words that spell a part of a type expression are derivable. -/
theorem TypePhrase.Spelled.derives {phrase : TypePhrase} {words : List Word} {ending : Ending}
    (isSpelled : phrase.Spelled words ending) : Derives true phrase.symbol words := by
  induction isSpelled with
  | @single level _ used _ _ induction =>
      rw [← List.append_nil used]
      cases level with
      | union => exact .type induction (by simp) .done
      | intersection => exact .intersection induction (by simp) .done
  | @joined level _ _ _ _ _ _ _ _ _ links ofFirst ofEach =>
      cases level with
      | union => exact .type ofFirst (Slot.forall_words ofEach) links
      | intersection => exact .intersection ofFirst (Slot.forall_words ofEach) links
  | nullable isMark _ induction => exact .nullable isMark induction
  | plain _ induction => exact .plain induction
  | suffixed _ suffixes induction => exact suffixes.derives (.unsuffixed induction)
  | callable isName isOpen _ listed isColon _ ofEach ofResult =>
      exact .unsuffixed
        (.callable isName isOpen (Slot.forall_words ofEach) listed isColon ofResult)
  | parenthesized isOpen _ isClose induction => exact .parenthesized isOpen induction isClose
  | this isThis => exact .this isThis
  | name isName => exact .name isName
  | generic isName isOpen some _ listed induction =>
      exact .generic isName isOpen (by simpa using some) (Slot.forall_words induction) listed
  | shape isName opens isOpen glued _ items induction =>
      exact .shape isName (by rw [opens]; rfl) isOpen glued (Slot.forall_words induction) items
  | constant start inner => exact .constant start (inner.derives true)
  | aboutParameter isVariable _ induction => exact .aboutParameter isVariable induction
  | aboutType _ induction => exact .aboutType induction
  | unconditional _ induction => exact .unconditional induction
  | conditional inner condition apart ofSubject ofCondition =>
      exact .conditional ofSubject ofCondition
        fun _ => (inner.endsAs trivial).unglued apart condition.head_condition
  | condition isCondition negation _ isQuestion _ isColon _ ofTarget ofIf ofElse =>
      exact .condition isCondition negation ofTarget isQuestion ofIf isColon ofElse
  | parameter _ referenceMark variadicMark nameMark optionalMark induction =>
      exact .parameter induction referenceMark variadicMark nameMark optionalMark
  | value _ induction => exact .value induction
  | entry isKey mark isColon _ induction => exact .entry isKey.mem_kinds mark isColon induction

/-- The words spell the part of an expression that a symbol stands for.  What a callable
type and its brackets spell is not told apart from other primary types. -/
def Spellable : Symbol → List Word → Prop
  | .type, words => ∃ type ending, (TypePhrase.chain .union type).Spelled words ending
  | .intersection, words =>
      ∃ type ending, (TypePhrase.chain .intersection type).Spelled words ending
  | .operand, words => ∃ type ending, (TypePhrase.operand type).Spelled words ending
  | .atomic, words => ∃ type ending, (TypePhrase.atomic type).Spelled words ending
  | .primary, words => ∃ type ending, (TypePhrase.atomic type).Spelled words ending
  | .enclosed, words => ∃ type ending, (TypePhrase.enclosed type).Spelled words ending
  | .subject, words => ∃ type ending, (TypePhrase.subject type).Spelled words ending
  | .condition, words =>
      ∀ subject, ∃ type ending, (TypePhrase.condition subject type).Spelled words ending
  | .parameter, words =>
      ∃ parameter ending, (TypePhrase.parameter parameter).Spelled words ending
  | .item, words => ∃ item ending, (TypePhrase.item item).Spelled words ending
  | .constant, words => ∃ expr ending, (ConstPhrase.expr expr).Spelled words ending
  | .constantItem, words => ∃ item ending, (ConstPhrase.item item).Spelled words ending

theorem exists_slots {α : Type} {spelled : α → List Word → Ending → Prop}
    {parts : List (List Word)}
    (each : ∀ part ∈ parts, ∃ value ending, spelled value part ending) :
    ∃ slots : List (Slot α), slots.map Slot.words = parts ∧
      ∀ slot ∈ slots, spelled slot.value slot.words slot.ending := by
  induction parts with
  | nil => exact ⟨[], rfl, by simp⟩
  | cons part parts induction =>
      obtain ⟨value, ending, isSpelled⟩ := each part List.mem_cons_self
      obtain ⟨slots, rfl, areSpelled⟩ :=
        induction fun later isLater => each later (List.mem_cons_of_mem _ isLater)
      exact ⟨⟨value, part, ending⟩ :: slots, rfl, by simpa using ⟨isSpelled, areSpelled⟩⟩

/-- A type that brackets can follow spells a type together with them. -/
def TypePhrase.SpellableWith (brackets : List Word) : TypePhrase → List Word → Prop
  | .operand _, words => Spellable .operand (words ++ brackets)
  | .atomic _, words => Spellable .atomic (words ++ brackets)
  | _, _ => True

/-- Brackets behind a callable type are brackets behind its return type. -/
theorem TypePhrase.Spelled.spellableWith {phrase : TypePhrase} {words : List Word}
    {ending : Ending} {bracket close : Word} (isSpelled : phrase.Spelled words ending)
    (isOpen : bracket.kind = .openSquare) (isClose : close.kind = .closeSquare) :
    phrase.SpellableWith [bracket, close] words := by
  induction isSpelled with
  | @nullable word _ _ _ attributes isMark _ induction =>
      obtain ⟨type, ending, inner⟩ := induction
      have outer : (TypePhrase.operand ⟨.nullable type, attributes⟩).Spelled _ ending :=
        .nullable isMark inner
      exact ⟨_, ending, outer⟩
  | plain _ induction =>
      obtain ⟨type, ending, inner⟩ := induction
      exact ⟨type, ending, .plain inner⟩
  | @suffixed _ _ used brackets _ _ inner suffixes =>
      have outer := TypePhrase.Spelled.suffixed inner (suffixes.concat .empty isOpen isClose)
      exact ⟨_, _, by rwa [List.append_assoc]⟩
  | @callable name _ _ slots _ _ _ _ nameAttributes attributes isName isParen each listed isColon
      _ _ induction =>
      obtain ⟨type, ending, result⟩ := induction
      have outer : (TypePhrase.atomic ⟨.callable ⟨.identifier name.text, nameAttributes⟩
          (slots.map Slot.value) type, attributes⟩).Spelled _ ending :=
        .callable isName isParen each listed isColon result
      exact ⟨_, ending, by rwa [List.append_assoc]⟩
  | _ => trivial

theorem spellable_primary (type : TypeExpr) {words : List Word} {ending : Ending}
    (inner : (TypePhrase.primary type).Spelled words ending) : Spellable .primary words :=
  ⟨type, ending, inner.atomic⟩

theorem exists_keyWord {word : Word}
    (isKey : word.kind ∈ [TokenKind.identifier, .integer, .singleQuoted, .doubleQuoted]) :
    ∃ key, KeyWord key word := by
  simp only [List.mem_cons, List.not_mem_nil, or_false] at isKey
  rcases isKey with isName | isInteger | isQuoted
  · exact ⟨_, .name isName⟩
  · exact ⟨.constant ⟨.literal .integer word.text, .empty⟩, .integer isInteger⟩
  · exact ⟨.constant ⟨.literal .string word.text, .empty⟩, .string isQuoted⟩

/-- A word that is a constant of its own spells one. -/
theorem spellable_literal {word : Word} (isLiteral : word.kind ∈
    [TokenKind.integer, .float, .singleQuoted, .doubleQuoted, .identifier]) :
    Spellable .constant [word] := by
  simp only [List.mem_cons, List.not_mem_nil, or_false] at isLiteral
  rcases isLiteral with isKind | isKind | isKind | isKind | isName
  · exact ⟨⟨.literal .integer word.text, .empty⟩, .closed, .integer isKind⟩
  · exact ⟨⟨.literal .float word.text, .empty⟩, .closed, .float isKind⟩
  · exact ⟨⟨.literal .string word.text, .empty⟩, .closed, .string (.inl isKind)⟩
  · exact ⟨⟨.literal .string word.text, .empty⟩, .closed, .string (.inr isKind)⟩
  · cases isKeyword : keyword? word.text with
    | none => exact ⟨⟨.fetch none word.text, .empty⟩, _, .constant isName isKeyword⟩
    | some kind => exact ⟨⟨.literal kind word.text, .empty⟩, _, .keyword isName isKeyword⟩

/-- Operands with an operator between them spell the operands joined. -/
theorem exists_chain {level : Level} {first words : List Word} {parts : List (List Word)}
    (ofFirst : ∃ type ending, (level.below type).Spelled first ending)
    (each : ∀ part ∈ parts, ∃ type ending, (level.below type).Spelled part ending)
    (links : Links level.operator parts words) :
    ∃ type ending, (TypePhrase.chain level type).Spelled (first ++ words) ending := by
  obtain ⟨type, ending, inner⟩ := ofFirst
  obtain ⟨slots, rfl, areSpelled⟩ := exists_slots each
  cases slots with
  | nil =>
      cases links
      exact ⟨type, ending, by rw [List.append_nil]; exact .single inner⟩
  | cons slot slots =>
      exact ⟨⟨level.combine (type :: (slot :: slots).map Slot.value), .empty⟩, _,
        .joined (by simp) inner areSpelled links⟩

theorem Unglued.apart {words rest : List Word} {ending : Ending} (unglued : Unglued words rest)
    (endsAs : EndsAs words ending) (some : words ≠ [])
    (named : ∀ word ∈ rest.head?, word.kind = .identifier) : ending.Apart rest := by
  cases ending with
  | part wild =>
      intro next isNext isPart
      cases wild with
      | false =>
          rw [named next isNext] at isPart
          exact absurd isPart (by decide)
      | true =>
          have isLast := List.getLast?_eq_some_getLast some
          exact unglued _ isLast ((endsAs _ isLast).mpr rfl) next isNext
  | _ => trivial

/-- Derivable words spell a part of an expression. -/
theorem Derives.spellable {symbol : Symbol} {words : List Word}
    (derivation : Derives true symbol words) : Spellable symbol words := by
  induction derivation with
  | type _ _ links ofFirst ofEach => exact exists_chain ofFirst ofEach links
  | intersection _ _ links ofFirst ofEach => exact exists_chain ofFirst ofEach links
  | nullable isMark _ induction =>
      obtain ⟨type, ending, inner⟩ := induction
      exact ⟨⟨.nullable type, .empty⟩, ending, .nullable isMark inner⟩
  | plain _ induction =>
      obtain ⟨type, ending, inner⟩ := induction
      exact ⟨type, ending, .plain inner⟩
  | unsuffixed _ induction => exact induction
  | suffixed _ isOpen isClose induction =>
      obtain ⟨type, ending, inner⟩ := induction
      exact inner.spellableWith isOpen isClose
  | parenthesized isOpen _ isClose induction =>
      obtain ⟨type, ending, inner⟩ := induction
      exact spellable_primary type (.parenthesized isOpen inner isClose)
  | this isThis => exact spellable_primary ⟨.this, .empty⟩ (.this isThis)
  | @name word isName => exact spellable_primary ⟨.identifier word.text, .empty⟩ (.name isName)
  | @generic name _ _ _ isName isOpen some _ listed induction =>
      obtain ⟨slots, rfl, areSpelled⟩ := exists_slots induction
      exact spellable_primary
        ⟨.generic ⟨.identifier name.text, .empty⟩ (slots.map Slot.value), .empty⟩
        (.generic isName isOpen (by simpa using some) areSpelled listed)
  | @callable name _ _ _ _ _ isName isOpen _ listed isColon _ ofEach ofResult =>
      obtain ⟨slots, rfl, areSpelled⟩ := exists_slots ofEach
      obtain ⟨type, ending, result⟩ := ofResult
      exact ⟨⟨.callable ⟨.identifier name.text, .empty⟩ (slots.map Slot.value) type, .empty⟩,
        ending, .callable isName isOpen areSpelled listed isColon result⟩
  | shape isName opens isOpen glued _ items induction =>
      obtain ⟨slots, rfl, areSpelled⟩ := exists_slots induction
      obtain ⟨kind, opens⟩ := Option.isSome_iff_exists.mp opens
      exact spellable_primary ⟨.shape kind (slots.map Slot.value) _, .empty⟩
        (.shape isName opens isOpen glued areSpelled items)
  | constant start _ induction =>
      obtain ⟨expr, ending, inner⟩ := induction
      exact spellable_primary ⟨.constant expr, .empty⟩ (.constant start inner)
  | @aboutParameter word _ isVariable _ induction =>
      obtain ⟨type, ending, rest⟩ := induction (.parameter (TypeExpr.variableName word.text))
      exact ⟨type, ending, .aboutParameter isVariable rest⟩
  | aboutType _ induction =>
      obtain ⟨type, ending, inner⟩ := induction
      exact ⟨type, ending, .aboutType inner⟩
  | unconditional _ induction =>
      obtain ⟨type, ending, inner⟩ := induction
      exact ⟨type, ending, .unconditional inner⟩
  | conditional _ _ unglued ofSubject ofCondition =>
      obtain ⟨subject, ending, inner⟩ := ofSubject
      obtain ⟨type, final, condition⟩ := ofCondition (.type subject)
      obtain ⟨_, _, isCons, -⟩ := inner.starts
      have apart := (unglued rfl).apart (inner.endsAs trivial) (by simp [isCons])
        condition.head_condition
      exact ⟨type, final, .conditional inner condition apart⟩
  | condition isCondition negation _ isQuestion _ isColon _ ofTarget ofIf ofElse =>
      intro subject
      obtain ⟨target, targetEnding, ofTarget⟩ := ofTarget
      obtain ⟨ifType, ifEnding, ofIf⟩ := ofIf
      obtain ⟨elseType, ending, ofElse⟩ := ofElse
      exact ⟨⟨.conditional subject _ target ifType elseType, .empty⟩, ending,
        .condition isCondition negation ofTarget isQuestion ofIf isColon ofElse⟩
  | parameter _ referenceMark variadicMark nameMark optionalMark induction =>
      obtain ⟨type, ending, inner⟩ := induction
      exact ⟨⟨type, _, _, _, _, .empty⟩, .closed,
        .parameter inner referenceMark variadicMark nameMark optionalMark⟩
  | value _ induction =>
      obtain ⟨type, ending, inner⟩ := induction
      exact ⟨⟨none, false, type, .empty⟩, .closed, .value inner⟩
  | entry isKey mark isColon _ induction =>
      obtain ⟨type, ending, inner⟩ := induction
      obtain ⟨key, isKey⟩ := exists_keyWord isKey
      exact ⟨⟨some key, _, type, .empty⟩, .closed, .entry isKey mark isColon inner⟩
  | literal isLiteral => exact spellable_literal isLiteral
  | @classConstant word _ first parts _ final isName isColons isPart others =>
      exact ⟨⟨.fetch (some word.text) (nameText (first :: parts)), .empty⟩, .part final,
        .classConstant isName isColons isPart others⟩
  | minus isMinus _ induction =>
      obtain ⟨expr, ending, inner⟩ := induction
      exact ⟨⟨.minus expr, .empty⟩, ending, .minus isMinus inner⟩
  | bracketed isOpen _ listed induction =>
      obtain ⟨slots, rfl, areSpelled⟩ := exists_slots induction
      exact ⟨⟨.array (slots.map Slot.value) false, .empty⟩, .closed,
        .bracketed isOpen areSpelled listed⟩
  | longArray isName isArray isOpen _ listed induction =>
      obtain ⟨slots, rfl, areSpelled⟩ := exists_slots induction
      exact ⟨⟨.array (slots.map Slot.value) true, .empty⟩, .closed,
        .longArray isName isArray isOpen areSpelled listed⟩
  | constantValue _ induction =>
      obtain ⟨expr, ending, inner⟩ := induction
      exact ⟨⟨none, expr, .empty⟩, ending, .value inner⟩
  | constantEntry _ isArrow _ left right =>
      obtain ⟨key, keyEnding, left⟩ := left
      obtain ⟨expr, ending, right⟩ := right
      exact ⟨⟨some key, expr, .empty⟩, ending, .entry left isArrow right⟩

end Docblock
