import Docblock.Proofs.Tandem
import Docblock.Proofs.TypeExpr.Printing
import Docblock.Proofs.TypeExpr.Soundness

/-!
# Type expressions that are read are well formed

The trees of type expressions admit more than the grammar gives: joined operands of which there is
only one, a generic type over another one, a literal with which no type starts.  None of these is
ever read.  What is read spells its tree, and in every rule of the spelling the parts are as they
should be, so the well-formedness of the whole tree follows by induction on its spelling, wherever
the reading has started.
-/

namespace Docblock

/-- A constant can stand in the place of a type: it is a number, a string, a class constant, or
has a minus sign. -/
def ConstForm.StandsForType : ConstForm → Prop
  | .literal kind _ => kind ∈ [.integer, .float, .string]
  | .array _ _ => False
  | .fetch className _ => className.isSome = true
  | .minus _ => True

/-- The type expression is nothing but an identifier. -/
def TypeExpr.IsIdentifier (type : TypeExpr) : Prop := ∃ name, type.form = .identifier name

/-- Only an item with a key is marked as optional, and a constant key is an integer or a string. -/
structure ShapeItem.WellFormed (item : ShapeItem) : Prop where
  optional : item.isOptional = true → item.key.isSome = true
  constant : ∀ expr, item.key = some (.constant expr) →
    ∃ kind lexeme, expr.form = .literal kind lexeme ∧ kind ∈ [.integer, .string]

/-- The form has as many parts as it needs, and of the right kinds. -/
def TypeForm.WellFormed : TypeForm → Prop
  | .generic base arguments => base.IsIdentifier ∧ 1 ≤ arguments.length
  | .union operands => 2 ≤ operands.length
  | .intersection operands => 2 ≤ operands.length
  | .callable name _ _ => name.IsIdentifier
  | .shape _ items _ => ∀ item ∈ items, item.WellFormed
  | .constant expr => expr.form.StandsForType
  | .invalid _ _ => False
  | _ => True

/-- The forms of a type expression and of all its parts are well formed. -/
def TypeExpr.WellFormed (type : TypeExpr) : Prop := type.Throughout TypeForm.WellFormed

/-- The tree of a phrase is well formed; that of a condition is if its subject is. -/
def TypePhrase.WellFormed : TypePhrase → Prop
  | .chain _ type => type.WellFormed
  | .operand type => type.WellFormed
  | .atomic type => type.WellFormed
  | .primary type => type.WellFormed
  | .enclosed type => type.WellFormed
  | .subject type => type.WellFormed
  | .condition about type => (∀ part ∈ about.parts, part.WellFormed) → type.WellFormed
  | .parameter given => given.type.WellFormed
  | .item given => given.WellFormed ∧ given.value.WellFormed

/-- What starts like a constant in the place of a type can stand there. -/
theorem StartsConstant.standsForType {words : List Word} (start : StartsConstant words)
    {expr : ConstExpr} {ending : Ending}
    (isSpelled : (ConstPhrase.expr expr).Spelled words ending) : expr.form.StandsForType := by
  cases start with
  | literal isLiteral =>
      cases isSpelled with
      | integer => simp [ConstForm.StandsForType]
      | float => simp [ConstForm.StandsForType]
      | string => simp [ConstForm.StandsForType]
      | keyword isName => simp [isName] at isLiteral
      | constant isName => simp [isName] at isLiteral
      | classConstant => rfl
      | minus => trivial
      | bracketed isOpen => simp [isOpen] at isLiteral
      | longArray isName => simp [isName] at isLiteral
  | named isName isColons =>
      cases isSpelled with
      | classConstant => rfl
      | minus => trivial
      | bracketed isOpen => simp [isOpen] at isName
      | longArray _ _ isOpen => simp [isOpen] at isColons

theorem ShapeItem.wellFormed_unkeyed (value : TypeExpr) (attributes : Attributes) :
    ShapeItem.WellFormed ⟨none, false, value, attributes⟩ where
  optional isOptional := absurd isOptional Bool.false_ne_true
  constant _ isConstant := by cases isConstant

theorem KeyWord.wellFormed {key : ShapeKey} {word : Word} (isKey : KeyWord key word)
    (isOptional : Bool) (value : TypeExpr) (attributes : Attributes) :
    ShapeItem.WellFormed ⟨some key, isOptional, value, attributes⟩ where
  optional _ := rfl
  constant expr isConstant := by
    cases isKey with
    | name => cases isConstant
    | integer =>
        obtain rfl := ShapeKey.constant.inj (Option.some.inj isConstant)
        exact ⟨.integer, word.text, rfl, by simp⟩
    | string =>
        obtain rfl := ShapeKey.constant.inj (Option.some.inj isConstant)
        exact ⟨.string, word.text, rfl, by simp⟩

theorem Suffixes.wellFormed {type outer : TypeExpr} {ending final : Ending} {words : List Word}
    (suffixes : Suffixes type ending outer words final) (inner : type.WellFormed) :
    outer.WellFormed := by
  induction suffixes with
  | done => exact inner
  | more _ _ _ induction =>
      exact induction (TypeExpr.throughout_of_parts trivial (List.forall_mem_singleton.mpr inner))

theorem Level.wellFormed_below (level : Level) {type : TypeExpr} :
    (level.below type).WellFormed ↔ type.WellFormed := by
  cases level <;> exact Iff.rfl

theorem Level.wellFormed_combine (level : Level) {operands : List TypeExpr}
    (attributes : Attributes) (several : 2 ≤ operands.length)
    (each : ∀ operand ∈ operands, operand.WellFormed) :
    TypeExpr.WellFormed ⟨level.combine operands, attributes⟩ := by
  cases level <;> exact TypeExpr.throughout_of_parts several each

/-- What is spelled is well formed. -/
theorem TypePhrase.Spelled.wellFormed {phrase : TypePhrase} {words : List Word} {ending : Ending}
    (isSpelled : phrase.Spelled words ending) : phrase.WellFormed := by
  induction isSpelled with
  | @single level _ _ _ _ induction => cases level <;> exact induction
  | @joined level first slots _ _ _ _ several _ _ _ ofFirst ofSlots =>
      refine level.wellFormed_combine _ ?_ (List.forall_mem_cons.mpr ⟨?_, ?_⟩)
      · rw [List.length_cons, List.length_map]
        exact Nat.succ_le_succ (List.length_pos_iff.mpr several)
      · exact level.wellFormed_below.mp ofFirst
      · exact List.forall_mem_map.mpr fun slot isSlot =>
          level.wellFormed_below.mp (ofSlots slot isSlot)
  | nullable _ _ induction =>
      exact TypeExpr.throughout_of_parts trivial (List.forall_mem_singleton.mpr induction)
  | plain _ induction => exact induction
  | suffixed _ suffixes induction => exact suffixes.wellFormed induction
  | callable _ _ _ _ _ _ ofParameters ofResult =>
      refine TypeExpr.throughout_of_parts ⟨_, rfl⟩ (List.forall_mem_cons.mpr ⟨?_, ?_⟩)
      · exact TypeExpr.throughout_leaf trivial rfl
      · exact List.forall_mem_cons.mpr
          ⟨ofResult, List.forall_mem_map.mpr (List.forall_mem_map.mpr ofParameters)⟩
  | parenthesized _ _ _ induction => exact induction
  | this => exact TypeExpr.throughout_leaf trivial rfl
  | name => exact TypeExpr.throughout_leaf trivial rfl
  | @generic _ _ slots _ _ _ _ _ some _ _ induction =>
      refine TypeExpr.throughout_of_parts ⟨⟨_, rfl⟩, ?_⟩ (List.forall_mem_cons.mpr ⟨?_, ?_⟩)
      · rw [List.length_map]
        exact List.length_pos_iff.mpr some
      · exact TypeExpr.throughout_leaf trivial rfl
      · exact List.forall_mem_map.mpr induction
  | shape _ _ _ _ _ _ induction =>
      refine TypeExpr.throughout_of_parts ?_ ?_
      · exact List.forall_mem_map.mpr fun slot isSlot => (induction slot isSlot).1
      · exact List.forall_mem_map.mpr
          (List.forall_mem_map.mpr fun slot isSlot => (induction slot isSlot).2)
  | constant start inner => exact TypeExpr.throughout_leaf (start.standsForType inner) rfl
  | aboutParameter _ _ induction => exact induction (by simp [ConditionalSubject.parts])
  | aboutType _ induction => exact induction
  | unconditional _ induction => exact induction
  | conditional _ _ _ ofSubject ofCondition =>
      exact ofCondition (List.forall_mem_singleton.mpr ofSubject)
  | condition _ _ _ _ _ _ _ ofTarget ofIf ofElse =>
      intro ofSubject
      refine TypeExpr.throughout_of_parts trivial (List.forall_mem_cons.mpr ⟨ofTarget, ?_⟩)
      exact List.forall_mem_cons.mpr ⟨ofIf, List.forall_mem_cons.mpr ⟨ofElse, ofSubject⟩⟩
  | parameter _ _ _ _ _ induction => exact induction
  | value _ induction => exact ⟨ShapeItem.wellFormed_unkeyed _ _, induction⟩
  | entry isKey _ _ _ induction => exact ⟨isKey.wellFormed _ _ _, induction⟩

/-- From every token of a list on, the words lead to the end of the input. -/
theorem Cursor.sealed_words_standing {tokens : List Token} {place : Nat}
    (inside : place < (TokenList.sealed tokens).length) (saved : List Nat) :
    Sealed ((ofTokens tokens).standing place saved).words := by
  have isRest : ((ofTokens tokens).standing place saved).tokensFrom place =
      (TokenList.sealed tokens).drop place := tokensFrom_ofTokens tokens place
  have last := TokenList.getLast?_sealed tokens
  rw [Sealed, words, getLast?_wordsOf]
  show (((ofTokens tokens).standing place saved).tokensFrom place).getLast?.map _ = _
  rw [isRest, List.getLast?_drop, if_neg (Nat.not_le.mpr inside), last]

/-- Whatever is read as a type expression, from any token of any list on, is well formed. -/
theorem wellFormed_of_read {tracking : Tracking} {tokens : List Token} {place : Nat}
    {saved : List Nat} {type : TypeExpr} {next : Cursor}
    (inside : place < (TokenList.sealed tokens).length)
    (read : TypeExpr.parser tracking ((Cursor.ofTokens tokens).standing place saved) =
      .ok type next) : type.WellFormed := by
  have reply := TypeExpr.parser_sound (Cursor.sealed_words_standing inside saved) tracking _ rfl
  rw [read] at reply
  obtain ⟨used, ending, -, isSpelled, -⟩ := reply
  exact isSpelled.wellFormed

/-- A shape with an optional constant key and an item that turns out to have no key, and behind it
a name with a parenthesis that opens no parameters; the reading starts in the middle of a text. -/
theorem wellFormed_of_read_nested :
    let tokens := tokenize
      "$x is array\x7b0?: A::B|-1, k: C<int>, (T is not U ? V&W : X)[]\x7d|Y (see above)"
    let cursor := (Cursor.ofTokens tokens).standing 4 []
    4 < (TokenList.sealed tokens).length ∧
      ∃ type next, TypeExpr.parser .full cursor = .ok type next ∧ type.WellFormed ∧
        type.print = "array\x7b0?: A::B|-1, k: C<int>, (T is not U ? V&W : X)[]\x7d|Y" := by
  intro tokens cursor
  have inside : 4 < (TokenList.sealed tokens).length := by decide +kernel
  have printed : (TypeExpr.parser .full cursor).result.toOption.map TypeExpr.print =
      some "array\x7b0?: A::B|-1, k: C<int>, (T is not U ? V&W : X)[]\x7d|Y" := by
    decide +kernel
  cases read : TypeExpr.parser .full cursor with
  | ok type next =>
      rw [read] at printed
      exact ⟨inside, type, next, rfl, wellFormed_of_read inside read, Option.some.inj printed⟩
  | failed failure next =>
      rw [read] at printed
      cases printed

end Docblock
