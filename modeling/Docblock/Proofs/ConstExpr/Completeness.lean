import Docblock.Proofs.ConstExpr.Spelling

/-!
# Spellings of constant expressions are read

A spelling of a constant expression is read, and what is read from it is that
expression up to attributes, provided that the words behind it do not continue it.
-/

namespace Docblock

open Docblock.Parser

theorem ConstItem.sameAll_of_forall₂ {items others : List ConstItem}
    (related : List.Forall₂ (fun item other => item.same other = true) items others) :
    ConstItem.sameAll items others = true := by
  induction related with
  | nil => rw [ConstItem.sameAll]
  | cons first _ induction => rw [ConstItem.sameAll, first, induction, Bool.and_self]

namespace ConstExpr

theorem same_mk (expr : ConstExpr) (form : ConstForm) (attributes : Attributes) :
    expr.same ⟨form, attributes⟩ = expr.form.same form := by
  obtain ⟨form, attributes⟩ := expr
  rw [ConstExpr.same]

variable {rest : List Word}

theorem readNameParts_returns {fuel : Nat} {wild final : Bool} {used : List Word}
    (parts : NameTail wild used final) (ends : Sealed rest)
    (apart : (Ending.part final).Apart rest) (enough : (used ++ rest).length ≤ fuel) :
    (readNameParts fuel (partKind (!wild))).Returns (used ++ rest) (nameText used) rest := by
  induction parts generalizing fuel with
  | @nil wild =>
      obtain ⟨word, others, rfl⟩ := ends.exists_cons
      cases fuel with
      | zero => simp at enough
      | succ fuel =>
          refine (nextNamePart_missing (apart word rfl)).bind ?_
          exact .pure ⟨rfl, rfl⟩
  | @cons wild final word used isPart glued others induction =>
      cases fuel with
      | zero => simp at enough
      | succ fuel =>
          refine (nextNamePart_found isPart glued (by simp [ends.ne_nil])).bind ?_
          rw [partKind_turn]
          refine (induction apart (by simpa using enough)).bind ?_
          exact .pure ⟨rfl, rfl⟩

theorem readConstantName_returns {wild final : Bool} {first : Word} {used : List Word}
    (isPart : first.kind = partKind wild) (parts : NameTail wild used final)
    (ends : Sealed rest) (apart : (Ending.part final).Apart rest) :
    readConstantName.Returns (first :: used ++ rest) (nameText (first :: used)) rest := by
  have more : used ++ rest ≠ [] := by simp [ends.ne_nil]
  refine Meets.bind .remaining ?_
  rintro bound _ ⟨enough, rfl⟩
  have enough : (used ++ rest).length ≤ bound := by
    simp only [List.cons_append, List.length_cons] at enough
    omega
  cases wild with
  | false =>
      have isName : first.kind = .identifier := isPart
      refine (Returns.isAt _).bind ?_
      rw [if_pos (decide_eq_true isName)]
      refine (Returns.consume isName more).bind ?_
      refine (readNameParts_returns parts ends apart enough).bind ?_
      refine .pure ⟨?_, rfl⟩
      rw [nameText, Word.partText, if_pos isName]
  | true =>
      have isWild : first.kind = .wildcard := isPart
      refine (Returns.isAt _).bind ?_
      rw [if_neg (by rw [isWild]; decide)]
      refine (Returns.accept_yes isWild more).bind ?_
      rw [if_pos rfl]
      refine (readNameParts_returns parts ends apart enough).bind ?_
      refine .pure ⟨?_, rfl⟩
      rw [nameText, Word.partText, if_neg (by rw [isWild]; decide)]

/-- A spelling of an expression is read as that expression, up to attributes. -/
def ReadsForm (expr : ConstExpr) (used : List Word) (ending : Ending) : Prop :=
  ∀ depth rest, Sealed rest → ending.Allows rest → used.length ≤ depth →
    (readForm (parserWithin depth)).Meets (used ++ rest)
      (fun form after => after = rest ∧ expr.form.same form = true) False

/-- A spelling of an entry is read as that entry, up to attributes. -/
def ReadsItem (item : ConstItem) (used : List Word) : Prop :=
  ∀ depth rest, Sealed rest → Settled rest →
    (∀ word ∈ rest.head?, word.kind ≠ .doubleArrow) → used.length ≤ depth →
    (readItem (parserWithin (depth + 1))).Meets (used ++ rest)
      (fun found after => after = rest ∧ item.same found = true) False

theorem ReadsForm.parserWithin {expr : ConstExpr} {used : List Word} {ending : Ending}
    (reads : ReadsForm expr used ending) {depth : Nat} (ends : Sealed rest)
    (allows : ending.Allows rest) (enough : used.length ≤ depth) :
    (parserWithin (depth + 1)).Meets (used ++ rest)
      (fun found after => after = rest ∧ expr.same found = true) False := by
  refine .bind .mark ?_
  rintro start _ rfl
  refine .bind (reads depth rest ends allows enough) ?_
  rintro form _ ⟨rfl, same⟩
  refine .bind (.positionsSince start) ?_
  rintro attributes _ rfl
  exact .pure ⟨rfl, by rw [same_mk, same]⟩

theorem readsItem_value {expr : ConstExpr} {used : List Word} {ending : Ending}
    {attributes : Attributes} (reads : ReadsForm expr used ending) :
    ReadsItem ⟨none, expr, attributes⟩ used := by
  intro depth rest ends settled noArrow enough
  refine .bind .mark ?_
  rintro start _ rfl
  refine .bind (reads.parserWithin ends (ending.allows_of_settled settled) enough) ?_
  rintro found _ ⟨rfl, same⟩
  obtain ⟨word, others, rfl⟩ := ends.exists_cons
  refine (Returns.accept_no (noArrow word rfl)).bind ?_
  rw [if_neg (by decide)]
  refine .bind (.positionsSince start) ?_
  rintro attributes _ rfl
  exact .pure ⟨rfl, by rw [ConstItem.same, same]⟩

theorem readsItem_entry {key expr : ConstExpr} {keyWords used : List Word}
    {keyEnding ending : Ending} {arrow : Word} {attributes : Attributes}
    (readsKey : ReadsForm key keyWords keyEnding) (isArrow : arrow.kind = .doubleArrow)
    (reads : ReadsForm expr used ending) :
    ReadsItem ⟨some key, expr, attributes⟩ (keyWords ++ arrow :: used) := by
  intro depth rest ends settled noArrow enough
  simp only [List.length_append, List.length_cons] at enough
  rw [List.append_assoc, List.cons_append]
  refine .bind .mark ?_
  rintro start _ rfl
  refine .bind (readsKey.parserWithin ((ends.append used).cons arrow)
    (keyEnding.allows_of_settled (.cons (by rw [isArrow]; rfl))) (by omega)) ?_
  rintro foundKey _ ⟨rfl, sameKey⟩
  refine (Returns.accept_yes isArrow (ends.append used).ne_nil).bind ?_
  rw [if_pos rfl]
  refine .bind (reads.parserWithin ends (ending.allows_of_settled settled) (by omega)) ?_
  rintro found _ ⟨rfl, same⟩
  refine .bind (.positionsSince start) ?_
  rintro attributes _ rfl
  refine .pure ⟨rfl, ?_⟩
  rw [ConstItem.same, sameKey, same, Bool.and_self]

section NextItem

variable {nested : Parser ConstExpr} {close : TokenKind} {word comma : Word}

theorem nextItem_reads {item : ConstItem} {words : List Word} (isComma : comma.kind = .comma)
    (noClose : (accept close).Returns (words ++ rest) false (words ++ rest))
    (reads : (readItem nested).Meets (words ++ rest)
      (fun found after => after = rest ∧ item.same found = true) False)
    (ends : Sealed rest) :
    (nextItem nested close).Meets (comma :: (words ++ rest))
      (fun found after => after = rest ∧ ∃ other, found = some other ∧ item.same other = true)
      False := by
  refine (Returns.accept_yes isComma (ends.append _).ne_nil).bind ?_
  rw [if_pos rfl]
  refine noClose.bind ?_
  rw [if_neg (by decide)]
  refine .bind reads ?_
  rintro other _ ⟨rfl, same⟩
  exact .pure ⟨rfl, other, rfl, same⟩

theorem nextItem_close (isClose : word.kind = close) (notComma : close ≠ .comma)
    (ends : Sealed rest) : (nextItem nested close).Returns (word :: rest) none rest := by
  refine (Returns.accept_no (by rw [isClose]; exact notComma)).bind ?_
  rw [if_neg (by decide)]
  refine (Returns.consume isClose ends.ne_nil).bind ?_
  exact .pure ⟨rfl, rfl⟩

theorem nextItem_trailingComma (isComma : comma.kind = .comma) (isClose : word.kind = close)
    (ends : Sealed rest) : (nextItem nested close).Returns (comma :: word :: rest) none rest := by
  refine (Returns.accept_yes isComma (ends.cons word).ne_nil).bind ?_
  rw [if_pos rfl]
  refine (Returns.accept_yes isClose ends.ne_nil).bind ?_
  exact .pure ⟨rfl, rfl⟩

end NextItem

/-- A list of entries is read as these entries, if each of them is. -/
theorem readItems_reads {depth : Nat} {close : TokenKind} {slots : List (Slot ConstItem)}
    {used : List Word} (isBracket : close = .closeSquare ∨ close = .closeParen)
    (each : ∀ slot ∈ slots, (ConstPhrase.item slot.value).Spelled slot.words slot.ending ∧
      ReadsItem slot.value slot.words)
    (listed : Listed close (slots.map Slot.words) used) (ends : Sealed rest)
    (enough : used.length ≤ depth) :
    (readItems (parserWithin (depth + 1)) close).Meets (used ++ rest)
      (fun items after => after = rest ∧
        ConstItem.sameAll (slots.map Slot.value) items = true) False := by
  have notStart : starts close = false := by rcases isBracket with rfl | rfl <;> rfl
  have notComma : close ≠ .comma := by rcases isBracket with rfl | rfl <;> decide
  -- An item is read in front of a comma or of the bracket.
  have readItem {slot : Slot ConstItem} (isMember : slot ∈ slots) {tail : List Word}
      (tailEnds : Sealed tail) (endsItem : EndsItem close tail) :
      (readItem (parserWithin (depth + 1))).Meets (slot.words ++ tail)
        (fun found after => after = tail ∧ slot.value.same found = true) False := by
    have shorter := listed.length_lt (List.mem_map_of_mem isMember)
    obtain ⟨word, more, rfl, isComma | isClose⟩ := endsItem
    · exact (each slot isMember).2 depth _ tailEnds (.cons (by rw [isComma]; rfl))
        (by simp [isComma]) (by omega)
    · refine (each slot isMember).2 depth _ tailEnds (.cons ?_) ?_ (by omega)
      · rw [isClose]
        rcases isBracket with rfl | rfl <;> rfl
      · rcases isBracket with rfl | rfl <;> simp [isClose]
  -- The bracket is not mistaken for an item.
  have noClose {slot : Slot ConstItem} (isMember : slot ∈ slots) (tail : List Word) :
      (accept close).Returns (slot.words ++ tail) false (slot.words ++ tail) := by
    obtain ⟨word, more, eq, isStart⟩ := starts_of_spelled (each slot isMember).1
    rw [eq]
    refine Returns.accept_no ?_
    rintro rfl
    rw [notStart] at isStart
    exact absurd isStart (by decide)
  cases slots with
  | nil =>
      cases listed with
      | none isClose =>
          refine (Returns.accept_yes isClose ends.ne_nil).bind ?_
          exact .pure ⟨rfl, by rw [List.map_nil, ConstItem.sameAll]⟩
  | cons first slots =>
      cases listed with
      | @some _ _ body word further isClose =>
          rw [List.append_assoc, List.append_assoc, List.singleton_append]
          have closeEnds : Sealed (word :: rest) := ends.cons word
          refine (noClose List.mem_cons_self _).bind ?_
          rw [if_neg (by decide)]
          refine .bind (readItem List.mem_cons_self (closeEnds.append body)
            (further.endsItem isClose)) ?_
          rintro found _ ⟨rfl, same⟩
          refine .bind (further.many_meets (fun item other => item.same other = true) rest
            isClose closeEnds (Nat.le_refl _) ?_ (nextItem_close isClose notComma ends) ?_) ?_
          · intro comma slot tail isComma isMember tailEnds endsItem _
            have isLater : slot ∈ first :: slots := List.mem_cons_of_mem _ isMember
            exact nextItem_reads isComma (noClose isLater tail)
              (readItem isLater tailEnds endsItem) tailEnds
          · intro comma isComma
            exact nextItem_trailingComma isComma isClose ends
          · rintro others _ ⟨rfl, related⟩
            exact .pure ⟨rfl, ConstItem.sameAll_of_forall₂ (.cons same related)⟩

/-- The first word decides which rule is used. -/
theorem readForm_dispatch {nested : Parser ConstExpr} {word : Word} {words : List Word}
    {good : ConstForm → List Word → Prop} {bad : Prop}
    (rule : (readFormAt nested word.kind).Meets (word :: words) good bad) :
    (readForm nested).Meets (word :: words) good bad := by
  refine .bind .current ?_
  rintro token _ ⟨sameKind, -, rfl⟩
  rw [sameKind]
  exact rule

theorem literal_reads {kind : TokenKind} {literalKind : LiteralKind} {word : Word}
    (isKind : word.kind = kind) (ends : Sealed rest) :
    (consume kind >>= fun lexeme => pure (ConstForm.literal literalKind lexeme)).Meets
      (word :: rest) (fun form after => after = rest ∧
        (ConstForm.literal literalKind word.text).same form = true) False := by
  refine (Returns.consume isKind ends.ne_nil).bind ?_
  exact .pure ⟨rfl, by simp [ConstForm.same]⟩

/-- A word that is a constant of its own, behind which nothing continues it. -/
theorem readNamed_word {nested : Parser ConstExpr} {word : Word} {expr : ConstForm}
    (isName : word.kind = .identifier) (ends : Sealed rest)
    (allows : (Ending.constant word.text).Allows rest)
    (isForm : expr = match keyword? word.text with
      | some kind => .literal kind word.text
      | none => .fetch none word.text) :
    (readNamed nested).Meets (word :: rest)
      (fun form after => after = rest ∧ expr.same form = true) False := by
  obtain ⟨next, others, rfl⟩ := ends.exists_cons
  obtain ⟨notColons, notArray⟩ := allows next rfl
  have literal (kind : LiteralKind) :
      (ConstForm.literal kind word.text).same (.literal kind word.text) = true := by
    simp [ConstForm.same]
  have constant : (ConstForm.fetch none word.text).same (.fetch none word.text) = true := by
    simp [ConstForm.same]
  refine (Returns.consume isName ends.ne_nil).bind ?_
  refine (Returns.accept_no notColons).bind ?_
  simp only [Bool.false_eq_true, if_false]
  rw [keyword?] at isForm
  split
  · next isTrue =>
      rw [if_pos isTrue] at isForm
      exact .pure ⟨rfl, by rw [isForm, literal]⟩
  next notTrue =>
  rw [if_neg notTrue] at isForm
  split
  · next isFalse =>
      rw [if_pos isFalse] at isForm
      exact .pure ⟨rfl, by rw [isForm, literal]⟩
  next notFalse =>
  rw [if_neg notFalse] at isForm
  split
  · next isNull =>
      rw [if_pos isNull] at isForm
      exact .pure ⟨rfl, by rw [isForm, literal]⟩
  next notNull =>
  rw [if_neg notNull] at isForm
  split
  · next isArray =>
      refine (Returns.accept_no (notArray isArray)).bind ?_
      exact .pure ⟨rfl, by rw [isForm, constant]⟩
  · exact .pure ⟨rfl, by rw [isForm, constant]⟩

theorem readNamed_classConstant {nested : Parser ConstExpr} {word colons first : Word}
    {parts : List Word} {wild final : Bool} (isName : word.kind = .identifier)
    (isColons : colons.kind = .doubleColon) (isPart : first.kind = partKind wild)
    (others : NameTail wild parts final) (ends : Sealed rest)
    (apart : (Ending.part final).Apart rest) :
    (readNamed nested).Meets (word :: colons :: (first :: parts ++ rest))
      (fun form after => after = rest ∧ (ConstForm.fetch (some word.text)
        (nameText (first :: parts))).same form = true) False := by
  refine (Returns.consume isName (by simp)).bind ?_
  refine (Returns.accept_yes isColons (by simp)).bind ?_
  rw [if_pos rfl]
  refine (readConstantName_returns isPart others ends apart).bind ?_
  exact .pure ⟨rfl, by simp [ConstForm.same]⟩

theorem readNamed_longArray {nested : Parser ConstExpr} {word paren : Word}
    {items : List ConstItem} {used : List Word} (isName : word.kind = .identifier)
    (isArray : Text.lowercase word.text = "array") (isOpen : paren.kind = .openParen)
    (ends : Sealed rest)
    (reads : (readItems nested .closeParen).Meets (used ++ rest)
      (fun found after => after = rest ∧ ConstItem.sameAll items found = true) False) :
    (readNamed nested).Meets (word :: paren :: (used ++ rest))
      (fun form after => after = rest ∧
        (ConstForm.array items true).same form = true) False := by
  refine (Returns.consume isName (by simp)).bind ?_
  refine (Returns.accept_no (by rw [isOpen]; decide)).bind ?_
  simp only [Bool.false_eq_true, if_false, isArray, String.reduceEq, if_true]
  refine (Returns.accept_yes isOpen (ends.append used).ne_nil).bind ?_
  rw [if_pos rfl]
  refine .bind reads ?_
  rintro found _ ⟨rfl, same⟩
  exact .pure ⟨rfl, by rw [ConstForm.same, same]; rfl⟩

/-- What a spelling of each part of a constant expression is read as. -/
def Reads : ConstPhrase → List Word → Ending → Prop
  | .expr expr, used, ending => ReadsForm expr used ending
  | .item item, used, _ => ReadsItem item used

/-- Spellings are read: one case for each rule of spelling. -/
theorem reads_of_spelled {phrase : ConstPhrase} {used : List Word} {ending : Ending}
    (isSpelled : phrase.Spelled used ending) : Reads phrase used ending := by
  induction isSpelled with
  | integer isKind =>
      intro depth rest ends _ _
      exact readForm_dispatch (by rw [isKind]; exact literal_reads isKind ends)
  | float isKind =>
      intro depth rest ends _ _
      exact readForm_dispatch (by rw [isKind]; exact literal_reads isKind ends)
  | string isQuoted =>
      intro depth rest ends _ _
      rcases isQuoted with isKind | isKind
      · exact readForm_dispatch (by rw [isKind]; exact literal_reads isKind ends)
      · exact readForm_dispatch (by rw [isKind]; exact literal_reads isKind ends)
  | keyword isName isKeyword =>
      intro depth rest ends allows _
      refine readForm_dispatch ?_
      rw [isName]
      exact readNamed_word isName ends allows (by rw [isKeyword])
  | constant isName noKeyword =>
      intro depth rest ends allows _
      refine readForm_dispatch ?_
      rw [isName]
      exact readNamed_word isName ends allows (by rw [noKeyword])
  | classConstant isName isColons isPart others =>
      intro depth rest ends allows _
      refine readForm_dispatch ?_
      rw [isName]
      exact readNamed_classConstant isName isColons isPart others ends allows
  | minus isMinus inner induction =>
      intro depth rest ends allows enough
      obtain ⟨depth, rfl⟩ : ∃ less, depth = less + 1 :=
        Nat.exists_eq_add_of_le' (Nat.le_trans (by simp) enough)
      refine readForm_dispatch ?_
      rw [isMinus]
      refine (Returns.advance (ends.append _).ne_nil).bind ?_
      refine .bind (ReadsForm.parserWithin induction ends allows (by simpa using enough)) ?_
      rintro found _ ⟨rfl, same⟩
      refine .pure ⟨rfl, ?_⟩
      show (ConstForm.minus _).same (.minus found) = true
      rw [ConstForm.same, same]
  | bracketed isOpen each listed induction =>
      intro depth rest ends allows enough
      obtain ⟨depth, rfl⟩ : ∃ less, depth = less + 1 :=
        Nat.exists_eq_add_of_le' (Nat.le_trans (by simp) enough)
      refine readForm_dispatch ?_
      rw [isOpen]
      refine (Returns.advance (ends.append _).ne_nil).bind ?_
      refine .bind (readItems_reads (.inl rfl)
        (fun slot isMember => ⟨each slot isMember, induction slot isMember⟩) listed ends
        (by simpa using enough)) ?_
      rintro found _ ⟨rfl, same⟩
      refine .pure ⟨rfl, ?_⟩
      show (ConstForm.array _ false).same (.array found false) = true
      rw [ConstForm.same, same]
      rfl
  | longArray isName isArray isOpen each listed induction =>
      intro depth rest ends allows enough
      obtain ⟨depth, rfl⟩ : ∃ less, depth = less + 1 :=
        Nat.exists_eq_add_of_le' (Nat.le_trans (by simp) enough)
      refine readForm_dispatch ?_
      rw [isName]
      refine readNamed_longArray isName isArray isOpen ends (readItems_reads (.inr rfl)
        (fun slot isMember => ⟨each slot isMember, induction slot isMember⟩) listed ends ?_)
      simp only [List.length_cons] at enough
      omega
  | value inner induction => exact readsItem_value induction
  | entry left isArrow right inductionLeft inductionRight =>
      exact readsItem_entry inductionLeft isArrow inductionRight

/-- A spelling of a constant expression is read as that expression, up to attributes. -/
theorem parser_reads {expr : ConstExpr} {used : List Word} {ending : Ending}
    (isSpelled : (ConstPhrase.expr expr).Spelled used ending) (ends : Sealed rest)
    (allows : ending.Allows rest) :
    parser.Meets (used ++ rest)
      (fun found after => after = rest ∧ expr.same found = true) False := by
  refine .bind .remaining ?_
  rintro bound _ ⟨enough, rfl⟩
  have reads : ReadsForm expr used ending := reads_of_spelled isSpelled
  exact reads.parserWithin ends allows (by simp only [List.length_append] at enough; omega)

end ConstExpr

end Docblock
