import Docblock.Proofs.Reading
import Docblock.TypeExpr.Grammar
import Mathlib.Data.List.TakeWhile

/-!
# Spellings

A spelling is a list of words that stands for a tree.  This file has what the
spellings of constant expressions and of type expressions have in common: how a
spelling can end, lists of spellings with separators between them, and how many
words a parser took when line breaks do not count.
-/

namespace Docblock

open Docblock.Parser

/-- How a spelling ends, as far as the next word could continue it. -/
inductive Ending
  /-- With a word that nothing continues. -/
  | closed
  /-- With the name of a class constant; `wild` tells whether its last part is a
  wildcard. -/
  | part (wild : Bool)
  /-- With a word that is a constant of its own. -/
  | constant (text : String)
  /-- With an identifier that is a type of its own. -/
  | name (text : String)

/-- The kind of the parts of names of class constants that are wildcards, and of those
that are not. -/
def partKind (wild : Bool) : TokenKind := if wild then .wildcard else .identifier

/-- The callable type that the words could open is not there. -/
def NoCallable (words : List Word) : Prop :=
  ∀ depth identifier start, words.length ≤ depth →
    (TypeExpr.readCallable (TypeExpr.goalWithin depth) identifier start).Rejects words

namespace Ending

/-- The name of a class constant does not go on in the next word. -/
def Apart : Ending → List Word → Prop
  | part wild, rest => ∀ word ∈ rest.head?, word.kind = partKind (!wild) → word.gap = true
  | _, _ => True

theorem Apart.of_head?_eq {ending : Ending} {words others : List Word}
    (apart : ending.Apart words) (sameHead : others.head? = words.head?) :
    ending.Apart others := by
  cases ending with
  | part wild =>
      intro word isHead
      rw [sameHead] at isHead
      exact apart word isHead
  | _ => trivial

/-- The words behind a spelling with this ending do not continue it. -/
def Allows : Ending → List Word → Prop
  | constant text, rest => ∀ word ∈ rest.head?, word.kind ≠ .doubleColon ∧
      (Text.lowercase text = "array" → word.kind ≠ .openParen)
  | name text, rest => ∀ word ∈ rest.head?, word.kind ≠ .doubleColon ∧
      word.kind ≠ .openAngle ∧ (word.kind = .openParen → NoCallable rest) ∧
      (word.kind = .openCurly → (ShapeKind.ofWord? text).isSome = true → word.gap = true)
  | ending, rest => ending.Apart rest

end Ending

/-- Whether words of this kind stand behind a spelling without continuing it, however
it ends. -/
def TokenKind.settles (kind : TokenKind) : Bool :=
  !([.identifier, .wildcard, .doubleColon, .openAngle, .openParen, .openCurly].contains kind)

/-- The next word continues no spelling. -/
def Settled (words : List Word) : Prop := ∀ word ∈ words.head?, word.kind.settles = true

theorem Settled.cons {word : Word} {rest : List Word} (settles : word.kind.settles = true) :
    Settled (word :: rest) := by
  simpa [Settled] using settles

theorem Ending.allows_of_settled (ending : Ending) {rest : List Word}
    (settled : Settled rest) : ending.Allows rest := by
  cases ending with
  | closed => trivial
  | part wild =>
      intro word isHead isNext
      have settles := settled word isHead
      rw [isNext] at settles
      cases wild <;> exact absurd settles (by decide)
  | constant text =>
      intro word isHead
      have settles := settled word isHead
      constructor
      · intro isColons
        rw [isColons] at settles
        exact absurd settles (by decide)
      · intro _ isOpen
        rw [isOpen] at settles
        exact absurd settles (by decide)
  | name text =>
      intro word isHead
      have settles := settled word isHead
      refine ⟨?_, ?_, ?_, ?_⟩
      all_goals
        intro isKind
        rw [isKind] at settles
        exact absurd settles (by decide)

/-- A value with the words that spell it. -/
structure Slot (α : Type) where
  value : α
  words : List Word
  ending : Ending

/-- How the last of a list of spellings ends, or `first` if there is none. -/
def Slot.lastEnding {α : Type} (first : Ending) : List (Slot α) → Ending
  | [] => first
  | slot :: slots => lastEnding slot.ending slots

/-- Further parts of a list, each behind a comma; a comma may follow the last one. -/
inductive Further : List (List Word) → List Word → Prop
  | done : Further [] []
  | comma {comma : Word} (isComma : comma.kind = .comma) : Further [] [comma]
  | more {part : List Word} {parts : List (List Word)} {comma : Word} {words : List Word}
      (isComma : comma.kind = .comma) (others : Further parts words) :
      Further (part :: parts) (comma :: part ++ words)

/-- Parts with a comma between them and the bracket behind them.  A comma may follow
the last part. -/
inductive Listed (close : TokenKind) : List (List Word) → List Word → Prop
  | none {word : Word} (isClose : word.kind = close) : Listed close [] [word]
  | some {part : List Word} {parts : List (List Word)} {words : List Word} {word : Word}
      (further : Further parts words) (isClose : word.kind = close) :
      Listed close (part :: parts) (part ++ words ++ [word])

theorem Further.length_lt {part : List Word} {parts : List (List Word)} {words : List Word}
    (further : Further parts words) (isPart : part ∈ parts) : part.length < words.length := by
  induction further with
  | done => simp at isPart
  | comma isComma => simp at isPart
  | more isComma others induction =>
      simp only [List.cons_append, List.length_cons, List.length_append]
      rcases List.mem_cons.mp isPart with rfl | isLater
      · omega
      · have shorter := induction isLater
        omega

theorem Listed.length_lt {close : TokenKind} {part : List Word} {parts : List (List Word)}
    {words : List Word} (listed : Listed close parts words) (isPart : part ∈ parts) :
    part.length < words.length := by
  cases listed with
  | none isClose => simp at isPart
  | some further isClose =>
      simp only [List.length_append, List.length_singleton]
      rcases List.mem_cons.mp isPart with rfl | isLater
      · omega
      · have shorter := further.length_lt isLater
        omega

/-- The words without the line breaks among them. -/
def solid (words : List Word) : List Word := words.filter fun word => !word.isBreak

/-- From `words` on, `used` was read and line breaks were passed over, up to `rest`. -/
structure Consumes (words used rest : List Word) : Prop where
  split : ∃ raw, words = raw ++ rest ∧ solid raw = used
  ends : Sealed rest

namespace Consumes

variable {word : Word} {words used middle used' rest : List Word}

theorem refl (ends : Sealed words) : Consumes words [] words := ⟨⟨[], rfl, rfl⟩, ends⟩

theorem single (isSolid : word.kind ≠ .lineBreak) (ends : Sealed rest) :
    Consumes (word :: rest) [word] rest :=
  ⟨⟨[word], rfl, by simp [solid, Word.isBreak, isSolid]⟩, ends⟩

theorem trans (first : Consumes words used middle) (second : Consumes middle used' rest) :
    Consumes words (used ++ used') rest := by
  obtain ⟨⟨raw, rfl, rfl⟩, -⟩ := first
  obtain ⟨⟨raw', rfl, rfl⟩, ends⟩ := second
  exact ⟨⟨raw ++ raw', by rw [List.append_assoc], List.filter_append _ _⟩, ends⟩

theorem breaks (ends : Sealed words) : Consumes words [] (behindBreaks words) := by
  refine ⟨⟨words.takeWhile Word.isBreak, ?_, ?_⟩, ends.behindBreaks⟩
  · exact List.takeWhile_append_dropWhile.symm
  · rw [solid, List.filter_eq_nil_iff]
    intro word isTaken
    simpa using List.mem_takeWhile_imp isTaken

theorem cons (isSolid : word.kind ≠ .lineBreak) (ends : Sealed middle)
    (others : Consumes middle used rest) : Consumes (word :: middle) (word :: used) rest :=
  (Consumes.single isSolid ends).trans others

/-- A word that is not passed over is the first one read. -/
theorem head (consumes : Consumes (word :: words) used rest) (isSolid : word.kind ≠ .lineBreak)
    (some : used ≠ []) : ∃ more, used = word :: more := by
  obtain ⟨⟨raw, eq, rfl⟩, -⟩ := consumes
  cases raw with
  | nil => exact absurd rfl some
  | cons first raw =>
      obtain ⟨rfl, -⟩ := List.cons.inj eq
      exact ⟨solid raw, by simp [solid, Word.isBreak, isSolid]⟩

/-- What was read was there to be read. -/
theorem mem (consumes : Consumes words used rest) (isUsed : word ∈ used) : word ∈ words := by
  obtain ⟨⟨raw, rfl, rfl⟩, -⟩ := consumes
  exact List.mem_append_left _ (List.mem_filter.mp isUsed |>.1)

/-- Without line breaks nothing is passed over. -/
theorem eq_append (consumes : Consumes words used rest)
    (unbroken : ∀ word ∈ words, word.kind ≠ .lineBreak) : words = used ++ rest := by
  obtain ⟨⟨raw, rfl, rfl⟩, -⟩ := consumes
  rw [solid, List.filter_eq_self.mpr]
  intro word isRaw
  simpa [Word.isBreak] using unbroken word (List.mem_append_left _ isRaw)

end Consumes

section Steps

variable {words : List Word} {kind : TokenKind} {bad : Prop}

/-- Words of this kind are neither passed over nor the end of the input. -/
def TokenKind.IsSolid (kind : TokenKind) : Prop := kind ≠ .finish ∧ kind ≠ .lineBreak

instance (kind : TokenKind) : Decidable kind.IsSolid :=
  inferInstanceAs (Decidable (kind ≠ .finish ∧ kind ≠ .lineBreak))

theorem Parser.Meets.skipLineBreaks (ends : Sealed words) :
    Parser.skipLineBreaks.Meets words (fun _ rest => Consumes words [] rest) bad := by
  refine (Returns.skipLineBreaks ends).mono ?_ False.elim
  rintro _ _ ⟨-, rfl⟩
  exact .breaks ends

theorem Parser.Meets.take (ends : Sealed words) (isSolid : kind.IsSolid) :
    (Parser.consume kind).Meets words (fun text rest => ∃ word, word.kind = kind ∧
      word.text = text ∧ Consumes words [word] rest) True := by
  refine (Meets.consume ends isSolid.1).mono ?_ id
  rintro _ _ ⟨restEnds, word, isKind, rfl, rfl⟩
  exact ⟨word, isKind, rfl, .single (by rw [isKind]; exact isSolid.2) restEnds⟩

theorem Parser.Meets.takeIf (ends : Sealed words) (isSolid : kind.IsSolid) :
    (Parser.accept kind).Meets words
      (fun taken rest =>
        (taken = true ∧ ∃ word, word.kind = kind ∧ Consumes words [word] rest) ∨
          (taken = false ∧ rest = words)) bad := by
  refine (Meets.accept ends isSolid.1).mono ?_ id
  rintro _ _ (⟨rfl, restEnds, word, isKind, rfl⟩ | ⟨rfl, rfl, -⟩)
  · exact .inl ⟨rfl, word, isKind, .single (by rw [isKind]; exact isSolid.2) restEnds⟩
  · exact .inr ⟨rfl, rfl⟩

end Steps

/-- From `words` up to `rest` stands a spelling, which does not go on behind it. -/
def Took (spelled : List Word → Ending → Prop) (words rest : List Word) : Prop :=
  ∃ used ending, Consumes words used rest ∧ spelled used ending ∧ ending.Apart rest

section Whole

variable {α : Type} {body : Parser α} {words rest : List Word} {last : Word}

/-- What was read up to the end of the input is spelled by the words up to there. -/
theorem Parser.Meets.toEnd_took {spelled : α → List Word → Ending → Prop}
    (reads : body.Meets words (fun value rest => Took (spelled value) words rest) True) :
    (Parser.toEnd body).Meets words
      (fun value _ => ∃ used ending last others, Consumes words used (last :: others) ∧
        last.kind = .finish ∧ spelled value used ending) True := by
  refine .bind reads ?_
  rintro value rest ⟨used, ending, consumes, isSpelled, -⟩
  obtain ⟨last, others, rfl⟩ := consumes.ends.exists_cons
  by_cases isFinish : last.kind = .finish
  · refine (Returns.expectFinish isFinish).bind ?_
    exact .pure ⟨used, ending, last, others, consumes, isFinish, isSpelled⟩
  · exact (Rejects.expectFinish isFinish).bind trivial

/-- What is read in front of the end of the input is read up to the end. -/
theorem Parser.Meets.toEnd_reads {good : α → Prop} (isFinish : last.kind = .finish)
    (reads : body.Meets words (fun value after => after = last :: rest ∧ good value) False) :
    (Parser.toEnd body).Meets words (fun value _ => good value) False := by
  refine .bind reads ?_
  rintro value _ ⟨rfl, isGood⟩
  exact (Returns.expectFinish isFinish).bind (.pure isGood)

end Whole

section Loops

variable {α β : Type}

/-- From `words` up to `rest` stands a spelling of `value` behind a separator. -/
def TookNext (spelled : α → List Word → Ending → Prop) (separates : Word → Prop)
    (words : List Word) (value : α) (rest : List Word) : Prop :=
  ∃ separator used ending, separates separator ∧ Consumes words (separator :: used) rest ∧
    spelled value used ending

/-- From `words` up to `rest` stands the end of a list. -/
def TookLast (final : β → List Word → Prop) (words : List Word) (result : β)
    (rest : List Word) : Prop :=
  ∃ tail, Consumes words tail rest ∧ final result tail

variable {spelled : α → List Word → Ending → Prop} {separates : Word → Prop}
  {final : β → List Word → Prop} {list : β → List (List Word) → List Word → Prop}
  {words rest : List Word}

/-- The spellings that the rounds of a loop took, and the list that they form. -/
theorem Parser.Rounds.slots {values : List α} {result : β}
    (rounds : Rounds (TookNext spelled separates) (TookLast final) words values result rest)
    (last : ∀ result tail, final result tail → list result [] tail)
    (more : ∀ result part parts separator tail, separates separator →
      list result parts tail → list result (part :: parts) (separator :: part ++ tail)) :
    ∃ (slots : List (Slot α)) (tail : List Word), slots.map Slot.value = values ∧
      (∀ slot ∈ slots, spelled slot.value slot.words slot.ending) ∧
      Consumes words tail rest ∧ list result (slots.map Slot.words) tail := by
  induction rounds with
  | done final =>
      obtain ⟨tail, consumes, isFinal⟩ := final
      exact ⟨[], tail, rfl, by simp, consumes, last _ tail isFinal⟩
  | item first others induction =>
      obtain ⟨separator, used, ending, separates, consumes, isSpelled⟩ := first
      obtain ⟨slots, tail, rfl, areSpelled, consumesTail, isList⟩ := induction
      refine ⟨⟨_, used, ending⟩ :: slots, separator :: used ++ tail, rfl, ?_,
        consumes.trans consumesTail, more _ used _ separator _ separates isList⟩
      simpa using ⟨isSpelled, areSpelled⟩

/-- The list that a loop reads, from what one of its rounds reads. -/
theorem Parser.Meets.gather_slots (spelled : α → List Word → Ending → Prop)
    (separates : Word → Prop) (final : β → List Word → Prop)
    (list : β → List (List Word) → List Word → Prop) {round : Parser (Round α β)}
    (ends : Sealed words)
    (each : ∀ words, Sealed words → round.Meets words
      (fun outcome rest =>
        match outcome with
        | .item value => TookNext spelled separates words value rest
        | .done result => TookLast final words result rest) True)
    (last : ∀ result tail, final result tail → list result [] tail)
    (more : ∀ result part parts separator tail, separates separator →
      list result parts tail → list result (part :: parts) (separator :: part ++ tail)) :
    (Parser.gather round).Meets words
      (fun gathered rest => ∃ (slots : List (Slot α)) (tail : List Word),
        slots.map Slot.value = gathered.1 ∧
        (∀ slot ∈ slots, spelled slot.value slot.words slot.ending) ∧
        Consumes words tail rest ∧ list gathered.2 (slots.map Slot.words) tail) True := by
  refine (Meets.gather (TookNext spelled separates) (TookLast final) Sealed ends
    fun words ends => ?_).mono (fun gathered rest rounds => rounds.slots last more) id
  refine (each words ends).mono ?_ id
  rintro (value | result) rest took
  · obtain ⟨separator, used, ending, -, consumes, -⟩ := id took
    exact ⟨took, consumes.ends⟩
  · exact took

/-- The list that a loop over items reads, from what the reading of one item does. -/
theorem Parser.Meets.many_slots (spelled : α → List Word → Ending → Prop)
    (separates : Word → Prop) (final : List Word → Prop)
    (list : List (List Word) → List Word → Prop) {item? : Parser (Option α)}
    (ends : Sealed words)
    (each : ∀ words, Sealed words → item?.Meets words
      (fun found rest =>
        match found with
        | some value => TookNext spelled separates words value rest
        | none => TookLast (fun _ => final) words () rest) True)
    (last : ∀ tail, final tail → list [] tail)
    (more : ∀ part parts separator tail, separates separator →
      list parts tail → list (part :: parts) (separator :: part ++ tail)) :
    (Parser.many item?).Meets words
      (fun values rest => ∃ (slots : List (Slot α)) (tail : List Word),
        slots.map Slot.value = values ∧
        (∀ slot ∈ slots, spelled slot.value slot.words slot.ending) ∧
        Consumes words tail rest ∧ list (slots.map Slot.words) tail) True := by
  refine .bind (Meets.gather_slots spelled separates (fun _ => final) (fun _ => list) ends
    (fun words ends => ?_) (fun _ => last) (fun _ => more)) fun gathered rest slots => .pure slots
  refine .bind (each words ends) fun found rest took => ?_
  cases found with
  | some value => exact .pure took
  | none => exact .pure took

end Loops

/-- The next word is a comma or the bracket that closes a list. -/
def EndsItem (close : TokenKind) (words : List Word) : Prop :=
  ∃ word rest, words = word :: rest ∧ (word.kind = .comma ∨ word.kind = close)

theorem Further.endsItem {parts : List (List Word)} {words rest : List Word} {word : Word}
    {close : TokenKind} (further : Further parts words) (isClose : word.kind = close) :
    EndsItem close (words ++ word :: rest) := by
  cases further with
  | done => exact ⟨_, _, rfl, .inr isClose⟩
  | comma isComma => exact ⟨_, _, rfl, .inl isComma⟩
  | more isComma others => exact ⟨_, _, rfl, .inl isComma⟩

/-- A loop reads the further parts of a list, if it reads each of them and stops at
`after` when there is none.  No more than `bound` words are left at any time. -/
theorem Further.many_meets {α : Type} (related : α → α → Prop) (after : List Word)
    {item? : Parser (Option α)} {close : TokenKind} {slots : List (Slot α)}
    {words rest : List Word} {word : Word} {bound : Nat}
    (further : Further (slots.map Slot.words) words) (isClose : word.kind = close)
    (ends : Sealed (word :: rest)) (bounded : (words ++ word :: rest).length ≤ bound)
    (nextItem : ∀ comma slot tail, comma.kind = .comma → slot ∈ slots → Sealed tail →
      EndsItem close tail → (slot.words ++ tail).length ≤ bound →
      item?.Meets (comma :: (slot.words ++ tail))
        (fun found after => after = tail ∧ ∃ other, found = some other ∧
          related slot.value other) False)
    (closing : item?.Returns (word :: rest) none after)
    (commaClosing : ∀ comma, comma.kind = .comma →
      item?.Returns (comma :: word :: rest) none after) :
    (Parser.many item?).Meets (words ++ word :: rest)
      (fun found remaining => remaining = after ∧
        List.Forall₂ related (slots.map Slot.value) found) False := by
  refine Meets.many_total related ?_
  induction slots generalizing words with
  | nil =>
      cases further with
      | done => exact .done closing
      | comma isComma => exact .done (commaClosing _ isComma)
  | cons slot slots induction =>
      cases further with
      | @more _ _ comma words isComma others =>
          rw [List.append_assoc] at bounded ⊢
          simp only [List.cons_append, List.length_cons, List.length_append] at bounded
          have read := nextItem comma slot (words ++ word :: rest) isComma List.mem_cons_self
            (ends.append words) (others.endsItem isClose) (by simp; omega)
          have shorter : (words ++ word :: rest).length <
              (comma :: (slot.words ++ (words ++ word :: rest))).length := by
            simp only [List.length_cons, List.length_append]
            omega
          refine .item ⟨shorter, read⟩ (induction others (by simp; omega) ?_)
          intro comma other tail isComma isMember
          exact nextItem comma other tail isComma (List.mem_cons_of_mem _ isMember)

end Docblock
