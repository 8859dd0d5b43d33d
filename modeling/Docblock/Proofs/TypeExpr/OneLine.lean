import Docblock.Proofs.Spacing
import Docblock.Proofs.TypeExpr.Acceptance

/-!
# Types on one line

A type that is written on several lines can be written on one: each run of blanks and line breaks
becomes a single blank.  What the rules see of the tokens changes in two ways.  The line breaks
are gone, which the grammar does not mention; and there is a blank in front of every token that
came first on its line, where no rule looks for one.  So a blank is put behind each line break
first, which makes a trail, and then the line breaks are left out.
-/

namespace Docblock

/-- Tokens on several lines, and the same on one line: a single blank stands for each maximal run
of blanks and line breaks. -/
inductive OneLine : List Token → List Token → Prop
  | nil : OneLine [] []
  | keep {token : Token} {rest line : List Token} (isSolid : token.kind.isTrivia = false)
      (others : OneLine rest line) : OneLine (token :: rest) (token :: line)
  | run {spacing rest line : List Token} {space : Token} (nonempty : spacing ≠ [])
      (allTrivia : ∀ token ∈ spacing, token.kind.isTrivia = true)
      (maximal : ∀ token ∈ rest.head?, token.kind.isTrivia = false)
      (isBlank : space.kind = .blank) (others : OneLine rest line) :
      OneLine (spacing ++ rest) (space :: line)

/-- A blank behind every line break that has none. -/
def padBreaks : List Token → List Token
  | [] => []
  | token :: rest =>
      if token.kind = .lineBreak ∧ ∀ next ∈ rest.head?, next.kind ≠ .blank then
        token :: ⟨.blank, " ", token.line⟩ :: padBreaks rest
      else token :: padBreaks rest

section PadBreaks

variable {token : Token} {tokens rest : List Token}

theorem padBreaks_bare (isBreak : token.kind = .lineBreak)
    (bare : ∀ next ∈ rest.head?, next.kind ≠ .blank) :
    padBreaks (token :: rest) = token :: ⟨.blank, " ", token.line⟩ :: padBreaks rest :=
  if_pos ⟨isBreak, bare⟩

theorem padBreaks_spaced {next : Token} (isBlank : next.kind = .blank) (isHead : next ∈ rest.head?) :
    padBreaks (token :: rest) = token :: padBreaks rest :=
  if_neg fun both => both.2 next isHead isBlank

theorem padBreaks_solid (notBreak : token.kind ≠ .lineBreak) :
    padBreaks (token :: rest) = token :: padBreaks rest :=
  if_neg fun both => notBreak both.1

theorem head?_padBreaks (tokens : List Token) : (padBreaks tokens).head? = tokens.head? := by
  cases tokens with
  | nil => rfl
  | cons token rest =>
      rw [padBreaks]
      split <;> rfl

theorem mem_padBreaks (isMember : token ∈ padBreaks tokens) :
    token ∈ tokens ∨ token.kind = .blank := by
  induction tokens with
  | nil => cases isMember
  | cons first rest induction =>
      rw [padBreaks] at isMember
      split at isMember
      · simp only [List.mem_cons] at isMember ⊢
        rcases isMember with rfl | rfl | isLater
        · exact .inl (.inl rfl)
        · exact .inr rfl
        · exact (induction isLater).imp .inr id
      · simp only [List.mem_cons] at isMember ⊢
        rcases isMember with rfl | isLater
        · exact .inl (.inl rfl)
        · exact (induction isLater).imp .inr id

theorem withoutBlanks_padBreaks (tokens : List Token) :
    withoutBlanks (padBreaks tokens) = withoutBlanks tokens := by
  induction tokens with
  | nil => rfl
  | cons token rest induction =>
      by_cases isBlank : token.kind = .blank
      · rw [padBreaks_solid (by rw [isBlank]; decide), withoutBlanks_blank isBlank,
          withoutBlanks_blank isBlank, induction]
      · rw [withoutBlanks_solid isBlank, padBreaks]
        split
        · rw [withoutBlanks_solid isBlank, withoutBlanks_blank rfl, induction]
        · rw [withoutBlanks_solid isBlank, induction]

theorem SingleBlanks.padBreaks (single : SingleBlanks tokens) :
    SingleBlanks (padBreaks tokens) := by
  induction tokens with
  | nil => exact .nil
  | cons token rest induction =>
      obtain ⟨others, apart⟩ := single.rest
      rw [Docblock.padBreaks]
      split
      · next bare =>
          refine .cons (by rw [bare.1]; nofun) (.cons (fun _ => ?_) (induction others))
          rw [head?_padBreaks]
          exact bare.2
      · refine .cons (fun isBlank => ?_) (induction others)
        rw [head?_padBreaks]
        exact apart isBlank

/-- The first word is not behind a line break. -/
theorem head?_solidWords_padBreaks (gap : Bool) (tokens : List Token) :
    (solidWords gap (padBreaks tokens)).head? = (solidWords gap tokens).head? := by
  induction tokens generalizing gap with
  | nil => rfl
  | cons token rest induction =>
      by_cases isBlank : token.kind = .blank
      · rw [padBreaks_solid (by rw [isBlank]; decide), solidWords_blank isBlank,
          solidWords_blank isBlank, induction]
      · rw [solidWords_solid isBlank, padBreaks]
        split
        · rw [solidWords_solid isBlank, List.head?_cons, List.head?_cons]
        · rw [solidWords_solid isBlank, List.head?_cons, List.head?_cons]

/-- Blanks behind line breaks make no difference to the rules. -/
theorem spacedAlike_padBreaks (gap gap' : Bool) (tokens : List Token) :
    SpacedAlike (solidWords gap tokens) (solidWords gap' (padBreaks tokens)) := by
  induction tokens generalizing gap gap' with
  | nil => exact .nil
  | cons token rest induction =>
      by_cases isBlank : token.kind = .blank
      · rw [padBreaks_solid (by rw [isBlank]; decide), solidWords_blank isBlank,
          solidWords_blank isBlank]
        exact induction true true
      · rw [solidWords_solid isBlank, padBreaks]
        split
        · next bare =>
            rw [solidWords_solid isBlank, solidWords_blank rfl]
            exact .cons (fun solid => absurd bare.1 solid) (induction false true)
        · rw [solidWords_solid isBlank]
          refine .cons (fun _ other isOther other' isOther' _ => ?_) (induction false false)
          rw [head?_solidWords_padBreaks] at isOther'
          rw [Option.mem_unique isOther isOther']

end PadBreaks

theorem solid_break {word : Word} (isBreak : word.kind = .lineBreak) (words : List Word) :
    solid (word :: words) = solid words := by
  simp [solid, Word.isBreak, isBreak]

/-- Behind a run of blanks and line breaks there is a blank. -/
theorem solid_padBreaks_run {spacing rest : List Token} (nonempty : spacing ≠ [])
    (allTrivia : ∀ token ∈ spacing, token.kind.isTrivia = true)
    (maximal : ∀ token ∈ rest.head?, token.kind.isTrivia = false) (gap : Bool) :
    solid (solidWords gap (padBreaks (spacing ++ rest))) =
      solid (solidWords true (padBreaks rest)) := by
  induction spacing generalizing gap with
  | nil => exact absurd rfl nonempty
  | cons token spacing induction =>
      obtain ⟨isTrivia, others⟩ := List.forall_mem_cons.mp allTrivia
      -- What is left of the run is passed over whatever stands in front of it.
      have passed (gap : Bool) (spaced : spacing = [] → gap = true) :
          solid (solidWords gap (padBreaks (spacing ++ rest))) =
            solid (solidWords true (padBreaks rest)) := by
        by_cases isLast : spacing = []
        · rw [spaced isLast, isLast, List.nil_append]
        · exact induction isLast others gap
      rw [List.cons_append]
      by_cases isBlank : token.kind = .blank
      · rw [padBreaks_solid (by rw [isBlank]; decide), solidWords_blank isBlank]
        exact passed true fun _ => rfl
      have isBreak : token.kind = .lineBreak := by
        revert isTrivia isBlank
        cases token.kind <;> decide
      by_cases spaced : ∃ next ∈ (spacing ++ rest).head?, next.kind = .blank
      · obtain ⟨next, isHead, nextBlank⟩ := spaced
        rw [padBreaks_spaced nextBlank isHead, solidWords_solid isBlank, solid_break isBreak]
        refine passed false fun isLast => ?_
        rw [isLast, List.nil_append] at isHead
        have solidNext := maximal next isHead
        rw [nextBlank] at solidNext
        cases solidNext
      · have bare := fun next isHead isBlank => spaced ⟨next, isHead, isBlank⟩
        rw [padBreaks_bare isBreak bare, solidWords_solid isBlank, solid_break isBreak,
          solidWords_blank rfl]
        exact passed true fun _ => rfl

namespace OneLine

variable {tokens line : List Token}

/-- Without line breaks the words are those of the single line. -/
theorem solid_padBreaks (oneLine : OneLine tokens line) (gap : Bool) :
    solid (solidWords gap (padBreaks tokens)) = solidWords gap line := by
  induction oneLine generalizing gap with
  | nil => rfl
  | @keep token rest line isSolid _ induction =>
      have notTrivia : token.kind ≠ .blank ∧ token.kind ≠ .lineBreak := by
        revert isSolid
        cases token.kind <;> decide
      rw [padBreaks_solid notTrivia.2, solidWords_solid notTrivia.1, solidWords_solid notTrivia.1,
        ← induction]
      simp [Docblock.solid, Word.isBreak, notTrivia.2]
  | run nonempty allTrivia maximal isBlank _ induction =>
      rw [solid_padBreaks_run nonempty allTrivia maximal, solidWords_blank isBlank, induction]

theorem head_ne_blank (oneLine : OneLine tokens line)
    (solid : ∀ token ∈ tokens.head?, token.kind.isTrivia = false) :
    ∀ token ∈ line.head?, token.kind ≠ .blank := by
  cases oneLine with
  | nil => simp
  | keep isSolid _ =>
      intro token isHead isBlank
      obtain rfl := Option.some.inj isHead
      rw [isBlank] at isSolid
      cases isSolid
  | @run spacing rest line space nonempty allTrivia _ _ _ =>
      obtain ⟨first, spacing, rfl⟩ := List.exists_cons_of_ne_nil nonempty
      have isTrivia := allTrivia first List.mem_cons_self
      rw [solid first rfl] at isTrivia
      cases isTrivia

theorem singleBlanks (oneLine : OneLine tokens line) : SingleBlanks line := by
  induction oneLine with
  | nil => exact .nil
  | keep isSolid _ induction =>
      refine .cons (fun isBlank => ?_) induction
      rw [isBlank] at isSolid
      cases isSolid
  | run _ _ maximal _ others induction =>
      exact .cons (fun _ => others.head_ne_blank maximal) induction

end OneLine

namespace TypeExpr

/-- A type on several lines means the same on one line.  If a list of tokens in which no two
blanks follow each other is read as a type, then so is the list in which every run of blanks and
line breaks is a single blank, and the types compare equal. -/
theorem ofTokens_onOneLine (tracking tracking' : Tracking) (body line : List Token) (last : Token)
    (isFinish : last.kind = .finish) (unfinished : ∀ token ∈ body, token.kind ≠ .finish)
    (single : SingleBlanks body) (oneLine : OneLine body line) {type : TypeExpr}
    (read : ofTokens tracking (body ++ [last]) = .ok type) :
    ∃ type', ofTokens tracking' (line ++ [last]) = .ok type' ∧ (type == type') = true := by
  obtain ⟨same, -⟩ := sameOutcome_of_spacedAlike tracking tracking' isFinish unfinished single
    single.padBreaks (withoutBlanks_padBreaks body).symm (spacedAlike_padBreaks false false body)
  rw [read] at same
  obtain ⟨padded, readPadded, samePadded⟩ := same.exists_ok
  obtain ⟨used, ending, stop, others, consumes, isStop, isSpelled⟩ :=
    spelled_of_ofTokens readPadded
  obtain ⟨final, seen⟩ := Cursor.words_ofTokens_concat isFinish single.padBreaks
  rw [seen] at consumes
  obtain ⟨⟨raw, isSplit, rfl⟩, -⟩ := consumes
  have isRaw : raw = solidWords false (padBreaks body) := by
    refine eq_of_append_stop isSplit (fun word isMember => ?_) isStop
    obtain ⟨token, isToken, isKind⟩ := mem_solidWords isMember
    rw [← isKind]
    rcases mem_padBreaks isToken with isInner | isBlank
    · exact unfinished token isInner
    · rw [isBlank]
      decide
  rw [isRaw, oneLine.solid_padBreaks] at isSpelled
  obtain ⟨final', seen'⟩ := Cursor.words_ofTokens_concat isFinish oneLine.singleBlanks
  obtain ⟨found, readLine, sameFound⟩ := ofTokens_of_spelled tracking' seen' rfl isSpelled
  have sameBare := ((decisive_bare type padded).mp samePadded).trans
    ((decisive_bare padded found).mp sameFound)
  exact ⟨found, readLine, (decisive_bare type found).mpr sameBare⟩

/-- A blank of one space. -/
def oneSpace : Token := ⟨.blank, " ", 1⟩

/-- The end of a line with the gutter of the next one. -/
def oneBreak : Token := ⟨.lineBreak, "\n *", 1⟩

/-- The tokens of a union in parentheses, with the given tokens around its operator. -/
def spacedUnion (before behind : List Token) : List Token :=
  [⟨.openParen, "(", 1⟩, ⟨.identifier, "A", 1⟩] ++ before ++ [⟨.union, "|", 1⟩] ++ behind ++
    [⟨.identifier, "B", 1⟩, ⟨.closeParen, ")", 1⟩]

/-- A union on three lines is read on one line; its second operand comes first on its line. -/
theorem ofTokens_onOneLine_union :
    ∃ type type',
      ofTokens .off (spacedUnion [oneSpace, oneBreak, oneSpace] [oneBreak] ++ [Token.finish 1]) =
        .ok type ∧
      ofTokens .full (spacedUnion [oneSpace] [oneSpace] ++ [Token.finish 1]) = .ok type' ∧
      (type == type') = true := by
  have oneLine : OneLine (spacedUnion [oneSpace, oneBreak, oneSpace] [oneBreak])
      (spacedUnion [oneSpace] [oneSpace]) := by
    refine .keep rfl (.keep rfl ?_)
    refine @OneLine.run [oneSpace, oneBreak, oneSpace] _ _ _ (by decide) (by decide) (by decide)
      rfl (.keep rfl ?_)
    refine @OneLine.run [oneBreak] _ _ _ (by decide) (by decide) (by decide) rfl ?_
    exact .keep rfl (.keep rfl .nil)
  obtain ⟨type', readLine, same⟩ := ofTokens_onOneLine .off .full _ _ (Token.finish 1) rfl
    (by decide) (by unfold SingleBlanks; decide) oneLine rfl
  exact ⟨_, type', rfl, readLine, same⟩

end TypeExpr

end Docblock
