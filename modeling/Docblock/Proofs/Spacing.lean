import Docblock.Proofs.Enclosure
import Mathlib.Data.List.Chain
import Mathlib.Data.List.Forall2

/-!
# Spacing makes no difference

A list of tokens can be spaced in many ways.  Where no two blanks follow each other, the stations
of the cursor are the tokens that are no blanks, so two spacings of the same tokens make a trail,
and types and constants are read from both of them alike.  Two spacings may differ in front of
all tokens but braces, names and wildcards.
-/

namespace Docblock

open Docblock.Parser

/-- The tokens that are no blanks. -/
def withoutBlanks (tokens : List Token) : List Token :=
  tokens.filter fun token => token.kind ≠ .blank

theorem withoutBlanks_blank {token : Token} (isBlank : token.kind = .blank) (rest : List Token) :
    withoutBlanks (token :: rest) = withoutBlanks rest := by
  simp [withoutBlanks, isBlank]

theorem withoutBlanks_solid {token : Token} (isSolid : token.kind ≠ .blank) (rest : List Token) :
    withoutBlanks (token :: rest) = token :: withoutBlanks rest := by
  simp [withoutBlanks, isSolid]

/-- Every token that is no blank makes a word. -/
theorem length_solidWords (gap : Bool) (tokens : List Token) :
    (solidWords gap tokens).length = (withoutBlanks tokens).length := by
  induction tokens generalizing gap with
  | nil => rfl
  | cons token rest induction =>
      by_cases isBlank : token.kind = .blank
      · rw [solidWords_blank isBlank, withoutBlanks_blank isBlank, induction]
      · rw [solidWords_solid isBlank, withoutBlanks_solid isBlank, List.length_cons,
          List.length_cons, induction]

namespace Cursor

variable {cursor : Cursor} {steps : Nat}

/-- A number of steps takes as many words. -/
theorem words_after (within : steps < cursor.words.length) :
    (cursor.standing (cursor.after steps) []).words = cursor.words.drop steps := by
  induction steps with
  | zero => rfl
  | succ steps induction =>
      have seen := induction (by omega)
      rw [List.drop_eq_getElem_cons (by omega)] at seen
      rw [after_succ, ← advance_standing]
      exact words_advance seen (by simpa using within)

/-- The word at a station is made of the token there. -/
theorem word_after (within : steps < cursor.words.length) :
    cursor.words[steps] = ⟨(cursor.standing (cursor.after steps) []).isAfterBlank,
      (cursor.tokenAt (cursor.after steps)).kind,
      (cursor.tokenAt (cursor.after steps)).value⟩ := by
  have seen := words_after within
  rw [List.drop_eq_getElem_cons within] at seen
  exact current_of_words seen

theorem withoutBlanks_next {place : Nat} (more : place + 1 < cursor.tokens.size)
    (isSolid : (cursor.tokenAt place).kind ≠ .blank) :
    withoutBlanks (cursor.tokensFrom place) =
      cursor.tokenAt place :: withoutBlanks (cursor.tokensFrom (cursor.next place)) := by
  rw [cursor.tokensFrom_of_lt (by omega), withoutBlanks_solid isSolid, next, if_neg (by omega)]
  split
  · next passed => rw [cursor.tokensFrom_of_lt more, withoutBlanks_blank passed.1]
  · rfl

/-- Where the words are no blanks, a number of steps takes as many tokens that are no blanks. -/
theorem withoutBlanks_after (solid : ∀ word ∈ cursor.words, word.kind ≠ .blank)
    (within : steps < cursor.words.length) :
    withoutBlanks (cursor.tokensFrom (cursor.after steps)) =
      (withoutBlanks (cursor.tokensFrom cursor.index)).drop steps := by
  induction steps with
  | zero => rfl
  | succ steps induction =>
      have here : steps < cursor.words.length := by omega
      have more : cursor.after steps + 1 < cursor.tokens.size := by
        have bound := (cursor.standing (cursor.after steps) []).length_words_le
        rw [words_after here, List.length_drop, remaining] at bound
        change _ ≤ cursor.tokens.size - cursor.after steps at bound
        omega
      have isSolid : (cursor.tokenAt (cursor.after steps)).kind ≠ .blank := by
        have := solid _ (List.getElem_mem here)
        rwa [word_after here] at this
      have taken := induction here
      rw [withoutBlanks_next more isSolid] at taken
      rw [after_succ, ← List.drop_drop, ← taken, List.drop_one, List.tail_cons]

/-- The token at a station, counted among those that are no blanks. -/
theorem getElem?_withoutBlanks (solid : ∀ word ∈ cursor.words, word.kind ≠ .blank)
    (within : steps < cursor.words.length) :
    (withoutBlanks (cursor.tokensFrom cursor.index))[steps]? =
      some (cursor.tokenAt (cursor.after steps)) := by
  have inside : cursor.after steps < cursor.tokens.size :=
    inside_of_words ((words_after within).trans (List.drop_eq_getElem_cons within))
  have isSolid := solid _ (List.getElem_mem within)
  rw [word_after within] at isSolid
  rw [← List.head?_drop, ← withoutBlanks_after solid within,
    cursor.tokensFrom_of_lt inside, withoutBlanks_solid isSolid, List.head?_cons]

theorem withoutBlanks_ofTokens {body : List Token} {last : Token} (isFinish : last.kind = .finish) :
    withoutBlanks ((ofTokens (body ++ [last])).tokensFrom (ofTokens (body ++ [last])).index) =
      withoutBlanks body ++ [last] := by
  have alreadySealed : TokenList.sealed (body ++ [last]) = body ++ [last] := by
    simp [TokenList.sealed, isFinish]
  have kept : withoutBlanks (body ++ [last]) = withoutBlanks body ++ [last] := by
    simp [withoutBlanks, isFinish]
  rw [tokensFrom_ofTokens, ← kept, alreadySealed]
  simp only [ofTokens, alreadySealed]
  split
  · next leads =>
      cases body with
      | nil => simp [isFinish] at leads
      | cons token rest =>
          have isBlank : token.kind = .blank := by simpa using leads
          rw [List.cons_append, withoutBlanks_blank isBlank, List.drop_one, List.tail_cons]
  · rfl

/-- What is at the stations of a whole list: its tokens that are no blanks, and the end. -/
theorem stations_ofTokens {body : List Token} {last : Token} (isFinish : last.kind = .finish)
    (single : SingleBlanks body) (within : steps ≤ (withoutBlanks body).length) :
    (withoutBlanks body ++ [last])[steps]? = some ((ofTokens (body ++ [last])).tokenAt
        ((ofTokens (body ++ [last])).after steps)) ∧
      ∀ word ∈ (solidWords false body)[steps]?,
        word.gap = ((ofTokens (body ++ [last])).standing
          ((ofTokens (body ++ [last])).after steps) []).isAfterBlank ∧
        word.kind = ((ofTokens (body ++ [last])).tokenAt
          ((ofTokens (body ++ [last])).after steps)).kind := by
  obtain ⟨final, seen⟩ := words_ofTokens_concat isFinish single
  have solid : ∀ word ∈ (ofTokens (body ++ [last])).words, word.kind ≠ .blank := by
    intro word isMember
    rw [seen] at isMember
    rcases List.mem_append.mp isMember with isInner | isLast
    · exact kind_ne_blank_of_mem_solidWords isInner
    · rw [List.mem_singleton.mp isLast]
      simp
  have inWords : steps < (ofTokens (body ++ [last])).words.length := by
    rw [seen, List.length_append, length_solidWords, List.length_singleton]
    omega
  constructor
  · rw [← withoutBlanks_ofTokens isFinish]
    exact getElem?_withoutBlanks solid inWords
  · intro word isWord
    have isAt : (ofTokens (body ++ [last])).words[steps]? = some word := by
      rw [seen, List.getElem?_append_left]
      · exact isWord
      · exact (List.getElem?_eq_some_iff.mp isWord).1
    rw [List.getElem?_eq_getElem inWords, word_after inWords, Option.some.injEq] at isAt
    rw [← isAt]
    exact ⟨rfl, rfl⟩

end Cursor

/-- Words that are spaced alike in front of the kinds of tokens that heed blanks; behind a line
break the spacing is free. -/
def SpacedAlike (words words' : List Word) : Prop :=
  (words.zip words').IsChain fun pair next =>
    pair.1.kind ≠ .lineBreak → next.1.kind.heedsBlank = true → next.1.gap = next.2.gap

/-- One word further in front: if it is no line break, the spacing of the next one matters. -/
theorem SpacedAlike.cons {word word' : Word} {words words' : List Word}
    (next : word.kind ≠ .lineBreak → ∀ other ∈ words.head?, ∀ other' ∈ words'.head?,
      other.kind.heedsBlank = true → other.gap = other'.gap)
    (others : SpacedAlike words words') : SpacedAlike (word :: words) (word' :: words') := by
  cases words with
  | nil => exact .singleton _
  | cons other words =>
      cases words' with
      | nil => exact .singleton _
      | cons other' words' =>
          exact List.isChain_cons_cons.mpr
            ⟨fun solid heeds => next solid other rfl other' rfl heeds, others⟩

/-- Where the spacing matters it is the same. -/
theorem SpacedAlike.gap_eq {words words' : List Word} (spaced : SpacedAlike words words')
    {place : Nat} (inside : place + 1 < words.length) (inside' : place + 1 < words'.length)
    (solid : words[place].kind ≠ .lineBreak) (heeds : words[place + 1].kind.heedsBlank = true) :
    words[place + 1].gap = words'[place + 1].gap := by
  have inZip : place + 1 < (words.zip words').length := by
    rw [List.length_zip]
    exact Nat.lt_min.mpr ⟨inside, inside'⟩
  have alike := List.isChain_iff_getElem.mp spaced place inZip
  simp only [List.getElem_zip] at alike
  exact alike solid heeds

/-- Two spacings of the same tokens make a trail. -/
theorem exists_trail_of_spacedAlike {body body' : List Token} {last : Token}
    (isFinish : last.kind = .finish) (unfinished : ∀ token ∈ body, token.kind ≠ .finish)
    (single : SingleBlanks body) (single' : SingleBlanks body')
    (sameTokens : withoutBlanks body = withoutBlanks body')
    (spaced : SpacedAlike (solidWords false body) (solidWords false body')) :
    ∃ trail : Trail, trail.first = Cursor.ofTokens (body ++ [last]) ∧
      trail.second = Cursor.ofTokens (body' ++ [last]) := by
  have stations {steps : Nat} (within : steps ≤ (withoutBlanks body).length) :=
    Cursor.stations_ofTokens isFinish single within
  have stations' {steps : Nat} (within : steps ≤ (withoutBlanks body).length) :=
    Cursor.stations_ofTokens isFinish single' (sameTokens ▸ within)
  rw [← sameTokens] at stations'
  have atEnd : (Cursor.ofTokens (body ++ [last])).tokenAt
      ((Cursor.ofTokens (body ++ [last])).after (withoutBlanks body).length) = last := by
    have found := (stations (Nat.le_refl _)).1
    rw [List.getElem?_append_right (Nat.le_refl _), Nat.sub_self] at found
    exact (Option.some.inj found).symm
  refine ⟨{
    first := Cursor.ofTokens (body ++ [last])
    second := Cursor.ofTokens (body' ++ [last])
    length := (withoutBlanks body).length
    firstSealed := Cursor.isSealed_ofTokens _
    secondSealed := Cursor.isSealed_ofTokens _
    tokens := ?_
    unfinished := ?_
    finished := by rw [atEnd, isFinish]
    gaps := ?_ }, rfl, rfl⟩
  · intro station within
    exact Option.some.inj ((stations within).1.symm.trans (stations' within).1)
  · intro station before
    have found := (stations (Nat.le_of_lt before)).1
    rw [List.getElem?_append_left before] at found
    exact unfinished _ (List.mem_of_mem_filter (List.mem_of_getElem? found))
  · intro station before solid heeds
    rcases Nat.lt_or_eq_of_le (show station + 1 ≤ (withoutBlanks body).length from before) with
      further | isEnd
    · have inWords : station + 1 < (solidWords false body).length := by rwa [length_solidWords]
      have inWords' : station + 1 < (solidWords false body').length := by
        rwa [length_solidWords, ← sameTokens]
      obtain ⟨-, isKind⟩ := (stations (Nat.le_of_lt before)).2 _
        (List.getElem?_eq_getElem (Nat.lt_of_succ_lt inWords))
      obtain ⟨isGap, isKind'⟩ := (stations before).2 _ (List.getElem?_eq_getElem inWords)
      obtain ⟨isGap', -⟩ := (stations' before).2 _ (List.getElem?_eq_getElem inWords')
      rw [← isKind] at solid
      rw [← isKind'] at heeds
      rw [← isGap, ← isGap']
      exact spaced.gap_eq inWords inWords' solid heeds
    · rw [isEnd, atEnd, isFinish] at heeds
      cases heeds

/-- Two results that differ at most in attributes and byte offsets: trees that compare equal, or
syntax errors about the same token with the same expectation. -/
def SameOutcome {α : Type} [BEq α] : Except Failure α → Except Failure α → Prop
  | .ok tree, .ok tree' => (tree == tree') = true
  | .error (.rejected error), .error (.rejected error') => error.Resembles error'
  | _, _ => False

theorem SameOutcome.exists_ok {α : Type} [BEq α] {tree : α} {outcome : Except Failure α}
    (same : SameOutcome (.ok tree) outcome) :
    ∃ tree', outcome = .ok tree' ∧ (tree == tree') = true := by
  cases outcome with
  | ok tree' => exact ⟨tree', rfl, same⟩
  | error failure => exact same.elim

/-- A parser that walks abreast with itself reads both lists of a trail alike, whatever positions
are recorded. -/
theorem Parser.Abreast.sameOutcome {α : Type} [BEq α] {bare : α → α} {parser : Parser α}
    {good : α → Nat → Prop} {trail : Trail} {tokens tokens' : List Token}
    (abreast : parser.Abreast trail parser 0 good True) (agree : Agree bare parser parser)
    (decisive : Decisive bare) (isFirst : trail.first = Cursor.ofTokens tokens)
    (isSecond : trail.second = Cursor.ofTokens tokens') (tracking tracking' : Tracking) :
    SameOutcome (parser.run tracking tokens).result (parser.run tracking' tokens').result := by
  have starts : trail.here 0 [] = Cursor.ofTokens tokens := by
    rw [Trail.here, isFirst]
    rfl
  have starts' : trail.there 0 [] = Cursor.ofTokens tokens' := by
    rw [Trail.there, isSecond]
    rfl
  have untracked := abreast (Nat.zero_le _) [] []
  rw [starts, starts'] at untracked
  have same := agree tracking .off (Cursor.ofTokens tokens)
  have same' := agree tracking' .off (Cursor.ofTokens tokens')
  rw [Parser.run, Parser.run]
  rcases untracked.cases with ⟨value, stop, -, -, isHere, isThere⟩ |
    ⟨error, error', stop, -, -, resembles, isHere, isThere⟩
  · rw [isHere] at same
    rw [isThere] at same'
    obtain ⟨tree, read, sameTree⟩ := Reply.exists_ok_of_map_eq same
    obtain ⟨tree', read', sameTree'⟩ := Reply.exists_ok_of_map_eq same'
    rw [read, read']
    exact (decisive tree tree').mpr (sameTree.trans sameTree'.symm)
  · rw [isHere] at same
    rw [isThere] at same'
    rw [Reply.eq_failed_of_map_eq same, Reply.eq_failed_of_map_eq same']
    exact resembles

/-- Two spacings of the same tokens are read alike, as types and as constants. -/
theorem sameOutcome_of_spacedAlike (tracking tracking' : Tracking) {body body' : List Token}
    {last : Token} (isFinish : last.kind = .finish)
    (unfinished : ∀ token ∈ body, token.kind ≠ .finish) (single : SingleBlanks body)
    (single' : SingleBlanks body') (sameTokens : withoutBlanks body = withoutBlanks body')
    (spaced : SpacedAlike (solidWords false body) (solidWords false body')) :
    SameOutcome (TypeExpr.ofTokens tracking (body ++ [last]))
        (TypeExpr.ofTokens tracking' (body' ++ [last])) ∧
      SameOutcome (ConstExpr.ofTokens tracking (body ++ [last]))
        (ConstExpr.ofTokens tracking' (body' ++ [last])) := by
  obtain ⟨trail, isFirst, isSecond⟩ :=
    exists_trail_of_spacedAlike isFinish unfinished single single' sameTokens spaced
  constructor
  · exact Abreast.sameOutcome (Abreast.toEnd TypeExpr.parser_abreast) TypeExpr.parser_built.toEnd.agree
      TypeExpr.decisive_bare isFirst isSecond tracking tracking'
  · exact Abreast.sameOutcome (Abreast.toEnd ConstExpr.parser_abreast)
      ConstExpr.parser_built.toEnd.agree ConstExpr.decisive_bare isFirst isSecond tracking tracking'

/-- Spacing makes no difference to types and constants.  Two lists of tokens that are the same
without blanks, neither with two blanks in a row, and with a blank in front of the same braces,
names and wildcards, are read with the same outcome. -/
theorem spacing_insignificant (tracking tracking' : Tracking) (body body' : List Token)
    (last : Token) (isFinish : last.kind = .finish)
    (unfinished : ∀ token ∈ body, token.kind ≠ .finish)
    (single : SingleBlanks body) (single' : SingleBlanks body')
    (sameTokens : withoutBlanks body = withoutBlanks body')
    (sameGaps : List.Forall₂ (fun word word' =>
      word.kind.heedsBlank = true → word.gap = word'.gap)
      (solidWords false body) (solidWords false body')) :
    SameOutcome (TypeExpr.ofTokens tracking (body ++ [last]))
        (TypeExpr.ofTokens tracking' (body' ++ [last])) ∧
      SameOutcome (ConstExpr.ofTokens tracking (body ++ [last]))
        (ConstExpr.ofTokens tracking' (body' ++ [last])) := by
  have spaced : SpacedAlike (solidWords false body) (solidWords false body') :=
    List.isChain_iff_getElem.mpr fun _ further _ =>
      List.forall₂_zip sameGaps (List.getElem_mem further)
  exact sameOutcome_of_spacedAlike tracking tracking' isFinish unfinished single single'
    sameTokens spaced

/-- The tokens of a shape; the flag tells whether blanks stand in front of the marks in it. -/
def spacedShape (loose : Bool) : List Token :=
  let space := if loose then [(⟨.blank, " ", 1⟩ : Token)] else []
  [⟨.identifier, "array", 1⟩, ⟨.openCurly, "\x7b", 1⟩, ⟨.identifier, "a", 1⟩] ++ space ++
    [⟨.colon, ":", 1⟩, ⟨.identifier, "A", 1⟩] ++ space ++
    [⟨.union, "|", 1⟩, ⟨.identifier, "B", 1⟩] ++ space ++ [⟨.closeCurly, "\x7d", 1⟩]

/-- The shape is a type with and without the blanks, and in both cases no constant. -/
theorem spacing_insignificant_shape :
    (TypeExpr.ofTokens .off (spacedShape false ++ [Token.finish 1])).isOk = true ∧
      (ConstExpr.ofTokens .off (spacedShape false ++ [Token.finish 1])).isOk = false ∧
      SameOutcome (TypeExpr.ofTokens .off (spacedShape false ++ [Token.finish 1]))
        (TypeExpr.ofTokens .full (spacedShape true ++ [Token.finish 1])) ∧
      SameOutcome (ConstExpr.ofTokens .off (spacedShape false ++ [Token.finish 1]))
        (ConstExpr.ofTokens .full (spacedShape true ++ [Token.finish 1])) :=
  ⟨rfl, rfl, spacing_insignificant .off .full (spacedShape false) (spacedShape true)
    (Token.finish 1) rfl (by decide) (by unfold SingleBlanks; decide)
    (by unfold SingleBlanks; decide) (by decide) (by decide)⟩

end Docblock
