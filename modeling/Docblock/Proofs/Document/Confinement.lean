import Docblock.Document.Grammar
import Docblock.Proofs.TagValue.Confinement

/-!
# Comments stay in their window

A window is closed if it reaches to a token that ends a comment or the input.  In a closed window
the children of a comment follow one another, each up to the end of a line, until the comment or
the input ends.  What holds of the children one by one, each read from the start of a line, thus
holds of all of them.
-/

namespace Docblock

open Docblock.Parser

namespace Window

/-- A line starts at a place behind the opening marker or behind a line break. -/
def StartsLine (window : Window) (opening place : Nat) : Prop :=
  ∃ before < window.limit, (before = opening ∨ window.kind before = .lineBreak) ∧
    window.first.next before = place

/-- The place at which the children of a comment start: behind the opening marker, and behind the
line break that follows it if there is one. -/
def bodyStart (window : Window) (opening : Nat) : Nat :=
  if window.kind (window.first.next opening) = .lineBreak then
    window.first.next (window.first.next opening)
  else window.first.next opening

/-- A tag stands in front of the end of the last line. -/
theorem lt_last_of_tag {window : Window} {place : Nat} (onLine : place ≤ window.last)
    (isTag : window.kind place = .tag) : place < window.last := by
  refine Nat.lt_of_le_of_ne onLine ?_
  rintro rfl
  have ends := window.ends
  rw [show (window.first.tokenAt window.last).kind = .tag from isTag] at ends
  exact absurd ends (by decide)

end Window

/-- A child fits the token at which it starts: it is a tag with the name that stands there, or a
text that starts with something else. -/
def Child.Fits (window : Window) (start : Token) : Child → Prop
  | .tag node => start.kind = .tag ∧ node.name = start.value ∧ node.value.Fits window node.name
  | .text _ => start.kind ≠ .tag

namespace Document

variable {window : Window} {place opening : Nat} {bad : Prop}

theorem readTag_tandem (onLine : place < window.last) :
    readTag.Tandem window readTag place
      (fun node stop => window.AtLineEnd place node stop ∧
        node.name = (window.token place).value ∧ node.value.Fits window node.name) bad := by
  refine .marked fun inside => ?_
  refine .bind .current ?_
  rintro _ _ ⟨rfl, rfl⟩
  refine .bind (.advance_line onLine) ?_
  rintro _ next ⟨further, nextOnLine⟩
  refine .bind (TagValue.parser_tandem _ nextOnLine) ?_
  rintro value stop ⟨⟨⟨behind, stopOnLine⟩, atEnd⟩, fits⟩
  exact .positioned inside fun _ => ⟨⟨⟨by omega, stopOnLine⟩, atEnd⟩, rfl, fits⟩

theorem readText_tandem (onLine : place ≤ window.last) :
    readText.Tandem window readText place (window.AtLineEnd place) bad := by
  refine .marked fun inside => ?_
  refine .bind (Prose.parser_tandem onLine) ?_
  rintro text stop reached
  exact .positioned inside fun _ => reached

theorem readChild_tandem (onLine : place ≤ window.last) :
    readChild.Tandem window readChild place
      (fun child stop => window.AtLineEnd place child stop ∧
        child.Fits window (window.token place)) bad := by
  refine .ifAt (fun isTag => ?_) fun notTag => ?_
  · refine .bind (readTag_tandem (window.lt_last_of_tag onLine isTag)) ?_
    rintro node stop ⟨reached, isName, fits⟩
    exact .pure ⟨reached, isTag, isName, fits⟩
  · refine .bind (readText_tandem onLine) ?_
    rintro node stop reached
    exact .pure ⟨reached, notTag⟩

section Phases

variable (one : Nat → Child → Nat → Prop) (before behind : List Child → Nat → Prop)

/-- What the children cover together, from what each of them covers: nothing is covered in front
of the first child, each child adds to what was covered before it, and a line break leads from
behind a child to the place before the next one. -/
theorem readChildren_phases (starts : window.StartsLine opening place) (none : before [] place)
    (each : ∀ here, window.StartsLine opening here → window.kind here ≠ .closeDoc →
      readChild.Tandem window readChild here
        (fun child stop => window.AtLineEnd here child stop ∧ one here child stop) bad)
    (more : ∀ children here child stop, before children here → one here child stop →
      behind (children ++ [child]) stop)
    (onward : ∀ children here, behind children here → here < window.limit →
      window.kind here = .lineBreak → before children (window.first.next here)) :
    readChildren.Tandem window readChildren place
      (fun children stop => place ≤ stop ∧ window.kind stop ∈ [.closeDoc, .finish] ∧
        (before children stop ∨ behind children stop)) bad := by
  refine .ifAt (fun isClose => .pure ⟨Nat.le_refl _, by simp [isClose], .inl none⟩) fun notClose =>
    .bind (each place starts notClose) ?_
  rintro first middle ⟨⟨⟨bound, -⟩, atEnd⟩, isOne⟩
  refine .bind (.many
    (fun here child stop => here < window.limit ∧ window.kind here = .lineBreak ∧ here ≤ stop ∧
      one (window.first.next here) child stop)
    (fun here stop => here ≤ stop ∧ window.kind stop ∈ [.closeDoc, .finish] ∧
      (here = stop ∨
        here < window.limit ∧ window.kind here = .lineBreak ∧ window.first.next here = stop))
    (fun here => Prose.lineEnds.contains (window.kind here) = true) atEnd
    fun here after hereAtEnd => .inside fun inside => .bind .accept_lineBreak ?_) ?_
  · rintro _ next (⟨rfl, isBreak, rfl⟩ | ⟨rfl, notBreak, rfl⟩)
    · have inFront := window.lt_limit_of_lineBreak inside isBreak
      have further := window.lt_next inFront
      refine .ifAt (fun isClose => .pure ?_) fun notClose => ?_
      · exact ⟨by omega, by simp [isClose], .inr ⟨inFront, isBreak, rfl⟩⟩
      · refine .bind (each _ ⟨here, inFront, .inr isBreak, rfl⟩ notClose) ?_
        rintro child stop ⟨⟨⟨bound', -⟩, stopAtEnd⟩, isOne'⟩
        exact .pure ⟨by omega, ⟨inFront, isBreak, by omega, isOne'⟩, stopAtEnd⟩
    · have isEnd := (Prose.lineEnds_contains_iff.mp hereAtEnd).resolve_left notBreak
      exact .pure ⟨Nat.le_refl _, isEnd, .inl rfl⟩
  · intro rest stop rounds
    have covered : behind [first] middle := more [] place first middle none isOne
    have gathered : middle ≤ stop ∧ window.kind stop ∈ [.closeDoc, .finish] ∧
        (before ([first] ++ rest) stop ∨ behind ([first] ++ rest) stop) := by
      -- what was covered before the rounds is what the induction generalises
      generalize [first] = earlier at covered
      clear none isOne atEnd bound each starts
      generalize () = result at rounds
      induction rounds generalizing earlier with
      | done final =>
          obtain ⟨bound, isEnd, rfl | ⟨inside, isBreak, rfl⟩⟩ := final
          · exact ⟨bound, isEnd, .inr (by simpa using covered)⟩
          · exact ⟨bound, isEnd, .inl (by simpa using onward _ _ covered inside isBreak)⟩
      | item step others induction =>
          obtain ⟨inside, isBreak, bound, isOne⟩ := step
          have next := more _ _ _ _ (onward _ _ covered inside isBreak) isOne
          obtain ⟨bound', isEnd, all⟩ := induction _ next
          exact ⟨Nat.le_trans bound bound', isEnd, by simpa using all⟩
    exact .pure ⟨Nat.le_trans bound gathered.1, gathered.2⟩

/-- The body of a comment is always read, up to where the comment or the input ends. -/
theorem readBody_phases (isOpen : window.kind opening = .openDoc)
    (none : before [] (window.bodyStart opening))
    (each : ∀ here, window.StartsLine opening here → window.kind here ≠ .closeDoc →
      readChild.Tandem window readChild here
        (fun child stop => window.AtLineEnd here child stop ∧ one here child stop) bad)
    (more : ∀ children here child stop, before children here → one here child stop →
      behind (children ++ [child]) stop)
    (onward : ∀ children here, behind children here → here < window.limit →
      window.kind here = .lineBreak → before children (window.first.next here)) :
    readBody.Tandem window readBody opening
      (fun children stop => opening < stop ∧ window.kind stop ∈ [.closeDoc, .finish] ∧
        (before children stop ∨ behind children stop)) bad := by
  refine .inside fun inside => .bind (.consume_found isOpen rfl) ?_
  rintro _ _ rfl
  have inFront : opening < window.limit := Nat.lt_of_lt_of_le
    (window.lt_last_of_content inside (by rw [isOpen]; rfl)) window.last_le
  have further := window.lt_next inFront
  refine .inside fun nextInside => .bind .accept_lineBreak ?_
  rintro _ next (⟨rfl, isBreak, rfl⟩ | ⟨rfl, notBreak, rfl⟩)
  · have inFront' := window.lt_limit_of_lineBreak nextInside isBreak
    have further' := window.lt_next inFront'
    rw [Window.bodyStart, if_pos isBreak] at none
    refine (readChildren_phases one before behind ⟨_, inFront', .inr isBreak, rfl⟩ none each more
      onward).mono ?_ id
    rintro children stop ⟨bound, reached⟩
    exact ⟨by omega, reached⟩
  · rw [Window.bodyStart, if_neg notBreak] at none
    refine (readChildren_phases one before behind ⟨opening, inFront, .inl rfl, rfl⟩ none each more
      onward).mono ?_ id
    rintro children stop ⟨bound, reached⟩
    exact ⟨by omega, reached⟩

end Phases

/-- What the children cover together, if a line break adds nothing to it that a child could
miss. -/
theorem readBody_tandem (one : Nat → Child → Nat → Prop) (covers : List Child → Nat → Prop)
    (isOpen : window.kind opening = .openDoc) (none : covers [] (window.first.next opening))
    (each : ∀ here, window.StartsLine opening here → readChild.Tandem window readChild here
      (fun child stop => window.AtLineEnd here child stop ∧ one here child stop) bad)
    (more : ∀ children here child stop, covers children here → one here child stop →
      covers (children ++ [child]) stop)
    (onward : ∀ children here, covers children here → here < window.limit →
      window.kind here = .lineBreak → covers children (window.first.next here)) :
    readBody.Tandem window readBody opening
      (fun children stop => opening < stop ∧ window.kind stop ∈ [.closeDoc, .finish] ∧
        covers children stop) bad := by
  refine .inside fun inside => ?_
  have inFront : opening < window.limit := Nat.lt_of_lt_of_le
    (window.lt_last_of_content inside (by rw [isOpen]; rfl)) window.last_le
  have atStart : covers [] (window.bodyStart opening) := by
    rw [Window.bodyStart]
    split
    · next isBreak =>
        have inFront' := window.lt_limit_of_lineBreak (window.next_le inFront) isBreak
        exact onward _ _ none inFront' isBreak
    · exact none
  refine (readBody_phases one covers covers isOpen atStart (fun here starts _ => each here starts)
    more onward).mono ?_ id
  rintro children stop ⟨further, isEnd, covered⟩
  exact ⟨further, isEnd, or_self_iff.mp covered⟩

end Document

end Docblock
