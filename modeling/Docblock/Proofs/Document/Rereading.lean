import Docblock.Proofs.Document.Layout
import Docblock.Proofs.TagValue.Confinement

/-!
# Printed children are read again

Where a child was printed, the same child is read again, positions aside, and what is left are the
printed lines of the children behind it.  The parts of a value are found by their words, and the
text behind them by its tokens; the place where the ones end and the other starts is the only one
that has so many words behind it.
-/

namespace Docblock

open Docblock.Parser

/-- A parser that keeps in a window gives what it gives for the words at its start. -/
theorem Parser.Tandem.and_meets {α : Type} {window : Window} {place : Nat} {bad bad' : Prop}
    {parser : Parser α} {good : α → Nat → Prop} {good' : α → List Word → Prop} {words : List Word}
    (tandem : parser.Tandem window parser place good bad) (meets : parser.Meets words good' bad')
    (seen : (window.first.standing place []).words = words) :
    parser.Tandem window parser place
      (fun value stop => good value stop ∧ good' value (window.first.standing stop []).words)
      (bad ∧ bad') := by
  intro inside tracking saved saved'
  have met := meets tracking (window.first.standing place saved) seen
  rcases (tandem inside tracking saved saved').cases with
    ⟨value, stop, stopInside, isGood, isFirst, isSecond⟩ |
      ⟨error, stop, stopInside, isBad, located, isFirst, isSecond⟩
  · rw [isFirst] at met
    rw [isFirst, isSecond]
    exact .ok stopInside ⟨isGood, met⟩
  · rw [isFirst] at met
    rw [isFirst, isSecond]
    exact .rejected stopInside located ⟨isBad, met⟩

section Reading

variable {source : String} {window : Window} {place stop : Nat} {name text : String}
  {lines : List Line}

/-- A printed tag is its name, and its text behind a blank. -/
theorem PrintedFrom.tag (isText : window.first = Cursor.onTokens (tokenize source))
    (before : place < window.limit) (isName : IsTagName name)
    (solid : ∀ char ∈ text.toList.head?, Text.isBlank char = false)
    (printed : PrintedFrom source place (Line.print ⟨some name, text⟩).toList lines) :
    window.kind place = .tag ∧ (window.token place).value = name ∧
      PrintedFrom source (window.first.next place) text.toList lines ∧
      (text ≠ "" → (window.first.standing (window.first.next place) []).isAfterBlank = true) := by
  obtain ⟨number, last, isDrop⟩ := printed
  obtain ⟨after, isAfter⟩ := Line.exists_printed lines
  have stops : ∀ char ∈ (behindSpace text ++ '\n' :: after).head?,
      Lexeme.isTagPart char = false := by
    unfold behindSpace
    split <;> simp [Lexeme.isTagPart]
  rw [Line.toList_print_tag, List.append_assoc, isAfter, isName.scanFrom_append number stops,
    List.cons_append, window.drop_eq_cons isText (Nat.le_of_lt before)] at isDrop
  obtain ⟨isTag, isBehind⟩ := List.cons.inj isDrop
  refine ⟨congrArg Token.kind isTag, congrArg Token.value isTag, ⟨number, last, ?_⟩, ?_⟩
  · rw [window.drop_next isText before, isBehind, isAfter, Line.behindBlank_behindSpace solid]
  · intro some
    have isBlank : window.kind (place + 1) = .blank := by
      rw [behindSpace, if_neg some, List.cons_append, scanFrom_cons, List.cons_append,
        window.drop_eq_cons isText before] at isBehind
      rw [Window.kind, (List.cons.inj isBehind).1, Token.cut, Lexeme.first_blank rfl]
    rw [(window.next_eq before).1, if_pos isBlank]
    exact decide_eq_true isBlank

/-- The words of the text behind the parts are not taken for more of them. -/
theorem PartsLaid.endsParts {rule : TagRule} {parts : TagValue} {first : String} {gap final : Bool}
    (laid : PartsLaid name rule parts first) (apart : first ≠ "" → gap = true) (number : UInt32)
    (after : List Char) : parts.EndsParts
      (solidWords gap (scanFrom number (first.toList ++ '\n' :: after)) ++
        [⟨final, .finish, text⟩]) := by
  have ends (words : List Word) : Sealed (words ++ [⟨final, .finish, text⟩]) := by simp [Sealed]
  by_cases isEmpty : first = ""
  · subst isEmpty
    have isBreak : (Token.cut number '\n' after).kind ≠ .blank := TokenKind.noConfusion
    have differs (name : String) (isName : name.toList.head? ≠ some '\n') :
        (Token.cut number '\n' after).value ≠ name := by
      rintro rfl
      simp [Token.cut] at isName
    rw [String.toList_empty, List.nil_append, scanFrom_cons, solidWords_solid isBreak]
    exact .of_break (ends (_ :: _)) rfl ⟨differs "of" (by decide), differs "as" (by decide)⟩ parts
  · obtain ⟨tokens, scanned, spelled, -, starts⟩ := laid.recut.again number after
    have solid := solid_scanFrom (solidHead_append laid.recut.solidHead after) number
    rw [scanned] at solid ⊢
    cases tokens with
    | nil =>
        refine absurd ?_ isEmpty
        rw [← String.toList_inj, ← spelled]
        rfl
    | cons token tokens =>
        rw [List.cons_append, solidWords_solid (solid token rfl), apart isEmpty]
        exact starts token rfl _ (ends _)

/-- The text behind printed parts starts at a place, and the words from there on end the parts. -/
structure TextBehind (source : String) (parts : TagValue) (first : String) (lines : List Line)
    (behind : Nat) (words : List Word) : Prop where
  printed : PrintedFrom source behind first.toList lines
  endsParts : parts.EndsParts words
  solidWords : ∀ word ∈ words, word.kind ≠ .blank
  inside : behind < (tokenize source).length
  solid : ((Cursor.onTokens (tokenize source)).tokenAt behind).kind ≠ .blank
  length_eq : words.length = (withoutBlanks ((tokenize source).drop behind)).length

/-- Only where the text starts there are its words and no others. -/
theorem TextBehind.eq_place {parts : TagValue} {first : String} {words : List Word} {behind : Nat}
    (text : TextBehind source parts first lines behind words)
    (inside : place < (tokenize source).length)
    (seen : ((Cursor.onTokens (tokenize source)).standing place []).words = words) :
    place = behind := by
  have isSolid : ((Cursor.onTokens (tokenize source)).tokenAt place).kind ≠ .blank := by
    obtain ⟨word, others, isCons⟩ := List.exists_cons_of_ne_nil text.endsParts.ends.ne_nil
    have isKind := Cursor.kind_of_words (seen.trans isCons)
    rw [show ((Cursor.onTokens (tokenize source)).tokenAt place).kind = word.kind from isKind]
    exact text.solidWords word (by simp [isCons])
  refine eq_of_length_words inside isSolid text.inside text.solid ?_
  rw [← length_words_standing inside isSolid [], seen, text.length_eq]

/-- Printed parts are cut into their words, and the text behind them follows. -/
theorem PartsLaid.exists_textBehind {rule : TagRule} {parts : TagValue} {first : String}
    {words : List Word} (laid : PartsLaid name rule parts first) (unbroken : Unbroken words)
    (cut : Cut Delimited true parts.print.toList words) (inside : place < (tokenize source).length)
    (solid : ((Cursor.onTokens (tokenize source)).tokenAt place).kind ≠ .blank)
    (apart : ((Cursor.onTokens (tokenize source)).standing place []).isAfterBlank = true)
    (printed : PrintedFrom source place (parts.describe first).print.toList lines) :
    ∃ behind rest, TextBehind source parts first lines behind rest ∧
      ((Cursor.onTokens (tokenize source)).standing place []).words = words ++ rest := by
  obtain ⟨number, last, isDrop⟩ := printed
  obtain ⟨after, isAfter⟩ := Line.exists_printed lines
  obtain ⟨tokens, gap, cutOff, cutsOff, apart'⟩ :=
    exists_cutsOff_described unbroken cut laid.recut number after
  rw [isAfter, laid.toList_print laid.place, cutOff, List.append_assoc] at isDrop
  obtain ⟨front, last', final, isFront, isFinish, isWords⟩ :=
    exists_words_standing inside solid []
  rw [isDrop, ← List.append_assoc] at isFront
  obtain ⟨rfl, -⟩ := List.append_inj' isFront rfl
  rw [apart, cutsOff.words, List.append_assoc] at isWords
  have isBehind : (tokenize source).drop (place + tokens.length) =
      scanFrom number (first.toList ++ '\n' :: after) ++ [Token.finish last] := by
    rw [← List.drop_drop, isDrop, List.drop_left]
  have solidBehind := solid_scanFrom (solidHead_append laid.recut.solidHead after) number
  refine ⟨place + tokens.length, _, ?_, isWords⟩
  exact {
    printed := ⟨number, last, by rw [isBehind, isAfter]⟩
    endsParts := laid.endsParts apart' number after
    solidWords := by
      intro word isMember
      rcases List.mem_append.mp isMember with isInner | isEnd
      · exact kind_ne_blank_of_mem_solidWords isInner
      · rw [List.mem_singleton.mp isEnd]
        exact TokenKind.noConfusion
    inside := by
      have lengths := congrArg List.length isBehind
      rw [List.length_drop, List.length_append, List.length_singleton] at lengths
      omega
    solid := by
      rw [Cursor.tokenAt_onTokens, ← List.head?_drop, isBehind]
      cases isCons : scanFrom number (first.toList ++ '\n' :: after) with
      | nil => exact TokenKind.noConfusion
      | cons token others => exact solidBehind token (by rw [isCons]; rfl)
    length_eq := by
      rw [isBehind, List.length_append, length_solidWords, withoutBlanks, withoutBlanks,
        List.filter_append]
      simp [Token.finish] }

/-- The printed parts of a value are read again, up to the text behind them. -/
theorem readParts_printed (isText : window.first = Cursor.onTokens (tokenize source))
    (onLine : place ≤ window.last) {rule : TagRule} {parts : TagValue} {first : String}
    (laid : PartsLaid name rule parts first) (solid : window.kind place ≠ .blank)
    (apart : (window.first.standing place []).isAfterBlank = true)
    (printed : PrintedFrom source place (parts.describe first).print.toList lines) :
    (TagValue.readParts rule).Tandem window (TagValue.readParts rule) place
      (fun found stop => window.Along place found stop ∧ found.bare = parts.bare ∧
        window.kind stop ≠ .blank ∧ PrintedFrom source stop first.toList lines) False := by
  refine .inside fun inside => ?_
  rw [Window.kind_eq_kindAt isText] at solid
  rw [isText] at apart
  obtain ⟨words, -, unbroken, cut, reads⟩ := laid.reads
  obtain ⟨behind, rest, text, isWords⟩ := laid.exists_textBehind unbroken cut
    (window.lt_length isText inside) solid apart printed
  rw [← isText] at isWords
  refine ((TagValue.readParts_tandem onLine).and_meets (reads _ text.endsParts) isWords).mono ?_
    And.right
  rintro found here ⟨⟨along, -⟩, seen, same⟩
  rw [isText] at seen
  have hereInside := Nat.le_trans along.2 window.last_le
  obtain rfl := text.eq_place (window.lt_length isText hereInside) seen
  exact ⟨along, same, by rw [Window.kind_eq_kindAt isText]; exact text.solid, text.printed⟩

section Texts

variable {rule : TagRule} {parts : TagValue} {first : String} {others : List String}
  (isText : window.first = Cursor.onTokens (tokenize source)) (onLine : place ≤ window.last)
  (joined : TextLines first others) (rereads : ∀ other ∈ others, Line.Rereads ⟨none, other⟩)
  (each : ∀ line ∈ lines, line.Rereads)
  (stops : first ≠ "" → ∀ line ∈ lines.head?, line.continues = false)

include isText onLine joined rereads each stops

/-- A printed text is read as the text, up to the lines of the next child. -/
theorem Prose.parser_printed {starts : TokenKind → String → Prop}
    (recut : Recut first.toList starts) (solid : window.kind place ≠ .blank)
    (printed : PrintedFrom source place first.toList (others.map (Line.mk none) ++ lines)) :
    Prose.parser.Tandem window Prose.parser place (fun found stop =>
      window.AtLineEnd place found stop ∧ found = String.intercalate "\n" (first :: others) ∧
        PrintedFrom source stop [] lines) False := by
  refine .inside fun inside => (Prose.parser_reads onLine).mono (fun found stop read => ?_) id
  exact ⟨read.atLineEnd onLine,
    printed.text_eq isText inside solid recut joined rereads each stops read⟩

/-- A printed value with parts is read again. -/
theorem readRule_printed (laid : PartsLaid name rule parts first)
    (solid : window.kind place ≠ .blank)
    (apart : (window.first.standing place []).isAfterBlank = true)
    (printed : PrintedFrom source place (parts.describe first).print.toList
      (others.map (Line.mk none) ++ lines)) :
    (TagValue.readRule rule).Tandem window (TagValue.readRule rule) place (fun found stop =>
      window.AtLineEnd place found stop ∧
        found.bare = (parts.describe (String.intercalate "\n" (first :: others))).bare ∧
        PrintedFrom source stop [] lines) False := by
  rw [TagValue.readRule_eq]
  refine .bind (readParts_printed isText onLine laid solid apart printed) ?_
  rintro found here ⟨⟨further, hereOnLine⟩, same, solidHere, behind⟩
  rw [TagValue.readDescription]
  split
  · refine .bind (Prose.parser_printed isText hereOnLine joined rereads each stops laid.recut
      solidHere behind) ?_
    rintro _ stop ⟨⟨⟨bound, stopOnLine⟩, atEnd⟩, rfl, left⟩
    refine .pure ⟨⟨⟨Nat.le_trans further bound, stopOnLine⟩, atEnd⟩, ?_, left⟩
    rw [TagValue.bare_describe, same, TagValue.bare_describe]
  · next undescribed =>
      obtain rfl := laid.place (by simpa using undescribed)
      obtain rfl : others = [] := Classical.not_not.mp fun some => joined.goesOn some rfl
      refine .inside fun inside => .pure ⟨⟨⟨further, hereOnLine⟩, ?_⟩, ?_, behind⟩
      · rw [behind.isBreak isText inside]
        decide
      · rw [String.intercalate_singleton, laid.undescribed, same]

/-- The printed value of a tag with parts is read with the rule for the name of the tag. -/
theorem TagValue.parser_printed (laid : PartsLaid name rule parts first)
    (solid : window.kind place ≠ .blank)
    (apart : (window.first.standing place []).isAfterBlank = true)
    (printed : PrintedFrom source place (parts.describe first).print.toList
      (others.map (Line.mk none) ++ lines)) :
    (TagValue.parser name).Tandem window (TagValue.parser name) place (fun found stop =>
      window.AtLineEnd place found stop ∧
        found.bare = (parts.describe (String.intercalate "\n" (first :: others))).bare ∧
        PrintedFrom source stop [] lines) False := by
  have whole := TagValue.readWholeRule_safe
    (readRule_printed isText onLine joined rereads each stops laid solid apart printed)
    fun _ _ found => found.1.2
  refine .marked fun inside => ?_
  rw [laid.known]
  refine .bind (.attempt_safe whole) ?_
  rintro _ stop ⟨found, rfl, reached, same, left⟩
  exact .positioned inside fun attributes =>
    ⟨reached, by rw [TagValue.bare_withAttributes, same], left⟩

end Texts

/-- A printed text does not start with a tag. -/
theorem PrintedFrom.notTag (isText : window.first = Cursor.onTokens (tokenize source))
    (inside : place ≤ window.limit) {text : List Char}
    (recut : Recut text fun kind _ => kind ≠ .tag) (printed : PrintedFrom source place text lines) :
    window.kind place ≠ .tag := by
  obtain ⟨number, last, isDrop⟩ := printed
  obtain ⟨after, isAfter⟩ := Line.exists_printed lines
  obtain ⟨tokens, scanned, -, -, untagged⟩ := recut.again number after
  rw [isAfter, scanned, window.drop_eq_cons isText inside] at isDrop
  cases tokens with
  | nil =>
      rw [List.nil_append, scanFrom_cons] at isDrop
      rw [Window.kind, (List.cons.inj isDrop).1]
      exact TokenKind.noConfusion
  | cons token tokens =>
      rw [Window.kind, (List.cons.inj isDrop).1]
      exact untagged token rfl

namespace Document

/-- A tag is read as its name, and its value from behind the name on. -/
theorem readChild_tag {bad : Prop} {good : TagValue → Nat → Prop}
    (before : place < window.limit) (isTag : window.kind place = .tag)
    (isName : (window.token place).value = name)
    (value : (TagValue.parser name).Tandem window (TagValue.parser name) (window.first.next place)
      good bad) :
    readChild.Tandem window readChild place (fun child stop =>
      ∃ node, child = .tag node ∧ node.name = name ∧ good node.value stop) bad := by
  have tag : readTag.Tandem window readTag place
      (fun node stop => node.name = name ∧ good node.value stop) bad := by
    refine .marked fun inside => ?_
    refine .bind .current ?_
    rintro _ _ ⟨rfl, rfl⟩
    refine .bind (.advance before) ?_
    rintro _ _ rfl
    rw [isName]
    refine .bind value fun found stop isGood => ?_
    exact .positioned inside fun _ => ⟨rfl, isGood⟩
  refine .ifAt (fun _ => .bind tag fun node stop found => ?_) fun notTag => absurd isTag notTag
  exact .pure ⟨node, rfl, found⟩

/-- Where no tag stands, the child is a text. -/
theorem readChild_text {bad : Prop} {good : String → Nat → Prop}
    (notTag : window.kind place ≠ .tag)
    (prose : Prose.parser.Tandem window Prose.parser place good bad) :
    readChild.Tandem window readChild place (fun child stop =>
      ∃ node, child = .text node ∧ good node.text stop) bad := by
  have text : readText.Tandem window readText place (fun node stop => good node.text stop) bad := by
    refine .marked fun inside => .bind prose fun found stop isGood => ?_
    exact .positioned inside fun _ => isGood
  refine .ifAt (fun isTag => absurd isTag notTag) fun _ => .bind text fun node stop found => ?_
  exact .pure ⟨node, rfl, found⟩

/-- A printed child is read again. -/
theorem readChild_printed (isText : window.first = Cursor.onTokens (tokenize source))
    (onLine : place < window.last) (solid : window.kind place ≠ .blank) {child : Child}
    {line : Line} {first : String} {others : List String} (laid : child.Laid line first others)
    (joined : TextLines first others) (rereads : ∀ other ∈ others, Line.Rereads ⟨none, other⟩)
    (each : ∀ line ∈ lines, line.Rereads)
    (stops : first ≠ "" → ∀ line ∈ lines.head?, line.continues = false)
    (printed : PrintedFrom source place line.print.toList (others.map (Line.mk none) ++ lines)) :
    readChild.Tandem window readChild place (fun found stop =>
      window.AtLineEnd place found stop ∧ found.bare = child.bare ∧
        PrintedFrom source stop [] lines) False := by
  have before : place < window.limit := Nat.lt_of_lt_of_le onLine window.last_le
  have further := window.lt_next before
  have nextOnLine := window.next_le_last onLine
  have nextSolid := window.next_solid isText before
  cases laid with
  | @prose tag _ _ named recut same =>
      cases tag with
      | none =>
          have notTag := printed.notTag isText (Nat.le_of_lt before)
            (recut.imp fun _ _ untagged => untagged rfl)
          refine (readChild_text notTag (Prose.parser_printed isText (Nat.le_of_lt onLine) joined
            rereads each stops recut solid printed)).mono ?_ id
          rintro _ stop ⟨node, rfl, reached, isWhole, left⟩
          exact ⟨reached, by rw [same, ← isWhole]; rfl, left⟩
      | some name =>
          obtain ⟨isName, readsText⟩ := named name rfl
          obtain ⟨isTag, isValue, behind, -⟩ := printed.tag isText before isName recut.solidHead
          refine (readChild_tag before isTag isValue (TagValue.parser_ofProse readsText
            (Prose.parser_printed isText nextOnLine joined rereads each stops recut nextSolid
              behind) fun _ _ found => found.1.2)).mono ?_ id
          rintro _ stop ⟨node, rfl, rfl, text, ⟨⟨⟨bound, stopOnLine⟩, atEnd⟩, rfl, left⟩, isValue⟩
          refine ⟨⟨⟨by omega, stopOnLine⟩, atEnd⟩, ?_, left⟩
          rw [same, Child.bare, TagNode.bare, isValue, Line.child]
  | @parts name rule parts _ _ laid same =>
      have startsSolid := laid.startsSolid_describe laid.place
      obtain ⟨isTag, isValue, behind, apart⟩ :=
        printed.tag isText before laid.isName startsSolid.solidHead
      refine (readChild_tag before isTag isValue (TagValue.parser_printed isText nextOnLine joined
        rereads each stops laid nextSolid (apart startsSolid.ne_empty) behind)).mono ?_ id
      rintro _ stop ⟨node, rfl, rfl, ⟨⟨bound, stopOnLine⟩, atEnd⟩, isValue, left⟩
      refine ⟨⟨⟨by omega, stopOnLine⟩, atEnd⟩, ?_, left⟩
      rw [same, Child.bare, TagNode.bare, isValue]

end Document

end Reading

end Docblock
