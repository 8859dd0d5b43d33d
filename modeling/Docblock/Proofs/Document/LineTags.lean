import Docblock.Proofs.Document.Structure

/-!
# The tags of a comment are those that start a line

A tag is a tag of the comment if it comes first on its line: only blanks stand between it and the
opening marker or a line break.  Types that go over several lines, descriptions that go on and
attempts that fail all stop in front of such a tag, and no other at sign makes a tag.
-/

namespace Docblock

open Docblock.Parser

namespace TokenList

/-- The index of the nearest token in front of `place` that is no blank. -/
def solidBefore? (tokens : List Token) : Nat → Option Nat
  | 0 => none
  | place + 1 =>
      if tokens[place]?.any (·.kind = .blank) then solidBefore? tokens place else some place

/-- Whether a tag stands at `place` and comes first on its line: the nearest token in front of it
that is no blank is the opening marker or a line break. -/
def isLineTag (tokens : List Token) (place : Nat) : Bool :=
  tokens[place]?.any (·.kind = .tag) &&
    (solidBefore? tokens place).any fun before =>
      before = tokens.findIdx (·.kind = .openDoc) || tokens[before]?.any (·.kind = .lineBreak)

/-- The tags that come first on their lines, from `start` up to `stop`. -/
def lineTagsIn (tokens : List Token) (start stop : Nat) : List Token :=
  ((List.range' start (stop - start)).filter (isLineTag tokens)).filterMap (tokens[·]?)

/-- The tags that come first on their lines, up to the first close marker. -/
def lineTags (tokens : List Token) : List Token :=
  lineTagsIn tokens 0 (tokens.findIdx (·.kind = .closeDoc))

variable {tokens : List Token} {place before start middle stop : Nat}

theorem any_kind (tokens : List Token) (place : Nat) {kind : TokenKind}
    (notFinish : kind ≠ .finish) : tokens[place]?.any (·.kind = kind) =
      decide (((Cursor.onTokens tokens).tokenAt place).kind = kind) := by
  rw [Cursor.tokenAt_onTokens]
  cases tokens[place]? with
  | some token => rfl
  | none => exact (decide_eq_false notFinish.symm).symm

theorem solidBefore?_spec (found : solidBefore? tokens place = some before) :
    before < place ∧ ∀ between, before < between → between < place →
      ((Cursor.onTokens tokens).tokenAt between).kind = .blank := by
  induction place with
  | zero => cases found
  | succ place induction =>
      rw [solidBefore?, any_kind tokens place (by decide)] at found
      split at found
      · next isBlank =>
          obtain ⟨behind, blanks⟩ := induction found
          refine ⟨by omega, fun between after inFront => ?_⟩
          rcases Nat.lt_or_eq_of_le (Nat.le_of_lt_succ inFront) with earlier | rfl
          · exact blanks between after earlier
          · exact of_decide_eq_true isBlank
      · cases found
        exact ⟨by omega, fun between after inFront => by omega⟩

/-- A solid token in front of a place bounds the nearest one. -/
theorem exists_solidBefore (solid : ((Cursor.onTokens tokens).tokenAt start).kind ≠ .blank)
    (inFront : start < place) :
    ∃ before, solidBefore? tokens place = some before ∧ start ≤ before := by
  induction place with
  | zero => omega
  | succ place induction =>
      rw [solidBefore?, any_kind tokens place (by decide)]
      split
      · next isBlank =>
          refine induction (Nat.lt_of_le_of_ne (Nat.le_of_lt_succ inFront) ?_)
          rintro rfl
          exact solid (of_decide_eq_true isBlank)
      · exact ⟨place, rfl, Nat.le_of_lt_succ inFront⟩

theorem lineTagsIn_append (inFront : start ≤ middle) (behind : middle ≤ stop) :
    lineTagsIn tokens start stop =
      lineTagsIn tokens start middle ++ lineTagsIn tokens middle stop := by
  have isSum : stop - start = (middle - start) + (stop - middle) := by omega
  have isMiddle : start + (middle - start) = middle := by omega
  rw [lineTagsIn, isSum, ← List.range'_append_1, isMiddle, List.filter_append,
    List.filterMap_append]
  rfl

theorem lineTagsIn_eq_nil
    (none : ∀ place, start ≤ place → place < stop → isLineTag tokens place = false) :
    lineTagsIn tokens start stop = [] := by
  have isEmpty : (List.range' start (stop - start)).filter (isLineTag tokens) = [] := by
    rw [List.filter_eq_nil_iff]
    intro place isMember
    rw [List.mem_range'_1] at isMember
    rw [none place (by omega) (by omega)]
    exact Bool.false_ne_true
  rw [lineTagsIn, isEmpty]
  rfl

theorem isLineTag_eq_false (notTag : ((Cursor.onTokens tokens).tokenAt place).kind ≠ .tag) :
    isLineTag tokens place = false := by
  rw [isLineTag, any_kind tokens place (by decide), decide_eq_false notTag, Bool.false_and]

end TokenList

/-- The kind of the token of a text at a place. -/
def kindAt (source : String) (place : Nat) : TokenKind :=
  ((Cursor.onTokens (tokenize source)).tokenAt place).kind

theorem Window.kind_eq_kindAt {window : Window} {source : String}
    (isText : window.first = Cursor.onTokens (tokenize source)) (place : Nat) :
    window.kind place = kindAt source place := by
  rw [Window.kind, Window.token, isText, kindAt]

theorem lt_length_of_kindAt {source : String} {place : Nat}
    (notFinish : kindAt source place ≠ .finish) : place < (tokenize source).length := by
  by_contra beyond
  refine notFinish ?_
  rw [kindAt, Cursor.tokenAt_onTokens, List.getElem?_eq_none (by omega)]
  rfl

theorem kindAt_succ_ne_blank {source : String} {place : Nat}
    (isBlank : kindAt source place = .blank) : kindAt source (place + 1) ≠ .blank := by
  by_cases inside : place + 1 < (tokenize source).length
  · have apart := List.isChain_iff_getElem.mp (singleBlanks_tokenize source) place inside
    rw [kindAt, Cursor.tokenAt_onTokens, List.getElem?_eq_getElem (by omega)] at isBlank
    rw [kindAt, Cursor.tokenAt_onTokens, List.getElem?_eq_getElem inside]
    exact apart isBlank
  · intro isBlank'
    exact inside (lt_length_of_kindAt (by rw [isBlank']; decide))

/-- The window that reaches to a tag that comes first on its line. -/
def Window.beforeTag {source : String} {place before : Nat} (isTag : kindAt source place = .tag)
    (isBefore : TokenList.solidBefore? (tokenize source) place = some before)
    (isBreak : kindAt source before = .lineBreak) : Window where
  first := .onTokens (tokenize source)
  second := .onTokens (tokenize source)
  limit := place
  last := before
  inFirst := by
    rw [Cursor.size_onTokens]
    exact lt_length_of_kindAt (by rw [isTag]; decide)
  inSecond := by
    rw [Cursor.size_onTokens]
    exact lt_length_of_kindAt (by rw [isTag]; decide)
  tokens _ _ := rfl
  offsets _ _ := rfl
  bars := by
    show kindAt source place ∈ _
    rw [isTag]
    decide
  last_le := Nat.le_of_lt (TokenList.solidBefore?_spec isBefore).1
  near := by
    by_contra far
    have blanks := (TokenList.solidBefore?_spec isBefore).2
    exact kindAt_succ_ne_blank (blanks (before + 1) (by omega) (by omega))
      (blanks (before + 2) (by omega) (by omega))
  ends := by
    show kindAt source before ∈ _
    rw [isBreak]
    decide
  blanks := (TokenList.solidBefore?_spec isBefore).2
  named := by
    intro between inside isWord
    have inText : between < (tokenize source).length :=
      Nat.lt_of_le_of_lt inside (lt_length_of_kindAt (by rw [isTag]; decide))
    rw [Cursor.tokenAt_onTokens, List.getElem?_eq_getElem inText] at isWord ⊢
    exact isIdentifier_of_mem_tokenize (List.getElem_mem inText) isWord

theorem TagRule.ofName?_eq_none_iff (name : String) :
    ofName? name = none ↔ name ∉ table.map Prod.fst := by
  rw [ofName?, List.lookup_eq_none_iff, List.mem_map]
  constructor
  · rintro none ⟨entry, isMember, rfl⟩
    exact bne_iff_ne.mp (none entry isMember) rfl
  · intro absent entry isMember
    exact bne_iff_ne.mpr fun isName => absent ⟨entry, isMember, isName.symm⟩

theorem TagValue.Fits.isGeneric_iff {window : Window} {name : String} {value : TagValue}
    (fits : value.Fits window name) :
    (∃ text, value = .generic text) ↔ TagRule.ofName? name = none := by
  have known (isSome : (TagRule.ofName? name).isSome = true) : ¬TagRule.ofName? name = none :=
    Option.isSome_iff_ne_none.mp isSome
  cases value with
  | generic text => exact iff_of_true ⟨text, rfl⟩ fits
  | invalid value => exact iff_of_false (by simp) (known fits.1)
  | _ => exact iff_of_false (by simp) (known fits)

namespace Document

section Texts

variable {source : String} {window : Window} {opening here : Nat}

theorem entry_le_of_solid {place : Nat} (solid : kindAt source place ≠ .blank) :
    Cursor.entry (tokenize source) ≤ place := by
  rw [Cursor.entry]
  split
  · next isBlank =>
      rw [List.head?_eq_getElem?, TokenList.any_kind _ _ (by decide)] at isBlank
      by_contra isZero
      obtain rfl : place = 0 := by omega
      exact solid (of_decide_eq_true isBlank)
  · exact Nat.zero_le place

theorem findIdx_openDoc (isOpen : kindAt source (Cursor.entry (tokenize source)) = .openDoc) :
    (tokenize source).findIdx (·.kind = .openDoc) = Cursor.entry (tokenize source) := by
  have inside : Cursor.entry (tokenize source) < (tokenize source).length :=
    lt_length_of_kindAt (by rw [isOpen]; decide)
  rw [kindAt, Cursor.tokenAt_onTokens, List.getElem?_eq_getElem inside] at isOpen
  rw [List.findIdx_eq inside]
  refine ⟨decide_eq_true isOpen, fun place inFront => ?_⟩
  by_contra isOpen'
  have solid : kindAt source place ≠ .blank := by
    rw [kindAt, Cursor.tokenAt_onTokens, List.getElem?_eq_getElem (by omega), Option.getD_some,
      show (tokenize source)[place].kind = .openDoc by simpa using isOpen']
    decide
  exact Nat.lt_irrefl _ (Nat.lt_of_lt_of_le inFront (entry_le_of_solid solid))

/-- Where a line starts there is no blank, and a tag there comes first on its line. -/
theorem startsLine_spec (isText : window.first = Cursor.onTokens (tokenize source))
    (isEntry : Cursor.entry (tokenize source) = opening) (isOpen : kindAt source opening = .openDoc)
    (starts : window.StartsLine opening here) :
    opening < here ∧ kindAt source here ≠ .blank ∧
      TokenList.isLineTag (tokenize source) here = decide (kindAt source here = .tag) := by
  obtain ⟨before, inside, isStart, isNext⟩ := starts
  rw [Window.kind_eq_kindAt isText] at isStart
  have solid : kindAt source before ≠ .blank := by
    rcases isStart with rfl | isBreak
    · rw [isOpen]
      decide
    · rw [isBreak]
      decide
  have behind : opening ≤ before := by
    rw [← isEntry]
    exact entry_le_of_solid solid
  have isSolid : TokenList.solidBefore? (tokenize source) (before + 1) = some before := by
    rw [TokenList.solidBefore?, TokenList.any_kind _ _ (by decide), if_neg]
    exact fun isBlank => solid (of_decide_eq_true isBlank)
  have leads : (decide (before = (tokenize source).findIdx (·.kind = .openDoc)) ||
      (tokenize source)[before]?.any (·.kind = .lineBreak)) = true := by
    rw [TokenList.any_kind _ _ (by decide), Bool.or_eq_true]
    rcases isStart with rfl | isBreak
    · rw [← isEntry] at isOpen
      exact .inl (decide_eq_true (by rw [findIdx_openDoc isOpen, isEntry]))
    · exact .inr (decide_eq_true isBreak)
  have isLineTag_of (found : TokenList.solidBefore? (tokenize source) here = some before) :
      TokenList.isLineTag (tokenize source) here = decide (kindAt source here = .tag) := by
    rw [TokenList.isLineTag, TokenList.any_kind _ _ (by decide), found, Option.any_some, leads,
      Bool.and_true]
    rfl
  rw [(window.next_eq inside).1, Window.kind_eq_kindAt isText] at isNext
  split at isNext
  · next isBlank =>
      obtain rfl := isNext
      refine ⟨by omega, kindAt_succ_ne_blank isBlank, isLineTag_of ?_⟩
      rw [TokenList.solidBefore?, TokenList.any_kind _ _ (by decide), if_pos, isSolid]
      exact decide_eq_true isBlank
  · next notBlank =>
      obtain rfl := isNext
      exact ⟨by omega, notBlank, isLineTag_of isSolid⟩

/-- A child stops in front of the next tag that comes first on its line. -/
theorem readChild_beforeTags (isText : window.first = Cursor.onTokens (tokenize source))
    (closed : window.last = window.limit) (isEntry : Cursor.entry (tokenize source) = opening)
    (isOpen : kindAt source opening = .openDoc) (starts : window.StartsLine opening here) :
    readChild.Tandem window readChild here
      (fun child stop => window.AtLineEnd here child stop ∧
        child.Fits window (window.token here) ∧
        ∀ place, here < place → TokenList.isLineTag (tokenize source) place = true →
          stop < place) False := by
  obtain ⟨behind, solid, -⟩ := startsLine_spec isText isEntry isOpen starts
  intro inside tracking saved saved'
  obtain ⟨child, stop, stopInside, ⟨reached, fits⟩, isFirst, isSecond⟩ :=
    (readChild_tandem (by omega)).exists_ok inside tracking saved saved'
  rw [isFirst, isSecond]
  refine .ok stopInside ⟨reached, fits, ?_⟩
  intro place inFront isLineTag
  rw [TokenList.isLineTag, TokenList.any_kind _ _ (by decide), Bool.and_eq_true] at isLineTag
  obtain ⟨isTag, leads⟩ := isLineTag
  obtain ⟨before, isBefore, bound⟩ := TokenList.exists_solidBefore solid inFront
  have isBreak : kindAt source before = .lineBreak := by
    rw [isBefore, Option.any_some, TokenList.any_kind _ _ (by decide), Bool.or_eq_true] at leads
    refine of_decide_eq_true (leads.resolve_left fun isOpening => ?_)
    rw [decide_eq_true_eq, findIdx_openDoc (by rwa [isEntry]), isEntry] at isOpening
    omega
  -- the same reading, in the window that reaches to the tag
  rw [isText] at isFirst
  have narrow : readChild.Tandem (.beforeTag (of_decide_eq_true isTag) isBefore isBreak) readChild
      here _ False := readChild_tandem bound
  obtain ⟨child', stop', -, ⟨⟨⟨-, stopBound⟩, -⟩, -⟩, isFirst', -⟩ :=
    narrow.exists_ok (Nat.le_of_lt inFront) tracking saved saved
  have sameStop : stop = stop' :=
    congrArg Cursor.index (Reply.ok.inj (isFirst.symm.trans isFirst')).2
  calc stop = stop' := sameStop
    _ ≤ before := stopBound
    _ < place := (TokenList.solidBefore?_spec isBefore).1

/-- From the start of a child to its end, the tags that come first on their lines are the child
itself if it is one. -/
theorem lineTagsIn_child {child : Child} {stop : Nat}
    (isText : window.first = Cursor.onTokens (tokenize source))
    (isEntry : Cursor.entry (tokenize source) = opening) (isOpen : kindAt source opening = .openDoc)
    (starts : window.StartsLine opening here) (reached : window.AtLineEnd here child stop)
    (fits : child.Fits window (window.token here))
    (stops : ∀ place, here < place → TokenList.isLineTag (tokenize source) place = true →
      stop < place) :
    child.tag?.toList.map TagNode.name =
      (TokenList.lineTagsIn (tokenize source) here stop).map Token.value := by
  obtain ⟨-, -, isLineTag⟩ := startsLine_spec isText isEntry isOpen starts
  have noOther (place : Nat) (behind : here < place) (inFront : place < stop) :
      TokenList.isLineTag (tokenize source) place = false := by
    rw [Bool.eq_false_iff]
    intro isOther
    have := stops place behind isOther
    omega
  have kind_eq : (window.token here).kind = kindAt source here := Window.kind_eq_kindAt isText here
  cases child with
  | text node =>
      have notTag : kindAt source here ≠ .tag := by
        rw [← kind_eq]
        exact fits
      rw [TokenList.lineTagsIn_eq_nil, Child.tag?]
      · rfl
      intro place behind inFront
      rcases Nat.lt_or_eq_of_le behind with behind | rfl
      · exact noOther place behind inFront
      · rw [isLineTag, decide_eq_false notTag]
  | tag node =>
      obtain ⟨isTag, isName, -⟩ := fits
      rw [kind_eq] at isTag
      have further : here < stop := by
        refine Nat.lt_of_le_of_ne reached.1.1 ?_
        rintro rfl
        have atEnd := reached.2
        rw [Window.kind, kind_eq, isTag] at atEnd
        exact absurd atEnd (by decide)
      have inside : here < (tokenize source).length := lt_length_of_kindAt (by rw [isTag]; decide)
      have isToken : (tokenize source)[here]? = some (window.token here) := by
        rw [Window.token, isText, Cursor.tokenAt_onTokens, List.getElem?_eq_getElem inside,
          Option.getD_some]
      have isFirst :
          TokenList.lineTagsIn (tokenize source) here (here + 1) = [window.token here] := by
        rw [TokenList.lineTagsIn, Nat.add_sub_cancel_left, List.range'_one, List.filter_cons_of_pos,
          List.filter_nil, List.filterMap_cons_some isToken, List.filterMap_nil]
        rw [isLineTag, decide_eq_true isTag]
      rw [TokenList.lineTagsIn_append (Nat.le_succ here) further, isFirst,
        TokenList.lineTagsIn_eq_nil noOther, Child.tag?]
      simp [isName]

/-- A step from a token that is no tag passes over no tag. -/
theorem lineTagsIn_next (isText : window.first = Cursor.onTokens (tokenize source))
    (inside : here < window.limit) (notTag : kindAt source here ≠ .tag) :
    TokenList.lineTagsIn (tokenize source) here (window.first.next here) = [] := by
  refine TokenList.lineTagsIn_eq_nil fun place behind inFront => ?_
  refine TokenList.isLineTag_eq_false ?_
  rw [(window.next_eq inside).1, Window.kind_eq_kindAt isText] at inFront
  split at inFront
  · next isBlank =>
      rcases Nat.lt_or_eq_of_le behind with behind | rfl
      · obtain rfl : place = here + 1 := by omega
        show kindAt source (here + 1) ≠ .tag
        rw [isBlank]
        decide
      · exact notTag
  · obtain rfl : place = here := by omega
    exact notTag

theorem names_of_accepted {tracking : Tracking} {document : Document} {cursor : Cursor}
    (isText : window.first = Cursor.onTokens (tokenize source)) (whole : window.Whole)
    (isLimit : window.limit = (tokenize source).findIdx (·.kind = .closeDoc))
    (isOpen : window.kind (Cursor.entry (tokenize source)) = .openDoc)
    (inside : Cursor.entry (tokenize source) < window.limit)
    (accepted : parser tracking (window.first.standing (Cursor.entry (tokenize source)) []) =
      .ok document cursor) :
    document.tags.map TagNode.name = (TokenList.lineTags (tokenize source)).map Token.value := by
  have isOpen' := isOpen
  rw [Window.kind_eq_kindAt isText] at isOpen'
  rw [TokenList.lineTags, ← isLimit]
  -- up to each place, the children read so far are the tags that come first on their lines
  refine covers_of_accepted
    (fun here child stop => here ≤ stop ∧ child.tag?.toList.map TagNode.name =
      (TokenList.lineTagsIn (tokenize source) here stop).map Token.value)
    (fun children stop => (children.filterMap Child.tag?).map TagNode.name =
      (TokenList.lineTagsIn (tokenize source) 0 stop).map Token.value)
    whole isOpen (Nat.le_of_lt inside) accepted ?_ ?_ ?_ ?_
  · have none : TokenList.lineTagsIn (tokenize source) 0 (Cursor.entry (tokenize source)) = [] := by
      refine TokenList.lineTagsIn_eq_nil fun place _ inFront => TokenList.isLineTag_eq_false ?_
      intro isTag
      have solid : kindAt source place ≠ .blank := by
        rw [kindAt, isTag]
        decide
      exact Nat.lt_irrefl _ (Nat.lt_of_lt_of_le inFront (entry_le_of_solid solid))
    rw [TokenList.lineTagsIn_append (Nat.zero_le _) (Nat.le_of_lt (window.lt_next inside)), none,
      lineTagsIn_next isText inside (by rw [isOpen']; decide)]
    rfl
  · intro here starts
    refine (readChild_beforeTags isText whole.last_eq rfl isOpen' starts).mono ?_ id
    rintro child stop ⟨reached, fits, stops⟩
    exact ⟨reached, reached.1.1, lineTagsIn_child isText rfl isOpen' starts reached fits stops⟩
  · rintro children here child stop covered ⟨behind, isOne⟩
    rw [List.filterMap_append, List.map_append, covered,
      TokenList.lineTagsIn_append (Nat.zero_le here) behind, List.map_append, ← isOne]
    cases child <;> rfl
  · intro children here covered before isBreak
    have notTag : kindAt source here ≠ .tag := by
      rw [← Window.kind_eq_kindAt isText, isBreak]
      decide
    rw [TokenList.lineTagsIn_append (Nat.zero_le here) (Nat.le_of_lt (window.lt_next before)),
      lineTagsIn_next isText before notTag, List.append_nil]
    exact covered

end Texts

/-- The names of the tags of a comment are, in order, those of the tags that come first on their
lines in front of the first close marker, and the value of a tag is generic exactly if there is
no rule for its name. -/
theorem tags_eq_lineTags (tracking : Tracking) (source : String) (document : Document)
    (accepted : ofTokens tracking (tokenize source) = .ok document) :
    document.tags.map TagNode.name = (TokenList.lineTags (tokenize source)).map Token.value ∧
    ∀ node ∈ document.tags,
      (∃ value, node.value = .generic value) ↔ node.name ∉ TagRule.table.map Prod.fst := by
  obtain ⟨window, cursor, isText, whole, isLimit, isOpen, inside, isRun⟩ := exists_window accepted
  refine ⟨names_of_accepted isText whole isLimit isOpen inside isRun, fun node isMember => ?_⟩
  have fits := fits_of_accepted whole isOpen (Nat.le_of_lt inside) isRun node isMember
  rw [← TagRule.ofName?_eq_none_iff]
  exact fits.isGeneric_iff

/-- A type that goes over several lines and is never finished stops in front of the next tag, and
an at sign within a line makes no tag. -/
theorem tags_eq_lineTags_unfinishedType :
    let source := "/** @see mail @home\n * @param array<\n * int,\n * @var int $x\n */"
    ∃ document, ofTokens .off (tokenize source) = .ok document ∧
      document.tags.map TagNode.name = ["@see", "@param", "@var"] := by
  intro source
  have isAccepted : (match ofTokens .off (tokenize source) with
      | .ok _ => true
      | .error _ => false) = true := by decide +kernel
  split at isAccepted
  · next document accepted =>
      refine ⟨document, accepted, ?_⟩
      rw [(tags_eq_lineTags .off source document accepted).1]
      decide +kernel
  · cases isAccepted

end Document

end Docblock
