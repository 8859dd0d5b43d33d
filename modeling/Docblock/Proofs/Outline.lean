import Docblock.Proofs.Trail
import Docblock.TypeExpr.Grammar

/-!
# Where the nodes of a tree lie

The *outline* of a tree keeps of every node its attributes and its parts, in the order in which
they are written.  A node *occupies* the tokens from a first one to a last one if it has been
given their positions and neither of them is spacing; its parts then lie among these tokens, one
behind the other, as a *row*.

A rule builds a row from left to right while it reads, and turns it into a node when it is done:
the end of the node is looked for backwards from where the rule stopped, over spacing, and no part
of the row reaches into that spacing.
-/

namespace Docblock

/-- A tree of nodes of which only the attributes are known. -/
structure Outline where
  attributes : Attributes
  parts : List Outline

mutual

def ConstExpr.outline : ConstExpr → Outline
  | ⟨form, attributes⟩ => ⟨attributes, form.outlines⟩

def ConstForm.outlines : ConstForm → List Outline
  | .literal _ _ => []
  | .array items _ => ConstItem.outlines items
  | .fetch _ _ => []
  | .minus operand => [operand.outline]

def ConstItem.outline : ConstItem → Outline
  | ⟨none, value, attributes⟩ => ⟨attributes, [value.outline]⟩
  | ⟨some key, value, attributes⟩ => ⟨attributes, [key.outline, value.outline]⟩

def ConstItem.outlines : List ConstItem → List Outline
  | [] => []
  | item :: rest => item.outline :: ConstItem.outlines rest

end

/-- A key that is a constant is a node of its own, a name is not. -/
def ShapeKey.outlines : ShapeKey → List Outline
  | .name _ => []
  | .constant expr => [expr.outline]

mutual

def TypeExpr.outline : TypeExpr → Outline
  | ⟨form, attributes⟩ => ⟨attributes, form.outlines⟩

def TypeForm.outlines : TypeForm → List Outline
  | .identifier _ => []
  | .this => []
  | .nullable inner => [inner.outline]
  | .array inner => [inner.outline]
  | .generic base arguments => base.outline :: TypeExpr.outlines arguments
  | .union operands => TypeExpr.outlines operands
  | .intersection operands => TypeExpr.outlines operands
  | .callable identifier parameters returnType =>
      identifier.outline :: (CallableParameter.outlines parameters ++ [returnType.outline])
  | .shape _ items _ => ShapeItem.outlines items
  | .conditional subject _ target ifType elseType =>
      subject.outlines ++ [target.outline, ifType.outline, elseType.outline]
  | .constant expr => [expr.outline]
  | .invalid _ _ => []

def TypeExpr.outlines : List TypeExpr → List Outline
  | [] => []
  | type :: rest => type.outline :: TypeExpr.outlines rest

def CallableParameter.outline : CallableParameter → Outline
  | ⟨type, _, _, _, _, attributes⟩ => ⟨attributes, [type.outline]⟩

def CallableParameter.outlines : List CallableParameter → List Outline
  | [] => []
  | parameter :: rest => parameter.outline :: CallableParameter.outlines rest

def ShapeItem.outline : ShapeItem → Outline
  | ⟨none, _, value, attributes⟩ => ⟨attributes, [value.outline]⟩
  | ⟨some key, _, value, attributes⟩ => ⟨attributes, key.outlines ++ [value.outline]⟩

def ShapeItem.outlines : List ShapeItem → List Outline
  | [] => []
  | item :: rest => item.outline :: ShapeItem.outlines rest

/-- A parameter that a condition asks about is not a node. -/
def ConditionalSubject.outlines : ConditionalSubject → List Outline
  | .type expr => [expr.outline]
  | .parameter _ => []

end

theorem ConstItem.outlines_eq_map (items : List ConstItem) :
    ConstItem.outlines items = items.map ConstItem.outline := by
  induction items with
  | nil => rfl
  | cons item rest induction => rw [outlines, induction, List.map_cons]

theorem TypeExpr.outlines_eq_map (types : List TypeExpr) :
    TypeExpr.outlines types = types.map TypeExpr.outline := by
  induction types with
  | nil => rfl
  | cons type rest induction => rw [outlines, induction, List.map_cons]

theorem CallableParameter.outlines_eq_map (parameters : List CallableParameter) :
    CallableParameter.outlines parameters = parameters.map CallableParameter.outline := by
  induction parameters with
  | nil => rfl
  | cons parameter rest induction => rw [outlines, induction, List.map_cons]

theorem ShapeItem.outlines_eq_map (items : List ShapeItem) :
    ShapeItem.outlines items = items.map ShapeItem.outline := by
  induction items with
  | nil => rfl
  | cons item rest induction => rw [outlines, induction, List.map_cons]

theorem Attributes.get?_set_of_ne (attributes : Attributes) {key other : String}
    (value : AttributeValue) (different : key ≠ other) :
    (attributes.set other value).get? key = attributes.get? key := by
  have kept (entries : List (String × AttributeValue)) :
      (entries.filter fun entry => entry.1 ≠ other).lookup key = entries.lookup key := by
    induction entries with
    | nil => rfl
    | cons entry rest induction =>
        obtain ⟨name, content⟩ := entry
        by_cases isOther : name = other
        · have differs : (key == name) = false := by
            rw [isOther]
            exact beq_eq_false_iff_ne.mpr different
          rw [List.filter_cons_of_neg (by simpa using isOther), induction, List.lookup_cons,
            differs]
        · rw [List.filter_cons_of_pos (by simpa using isOther), List.lookup_cons, List.lookup_cons,
            induction]
  have absent : [(other, value)].lookup key = none := by
    rw [List.lookup_cons, beq_eq_false_iff_ne.mpr different]
    rfl
  show ((attributes.entries.filter fun entry => entry.1 ≠ other) ++ [(other, value)]).lookup key = _
  rw [List.lookup_append, kept, absent, Option.or_none, get?]

/-- A sealed list of tokens, and the positions that are recorded while it is read. -/
structure Course where
  cursor : Cursor
  tracking : Tracking
  isSealed : cursor.IsSealed

namespace Course

/-- The course through a list of tokens. -/
def ofTokens (tracking : Tracking) (tokens : List Token) : Course :=
  ⟨Cursor.ofTokens tokens, tracking, Cursor.isSealed_ofTokens tokens⟩

variable (course : Course)

/-- The number of tokens. -/
def size : Nat := course.cursor.tokens.size

/-- The kind of the token at a place. -/
def kind (place : Nat) : TokenKind := (course.cursor.tokenAt place).kind

/-- The last place up to the given one at which there is no spacing. -/
def lastSolid (place : Nat) : Nat := course.cursor.lastSolid place

/-- At this place there is a token that is not spacing. -/
def Solid (place : Nat) : Prop := place < course.size ∧ (course.kind place).isTrivia = false

/-- The attributes of a node from token `first` to token `last`. -/
def positions (first last : Nat) : Attributes :=
  let withLines :=
    if course.tracking.lines then
      (Attributes.empty.set Attributes.startLine (.line (course.cursor.lineAt first))).set
        Attributes.endLine (.line (course.cursor.lineAt last))
    else Attributes.empty
  if course.tracking.indexes then
    (withLines.set Attributes.startIndex (.index first)).set Attributes.endIndex (.index last)
  else withLines

section Positions

variable (first last : Nat)

theorem get?_startIndex (indexed : course.tracking.indexes = true) :
    (course.positions first last).get? Attributes.startIndex = some (.index first) := by
  rw [positions, if_pos indexed, Attributes.get?_set_of_ne _ _ (by decide),
    Attributes.get?_set_self]

theorem get?_endIndex (indexed : course.tracking.indexes = true) :
    (course.positions first last).get? Attributes.endIndex = some (.index last) := by
  rw [positions, if_pos indexed, Attributes.get?_set_self]

/-- The indexes do not replace the lines. -/
theorem get?_positions_of_ne {key : String} (notStart : key ≠ Attributes.startIndex)
    (notEnd : key ≠ Attributes.endIndex) :
    (course.positions first last).get? key =
      (if course.tracking.lines then
        (Attributes.empty.set Attributes.startLine (.line (course.cursor.lineAt first))).set
          Attributes.endLine (.line (course.cursor.lineAt last))
      else Attributes.empty).get? key := by
  rw [positions]
  cases course.tracking.indexes with
  | true =>
      rw [if_pos rfl, Attributes.get?_set_of_ne _ _ notEnd, Attributes.get?_set_of_ne _ _ notStart]
  | false => rfl

theorem get?_startLine (lined : course.tracking.lines = true) :
    (course.positions first last).get? Attributes.startLine =
      some (.line (course.cursor.lineAt first)) := by
  rw [get?_positions_of_ne course first last (by decide) (by decide), if_pos lined,
    Attributes.get?_set_of_ne _ _ (by decide), Attributes.get?_set_self]

theorem get?_endLine (lined : course.tracking.lines = true) :
    (course.positions first last).get? Attributes.endLine =
      some (.line (course.cursor.lineAt last)) := by
  rw [get?_positions_of_ne course first last (by decide) (by decide), if_pos lined,
    Attributes.get?_set_self]

/-- Positions are no error. -/
theorem get?_errorKey : (course.positions first last).get? Attributes.errorKey = none := by
  rw [get?_positions_of_ne course first last (by decide) (by decide)]
  cases course.tracking.lines with
  | true =>
      rw [if_pos rfl, Attributes.get?_set_of_ne _ _ (by decide),
        Attributes.get?_set_of_ne _ _ (by decide)]
      rfl
  | false => rfl

end Positions

variable {course : Course} {start last : Nat}

theorem Solid.exists_token (solid : course.Solid start) :
    ∃ token, course.cursor.tokens.toList[start]? = some token ∧
      token.kind ∉ [.blank, .lineBreak] ∧ course.cursor.lineAt start = token.line := by
  obtain ⟨inside, isSolid⟩ := solid
  have isToken : course.cursor.tokens[start]? = some course.cursor.tokens[start] :=
    Array.getElem?_eq_getElem inside
  rw [kind, Cursor.tokenAt, isToken, Option.getD_some] at isSolid
  refine ⟨course.cursor.tokens[start], (Array.getElem?_toList ..).trans isToken, ?_, ?_⟩
  · rintro isSpacing
    simp only [List.mem_cons, List.not_mem_nil, or_false] at isSpacing
    rcases isSpacing with isBlank | isBreak
    · rw [isBlank] at isSolid
      cases isSolid
    · rw [isBreak] at isSolid
      cases isSolid
  · rw [Cursor.lineAt, isToken]

/-- From behind a token that is not spacing, the search for the end of a node finds one. -/
theorem Solid.lastSolid (solid : course.Solid start) (behind : start ≤ last) :
    start ≤ course.lastSolid last ∧
      (last < course.size → course.Solid (course.lastSolid last)) := by
  induction last with
  | zero =>
      obtain rfl : start = 0 := by omega
      exact ⟨Nat.le_refl 0, fun _ => solid⟩
  | succ last induction =>
      have isLast : course.lastSolid (last + 1) =
          if (course.kind (last + 1)).isTrivia then course.lastSolid last else last + 1 := rfl
      rw [isLast]
      cases isTrivia : (course.kind (last + 1)).isTrivia with
      | false => exact ⟨behind, fun inside => ⟨inside, isTrivia⟩⟩
      | true =>
          have before : start ≠ last + 1 := by
            rintro rfl
            rw [solid.2] at isTrivia
            cases isTrivia
          obtain ⟨further, isSolid⟩ := induction (by omega)
          exact ⟨further, fun inside => isSolid (by omega)⟩

end Course

namespace Outline

mutual

/-- The node has been given the positions of the tokens from `first` to `last`, and its parts
lie among them. -/
inductive Occupies (course : Course) : Outline → Nat → Nat → Prop
  | node {parts : List Outline} {first last : Nat} (fromSolid : course.Solid first)
      (toSolid : course.Solid last) (ordered : first ≤ last)
      (row : Row course parts first (last + 1)) :
      Occupies course ⟨course.positions first last, parts⟩ first last

/-- The nodes lie one behind the other among the tokens from `start` on and in front of
`stop`. -/
inductive Row (course : Course) : List Outline → Nat → Nat → Prop
  | nil {start stop : Nat} : Row course [] start stop
  | cons {part : Outline} {rest : List Outline} {start first last stop : Nat}
      (behind : start ≤ first) (occupies : Occupies course part first last)
      (before : last < stop) (others : Row course rest (last + 1) stop) :
      Row course (part :: rest) start stop

end

variable {course : Course} {part : Outline} {parts more : List Outline}
  {start start' first last middle stop stop' : Nat}

theorem Occupies.toSolid (occupies : part.Occupies course first last) : course.Solid last := by
  cases occupies with
  | node _ toSolid _ _ => exact toSolid

theorem Occupies.ordered (occupies : part.Occupies course first last) : first ≤ last := by
  cases occupies with
  | node _ _ ordered _ => exact ordered

theorem Occupies.attributes_eq (occupies : part.Occupies course first last) :
    part.attributes = course.positions first last := by
  cases occupies with
  | node _ _ _ _ => rfl

theorem Row.widen (row : Row course parts start stop) (earlier : start' ≤ start)
    (later : stop ≤ stop') : Row course parts start' stop' := by
  induction parts generalizing start start' with
  | nil => exact .nil
  | cons part rest induction =>
      cases row with
      | cons behind occupies before others =>
          exact .cons (Nat.le_trans earlier behind) occupies (Nat.lt_of_lt_of_le before later)
            (induction others (Nat.le_refl _))

theorem Row.append (row : Row course parts start middle) (others : Row course more middle stop)
    (ordered : start ≤ middle) (further : middle ≤ stop) :
    Row course (parts ++ more) start stop := by
  induction parts generalizing start with
  | nil => exact others.widen ordered (Nat.le_refl stop)
  | cons part rest induction =>
      cases row with
      | cons behind occupies before row =>
          exact .cons behind occupies (Nat.lt_of_lt_of_le before further) (induction row before)

/-- No part of a row reaches into the spacing at its end. -/
theorem Row.tighten (row : Row course parts start stop) :
    Row course parts start (course.lastSolid (stop - 1) + 1) := by
  induction parts generalizing start with
  | nil => exact .nil
  | cons part rest induction =>
      cases row with
      | cons behind occupies before others =>
          have reached := (occupies.toSolid.lastSolid (Nat.le_sub_one_of_lt before)).1
          exact .cons behind occupies (Nat.lt_succ_of_le reached) (induction others)

theorem Row.of_mem (row : Row course parts start stop) (isPart : part ∈ parts) :
    ∃ first last, start ≤ first ∧ last < stop ∧ part.Occupies course first last := by
  induction parts generalizing start with
  | nil => cases isPart
  | cons head rest induction =>
      cases row with
      | @cons _ _ _ first last _ behind occupies before others =>
          rcases List.mem_cons.mp isPart with rfl | isRest
          · exact ⟨first, last, behind, before, occupies⟩
          · obtain ⟨first', last', further, before', occupies'⟩ := induction others isRest
            have ordered := occupies.ordered
            exact ⟨first', last', by omega, before', occupies'⟩

end Outline

namespace Course

variable {course : Course} {part : Outline} {parts more : List Outline} {start middle stop : Nat}

/-- Something has been read from `start` on up to `stop`, and its parts lie in a row. -/
structure Read (course : Course) (parts : List Outline) (start stop : Nat) : Prop where
  solid : course.Solid start
  further : start < stop
  row : Outline.Row course parts start stop

/-- A part has been read, behind what goes in front of it. -/
structure Adds (course : Course) (part : Outline) (start stop : Nat) : Prop where
  further : start < stop
  row : Outline.Row course [part] start stop

/-- These are the attributes of whatever has been read from `start` on up to `stop`. -/
def Frames (course : Course) (attributes : Attributes) (start stop : Nat) : Prop :=
  ∀ parts, course.Read parts start stop → course.Read [⟨attributes, parts⟩] start stop

theorem Read.skip (read : course.Read parts start middle) (further : middle ≤ stop) :
    course.Read parts start stop :=
  ⟨read.solid, Nat.lt_of_lt_of_le read.further further, read.row.widen (Nat.le_refl start) further⟩

theorem Read.add (read : course.Read parts start middle) (further : middle ≤ stop)
    (row : Outline.Row course more middle stop) : course.Read (parts ++ more) start stop :=
  ⟨read.solid, Nat.lt_of_lt_of_le read.further further,
    read.row.append row (Nat.le_of_lt read.further) further⟩

theorem Read.trans (read : course.Read parts start middle)
    (behind : course.Read more middle stop) : course.Read (parts ++ more) start stop :=
  read.add (Nat.le_of_lt behind.further) behind.row

/-- What has been read need not become a part. -/
theorem Read.forget (read : course.Read parts start stop) : course.Read [] start stop :=
  ⟨read.solid, read.further, .nil⟩

theorem Read.adds (read : course.Read [part] middle stop) (further : start ≤ middle) :
    course.Adds part start stop :=
  ⟨Nat.lt_of_le_of_lt further read.further, read.row.widen further (Nat.le_refl stop)⟩

/-- A node ends with the last token in front of the cursor that is not spacing. -/
theorem frames_positions (inside : stop ≤ course.size) :
    course.Frames (course.positions start (course.lastSolid (stop - 1))) start stop := by
  intro parts read
  have further := read.further
  obtain ⟨ordered, isSolid⟩ := read.solid.lastSolid (Nat.le_sub_one_of_lt further)
  have before : course.lastSolid (stop - 1) ≤ stop - 1 := course.cursor.lastSolid_le _
  have occupies := Outline.Occupies.node read.solid (isSolid (by omega)) ordered read.row.tighten
  exact ⟨read.solid, further, .cons (Nat.le_refl start) occupies (by omega) .nil⟩

end Course

end Docblock
