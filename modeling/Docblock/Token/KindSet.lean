import Docblock.Token.Kind

/-!
# Sets of token kinds

A set of kinds is a word with one bit for each kind, so equal sets are equal
words and membership is a single bit test.  The grammar uses such sets to say
where a run of text ends and which tokens can start a construct.
-/

namespace Docblock

/-- A set of token kinds: bit `kind.index` tells whether `kind` is a member. -/
structure KindSet where
  bits : BitVec 34
  deriving DecidableEq, Repr, Inhabited

namespace KindSet

/-- The set without members. -/
def empty : KindSet := ⟨0⟩

/-- The set whose only member is `kind`. -/
def single (kind : TokenKind) : KindSet := ⟨1#34 <<< kind.index⟩

/-- The members of either set. -/
def union (first second : KindSet) : KindSet := ⟨first.bits ||| second.bits⟩

/-- The set with `kind` as a further member. -/
def insert (set : KindSet) (kind : TokenKind) : KindSet := set.union (single kind)

/-- The set of the kinds in a list. -/
def ofList (kinds : List TokenKind) : KindSet := kinds.foldl insert empty

/-- Membership of a kind. -/
def contains (set : KindSet) (kind : TokenKind) : Bool := set.bits.getLsbD kind.index

/-- The members, in the fixed order of the kinds. -/
def toList (set : KindSet) : List TokenKind := TokenKind.all.filter set.contains

/-- The number of members. -/
def size (set : KindSet) : Nat := set.toList.length

/-- Whether there is no member. -/
def isEmpty (set : KindSet) : Bool := set == empty

@[simp] theorem contains_empty (kind : TokenKind) : empty.contains kind = false := by
  simp [empty, contains]

@[simp] theorem contains_single (member kind : TokenKind) :
    (single member).contains kind = (member == kind) := by
  cases member <;> cases kind <;> decide

@[simp] theorem contains_union (first second : KindSet) (kind : TokenKind) :
    (first.union second).contains kind = (first.contains kind || second.contains kind) := by
  simp [union, contains]

@[simp] theorem contains_insert (set : KindSet) (member kind : TokenKind) :
    (set.insert member).contains kind = (set.contains kind || member == kind) := by
  simp [insert]

/-- A list of kinds and its set have the same members. -/
theorem contains_ofList (kinds : List TokenKind) (kind : TokenKind) :
    (ofList kinds).contains kind = kinds.contains kind := by
  have gathered : ∀ (rest : List TokenKind) (set : KindSet),
      (rest.foldl insert set).contains kind = (set.contains kind || rest.contains kind) := by
    intro rest
    induction rest with
    | nil => intro set; simp
    | cons first rest induction =>
        intro set
        rw [List.foldl_cons, induction, contains_insert, List.contains_cons,
          Bool.or_assoc, Bool.beq_comm]
  simpa [ofList] using gathered kinds empty

end KindSet

end Docblock
