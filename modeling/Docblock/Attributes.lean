import Docblock.SyntaxError

/-!
# Attributes of nodes

Every node of a tree carries a map of attributes: positions, the error behind
an invalid node, or whatever a user of the tree attaches.  Attributes say
something about a node without being a part of it, so any two maps count as
equal when nodes are compared, and printing a node ignores them.
-/

namespace Docblock

/-- The value of an attribute.  Numbers of different nature are kept apart. -/
inductive AttributeValue
  | number (value : Int)
  | line (value : UInt32)
  | index (value : Nat)
  | flag (value : Bool)
  | text (value : String)
  | error (value : SyntaxError)
  deriving DecidableEq, Repr

/-- A map from keys to values; no key occurs twice. -/
structure Attributes where
  entries : List (String × AttributeValue)
  distinct : (entries.map Prod.fst).Nodup

namespace Attributes

/-- The key of the line on which a node starts. -/
def startLine : String := "start_line"

/-- The key of the line on which a node ends. -/
def endLine : String := "end_line"

/-- The key of the index of the first token of a node. -/
def startIndex : String := "start_index"

/-- The key of the index of the last token of a node. -/
def endIndex : String := "end_index"

/-- The key of the error behind an invalid node. -/
def errorKey : String := "error"

/-- The map without entries. -/
def empty : Attributes := ⟨[], by simp⟩

instance : Inhabited Attributes := ⟨empty⟩

/-- Attributes are remarks, not content: any two maps compare equal. -/
instance : BEq Attributes := ⟨fun _ _ => true⟩

/-- The value under a key. -/
def get? (attributes : Attributes) (key : String) : Option AttributeValue :=
  attributes.entries.lookup key

/-- Whether there is a value under a key. -/
def contains (attributes : Attributes) (key : String) : Bool :=
  (attributes.get? key).isSome

/-- The number of entries. -/
def size (attributes : Attributes) : Nat := attributes.entries.length

/-- Whether there is no entry. -/
def isEmpty (attributes : Attributes) : Bool := attributes.entries.isEmpty

private theorem nodup_keys_filter {entries : List (String × AttributeValue)}
    (distinct : (entries.map Prod.fst).Nodup) (keep : String × AttributeValue → Bool) :
    ((entries.filter keep).map Prod.fst).Nodup :=
  distinct.sublist ((List.filter_sublist (l := entries)).map Prod.fst)

/-- Takes the value under a key out of the map. -/
def erase (attributes : Attributes) (key : String) : Attributes :=
  ⟨attributes.entries.filter fun entry => entry.1 ≠ key,
    nodup_keys_filter attributes.distinct _⟩

/-- Puts a value under a key in place of the one that may be there. -/
def set (attributes : Attributes) (key : String) (value : AttributeValue) : Attributes :=
  ⟨(attributes.erase key).entries ++ [(key, value)], by
    rw [List.map_append, List.nodup_append]
    refine ⟨(attributes.erase key).distinct, by simp, ?_⟩
    intro kept keptMem added addedMem
    simp only [erase, List.mem_map, List.mem_filter, decide_eq_true_eq] at keptMem
    obtain ⟨entry, ⟨_, entryNe⟩, rfl⟩ := keptMem
    simp only [List.map_cons, List.map_nil, List.mem_singleton] at addedMem
    rw [addedMem]
    exact entryNe⟩

@[simp] theorem get?_set_self (attributes : Attributes) (key : String) (value : AttributeValue) :
    (attributes.set key value).get? key = some value := by
  have absent : (attributes.erase key).entries.lookup key = none := by
    rw [List.lookup_eq_none_iff]
    intro entry kept
    have differs : entry.1 ≠ key := of_decide_eq_true (List.mem_filter.mp kept).2
    exact bne_iff_ne.mpr differs.symm
  rw [get?, set, List.lookup_append, absent]
  simp

/-- The map as a listing of its keys in ascending order. -/
def describe (attributes : Attributes) : String :=
  let keys := (attributes.entries.map Prod.fst).mergeSort fun first second => first ≤ second
  "\x7b" ++ String.intercalate ", " (keys.map Text.quoted) ++ "\x7d"

end Attributes

end Docblock
