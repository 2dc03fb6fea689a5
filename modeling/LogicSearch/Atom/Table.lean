import LogicSearch.Atom
import Std.Data.ExtTreeMap

namespace LogicSearch

/-- The predefined atoms as constants. The number of a constant is its place in this list. -/
inductive WellKnown where
  | nil | dot
  | comma | semicolon | cut | truth | fail
  | plus | minus | star | intDiv | mod | min | max | abs | is
  | sameValue | otherValue | less | atMost | greater | atLeast
  | equals | notUnifiable
  | atom | integer | var | nonvar | compound | callable
  | member
  deriving DecidableEq, Repr

namespace WellKnown

def id (w : WellKnown) : UInt32 := .ofNat w.ctorIdx

def value : WellKnown → Atom
  | nil => .nil
  | dot => .dot
  | comma => .comma
  | semicolon => .semicolon
  | cut => .cut
  | truth => .truth
  | fail => .fail
  | plus => .plus
  | minus => .minus
  | star => .star
  | intDiv => .intDiv
  | mod => .mod
  | min => .min
  | max => .max
  | abs => .abs
  | is => .is
  | sameValue => .sameValue
  | otherValue => .otherValue
  | less => .less
  | atMost => .atMost
  | greater => .greater
  | atLeast => .atLeast
  | equals => .equals
  | notUnifiable => .notUnifiable
  | atom => .atom
  | integer => .integer
  | var => .var
  | nonvar => .nonvar
  | compound => .compound
  | callable => .callable
  | member => .member

end WellKnown

structure AtomTable where
  names : Array String
  ids : Std.ExtTreeMap String UInt32 compare

namespace AtomTable

def empty : AtomTable := ⟨#[], ∅⟩

def intern (t : AtomTable) (name : String) : UInt32 × AtomTable :=
  match t.ids[name]? with
  | some id => (id, t)
  | none =>
    let id := UInt32.ofNat t.names.size
    (id, ⟨t.names.push name, t.ids.insert name id⟩)

def internAll (t : AtomTable) (names : List String) : AtomTable :=
  names.foldl (fun table name => (table.intern name).2) t

def predefined : AtomTable := empty.internAll (Atom.predefined.map Atom.name)

def name? (t : AtomTable) (id : UInt32) : Option String := t.names[id.toNat]?

def isPredefined (id : UInt32) : Bool := id.toNat < Atom.predefined.length

def capacity : Nat := UInt32.size - 1

/-- Look a name up, and intern it if it is new, for which there must be room. -/
def request? (t : AtomTable) (name : String) : Option (UInt32 × AtomTable) :=
  match t.ids[name]? with
  | some id => some (id, t)
  | none => if t.names.size < capacity then some (t.intern name) else none

def requestEach? (t : AtomTable) : List String → Option (List UInt32 × AtomTable)
  | [] => some ([], t)
  | name :: names =>
    match t.request? name with
    | none => none
    | some (id, t) => (t.requestEach? names).map fun r => (id :: r.1, r.2)

end AtomTable

end LogicSearch
