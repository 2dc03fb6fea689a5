import LogicSearch.Machine
import LogicSearch.Search.Solver
import LogicSearch.Store.Shown

/-!
A goal from outside that answers as a script says and writes each request to the journal. Its script
is a list of atoms: `t` for an answer, `f` for a failure, `c` for a failure by a cut, `e` for an
error.
-/

namespace LogicSearch

structure Probe where
  name : Term
  script : Term
  committed : Bool

namespace Probe

def report (name : Term) (event : String) (m : Machine) : Machine :=
  m.note (m.store.text name ++ " " ++ event)

def start (name script : Term) (m : Machine) : Probe × Machine :=
  (⟨name, script, false⟩, report name "create" m)

def answer (head : Option Atom) : Except Halt Bool :=
  if head = some ⟨"e"⟩ then .error (.error .instantiation) else .ok (head = some ⟨"t"⟩)

def next (p : Probe) (m : Machine) : Option (Reply Machine Probe) :=
  match m.store.cell? p.script with
  | none => none
  | some none => some ⟨.ok false, p, report p.name "next end" m⟩
  | some (some (head, rest)) =>
      (m.store.asAtom? head).map fun event =>
        ⟨answer event, ⟨p.name, rest, event = some ⟨"c"⟩⟩,
          report p.name ("next " ++ m.store.text head) m⟩

def abort (p : Probe) (m : Machine) : Probe × Machine :=
  (⟨p.name, .nil, p.committed⟩, report p.name "abort" m)

end Probe

end LogicSearch
