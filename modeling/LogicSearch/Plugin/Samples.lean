import LogicSearch.Plugin
import LogicSearch.Plugin.Digit
import LogicSearch.Plugin.Probe
import LogicSearch.Registry.Builtin

namespace LogicSearch

inductive Sample where
  | digit (d : Digit)
  | probe (p : Probe)

namespace Sample

instance : Plugin Sample where
  next
    | _, _, fuel, digit d, m => (d.next fuel m).map (Reply.map digit)
    | _, _, _, probe p, m => (p.next m).map (Reply.map probe)
  abort
    | digit d, m => (digit (d.abort m).1, (d.abort m).2)
    | probe p, m => (probe (p.abort m).1, (p.abort m).2)
  committed
    | digit _ => false
    | probe p => p.committed
  next_mono := by
    intro _ _ _ fuel more _ enough u m r done
    cases u with
    | probe p => exact done
    | digit d =>
        obtain ⟨reply, answered, same⟩ := Option.map_eq_some_iff.mp done
        exact Option.map_eq_some_iff.mpr ⟨reply, Digit.next_mono enough answered, same⟩

def digits : Factory Sample := .unary fun arg => Builtin.quiet (.plugged (digit (Digit.start arg)))

def probes : Factory Sample :=
  .binary fun name script m =>
    let r := Probe.start name script m
    (.plugged (probe r.1), r.2)

/-- All arguments are the same: the others unify with the first, one by one. -/
def allSame {U : Type} : Factory U :=
  .variadic fun args =>
    match args with
    | [] => Builtin.quiet (.test .truth false)
    | first :: others =>
        Builtin.quiet (.equation
          (.unify (Term.list others) (Term.list (others.map fun _ => first))) .fresh)

end Sample

end LogicSearch
