import LogicSearch.Registry.Basic

namespace LogicSearch

inductive Library where
  | control
  | conjunction
  | disjunction
  | equality
  | kinds
  | arithmetic
  | member
  deriving DecidableEq, Repr

namespace Builtin

variable {U : Type}

def quiet (a : Activation U) (m : Machine) : Activation U × Machine := (a, m)

def test (t : Test) : Factory U := .nullary (quiet (.test t false))

def ofKind (kind : Kind) : Factory U := .unary fun t => quiet (.test (.ofKind kind t) false)

def compare (comparison : Comparison) : Factory U :=
  .binary fun left right => quiet (.test (.compare comparison left right) false)

def notUnifiable : Factory U :=
  .binary fun left right => quiet (.test (.notUnifiable left right) false)

def unify : Factory U := .binary fun left right => quiet (.equation (.unify left right) .fresh)

def evaluate : Factory U :=
  .binary fun result expression => quiet (.equation (.evaluate result expression) .fresh)

def member : Factory U := .binary fun element list => quiet (.member element (.fresh list))

def conjunction : Factory U :=
  .binary fun left right => quiet (.conjunction (Conjunction.start left right))

def disjunction : Factory U :=
  .binary fun left right => quiet (.disjunction (Disjunction.start left right))

end Builtin

namespace Library

variable {U : Type}

def predicates : Library → List (Indicator × Factory U)
  | control =>
      [(⟨.truth, 0⟩, Builtin.test .truth), (⟨.fail, 0⟩, Builtin.test .failure),
        (⟨.cut, 0⟩, Builtin.test .cut)]
  | conjunction => [(⟨.comma, 2⟩, Builtin.conjunction)]
  | disjunction => [(⟨.semicolon, 2⟩, Builtin.disjunction)]
  | equality => [(⟨.equals, 2⟩, Builtin.unify), (⟨.notUnifiable, 2⟩, Builtin.notUnifiable)]
  | kinds =>
      [(⟨.atom, 1⟩, Builtin.ofKind .atom), (⟨.integer, 1⟩, Builtin.ofKind .integer),
        (⟨.var, 1⟩, Builtin.ofKind .var), (⟨.nonvar, 1⟩, Builtin.ofKind .nonvar),
        (⟨.compound, 1⟩, Builtin.ofKind .compound), (⟨.callable, 1⟩, Builtin.ofKind .callable)]
  | arithmetic =>
      [(⟨.is, 2⟩, Builtin.evaluate), (⟨.sameValue, 2⟩, Builtin.compare .equal),
        (⟨.otherValue, 2⟩, Builtin.compare .notEqual), (⟨.less, 2⟩, Builtin.compare .less),
        (⟨.atMost, 2⟩, Builtin.compare .lessOrEqual),
        (⟨.greater, 2⟩, Builtin.compare .greater),
        (⟨.atLeast, 2⟩, Builtin.compare .greaterOrEqual)]
  | member => [(⟨.member, 2⟩, Builtin.member)]

def all : List Library :=
  [control, conjunction, disjunction, equality, kinds, arithmetic, member]

def standard : List (Indicator × Factory U) := all.flatMap predicates

theorem nodup_standard : ((standard : List (Indicator × Factory U)).map (·.1)).Nodup := by
  have distinct : ((standard (U := Empty)).map (·.1)).Nodup := by decide +kernel
  have same : (standard (U := U)).map (·.1) = (standard (U := Empty)).map (·.1) := rfl
  exact same ▸ distinct

theorem nodup_predicates (library : Library) :
    ((library.predicates : List (Indicator × Factory U)).map (·.1)).Nodup := by
  have listed : library ∈ all := by cases library <;> decide
  have inside : (library.predicates (U := U)).Sublist standard :=
    List.sublist_flatten_of_mem (List.mem_map_of_mem listed)
  exact nodup_standard.sublist (inside.map _)

end Library

namespace Registry

variable {U : Type}

def registerLibraries (r : Registry U) : List Library → Except RegistrationError Unit × Registry U
  | [] => (.ok (), r)
  | library :: libraries =>
    match r.registerEach library.predicates with
    | (.ok (), r) => r.registerLibraries libraries
    | refused => refused

def registerStandard (r : Registry U) : Except RegistrationError Unit × Registry U :=
  r.registerLibraries Library.all

theorem registerEach_append (r : Registry U) (first second : List (Indicator × Factory U)) :
    r.registerEach (first ++ second) =
      match r.registerEach first with
      | (.ok (), r) => r.registerEach second
      | refused => refused := by
  induction first generalizing r with
  | nil => rfl
  | cons entry first ih =>
      simp only [List.cons_append, registerEach]
      split
      · exact ih _
      · rename_i refused
        split
        · rename_i done
          exact (refused _ done).elim
        · rfl

theorem registerLibraries_eq (r : Registry U) (libraries : List Library) :
    r.registerLibraries libraries = r.registerEach (libraries.flatMap Library.predicates) := by
  induction libraries generalizing r with
  | nil => rfl
  | cons library libraries ih =>
      rw [List.flatMap_cons, registerEach_append, registerLibraries]
      split
      · exact ih _
      · rfl

theorem registerStandard_eq (r : Registry U) :
    r.registerStandard = r.registerEach Library.standard := r.registerLibraries_eq Library.all

def builtins : Registry U := ⟨.reject, Library.standard⟩

theorem registerStandard_empty :
    (empty .reject).registerStandard = (.ok (), (builtins : Registry U)) := by
  rw [registerStandard_eq]
  exact registerEach_of_new _ _ Library.nodup_standard

end Registry

end LogicSearch
