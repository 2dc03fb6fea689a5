import LogicSearch.Activation

/-!
Registries: which predicate is known by which functor and arity. A registry keeps its entries in the
order of their first registration, each indicator once.
-/

namespace LogicSearch

/-- Starts a predicate on its arguments. Starting may write to the journal. -/
inductive Factory (U : Type) where
  | nullary (create : Machine → Activation U × Machine)
  | unary (create : Term → Machine → Activation U × Machine)
  | binary (create : Term → Term → Machine → Activation U × Machine)
  | variadic (create : List Term → Machine → Activation U × Machine)

namespace Factory

variable {U : Type}

def started (r : Activation U × Machine) : Except Halt (Activation U) × Machine := (.ok r.1, r.2)

def start (factory : Factory U) (args : List Term) (m : Machine) :
    Except Halt (Activation U) × Machine :=
  match factory, args with
  | nullary create, [] => started (create m)
  | unary create, [x] => started (create x m)
  | binary create, [x, y] => started (create x y m)
  | variadic create, args => started (create args m)
  | nullary _, args => (.error (.defect (.wrongArity 0 args.length)), m)
  | unary _, args => (.error (.defect (.wrongArity 1 args.length)), m)
  | binary _, args => (.error (.defect (.wrongArity 2 args.length)), m)

def fits : Factory U → Nat → Bool
  | nullary _, arity => arity == 0
  | unary _, arity => arity == 1
  | binary _, arity => arity == 2
  | variadic _, _ => true

end Factory

inductive OnDuplicate where
  | reject
  | overwrite
  deriving DecidableEq, Repr

structure Registry (U : Type) where
  policy : OnDuplicate
  entries : List (Indicator × Factory U)

namespace Registry

variable {U : Type}

def empty (policy : OnDuplicate) : Registry U := ⟨policy, []⟩

def factory? (r : Registry U) (p : Indicator) : Option (Factory U) :=
  (r.entries.find? fun entry => entry.1 == p).map (·.2)

def contains (r : Registry U) (p : Indicator) : Bool := r.entries.any fun entry => entry.1 == p

def size (r : Registry U) : Nat := r.entries.length

def isEmpty (r : Registry U) : Bool := r.entries.isEmpty

def indicators (r : Registry U) : List Indicator := r.entries.map (·.1)

theorem contains_iff (r : Registry U) (p : Indicator) :
    r.contains p = true ↔ p ∈ r.indicators := by
  simp only [contains, indicators, List.any_eq_true, List.mem_map, beq_iff_eq]

def replace (p : Indicator) (factory : Factory U) :
    List (Indicator × Factory U) → List (Indicator × Factory U)
  | [] => []
  | entry :: entries =>
      if entry.1 = p then (p, factory) :: entries else entry :: replace p factory entries

def register (r : Registry U) (p : Indicator) (factory : Factory U) :
    Except RegistrationError Unit × Registry U :=
  if r.contains p then
    match r.policy with
    | .reject => (.error (.duplicate p), r)
    | .overwrite => (.ok (), ⟨r.policy, replace p factory r.entries⟩)
  else (.ok (), ⟨r.policy, r.entries ++ [(p, factory)]⟩)

/-- Register one entry after the other, up to the first that is refused. -/
def registerEach (r : Registry U) :
    List (Indicator × Factory U) → Except RegistrationError Unit × Registry U
  | [] => (.ok (), r)
  | (p, factory) :: entries =>
    match r.register p factory with
    | (.ok (), r) => r.registerEach entries
    | refused => refused

theorem registerEach_of_new (r : Registry U) (entries : List (Indicator × Factory U))
    (apart : (r.indicators ++ entries.map (·.1)).Nodup) :
    r.registerEach entries = (.ok (), ⟨r.policy, r.entries ++ entries⟩) := by
  induction entries generalizing r with
  | nil => simp [registerEach]
  | cons entry entries ih =>
      obtain ⟨p, factory⟩ := entry
      have unknown : ¬ r.contains p = true := by
        intro known
        have inside := (contains_iff r p).mp known
        simp only [List.map_cons, List.nodup_append] at apart
        exact apart.2.2 p inside p List.mem_cons_self rfl
      have later : (Registry.indicators ⟨r.policy, r.entries ++ [(p, factory)]⟩ ++
          entries.map (·.1)).Nodup := by
        simpa [indicators] using apart
      simp only [registerEach, register, if_neg unknown, ih _ later, List.append_assoc,
        List.singleton_append]

def start (r : Registry U) (p : Indicator) (args : List Term) (m : Machine) :
    Except Halt (Activation U) × Machine :=
  match r.factory? p with
  | some factory => factory.start args m
  | none => (.error (.error (.unknownPredicate p)), m)

def callEnd (r : Registry U) (m : Machine) : Term → Except Halt (Activation U) × Machine
  | .var _ => (.error (.error .instantiation), m)
  | .int value => (.error (.error (.notCallable value)), m)
  | .atom a => r.start ⟨a, 0⟩ [] m
  | .compound f first rest => r.start ⟨f, rest.length + 1⟩ (first :: rest) m

def call (r : Registry U) (t : Term) (m : Machine) :
    Option (Except Halt (Activation U) × Machine) :=
  (m.store.deref t).map (r.callEnd m)

end Registry

end LogicSearch
