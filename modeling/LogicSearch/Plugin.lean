import LogicSearch.Registry.Basic

namespace LogicSearch

/-- What goals supplied from outside have to offer. A request for the next answer is given the
registry and a way to drive the goals that are called in it. Fuel only bounds the request: one that
has been answered gets the same answer with more. -/
class Plugin (U : Type) where
  next : Registry U → Solver Machine (Activation U) → Nat → U → Machine → Option (Reply Machine U)
  abort : U → Machine → U × Machine
  committed : U → Bool
  next_mono : ∀ {registry : Registry U} {narrow wide : Solver Machine (Activation U)}
    {fuel more : Nat}, narrow.Within wide → fuel ≤ more →
    ∀ {u : U} {m : Machine} {r : Reply Machine U},
      next registry narrow fuel u m = some r → next registry wide more u m = some r

instance : Plugin Empty where
  next _ _ _ u := u.elim
  abort u := u.elim
  committed u := u.elim
  next_mono _ _ u := u.elim

namespace Activation

variable {U : Type} [Plugin U]

def committed : Activation U → Bool
  | test .cut called => called
  | test _ _ | equation _ _ | member _ _ => false
  | conjunction c => c.committed
  | disjunction d => d.committed
  | plugged u => Plugin.committed u

def abort : Activation U → Machine → Activation U × Machine
  | test t called, m => (test t called, m)
  | equation e phase, m =>
      let r := Equation.abort m.store phase
      (equation e r.1, m.withStore r.2)
  | member element phase, m =>
      let r := Member.abort m.store phase
      (member element r.1, m.withStore r.2)
  | conjunction ⟨l, r, .left goal⟩, m => (conjunction ⟨l, r, .done false⟩, (abort goal m).2)
  | conjunction ⟨l, r, .right below goal⟩, m =>
      (conjunction ⟨l, r, .done false⟩, (abort below (abort goal m).2).2)
  | conjunction c, m => (conjunction c.close, m)
  | disjunction ⟨l, r, .left goal⟩, m => (disjunction ⟨l, r, .done false⟩, (abort goal m).2)
  | disjunction ⟨l, r, .right goal⟩, m => (disjunction ⟨l, r, .done false⟩, (abort goal m).2)
  | disjunction d, m => (disjunction d.close, m)
  | plugged u, m =>
      let r := Plugin.abort u m
      (plugged r.1, r.2)

end Activation

end LogicSearch
