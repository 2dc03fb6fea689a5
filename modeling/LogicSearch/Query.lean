import LogicSearch.Search.Drive
import LogicSearch.Store.Resolve

/-!
Queries: a goal driven from the outside. A query that ends with an error or is given up undoes the
bindings of its last answer, and after its end it answers no more and changes nothing.
-/

namespace LogicSearch

structure Query (U : Type) where
  goal : Term
  activation : Activation U
  registry : Registry U
  running : Bool
  found : Nat

namespace Query

variable {U : Type} [Plugin U]

def start (registry : Registry U) (goal : Term) (m : Machine) :
    Option (Except Halt (Query U) × Machine) :=
  match registry.call goal m with
  | none => none
  | some (.ok activation, m) => some (.ok ⟨goal, activation, registry, true, 0⟩, m)
  | some (.error halt, m) => some (.error halt, m)

def abort (q : Query U) (m : Machine) : Query U × Machine :=
  if q.running then
    let r := q.activation.abort m
    (⟨q.goal, r.1, q.registry, false, q.found⟩, r.2)
  else (q, m)

/-- What becomes of a running query when its activation has replied. After a failure by a cut the
activation may still hold bindings, so it is aborted, as it is after an error. A defect leaves the
query as it is. -/
def settle (q : Query U) (reply : Reply Machine (Activation U)) : Reply Machine (Query U) :=
  let present : Query U := ⟨q.goal, reply.goal, q.registry, true, q.found⟩
  match reply.answer with
  | .ok true => ⟨.ok true, ⟨q.goal, reply.goal, q.registry, true, q.found + 1⟩, reply.state⟩
  | .ok false =>
      if reply.goal.committed then
        let r := present.abort reply.state
        ⟨.ok false, r.1, r.2⟩
      else ⟨.ok false, ⟨q.goal, reply.goal, q.registry, false, q.found⟩, reply.state⟩
  | .error (.error cause) =>
      let r := present.abort reply.state
      ⟨.error (.error cause), r.1, r.2⟩
  | .error (.defect cause) => ⟨.error (.defect cause), present, reply.state⟩

def next (fuel : Nat) (q : Query U) (m : Machine) : Option (Reply Machine (Query U)) :=
  if q.running then (q.activation.next q.registry fuel m).map q.settle
  else some ⟨.ok false, q, m⟩

theorem next_mono {fuel more : Nat} (enough : fuel ≤ more) {q : Query U} {m : Machine}
    {reply : Reply Machine (Query U)} (done : q.next fuel m = some reply) :
    q.next more m = some reply := by
  unfold next at done ⊢
  by_cases running : q.running
  · rw [if_pos running] at done ⊢
    exact map_some_mono (fun _ => Activation.next_mono enough) done
  · rw [if_neg running] at done ⊢
    exact done

def row? (fuel : Nat) (s : Store) : List Term → Option (List Term)
  | [] => some []
  | t :: ts =>
    match s.resolve fuel t with
    | none => none
    | some t => (row? fuel s ts).map (t :: ·)

theorem row?_mono {fuel more : Nat} (enough : fuel ≤ more) {s : Store} {terms row : List Term}
    (done : row? fuel s terms = some row) : row? more s terms = some row := by
  induction terms generalizing row with
  | nil => exact done
  | cons t terms ih =>
      simp only [row?] at done ⊢
      cases first : s.resolve fuel t with
      | none => simp [first] at done
      | some u =>
          rw [first] at done
          rw [Store.resolve_mono enough first]
          exact map_some_mono (fun _ => ih) done

/-- What collecting the remaining answers gives: the rows, or why there are none. -/
structure Collected (U : Type) where
  rows : Except Halt (List (List Term))
  query : Query U
  machine : Machine

def collectStep (fuel : Nat) (terms : List Term) :
    List (List Term) × Query U × Machine →
      Option (Turn (List (List Term) × Query U × Machine) (Collected U))
  | (rows, q, m) =>
    match q.next fuel m with
    | none => none
    | some ⟨.error halt, q, m⟩ => some (.finish ⟨.error halt, q, m⟩)
    | some ⟨.ok false, q, m⟩ => some (.finish ⟨.ok rows.reverse, q, m⟩)
    | some ⟨.ok true, q, m⟩ =>
      match row? fuel m.store terms with
      | none => none
      | some row => some (.again (row :: rows, q, m))

theorem collectStep_mono {fuel more : Nat} (enough : fuel ≤ more) {terms : List Term}
    (present : List (List Term) × Query U × Machine)
    (turn : Turn (List (List Term) × Query U × Machine) (Collected U))
    (done : collectStep fuel terms present = some turn) :
    collectStep more terms present = some turn := by
  obtain ⟨rows, q, m⟩ := present
  simp only [collectStep] at done ⊢
  cases answered : q.next fuel m with
  | none => simp [answered] at done
  | some reply =>
      rw [answered] at done
      rw [next_mono enough answered]
      obtain ⟨answer, q, m⟩ := reply
      cases answer with
      | error halt => exact done
      | ok found =>
          cases found with
          | false => exact done
          | true =>
              simp only at done ⊢
              cases resolved : row? fuel m.store terms with
              | none => simp [resolved] at done
              | some row =>
                  rw [resolved] at done
                  rw [row?_mono enough resolved]
                  exact done

def collect (fuel : Nat) (q : Query U) (terms : List Term) (m : Machine) : Option (Collected U) :=
  Turn.iterate (collectStep fuel terms) fuel ([], q, m)

theorem collect_mono {fuel more : Nat} (enough : fuel ≤ more) {q : Query U} {terms : List Term}
    {m : Machine} {c : Collected U} (done : q.collect fuel terms m = some c) :
    q.collect more terms m = some c :=
  Turn.iterate_mono (collectStep_mono enough) enough done

end Query

end LogicSearch
