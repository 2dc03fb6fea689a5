import LogicSearch.Proofs.Search.Kept
import LogicSearch.Proofs.Store.Resolved
import LogicSearch.Query

namespace LogicSearch

namespace Query

variable {U : Type} [Plugin U]

inductive Collects (fuel : Nat) (terms : List Term) :
    List (List Term) × Query U × Machine → Nat → Collected U → Prop where
  | finish {present : List (List Term) × Query U × Machine} {c : Collected U} :
      collectStep fuel terms present = some (.finish c) → Collects fuel terms present 0 c
  | again {present next : List (List Term) × Query U × Machine} {n : Nat} {c : Collected U} :
      collectStep fuel terms present = some (.again next) → Collects fuel terms next n c →
      Collects fuel terms present (n + 1) c

/-- Requests made on a query one after the other, and the number of answers given to them. -/
inductive Session : Query U → Machine → Nat → Query U → Machine → Prop where
  | start {q : Query U} {m : Machine} : Session q m 0 q m
  | answer {q q' : Query U} {m m' : Machine} {n fuel : Nat} {reply : Reply Machine (Query U)} :
      Session q m n q' m' → q'.next fuel m' = some reply → reply.answer = .ok true →
      Session q m (n + 1) reply.goal reply.state
  | ends {q q' : Query U} {m m' : Machine} {n fuel : Nat} {reply : Reply Machine (Query U)} :
      Session q m n q' m' → q'.next fuel m' = some reply → reply.answer ≠ .ok true →
      Session q m n reply.goal reply.state
  | abort {q q' : Query U} {m m' : Machine} {n : Nat} :
      Session q m n q' m' → Session q m n (q'.abort m').1 (q'.abort m').2
  | collect {q q' : Query U} {m m' : Machine} {n k fuel : Nat} {terms : List Term}
      {c : Collected U} : Session q m n q' m' → Collects fuel terms ([], q', m') k c →
      Session q m (n + k) c.query c.machine

theorem collects_of_collect {fuel : Nat} {terms : List Term} {q : Query U} {m : Machine}
    {c : Collected U} (done : q.collect fuel terms m = some c) :
    ∃ n, Collects fuel terms ([], q, m) n c := by
  have leads := Turn.leads_iff.mpr ⟨fuel, done⟩
  clear done
  generalize ([], q, m) = present at leads
  induction leads with
  | again taken _ ih =>
      obtain ⟨n, collects⟩ := ih
      exact ⟨n + 1, .again taken collects⟩
  | finish taken => exact ⟨0, .finish taken⟩

/-- A query over the built-in predicates whose goal was called on the first machine. -/
structure Safe (V : Var → Prop) (m : Machine) (q : Query U) (present : Machine) : Prop where
  registry : q.registry = Registry.builtins
  running : q.running = true → q.activation.Holds V m.store present.store
  ended : q.running = false → present = m
  journal : present.journal = m.journal

variable {V : Var → Prop} {m m' : Machine} {q : Query U}

theorem Safe.abort (safe : Safe V m q m') :
    Safe V m (q.abort m').1 (q.abort m').2 ∧ (q.abort m').1.running = false ∧
      (q.abort m').1.found = q.found := by
  unfold Query.abort
  split
  · rename_i running
    obtain ⟨given, -⟩ := (safe.running running).abort
    have back : (q.activation.abort m').2 = m := by
      rw [given, Machine.withStore_eq safe.journal]
      rfl
    refine ⟨⟨safe.registry, (fun wrong => by cases wrong), fun _ => back, ?_⟩, rfl, rfl⟩
    rw [back]
  · rename_i stopped
    exact ⟨safe, Bool.eq_false_iff.mpr stopped, rfl⟩

theorem Safe.next (safe : Safe V m q m') {fuel : Nat} {reply : Reply Machine (Query U)}
    (done : q.next fuel m' = some reply) :
    Safe V m reply.goal reply.state ∧
      reply.goal.found = q.found + (if reply.answer = .ok true then 1 else 0) ∧
      (reply.answer ≠ .ok true → reply.goal.running = false) := by
  simp only [Query.next] at done
  split at done
  · rename_i running
    obtain ⟨r, asked, rfl⟩ := Option.map_eq_some_iff.mp done
    rw [safe.registry] at asked
    have kept := (safe.running running).next asked
    obtain ⟨answer, a, m''⟩ := r
    have journal : m''.journal = m.journal := kept.journal.trans safe.journal
    have present (found : Nat) : Safe V m ⟨q.goal, a, q.registry, true, found⟩ m'' :=
      ⟨safe.registry, fun _ => kept.holds, (fun wrong => by cases wrong), journal⟩
    cases answer with
    | error halt =>
        cases halt with
        | error cause =>
            obtain ⟨safe', stopped, found⟩ := (present q.found).abort
            exact ⟨safe', by simpa [settle] using found, fun _ => stopped⟩
        | defect cause => exact (kept.sound cause rfl).elim
    | ok more =>
        cases more with
        | true => exact ⟨present (q.found + 1), by simp [settle], fun wrong => (wrong rfl).elim⟩
        | false =>
            by_cases cut : a.committed = true
            · obtain ⟨safe', stopped, found⟩ := (present q.found).abort
              simp only [settle, if_pos cut]
              exact ⟨safe', by simpa using found, fun _ => stopped⟩
            · have back : m'' = m := by
                rw [kept.state, Machine.withStore_eq safe.journal]
                rfl
              simp only [settle, if_neg cut]
              exact ⟨⟨safe.registry, (fun wrong => by cases wrong), fun _ => back, journal⟩,
                by simp, by simp⟩
  · rename_i stopped
    cases done
    exact ⟨safe, by simp, fun _ => Bool.eq_false_iff.mpr stopped⟩

theorem Safe.collects {fuel n : Nat} {terms : List Term} {c : Collected U}
    {present : List (List Term) × Query U × Machine} (safe : Safe V m present.2.1 present.2.2)
    (collects : Collects fuel terms present n c) :
    Safe V m c.query c.machine ∧ c.query.found = present.2.1.found + n ∧
      c.query.running = false := by
  induction collects with
  | finish taken =>
      obtain ⟨rows, q, m'⟩ := present
      simp only [collectStep] at taken
      split at taken
      · cases taken
      · rename_i asked
        cases taken
        obtain ⟨safe', found, ended⟩ := safe.next asked
        exact ⟨safe', by simpa using found, ended (by simp)⟩
      · rename_i asked
        cases taken
        obtain ⟨safe', found, ended⟩ := safe.next asked
        exact ⟨safe', by simpa using found, ended (by simp)⟩
      · split at taken <;> cases taken
  | again taken _ ih =>
      obtain ⟨rows, q, m'⟩ := present
      simp only [collectStep] at taken
      split at taken
      · cases taken
      · cases taken
      · cases taken
      · rename_i asked
        split at taken
        · cases taken
        · cases taken
          obtain ⟨safe', found, -⟩ := safe.next asked
          obtain ⟨safe'', later, ended⟩ := ih safe'
          simp only [if_true] at found
          simp only at later found
          exact ⟨safe'', by omega, ended⟩

theorem Safe.session {q' : Query U} {present present' : Machine} {n : Nat}
    (safe : Safe V m q present) (session : Session q present n q' present') :
    Safe V m q' present' ∧ q'.found = q.found + n := by
  induction session with
  | start => exact ⟨safe, rfl⟩
  | answer _ asked given ih =>
      obtain ⟨safe', found⟩ := ih safe
      obtain ⟨safe'', later, -⟩ := safe'.next asked
      rw [if_pos given] at later
      exact ⟨safe'', by omega⟩
  | ends _ asked given ih =>
      obtain ⟨safe', found⟩ := ih safe
      obtain ⟨safe'', later, -⟩ := safe'.next asked
      rw [if_neg given] at later
      exact ⟨safe'', by omega⟩
  | abort _ ih =>
      obtain ⟨safe', found⟩ := ih safe
      obtain ⟨safe'', -, same⟩ := safe'.abort
      exact ⟨safe'', by omega⟩
  | collect _ collects ih =>
      obtain ⟨safe', found⟩ := ih safe
      obtain ⟨safe'', later, -⟩ := safe'.collects collects
      exact ⟨safe'', by simp only at later; omega⟩

omit [Plugin U] in
theorem safe_of_start {goal : Term} {result : Except Halt (Query U)}
    (started : start Registry.builtins goal m = some (result, m'))
    (confined : m.store.Confined V goal) :
    m' = m ∧ ∀ q, result = .ok q → q.found = 0 ∧ Safe V m q m := by
  simp only [start] at started
  split at started
  · cases started
  · rename_i called
    cases started
    obtain ⟨rfl, -, holds⟩ := Activation.holds_of_call called confined
    refine ⟨rfl, ?_⟩
    intro q same
    cases same
    exact ⟨rfl, rfl, fun _ => holds _ rfl, (fun wrong => by cases wrong), rfl⟩
  · rename_i called
    cases started
    obtain ⟨rfl, -, -⟩ := Activation.holds_of_call called confined
    refine ⟨rfl, ?_⟩
    intro q wrong
    cases wrong

/-- The query gives no more answers and changes nothing. -/
def Inert (q : Query U) : Prop :=
  ∀ m, (∀ fuel, q.next fuel m = some ⟨.ok false, q, m⟩) ∧ q.abort m = (q, m)

theorem inert_of_stopped (stopped : q.running = false) : q.Inert := by
  intro m
  simp [Query.next, Query.abort, stopped]

/-- The second store keeps the first and binds only these variables beyond it. -/
def BindsOnly (vars : List Var) (s t : Store) : Prop :=
  s ≤ t ∧ ∀ v, s.lookup v = none → t.lookup v ≠ none → v ∈ vars

/-- No binding leaks out of a query over the built-in predicates. Whatever is requested of it, the
machine is the first one again as soon as the query has ended, and before that it binds only
variables of the resolved goal; requests that give no answer end the query, and it stays ended. -/
theorem no_binding_leaks {goal : Term} {m m₀ : Machine} {result : Except Halt (Query U)}
    (acyclic : m.store.Acyclic) (started : start Registry.builtins goal m = some (result, m₀)) :
    ∃ fuel tree, m.store.resolve fuel goal = some tree ∧ m₀ = m ∧
      ∀ q, result = .ok q → ∀ n q' m', Session q m n q' m' →
        q'.found = n ∧
        (q'.running = false → m' = m ∧ q'.Inert) ∧
        (q'.running = true → BindsOnly tree.vars m.store m'.store) ∧
        (∀ fuel reply, q'.next fuel m' = some reply → reply.answer ≠ .ok true →
          reply.goal.running = false) ∧
        (∀ fuel terms c, q'.collect fuel terms m' = some c → c.query.running = false) ∧
        (q'.abort m').1.running = false := by
  obtain ⟨fuel, resolved⟩ := Store.resolve_of_acyclic acyclic goal
  obtain ⟨same, safe⟩ := safe_of_start (V := fun v => v ∈ (goal.subst m.store.trees).vars) started
    fun v free => (Store.mem_vars_trees acyclic).mpr free
  refine ⟨fuel, _, resolved, same, ?_⟩
  intro q begun n q' m' session
  obtain ⟨none, safe⟩ := safe q begun
  obtain ⟨safe', found⟩ := safe.session session
  refine ⟨by omega, ?_, ?_, ?_, ?_, safe'.abort.2.1⟩
  · intro stopped
    exact ⟨safe'.ended stopped, inert_of_stopped stopped⟩
  · intro running
    have grows := (safe'.running running).grows
    exact ⟨grows.kept, grows.among⟩
  · intro fuel reply asked given
    exact (safe'.next asked).2.2 given
  · intro fuel terms c done
    obtain ⟨k, collects⟩ := collects_of_collect done
    exact (safe'.collects collects).2.2

theorem no_binding_leaks_first_member :
    Machine.empty.store.Acyclic ∧ ∃ q q' m',
      start (Registry.builtins : Registry Empty) (.compound .member (.var 0)
        [.list [.int 1, .int 2]]) Machine.empty = some (.ok q, Machine.empty) ∧
      Session q Machine.empty 1 q' m' ∧ m'.store.lookup 0 = some (.int 1) ∧ q'.found = 1 ∧
      (q'.abort m').1.running = false := by
  have acyclic : Machine.empty.store.Acyclic := Store.acyclic_empty
  let q : Query Empty := ⟨.compound .member (.var 0) [.list [.int 1, .int 2]],
    .member (.var 0) (.fresh (.list [.int 1, .int 2])), Registry.builtins, true, 0⟩
  have started : start (Registry.builtins : Registry Empty) q.goal Machine.empty =
      some (.ok q, Machine.empty) := rfl
  have returns : (q.next 9 Machine.empty).isSome = true := rfl
  obtain ⟨reply, asked⟩ := Option.isSome_iff_exists.mp returns
  have given : (q.next 9 Machine.empty).map (·.answer) = some (.ok true) := rfl
  have bound : (q.next 9 Machine.empty).map (·.state.store.lookup 0) = some (some (.int 1)) := rfl
  rw [asked] at given bound
  injection given with given
  injection bound with bound
  have session : Session q Machine.empty 1 reply.goal reply.state := .answer .start asked given
  obtain ⟨_, _, -, -, safe⟩ := no_binding_leaks acyclic started
  obtain ⟨found, -, -, -, -, aborted⟩ := safe q rfl 1 _ _ session
  exact ⟨acyclic, q, _, _, started, session, bound, found, aborted⟩

end Query

end LogicSearch
