import LogicSearch.Proofs.Query.Pure
import LogicSearch.Proofs.Store.Passes

namespace LogicSearch

namespace Store

variable {s t : Store} {u : Term}

theorem subst_trees_of_free (free : ∀ v ∈ u.vars, s.lookup v = none) : u.subst s.trees = u := by
  have same : u.subst s.trees = u.subst .var :=
    Term.subst_congr fun v occurs => trees_of_free (free v occurs)
  rw [same, Term.subst_var]

theorem subst_trees_of_le (larger : s ≤ t) (acyclic : t.Acyclic) :
    (u.subst t.trees).subst s.trees = u.subst t.trees := by
  apply subst_trees_of_free
  intro v occurs
  have free : t.lookup v = none := ((mem_vars_trees acyclic).mp occurs).lookup
  by_contra bound
  obtain ⟨w, found⟩ := Option.ne_none_iff_exists'.mp bound
  rw [larger v w found] at free
  cases free

/-- Nothing in the term is bound: it resolves to itself, and its tree is the term itself. -/
def Stands (s : Store) (u : Term) : Prop :=
  (∃ fuel, s.resolve fuel u = some u) ∧ s.tree? u = some u

theorem stands_of_le (larger : s ≤ t) (acyclic : t.Acyclic) : s.Stands (u.subst t.trees) := by
  have smaller : s.Acyclic := Acyclic.of_le larger acyclic
  have same : (u.subst t.trees).subst s.trees = u.subst t.trees := subst_trees_of_le larger acyclic
  have resolved := resolve_of_acyclic smaller (u.subst t.trees)
  have tree := smaller.tree? (u.subst t.trees)
  rw [same] at resolved tree
  exact ⟨resolved, tree⟩

end Store

namespace Query

open Activation (Gives)

variable {U : Type} [Plugin U] {q q' : Query U} {m m' : Machine} {terms row : List Term}
  {answers : List Machine} {last : Except Halt Bool}

/-- A row holds for each of the terms what it resolves to. -/
def RowOf (s : Store) (terms row : List Term) : Prop :=
  List.Forall₂ (fun t u => ∃ fuel, s.resolve fuel t = some u) terms row

def Takes (terms : List Term) (present : List (List Term) × Query U × Machine)
    (turn : Turn (List (List Term) × Query U × Machine) (Collected U)) : Prop :=
  ∃ fuel, collectStep fuel terms present = some turn

theorem row?_of_acyclic {s : Store} (acyclic : s.Acyclic) (terms : List Term) :
    ∃ fuel, row? fuel s terms = some (terms.map (Term.subst s.trees)) := by
  induction terms with
  | nil => exact ⟨0, rfl⟩
  | cons t terms ih =>
      obtain ⟨enough, first⟩ := Store.resolve_of_acyclic acyclic t
      obtain ⟨more, rest⟩ := ih
      refine ⟨max enough more, ?_⟩
      simp only [row?, Store.resolve_mono (Nat.le_max_left enough more) first,
        row?_mono (Nat.le_max_right enough more) rest, Option.map_some, List.map_cons]

theorem rowOf_trees {s : Store} (acyclic : s.Acyclic) (terms : List Term) :
    RowOf s terms (terms.map (Term.subst s.trees)) := by
  rw [RowOf, List.forall₂_map_right_iff, List.forall₂_same]
  exact fun t _ => Store.resolve_of_acyclic acyclic t

theorem takes_answer {fuel : Nat} {reply : Reply Machine (Query U)}
    (asked : q.next fuel m = some reply) (given : reply.answer = .ok true)
    (acyclic : reply.state.store.Acyclic) (rows : List (List Term)) :
    Takes terms (rows, q, m)
      (.again (terms.map (Term.subst reply.state.store.trees) :: rows, reply.goal,
        reply.state)) := by
  obtain ⟨enough, resolved⟩ := row?_of_acyclic acyclic terms
  obtain ⟨answer, goal, state⟩ := reply
  cases given
  refine ⟨max fuel enough, ?_⟩
  simp only [collectStep, next_mono (Nat.le_max_left fuel enough) asked,
    row?_mono (Nat.le_max_right fuel enough) resolved]

def finalRows (rows : List (List Term)) : Except Halt Bool → Except Halt (List (List Term))
  | .ok _ => .ok rows.reverse
  | .error halt => .error halt

theorem takes_last {fuel : Nat} {reply : Reply Machine (Query U)}
    (asked : q.next fuel m = some reply) (given : reply.answer ≠ .ok true)
    (rows : List (List Term)) :
    Takes terms (rows, q, m) (.finish ⟨finalRows rows reply.answer, reply.goal, reply.state⟩) := by
  obtain ⟨answer, goal, state⟩ := reply
  refine ⟨fuel, ?_⟩
  match answer with
  | .error halt => simp only [collectStep, asked, finalRows]
  | .ok false => simp only [collectStep, asked, finalRows]
  | .ok true => exact (given rfl).elim

theorem Exhausts.leads (exhausts : q.Exhausts m answers last)
    (acyclic : ∀ a ∈ answers, a.store.Acyclic) (terms : List Term) (rows : List (List Term)) :
    ∃ c, Turn.Leads (Takes terms) (rows, q, m) c ∧ c.rows =
      finalRows ((answers.map fun a => terms.map (Term.subst a.store.trees)).reverse ++ rows)
        last := by
  induction exhausts generalizing rows with
  | last asked given => exact ⟨_, .finish (takes_last asked given rows), rfl⟩
  | answer asked given _ ih =>
      obtain ⟨here, later⟩ := List.forall_mem_cons.mp acyclic
      obtain ⟨c, leads, same⟩ := ih later
        (terms.map (Term.subst _) :: rows)
      exact ⟨c, .again (takes_answer asked given here rows) leads, by simpa using same⟩

theorem Exhausts.kept (exhausts : q.Exhausts m' answers last) (safe : Safe anywhere m q m') :
    ∀ a ∈ answers, m.store ≤ a.store := by
  by_cases running : q.running = true
  · obtain ⟨_, gives, -⟩ := exhausts.gives running
    rw [safe.registry] at gives
    exact gives.kept (safe.running running)
  · cases exhausts with
    | last => simp
    | answer asked given _ =>
        simp only [next, if_neg running, Option.some_inj] at asked
        rw [← asked] at given
        cases given

theorem Exhausts.collect (exhausts : q.Exhausts m' answers last) (safe : Safe anywhere m q m')
    (acyclic : ∀ a ∈ answers, a.store.Acyclic) (terms : List Term) :
    ∃ fuel c, q.collect fuel terms m' = some c ∧ c.query.running = false ∧ c.machine = m ∧
      c.rows = finalRows (answers.map fun a => terms.map (Term.subst a.store.trees)).reverse
        last := by
  obtain ⟨c, leads, same⟩ := exhausts.leads acyclic terms []
  obtain ⟨fuel, done⟩ := Turn.iterate_of_leads (fun fuel => collectStep fuel terms)
    (fun enough => collectStep_mono enough) (fun _ _ taken => taken) leads
  obtain ⟨n, collects⟩ := collects_of_collect done
  obtain ⟨safe', -, stopped⟩ := safe.collects collects
  exact ⟨fuel, c, done, stopped, safe'.ended stopped, by simpa using same⟩

/-- Collected rows are stable. Where asking the query one by one would give these answers and then
none, collecting returns one row for each of them, with what the terms resolve to there. Then the
query has ended on the machine it was started on, and each entry of a row stands for itself in its
store, whatever the later answers have bound. Where asking would end with an error, collecting
returns that error, on the same machine. -/
theorem collected_rows_are_stable {goal : Term} {m₀ : Machine} {k : Nat}
    (started : start Registry.builtins goal m = some (.ok q, m₀)) (session : Session q m₀ k q' m')
    (exhausts : q'.Exhausts m' answers last) (acyclic : ∀ a ∈ answers, a.store.Acyclic)
    (terms : List Term) :
    ∃ fuel c, q'.collect fuel terms m' = some c ∧ c.query.running = false ∧ c.machine = m ∧
      match last with
      | .error halt => c.rows = .error halt
      | .ok _ => ∃ rows, c.rows = .ok rows ∧
          List.Forall₂ (fun a row => RowOf a.store terms row) answers rows ∧
          ∀ row ∈ rows, ∀ u ∈ row, c.machine.store.Stands u := by
  obtain ⟨rfl, safe⟩ := safe_of_start started (confined_anywhere m.store goal)
  obtain ⟨safe', -⟩ := (safe q rfl).2.session session
  have kept := exhausts.kept safe'
  obtain ⟨fuel, c, done, stopped, back, same⟩ := exhausts.collect safe' acyclic terms
  refine ⟨fuel, c, done, stopped, back, ?_⟩
  cases last with
  | error halt => exact same
  | ok more =>
      refine ⟨_, same, ?_, ?_⟩
      · rw [List.reverse_reverse, List.forall₂_map_right_iff, List.forall₂_same]
        exact fun a member => rowOf_trees (acyclic a member) terms
      · simp only [List.reverse_reverse, List.forall_mem_map]
        intro a member t _
        rw [back]
        exact Store.stands_of_le (kept a member) (acyclic a member)

theorem collected_rows_are_stable_second_disjunct :
    let first : Term := .compound .equals (.var 1) [.int 0]
    let shared : Term := .compound ⟨"f"⟩ (.var 0) []
    let later : Term := .compound .semicolon (.compound .equals (.var 1) [shared])
      [.compound .equals (.var 0) [.int 1]]
    ∃ (q q' : Query Empty) (m' : Machine) (a b : Machine),
      start Registry.builtins (.compound .semicolon first [later]) Machine.empty =
        some (.ok q, Machine.empty) ∧
      Session q Machine.empty 1 q' m' ∧ q'.Exhausts m' [a, b] (.ok false) ∧
      a.store = Store.empty.bind 1 shared ∧ b.store = Store.empty.bind 0 (.int 1) ∧
      (∀ answer ∈ [a, b], answer.store.Acyclic) ∧
      ∃ fuel c, q'.collect fuel [.var 1] m' = some c ∧ c.machine = Machine.empty ∧
        c.rows = .ok [[shared], [.var 1]] ∧ Store.empty.Stands shared := by
  intro first shared later
  let q : Query Empty := ⟨.compound .semicolon first [later],
    .disjunction (.start first later), Registry.builtins, true, 0⟩
  have started : start Registry.builtins q.goal Machine.empty = some (.ok q, Machine.empty) := rfl
  let more (r : Reply Machine (Query Empty)) := r.goal.next 20 r.state
  let seen (r : Reply Machine (Query Empty)) := (r.answer, r.state.store)
  have one : (q.next 20 Machine.empty).map (·.answer) = some (.ok true) := rfl
  have two : ((q.next 20 Machine.empty).bind more).map seen =
      some (.ok true, Store.empty.bind 1 shared) := rfl
  have three : (((q.next 20 Machine.empty).bind more).bind more).map seen =
      some (.ok true, Store.empty.bind 0 (.int 1)) := rfl
  have four : ((((q.next 20 Machine.empty).bind more).bind more).bind more).map (·.answer) =
      some (.ok false) := rfl
  have collected : ((q.next 20 Machine.empty).bind fun r =>
      r.goal.collect 20 [.var 1] r.state).map (·.rows) = some (.ok [[shared], [.var 1]]) := rfl
  obtain ⟨r, asked, given⟩ := Option.map_eq_some_iff.mp one
  simp only [asked, Option.bind_some] at two three four collected
  obtain ⟨a, asked', seen'⟩ := Option.map_eq_some_iff.mp two
  simp only [asked', Option.bind_some] at three four
  obtain ⟨b, asked'', seen''⟩ := Option.map_eq_some_iff.mp three
  simp only [asked'', Option.bind_some] at four
  obtain ⟨last, ended, none⟩ := Option.map_eq_some_iff.mp four
  obtain ⟨given', compound⟩ := Prod.mk.inj seen'
  obtain ⟨given'', value⟩ := Prod.mk.inj seen''
  have session : Session q Machine.empty 1 r.goal r.state := .answer .start asked given
  have exhausts : r.goal.Exhausts r.state [a.state, b.state] (.ok false) := by
    rw [← none]
    exact .answer asked' given' (.answer asked'' given'' (.last ended (by simp [none])))
  have acyclic : ∀ answer ∈ [a.state, b.state], answer.store.Acyclic := by
    simp only [List.mem_cons, List.not_mem_nil, or_false, forall_eq_or_imp, forall_eq, compound,
      value]
    exact ⟨(Store.descending_empty.bind (by decide)).acyclic,
      (Store.descending_empty.bind (by decide)).acyclic⟩
  obtain ⟨fuel, c, done, -, back, rows, same, -, stands⟩ :=
    collected_rows_are_stable started session exhausts acyclic [.var 1]
  obtain ⟨c', done', same'⟩ := Option.map_eq_some_iff.mp collected
  have agree : c = c' := Option.some_inj.mp
    ((collect_mono (Nat.le_max_left fuel 20) done).symm.trans
      (collect_mono (Nat.le_max_right fuel 20) done'))
  rw [agree, same'] at same
  cases same
  rw [back] at stands
  exact ⟨q, r.goal, r.state, a.state, b.state, started, session, exhausts, compound, value,
    acyclic, fuel, c, done, back, agree ▸ same', stands [shared] (by simp) shared (by simp)⟩

end Query

end LogicSearch
