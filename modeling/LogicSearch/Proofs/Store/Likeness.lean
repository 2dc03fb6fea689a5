import LogicSearch.Proofs.Arithmetic.Evaluates
import LogicSearch.Proofs.Goal.Spine
import LogicSearch.Store.Kind

/-!
Terms and stores that stand for one another. A likeness says which terms do, and `Simulates` gives
the laws by which a store goes along with another: at the end of a chain, when a variable is bound
and when it is made free again. All that unifies, saves, evaluates or inspects terms goes along by
these laws alone.
-/

namespace LogicSearch

/-- Terms that stand for one another, and the variables that may be free in them. -/
structure Likeness where
  own : Var → Prop
  terms : Term → Term → Prop

namespace Store

/-- Making two terms equal leads nowhere else than leaving them alone. -/
def Idle (s : Store) (l r : Term) : Prop :=
  ∀ pending result,
    Turn.Leads (fun state turn => unifyStep state = some turn) (s, pending) result →
    Turn.Leads (fun state turn => unifyStep state = some turn) (s, (l, r) :: pending) result

variable {s : Store} {l r x : Term} {pairs pending : List (Term × Term)}

theorem leads_append {result : Bool × Store} (idle : ∀ pair ∈ pairs, s.Idle pair.1 pair.2)
    (leads : Turn.Leads (fun state turn => unifyStep state = some turn) (s, pending) result) :
    Turn.Leads (fun state turn => unifyStep state = some turn) (s, pairs ++ pending) result := by
  induction pairs with
  | nil => exact leads
  | cons pair pairs ih =>
      have later := ih fun pair member => idle pair (List.mem_cons_of_mem _ member)
      exact idle pair List.mem_cons_self _ _ later

theorem idle_of_step (step : ∀ pending, ∃ pairs,
    unifyStep (s, (l, r) :: pending) = some (.again (s, pairs ++ pending)) ∧
      ∀ pair ∈ pairs, s.Idle pair.1 pair.2) : s.Idle l r := by
  intro pending result leads
  obtain ⟨pairs, taken, idle⟩ := step pending
  exact .again taken (leads_append idle leads)

theorem idle_of_sameVar (done : s.deref l = some x) (same : l.sameVar r = true) : s.Idle l r := by
  apply idle_of_step
  intro pending
  have right : s.deref r = some x := by rw [← eq_of_sameVar same, done]
  exact ⟨[], by simp only [unifyStep, done, right, if_pos same, List.nil_append], by simp⟩

end Store

namespace Likeness

inductive Matches (L : Likeness) : Term → Term → Prop where
  | atom {a : Atom} : Matches L (.atom a) (.atom a)
  | int {n : Int64} : Matches L (.int n) (.int n)
  | var {v : Var} : L.own v → Matches L (.var v) (.var v)
  | compound {f : Atom} {x y : Term} {xs ys : List Term} : L.terms x y →
      List.Forall₂ L.terms xs ys → Matches L (.compound f x xs) (.compound f y ys)

structure EndsAs (L : Likeness) (s t : Store) (x y : Term) : Prop where
  left : s.IsEnd x
  right : t.IsEnd y
  like : L.terms x y
  same : L.Matches x y

/-- The laws by which the second of two related stores goes along with the first. -/
structure Simulates (L : Likeness) (S : Store → Store → Prop) : Prop where
  int : ∀ n, L.terms (.int n) (.int n)
  deref : ∀ {s t u w x}, S s t → L.terms u w → s.deref u = some x →
    ∃ y, t.deref w = some y ∧ L.EndsAs s t x y
  bind : ∀ {s t v x y}, S s t → L.EndsAs s t (.var v) (.var v) → L.EndsAs s t x y → x ≠ .var v →
    S (s.bind v x) (t.bind v y)
  unbind : ∀ {s t v}, S s t → L.own v → S (s.unbind v) (t.unbind v)
  /-- Where there is one variable on the left there may be two terms on the right. -/
  idle : ∀ {s t v x l r}, S s t → s.deref (.var v) = some x → L.terms (.var v) l →
    L.terms (.var v) r → t.Idle l r

/-- Pairs that wait on both sides. Where there is one variable on the right a pair may wait on the
left alone. -/
inductive Pending (L : Likeness) : List (Term × Term) → List (Term × Term) → Prop where
  | nil : Pending L [] []
  | pair {l r l' r' : Term} {pending pending' : List (Term × Term)} : L.terms l l' → L.terms r r' →
      Pending L pending pending' → Pending L ((l, r) :: pending) ((l', r') :: pending')
  | idle {l r u : Term} {pending pending' : List (Term × Term)} : L.terms l u → L.terms r u →
      Pending L pending pending' → Pending L ((l, r) :: pending) pending'

def States (L : Likeness) (S : Store → Store → Prop) (a b : Store × List (Term × Term)) : Prop :=
  S a.1 b.1 ∧ L.Pending a.2 b.2

def Visits (L : Likeness) (a b : List Term × List Var) : Prop :=
  List.Forall₂ L.terms a.1 b.1 ∧ b.2 = a.2 ∧ ∀ v ∈ a.2, L.own v

def Saves (L : Likeness) (p q : Snapshot) : Prop := q = p ∧ ∀ v ∈ p.vars, L.own v

def Outcomes {α : Type} (S : Store → Store → Prop) (a b : α × Store) : Prop :=
  b.1 = a.1 ∧ S a.2 b.2

section Pending

variable {L : Likeness} {pending pending' : List (Term × Term)} {as bs as' bs' : List Term}

theorem Pending.zip (left : List.Forall₂ L.terms as as') (right : List.Forall₂ L.terms bs bs')
    (rest : L.Pending pending pending') :
    L.Pending (as.zip bs ++ pending) (as'.zip bs' ++ pending') := by
  induction left generalizing bs bs' with
  | nil => simpa using rest
  | cons here _ ih =>
      cases right with
      | nil => simpa using rest
      | cons there right => exact .pair here there (ih right)

theorem Pending.zip_idle (left : List.Forall₂ L.terms as as') (right : List.Forall₂ L.terms bs as')
    (rest : L.Pending pending pending') : L.Pending (as.zip bs ++ pending) pending' := by
  induction left generalizing bs with
  | nil => simpa using rest
  | cons here _ ih =>
      cases right with
      | cons there right => exact .idle here there (ih right)

end Pending

namespace Simulates

variable {L : Likeness} {S : Store → Store → Prop} {s t : Store} {l r l' r' u w x y : Term}
  {pending pending' : List (Term × Term)} {fuel : Nat}

section Unification

variable (sim : L.Simulates S) (stores : S s t)

include stores

theorem decided {p : Prop} [Decidable p] (rest : L.Pending pending pending') :
    Turn.Alike (L.States S) (Outcomes S)
      (if p then .again (s, pending) else .finish (false, s))
      (if p then .again (t, pending') else .finish (false, t)) := by
  by_cases same : p
  · rw [if_pos same, if_pos same]
    exact .again ⟨stores, rest⟩
  · rw [if_neg same, if_neg same]
    exact .finish ⟨rfl, stores⟩

include sim in
theorem unifyEnds (left : L.EndsAs s t l l') (right : L.EndsAs s t r r')
    (rest : L.Pending pending pending') :
    Turn.Alike (L.States S) (Outcomes S) (s.unifyEnds pending l r)
      (t.unifyEnds pending' l' r') := by
  cases left.same with
  | @var v =>
      cases right.same with
      | @var w =>
          simp only [Store.unifyEnds]
          by_cases same : v = w
          · rw [if_pos same, if_pos same]
            exact .again ⟨stores, rest⟩
          · rw [if_neg same, if_neg same]
            exact .again ⟨sim.bind stores left right (by simpa [eq_comm] using same), rest⟩
      | _ => exact .again ⟨sim.bind stores left right (by simp), rest⟩
  | atom =>
      cases right.same with
      | var => exact .again ⟨sim.bind stores right left (by simp), rest⟩
      | atom => exact decided stores rest
      | _ => exact .finish ⟨rfl, stores⟩
  | int =>
      cases right.same with
      | var => exact .again ⟨sim.bind stores right left (by simp), rest⟩
      | int => exact decided stores rest
      | _ => exact .finish ⟨rfl, stores⟩
  | @compound f a a' as as' first args =>
      cases right.same with
      | var => exact .again ⟨sim.bind stores right left (by simp), rest⟩
      | @compound g b b' bs bs' first' args' =>
          simp only [Store.unifyEnds, ← args.length_eq, ← args'.length_eq]
          by_cases shape : f = g ∧ as.length = bs.length
          · rw [if_pos shape, if_pos shape]
            exact .again ⟨stores, .pair first first' (.zip args args' rest)⟩
          · rw [if_neg shape, if_neg shape]
            exact .finish ⟨rfl, stores⟩
      | _ => exact .finish ⟨rfl, stores⟩

omit stores in
theorem unifyEnds_idle (left : L.EndsAs s t l u) (right : L.EndsAs s t r u)
    (rest : L.Pending pending pending') :
    ∃ later, s.unifyEnds pending l r = .again (s, later) ∧ L.Pending later pending' := by
  cases left.same with
  | var =>
      cases right.same with
      | var => exact ⟨pending, by simp [Store.unifyEnds], rest⟩
  | atom =>
      cases right.same with
      | atom => exact ⟨pending, by simp [Store.unifyEnds], rest⟩
  | int =>
      cases right.same with
      | int => exact ⟨pending, by simp [Store.unifyEnds], rest⟩
  | compound first args =>
      cases right.same with
      | compound first' args' =>
          have length := args.length_eq.trans args'.length_eq.symm
          refine ⟨_, ?_, .idle first first' (.zip_idle args args' rest)⟩
          simp [Store.unifyEnds, length]

include sim

theorem unifyStep_idle (left : L.terms l u) (right : L.terms r u)
    (rest : L.Pending pending pending') {turn : Turn (Store × List (Term × Term)) (Bool × Store)}
    (taken : Store.unifyStep (s, (l, r) :: pending) = some turn) :
    ∃ later, turn = .again (s, later) ∧ L.Pending later pending' := by
  simp only [Store.unifyStep] at taken
  split at taken
  · rename_i x y leftEnd rightEnd
    obtain ⟨z, done, like⟩ := sim.deref stores left leftEnd
    obtain ⟨z', done', like'⟩ := sim.deref stores right rightEnd
    rw [done] at done'
    cases done'
    cases taken
    by_cases same : l.sameVar r = true
    · rw [if_pos same]
      exact ⟨pending, rfl, rest⟩
    · rw [if_neg same]
      exact unifyEnds_idle like like' rest
  · cases taken

/-- A move on the left is answered on the right: by a move, by none, or by as many as it takes to
pass a pair that is one variable on the left. -/
theorem unifyStep (rest : L.Pending pending pending')
    {turn : Turn (Store × List (Term × Term)) (Bool × Store)}
    (taken : Store.unifyStep (s, pending) = some turn) :
    Turn.Answered (fun state turn => Store.unifyStep state = some turn) (L.States S) (Outcomes S)
      (t, pending') turn := by
  cases rest with
  | nil =>
      cases taken
      exact .finish (.finish rfl) ⟨rfl, stores⟩
  | idle left right rest =>
      obtain ⟨later, rfl, like⟩ := sim.unifyStep_idle stores left right rest taken
      exact .again ⟨stores, like⟩ fun _ leads => leads
  | @pair l r l' r' pending pending' left right rest =>
      obtain ⟨x, y, leftEnd, rightEnd, -⟩ := Store.unifyStep_meets taken
      obtain ⟨x', done, like⟩ := sim.deref stores left leftEnd
      obtain ⟨y', done', like'⟩ := sim.deref stores right rightEnd
      by_cases shared : l'.sameVar r' = true
      · obtain rfl := Store.eq_of_sameVar shared
        obtain ⟨later, rfl, like⟩ := sim.unifyStep_idle stores left right rest taken
        have skipped : Store.unifyStep (t, (l', l') :: pending') = some (.again (t, pending')) := by
          simp only [Store.unifyStep, done, if_pos shared]
        exact .again ⟨stores, like⟩ fun _ leads => .again skipped leads
      · have moved : Store.unifyStep (t, (l', r') :: pending') =
            some (t.unifyEnds pending' x' y') := by
          simp only [Store.unifyStep, done, done', if_neg shared]
        by_cases same : l.sameVar r = true
        · obtain rfl := Store.eq_of_sameVar same
          simp only [Store.unifyStep, leftEnd, if_pos same] at taken
          cases taken
          cases l with
          | var v => exact .again ⟨stores, rest⟩ (sim.idle stores leftEnd left right pending')
          | _ => cases same
        · simp only [Store.unifyStep, leftEnd, rightEnd, if_neg same] at taken
          cases taken
          exact (sim.unifyEnds stores like like' rest).answered moved

theorem unify {answer : Bool} {s₁ : Store} (left : L.terms l l') (right : L.terms r r')
    (done : s.unify fuel l r = some (answer, s₁)) :
    ∃ more t₁, t.unify more l' r' = some (answer, t₁) ∧ S s₁ t₁ := by
  have start : L.States S (s, [(l, r)]) (t, [(l', r')]) := ⟨stores, .pair left right .nil⟩
  obtain ⟨⟨_, t₁⟩, leads, rfl, related⟩ :=
    (Store.leads_of_unify done).along
      (fun _ _ _ states taken => sim.unifyStep states.1 states.2 taken)
      start
  obtain ⟨more, done'⟩ := Store.unify_of_leads leads
  exact ⟨more, t₁, done', related⟩

end Unification

section Snapshots

variable (sim : L.Simulates S) (stores : S s t)

include sim stores

theorem snapshotStep {a b : List Term × List Var} (visits : L.Visits a b)
    {turn : Turn (List Term × List Var) Snapshot} (taken : s.snapshotStep a = some turn) :
    Turn.Answered (fun a turn => t.snapshotStep a = some turn) L.Visits L.Saves b turn := by
  obtain ⟨pending, _⟩ := a
  obtain ⟨pending', found⟩ := b
  obtain ⟨terms, rfl, own⟩ := visits
  cases terms with
  | nil =>
      cases taken
      exact .finish (.finish rfl) ⟨rfl, by simpa using own⟩
  | @cons u w _ later here rest =>
      have visited {x : Term} (done : s.deref u = some x) :
          ∃ y, t.deref w = some y ∧ L.Matches x y := by
        obtain ⟨y, done', like⟩ := sim.deref stores here done
        exact ⟨y, done', like.same⟩
      simp only [Store.snapshotStep] at taken
      split at taken
      · cases taken
      · rename_i v done
        cases taken
        obtain ⟨y, done', same⟩ := visited done
        cases same with
        | var mine =>
            have visits : L.Visits (_, v :: found) (later, v :: found) :=
              ⟨rest, rfl, by simpa using ⟨mine, own⟩⟩
            exact .again visits fun _ => .again (by simp only [Store.snapshotStep, done'])
      · rename_i f first args done
        cases taken
        obtain ⟨y, done', same⟩ := visited done
        cases same with
        | @compound _ _ first' _ args' head tail =>
            have visits : L.Visits (first :: args ++ _, found) (first' :: args' ++ later, found) :=
              ⟨List.rel_append (.cons head tail) rest, rfl, own⟩
            exact .again visits fun _ => .again (by simp only [Store.snapshotStep, done'])
      · rename_i a done
        cases taken
        obtain ⟨y, done', same⟩ := visited done
        cases same
        have visits : L.Visits (_, found) (later, found) := ⟨rest, rfl, own⟩
        exact .again visits fun _ => .again (by simp only [Store.snapshotStep, done'])
      · rename_i n done
        cases taken
        obtain ⟨y, done', same⟩ := visited done
        cases same
        have visits : L.Visits (_, found) (later, found) := ⟨rest, rfl, own⟩
        exact .again visits fun _ => .again (by simp only [Store.snapshotStep, done'])

theorem snapshot (like : L.terms u w) {p : Snapshot} (done : s.snapshot fuel u = some p) :
    (∃ more, t.snapshot more w = some p) ∧ ∀ v ∈ p.vars, L.own v := by
  have leads := Turn.leads_iff.mpr ⟨fuel, done⟩
  have start : L.Visits ([u], []) ([w], []) := ⟨.cons like .nil, rfl, by simp⟩
  obtain ⟨q, leads', rfl, own⟩ :=
    leads.along (fun _ _ _ visits taken => sim.snapshotStep stores visits taken) start
  exact ⟨Turn.leads_iff.mp leads', own⟩

theorem restore {p : Snapshot} (own : ∀ v ∈ p.vars, L.own v) : S (s.restore p) (t.restore p) := by
  obtain ⟨vars⟩ := p
  simp only [Store.restore]
  induction vars generalizing s t with
  | nil => exact stores
  | cons v vars ih =>
      exact ih (sim.unbind stores (own v List.mem_cons_self))
        fun w member => own w (List.mem_cons_of_mem v member)

theorem tryUnify {undo : Option Snapshot} {s₁ : Store} (left : L.terms l l')
    (right : L.terms r r') (done : s.tryUnify fuel l r = some (undo, s₁)) :
    ∃ more t₁, t.tryUnify more l' r' = some (undo, t₁) ∧ S s₁ t₁ ∧
      ∀ p, undo = some p → ∀ v ∈ p.vars, L.own v := by
  simp only [Store.tryUnify] at done
  split at done
  · rename_i p q first second
    obtain ⟨⟨m, first'⟩, ownLeft⟩ := sim.snapshot stores left first
    obtain ⟨⟨n, second'⟩, ownRight⟩ := sim.snapshot stores right second
    have own : ∀ v ∈ (p.join q).vars, L.own v := fun v member =>
      (Store.mem_join.mp member).elim (ownLeft v) (ownRight v)
    split at done
    · rename_i bound attempt
      cases done
      obtain ⟨k, bound', attempt', related⟩ := sim.unify stores left right attempt
      obtain ⟨more, tried⟩ := Store.tryUnify_of_parts first' second' attempt'
      refine ⟨more, bound', tried, related, ?_⟩
      intro _ same
      cases same
      exact own
    · rename_i bound attempt
      cases done
      obtain ⟨k, bound', attempt', related⟩ := sim.unify stores left right attempt
      obtain ⟨more, tried⟩ := Store.tryUnify_of_parts first' second' attempt'
      refine ⟨more, bound'.restore (p.join q), tried, sim.restore related own, ?_⟩
      intro _ same
      cases same
    · cases done
  · cases done

end Snapshots

section Looking

variable (sim : L.Simulates S) (stores : S s t) (like : L.terms u w)

include sim stores like

theorem evaluates {result : Except Halt Int64} (evaluates : s.Evaluates u result) :
    t.Evaluates w result := by
  induction evaluates generalizing w with
  | int done =>
      obtain ⟨y, done', same⟩ := sim.deref stores like done
      cases same.same
      exact .int done'
  | free done =>
      obtain ⟨y, done', same⟩ := sim.deref stores like done
      cases same.same
      exact .free done'
  | atom done =>
      obtain ⟨y, done', same⟩ := sim.deref stores like done
      cases same.same
      exact .atom done'
  | plain done none =>
      obtain ⟨y, done', same⟩ := sim.deref stores like done
      cases same.same with
      | compound _ args =>
          rw [args.length_eq] at none ⊢
          exact .plain done' none
  | unary done found _ ih =>
      obtain ⟨y, done', same⟩ := sim.deref stores like done
      cases same.same with
      | compound first args =>
          cases args
          exact .unary done' found (ih first)
  | binary done found _ _ ih ih' =>
      obtain ⟨y, done', same⟩ := sim.deref stores like done
      cases same.same with
      | compound first args =>
          cases args with
          | cons second none =>
              cases none
              exact .binary done' found (ih first) (ih' second)
  | first done found _ ih =>
      obtain ⟨y, done', same⟩ := sim.deref stores like done
      cases same.same with
      | compound first args =>
          rw [args.length_eq] at found
          exact .first done' found (ih first)
  | second done found _ _ ih ih' =>
      obtain ⟨y, done', same⟩ := sim.deref stores like done
      cases same.same with
      | compound first args =>
          cases args with
          | cons second none =>
              cases none
              exact .second done' found (ih first) (ih' second)

theorem eval {result : Except Halt Int64} (done : s.eval u = some result) :
    t.eval w = some result :=
  Store.eval_eq_some_iff.mpr (sim.evaluates stores like (Store.eval_eq_some_iff.mp done))

theorem kind {kind : Kind} {answer : Bool} (done : s.is kind u = some answer) :
    t.is kind w = some answer := by
  obtain ⟨x, ends, rfl⟩ := Option.map_eq_some_iff.mp done
  obtain ⟨y, ends', same⟩ := sim.deref stores like ends
  refine Option.map_eq_some_iff.mpr ⟨y, ends', ?_⟩
  cases same.same <;> cases kind <;> rfl

theorem cell_none (ended : s.cell? u = some none) : t.cell? w = some none := by
  obtain ⟨x, ends, none⟩ := Option.map_eq_some_iff.mp ended
  obtain ⟨y, ends', same⟩ := sim.deref stores like ends
  refine Option.map_eq_some_iff.mpr ⟨y, ends', ?_⟩
  cases same.same with
  | compound _ args =>
      cases args with
      | nil => rfl
      | cons _ args =>
          cases args with
          | nil => simpa [Term.cell?] using none
          | cons => rfl
  | _ => rfl

theorem cell_some {head tail : Term} (found : s.cell? u = some (some (head, tail))) :
    ∃ head' tail', t.cell? w = some (some (head', tail')) ∧ L.terms head head' ∧
      L.terms tail tail' := by
  obtain ⟨y, ends, same⟩ := sim.deref stores like (Store.deref_of_cell found)
  cases same.same with
  | compound first args =>
      cases args with
      | cons second none =>
          cases none
          exact ⟨_, _, Store.cell?_of_deref ends, first, second⟩

end Looking

end Simulates

end Likeness

end LogicSearch
