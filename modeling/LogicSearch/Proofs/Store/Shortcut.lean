import LogicSearch.Proofs.Store.Passes
import LogicSearch.Proofs.Store.UpTo
import LogicSearch.Store.Kind

/-!
Pairs that are passed over. Where both sides of a pair are bound to one and the same compound,
unification and comparing may skip the pair or walk through it. `unifyPassing` and `equalPassing`
leave the choice open, pair by pair; whatever is chosen, the result is the same, as long as no store
on the way has a cyclic binding.
-/

namespace LogicSearch

namespace Store

/-- Which pairs of one compound are passed over, by the number of the turn and the two terms. -/
abbrev Choice := Nat → Term → Term → Bool

namespace Choice

def never : Choice := fun _ _ _ => false

/-- What a variable is bound to is passed over when it meets itself. -/
def sameVar : Choice := fun _ l r => l.sameVar r

end Choice

def oneCompound (l r : Term) : Bool := Kind.compound.holds l && l == r

def passOver {α β : Type} (passes : Bool) (n : Nat) (without : α) (met : Turn α β) :
    Turn (Nat × α) β :=
  if passes then .again (n + 1, without) else met.map (n + 1, ·) id

def unifyStepPassing (choice : Choice) : Nat × Store × List (Term × Term) →
    Option (Turn (Nat × Store × List (Term × Term)) (Bool × Store))
  | (_, s, []) => some (.finish (true, s))
  | (n, s, (left, right) :: pending) =>
    match s.deref left, s.deref right with
    | some l, some r =>
        some (passOver (choice n left right && oneCompound l r) n (s, pending)
          (s.unifyEnds pending l r))
    | _, _ => none

/-- Unify, passing over the chosen ones of the pairs of one compound. -/
def unifyPassing (s : Store) (choice : Choice) (fuel : Nat) (left right : Term) :
    Option (Bool × Store) :=
  Turn.iterate (unifyStepPassing choice) fuel (0, s, [(left, right)])

def equalStepPassing (s : Store) (choice : Choice) : Nat × List (Term × Term) →
    Option (Turn (Nat × List (Term × Term)) Bool)
  | (_, []) => some (.finish true)
  | (n, (left, right) :: pending) =>
    match s.deref left, s.deref right with
    | some l, some r =>
        some (passOver (choice n left right && oneCompound l r) n pending
          (compareEnds pending l r))
    | _, _ => none

def equalPassing (s : Store) (choice : Choice) (fuel : Nat) (left right : Term) : Option Bool :=
  Turn.iterate (s.equalStepPassing choice) fuel (0, [(left, right)])

/-- An attempt that passes over the chosen pairs is at this store at some moment. -/
def PassesChoosing (choice : Choice) (s : Store) (l r : Term) (t : Store) : Prop :=
  ∃ n pending, Relation.ReflTransGen (Turn.Goes (unifyStepPassing choice)) (0, s, [(l, r)])
    (n, t, pending)

variable {choice : Choice} {s t : Store} {l r a b x : Term} {n : Nat}
  {pending : List (Term × Term)} {answer : Bool}

theorem eq_of_oneCompound (one : oneCompound l r = true) : l = r := by
  rw [oneCompound, Bool.and_eq_true, beq_iff_eq] at one
  exact one.2

theorem args_of_not_oneCompound (other : ¬ oneCompound x x = true) : x.args = [] := by
  cases x with
  | compound f first rest => exact (other (by simp [oneCompound, Kind.holds])).elim
  | _ => rfl

theorem compareEnds_self (pending : List (Term × Term)) (x : Term) :
    compareEnds pending x x = .again (x.args.zip x.args ++ pending) := by
  cases x <;> simp [compareEnds, Term.args]

theorem map_passOver {α β : Type} (passes : Bool) (n : Nat) (without : α) (met : Turn α β) :
    (passOver passes n without met).map Prod.snd id = if passes then .again without else met := by
  cases passes
  · cases met <;> rfl
  · rfl

/-- A pair of one variable is passed over when the variable is bound to a compound. Otherwise there
is nothing inside to walk through. -/
theorem map_passOver_sameVar {α : Type} {β : Type} {without : α} {met : Turn α β}
    (left : s.deref a = some l) (right : s.deref b = some r)
    (nothing : l = r → l.args = [] → met = .again without) :
    (passOver (Choice.sameVar n a b && oneCompound l r) n without met).map Prod.snd id =
      if a.sameVar b then .again without else met := by
  rw [map_passOver, Choice.sameVar]
  by_cases same : a.sameVar b = true
  · obtain rfl := ends_eq_of_sameVar same left right
    by_cases one : oneCompound l l = true
    · simp [same, one]
    · simp [same, one, nothing rfl (args_of_not_oneCompound one)]
  · simp [same]

theorem unifyStep_eq_passing (state : Nat × Store × List (Term × Term)) :
    unifyStep state.2 = (unifyStepPassing .sameVar state).map (Turn.map Prod.snd id) := by
  obtain ⟨n, s, pending⟩ := state
  cases pending with
  | nil => rfl
  | cons pair pending =>
      obtain ⟨a, b⟩ := pair
      cases left : s.deref a with
      | none => simp only [unifyStep, unifyStepPassing, left, Option.map_none]
      | some l =>
          cases right : s.deref b with
          | none => simp only [unifyStep, unifyStepPassing, left, right, Option.map_none]
          | some r =>
              simp only [unifyStep, unifyStepPassing, left, right, Option.map_some]
              rw [map_passOver_sameVar left right]
              rintro rfl none
              rw [unifyEnds_self, none]
              rfl

theorem equalStep_eq_passing (state : Nat × List (Term × Term)) :
    s.equalStep state.2 = (s.equalStepPassing .sameVar state).map (Turn.map Prod.snd id) := by
  obtain ⟨n, pending⟩ := state
  cases pending with
  | nil => rfl
  | cons pair pending =>
      obtain ⟨a, b⟩ := pair
      cases left : s.deref a with
      | none => simp only [equalStep, equalStepPassing, left, Option.map_none]
      | some l =>
          cases right : s.deref b with
          | none => simp only [equalStep, equalStepPassing, left, right, Option.map_none]
          | some r =>
              simp only [equalStep, equalStepPassing, left, right, Option.map_some]
              rw [map_passOver_sameVar left right]
              rintro rfl none
              rw [compareEnds_self, none]
              rfl

theorem unify_eq_passing (s : Store) (fuel : Nat) (l r : Term) :
    s.unify fuel l r = s.unifyPassing .sameVar fuel l r := by
  have same := Turn.iterate_map unifyStep_eq_passing fuel (0, s, [(l, r)])
  rwa [Option.map_id] at same

theorem equal_eq_passing (s : Store) (fuel : Nat) (l r : Term) :
    s.equal fuel l r = s.equalPassing .sameVar fuel l r := by
  have same := Turn.iterate_map (s.equalStep_eq_passing) fuel (0, [(l, r)])
  rwa [Option.map_id] at same

theorem unifyStepPassing_cases {turn : Turn (Nat × Store × List (Term × Term)) (Bool × Store)}
    (taken : unifyStepPassing choice (n, s, (a, b) :: pending) = some turn) :
    ∃ l r, s.deref a = some l ∧ s.deref b = some r ∧
      (l = r ∧ turn = .again (n + 1, s, pending) ∨
        turn = (s.unifyEnds pending l r).map (n + 1, ·) id) := by
  simp only [unifyStepPassing] at taken
  split at taken
  · rename_i l r left right
    refine ⟨l, r, left, right, ?_⟩
    cases taken
    by_cases passes : (choice n a b && oneCompound l r) = true
    · rw [passes]
      exact .inl ⟨eq_of_oneCompound (Bool.and_eq_true_iff.mp passes).2, rfl⟩
    · exact .inr (if_neg passes)
  · cases taken

theorem unifyStepPassing_meets {turn : Turn (Nat × Store × List (Term × Term)) (Bool × Store)}
    (taken : unifyStepPassing choice (n, s, (a, b) :: pending) = some turn) :
    ∃ l r, s.deref a = some l ∧ s.deref b = some r ∧
      Meets s pending l r (turn.map Prod.snd id) := by
  obtain ⟨l, r, left, right, ⟨rfl, rfl⟩ | rfl⟩ := unifyStepPassing_cases taken
  · exact ⟨l, l, left, right, .same⟩
  · refine ⟨l, r, left, right, ?_⟩
    have same : ((s.unifyEnds pending l r).map (n + 1, ·) id).map Prod.snd id =
        s.unifyEnds pending l r := by
      cases s.unifyEnds pending l r <;> rfl
    rw [same]
    exact unifyEnds_meets

theorem unifyStepPassing_never (n : Nat) (pending : List (Term × Term))
    (left : s.deref a = some l) (right : s.deref b = some r) :
    unifyStepPassing .never (n, s, (a, b) :: pending) =
      some ((s.unifyEnds pending l r).map (n + 1, ·) id) := by
  simp [unifyStepPassing, left, right, Choice.never, passOver]

theorem unifyStepPassing_returns (chains : s.ChainsEnd) (choice : Choice) (n : Nat)
    (pending : List (Term × Term)) :
    ∃ turn, unifyStepPassing choice (n, s, pending) = some turn := by
  cases pending with
  | nil => exact ⟨_, rfl⟩
  | cons pair pending =>
      obtain ⟨l, left⟩ := chains pair.1
      obtain ⟨r, right⟩ := chains pair.2
      simp only [unifyStepPassing, left, right]
      exact ⟨_, rfl⟩

def Vanishes (s : Store) (l r : Term) : Prop :=
  ∀ choice n pending, ∃ m, Relation.ReflTransGen (Turn.Goes (unifyStepPassing choice))
    (n, s, (l, r) :: pending) (m, s, pending)

theorem vanish_all {pairs : List (Term × Term)}
    (vanish : ∀ pair ∈ pairs, s.Vanishes pair.1 pair.2) (choice : Choice) (n : Nat)
    (pending : List (Term × Term)) :
    ∃ m, Relation.ReflTransGen (Turn.Goes (unifyStepPassing choice)) (n, s, pairs ++ pending)
      (m, s, pending) := by
  induction pairs generalizing n with
  | nil => exact ⟨n, .refl⟩
  | cons pair pairs ih =>
      obtain ⟨k, here⟩ := vanish pair List.mem_cons_self choice n (pairs ++ pending)
      obtain ⟨m, later⟩ := ih (fun pair member => vanish pair (List.mem_cons_of_mem _ member)) k
      exact ⟨m, here.trans later⟩

theorem vanishes_of_deref (acyclic : s.Acyclic) (left : s.deref a = some x)
    (right : s.deref b = some x) : s.Vanishes a b := by
  induction size : (a.subst s.trees).nodes using Nat.strong_induction_on generalizing a b x with
  | _ k ih =>
      intro choice n pending
      obtain ⟨turn, taken⟩ :=
        unifyStepPassing_returns acyclic.chainsEnd choice n ((a, b) :: pending)
      obtain ⟨l, r, left', right', way⟩ := unifyStepPassing_cases taken
      cases left.symm.trans left'
      cases right.symm.trans right'
      rcases way with ⟨-, rfl⟩ | rfl
      · exact ⟨n + 1, .single taken⟩
      · rw [unifyEnds_self] at taken
        -- Walked through instead, the pair leaves those of its arguments, which vanish in turn.
        have inside : List.Forall₂ s.Vanishes x.args x.args := by
          refine List.forall₂_same.mpr fun u member => ?_
          obtain ⟨y, done⟩ := acyclic.chainsEnd u
          exact ih _ (size ▸ acyclic.nodes_lt_of_arg left member) done done rfl
        obtain ⟨m, later⟩ := vanish_all (fun pair member => List.forall₂_zip inside member) choice
          (n + 1) pending
        exact ⟨m, later.head taken⟩

variable {state next : Nat × Store × List (Term × Term)} {result : Bool × Store}

theorem le_of_goes (goes : Turn.Goes (unifyStepPassing choice) state next) :
    state.2.1 ≤ next.2.1 := by
  obtain ⟨n, s, pending⟩ := state
  cases pending with
  | nil => cases goes
  | cons pair pending =>
      obtain ⟨l, r, left, right, meets⟩ := unifyStepPassing_meets goes
      have grows := meets.grows (V := fun _ => True) (deref_of_isEnd (deref_isEnd left))
        (deref_of_isEnd (deref_isEnd right)) (fun _ _ => trivial) (fun _ _ _ _ => trivial) rfl
      exact grows.1.kept

theorem store_of_finish (taken : unifyStepPassing choice state = some (.finish result)) :
    result.2 = state.2.1 := by
  obtain ⟨n, s, pending⟩ := state
  cases pending with
  | nil =>
      cases taken
      rfl
  | cons pair pending =>
      obtain ⟨l, r, -, -, meets⟩ := unifyStepPassing_meets taken
      exact congrArg Prod.snd (meets.store_of_finish rfl).1

theorem last_of_leads
    (leads : Turn.Leads (fun state turn => unifyStepPassing choice state = some turn) state
      result) :
    ∃ last, Relation.ReflTransGen (Turn.Goes (unifyStepPassing choice)) state last ∧
      last.2.1 = result.2 := by
  induction leads with
  | again taken _ ih =>
      obtain ⟨last, path, same⟩ := ih
      exact ⟨last, path.head taken, same⟩
  | finish taken => exact ⟨_, .refl, (store_of_finish taken).symm⟩

theorem le_of_leads
    (leads : Turn.Leads (fun state turn => unifyStepPassing choice state = some turn) state
      result) : state.2.1 ≤ result.2 := by
  obtain ⟨last, path, same⟩ := last_of_leads leads
  have grown : state.2.1 ≤ last.2.1 := by
    clear same
    induction path with
    | refl => exact le_refl _
    | tail _ goes ih => exact le_trans ih (le_of_goes goes)
  exact same ▸ grown

theorem leads_of_calm_passing (calm : ∀ t, PassesChoosing choice s l r t → t.Acyclic) :
    ∃ result, Turn.Leads (fun state turn => unifyStepPassing choice state = some turn)
      (0, s, [(l, r)]) result := by
  have acyclic := calm s ⟨_, _, .refl⟩
  apply Turn.leads_of_descends (fun state => effort (s.freeVars l ∪ s.freeVars r) state.2)
    (fun state => PendingWithin (· ∈ s.freeVars l ∪ s.freeVars r) state.2.1 state.2.2 ∧
      Relation.ReflTransGen (Turn.Goes (unifyStepPassing choice)) (0, s, [(l, r)]) state)
  · rintro ⟨n, now, pending⟩ ⟨-, path⟩
    exact unifyStepPassing_returns (calm now ⟨_, _, path⟩).chainsEnd choice n pending
  · rintro ⟨n, now, pending⟩ next ⟨within, path⟩ taken
    cases pending with
    | nil => cases taken
    | cons pair pending =>
        obtain ⟨x, y, left, right, meets⟩ := unifyStepPassing_meets taken
        obtain ⟨within', smaller⟩ := meets.progress left right within (calm now ⟨_, _, path⟩)
        exact ⟨⟨within', path.tail taken⟩, smaller⟩
  · refine ⟨?_, .refl⟩
    intro pair member v free
    cases List.mem_singleton.mp member
    simpa only [Finset.mem_union, mem_freeVars acyclic] using free

/-- What a move does, a move without shortcuts does too, or else several such moves do it. -/
theorem never_of_goes (acyclic : state.2.1.Acyclic)
    (goes : Turn.Goes (unifyStepPassing choice) state next) (m : Nat) :
    ∃ k, Relation.ReflTransGen (Turn.Goes (unifyStepPassing .never)) (m, state.2) (k, next.2) := by
  obtain ⟨n, s, pending⟩ := state
  cases pending with
  | nil => cases goes
  | cons pair pending =>
      obtain ⟨l, r, left, right, ⟨rfl, same⟩ | same⟩ := unifyStepPassing_cases goes
      · cases same
        exact vanishes_of_deref acyclic left right .never m pending
      · have taken := unifyStepPassing_never m pending left right
        cases met : s.unifyEnds pending l r with
        | finish result =>
            rw [met] at same
            cases same
        | again next =>
            rw [met] at same taken
            cases same
            exact ⟨m + 1, .single taken⟩

theorem never_of_leads
    (leads : Turn.Leads (fun state turn => unifyStepPassing choice state = some turn) state result)
    (calm : ∀ next, Relation.ReflTransGen (Turn.Goes (unifyStepPassing choice)) state next →
      next.2.1.Acyclic) (m : Nat) :
    Turn.Leads (fun state turn => unifyStepPassing .never state = some turn) (m, state.2)
      result := by
  induction leads generalizing m with
  | again taken _ ih =>
      obtain ⟨k, path⟩ := never_of_goes (calm _ .refl) taken m
      exact (ih (fun next path => calm next (path.head taken)) k).after path
  | @finish state result taken =>
      obtain ⟨n, s, pending⟩ := state
      cases pending with
      | nil =>
          cases taken
          exact .finish rfl
      | cons pair pending =>
          obtain ⟨l, r, left, right, ⟨-, same⟩ | same⟩ := unifyStepPassing_cases taken
          · cases same
          · have final := unifyStepPassing_never m pending left right
            cases met : s.unifyEnds pending l r with
            | again next =>
                rw [met] at same
                cases same
            | finish result =>
                rw [met] at same final
                cases same
                exact .finish final

theorem calm_of_leads (acyclic : result.2.Acyclic)
    (leads : Turn.Leads (fun state turn => unifyStepPassing choice state = some turn)
      (0, s, [(l, r)]) result) (passes : PassesChoosing choice s l r t) : t.Acyclic := by
  obtain ⟨n, pending, path⟩ := passes
  have grown := le_of_leads (leads.rest path)
  exact acyclic.of_le grown

/-- If an attempt without shortcuts ends in a store without cyclic bindings, no other attempt makes
a cycle on its way. -/
theorem calm_of_never (acyclic : result.2.Acyclic)
    (leads : Turn.Leads (fun state turn => unifyStepPassing .never state = some turn)
      (0, s, [(l, r)]) result) (passes : PassesChoosing choice s l r t) : t.Acyclic := by
  obtain ⟨n, pending, path⟩ := passes
  have rest {state : Nat × Store × List (Term × Term)} {k : Nat}
      (walked : Relation.ReflTransGen (Turn.Goes (unifyStepPassing .never)) (0, s, [(l, r)])
        (k, state.2)) : state.2.1.Acyclic := by
    have grown := le_of_leads (leads.rest walked)
    exact acyclic.of_le grown
  -- Move by move the other attempt comes to the same store with the same pairs, though it may
  -- have made more moves by then.
  have walk {state : Nat × Store × List (Term × Term)}
      (path : Relation.ReflTransGen (Turn.Goes (unifyStepPassing choice)) (0, s, [(l, r)]) state) :
      ∃ k, Relation.ReflTransGen (Turn.Goes (unifyStepPassing .never)) (0, s, [(l, r)])
        (k, state.2) := by
    induction path with
    | refl => exact ⟨0, .refl⟩
    | @tail state next _ goes ih =>
        obtain ⟨k, walked⟩ := ih
        obtain ⟨j, further⟩ := never_of_goes (rest walked) goes k
        exact ⟨j, walked.trans further⟩
  obtain ⟨k, walked⟩ := walk path
  exact rest walked

theorem unifyPassing_of_leads
    (leads : Turn.Leads (fun state turn => unifyStepPassing choice state = some turn)
      (0, s, [(l, r)]) result) : ∃ fuel, s.unifyPassing choice fuel l r = some result :=
  Turn.leads_iff.mp leads

theorem unifyPassing_agree (calm : ∀ t, PassesChoosing choice s l r t → t.Acyclic) :
    ∃ result, ∀ other, ∃ fuel, s.unifyPassing other fuel l r = some result := by
  obtain ⟨result, leads⟩ := leads_of_calm_passing calm
  have plain := never_of_leads leads (fun next path => calm _ ⟨_, _, path⟩) 0
  obtain ⟨⟨_, _, _⟩, path, same⟩ := last_of_leads leads
  have acyclic : result.2.Acyclic := same ▸ calm _ ⟨_, _, path⟩
  refine ⟨result, fun other => ?_⟩
  have calm' : ∀ t, PassesChoosing other s l r t → t.Acyclic := fun t =>
    calm_of_never acyclic plain
  obtain ⟨result', leads'⟩ := leads_of_calm_passing calm'
  have plain' := never_of_leads leads' (fun next path => calm' _ ⟨_, _, path⟩) 0
  exact plain.unique plain' ▸ unifyPassing_of_leads leads'

theorem unifyPassing_self (acyclic : s.Acyclic) (choice : Choice) (t : Term) :
    ∃ fuel, s.unifyPassing choice fuel t t = some (true, s) := by
  obtain ⟨x, done⟩ := acyclic.chainsEnd t
  obtain ⟨m, path⟩ := vanishes_of_deref acyclic done done choice 0 []
  have last : Turn.Leads (fun state turn => unifyStepPassing choice state = some turn)
      (m, s, []) (true, s) := .finish rfl
  exact unifyPassing_of_leads (last.after path)

theorem equalStepPassing_returns (chains : s.ChainsEnd) (choice : Choice)
    (state : Nat × List (Term × Term)) : ∃ turn, s.equalStepPassing choice state = some turn := by
  obtain ⟨n, pending⟩ := state
  cases pending with
  | nil => exact ⟨_, rfl⟩
  | cons pair pending =>
      obtain ⟨l, left⟩ := chains pair.1
      obtain ⟨r, right⟩ := chains pair.2
      simp only [equalStepPassing, left, right]
      exact ⟨_, rfl⟩

theorem equalStepPassing_compared {state : Nat × List (Term × Term)}
    {turn : Turn (Nat × List (Term × Term)) Bool}
    (taken : s.equalStepPassing choice state = some turn) :
    Compared s state.2 (turn.map Prod.snd id) := by
  obtain ⟨n, pending⟩ := state
  cases pending with
  | nil =>
      cases taken
      exact .nil
  | cons pair pending =>
      simp only [equalStepPassing] at taken
      split at taken
      · rename_i l r left right
        cases taken
        refine .pair left right ?_
        rw [map_passOver]
        split
        · rename_i passes
          obtain rfl := eq_of_oneCompound (Bool.and_eq_true_iff.mp passes).2
          exact .same
        · exact compareEnds_compares (deref_isEnd left) (deref_isEnd right)
      · cases taken

theorem equalPassing_of_acyclic (acyclic : s.Acyclic) (choice : Choice) (l r : Term) :
    ∃ fuel, s.equalPassing choice fuel l r =
      some (decide (l.subst s.trees = r.subst s.trees)) := by
  obtain ⟨answer, leads, exact⟩ := leads_of_compared Prod.snd acyclic
    (equalStepPassing_returns acyclic.chainsEnd choice)
    (fun _ _ taken => equalStepPassing_compared taken) (0, [(l, r)])
  have same : answer = decide (l.subst s.trees = r.subst s.trees) := by
    rw [Bool.eq_iff_iff, decide_eq_true_iff, exact]
    simp [Solves]
  obtain ⟨fuel, done⟩ := Turn.leads_iff.mp leads
  exact ⟨fuel, same ▸ done⟩

/-- In a store without cyclic bindings it does not matter which pairs of one compound are passed
over. If one way to choose comes by no store with a cyclic binding, then all ways to choose, never
among them, give one answer and one store; comparing gives one answer in any case; and a term is
made equal to itself without a change. What `unify` and `equal` do is one of these ways. -/
theorem shortcuts_change_nothing (acyclic : s.Acyclic) (l r : Term) :
    (∀ choice, (∀ t, PassesChoosing choice s l r t → t.Acyclic) →
      ∃ answer t, ∀ other, ∃ fuel, s.unifyPassing other fuel l r = some (answer, t)) ∧
    (∃ answer, ∀ choice, ∃ fuel, s.equalPassing choice fuel l r = some answer) ∧
    (∀ choice t, ∃ fuel, s.unifyPassing choice fuel t t = some (true, s)) ∧
    (∀ fuel, s.unify fuel l r = s.unifyPassing .sameVar fuel l r) ∧
    (∀ fuel, s.equal fuel l r = s.equalPassing .sameVar fuel l r) ∧
    ∀ t, ∃ fuel, s.unify fuel t t = some (true, s) := by
  refine ⟨?_, ⟨_, fun choice => equalPassing_of_acyclic acyclic choice l r⟩,
    unifyPassing_self acyclic, fun fuel => s.unify_eq_passing fuel l r,
    fun fuel => s.equal_eq_passing fuel l r, ?_⟩
  · intro choice calm
    obtain ⟨⟨answer, t⟩, agree⟩ := unifyPassing_agree calm
    exact ⟨answer, t, agree⟩
  · intro t
    simp only [unify_eq_passing]
    exact unifyPassing_self acyclic .sameVar t

theorem shortcuts_change_nothing_shared_compound :
    let s := empty.bind 2 (.compound ⟨"f"⟩ (.var 1) [.var 0])
    let l : Term := .compound ⟨"g"⟩ (.var 2) [.var 1]
    let r : Term := .compound ⟨"g"⟩ (.var 2) [.atom ⟨"a"⟩]
    s.Acyclic ∧ (∀ t, PassesChoosing .never s l r t → t.Acyclic) ∧
      ∀ other, ∃ fuel, s.unifyPassing other fuel l r = some (true, s.bind 1 (.atom ⟨"a"⟩)) := by
  intro s l r
  have descending : s.Descending := descending_empty.bind (by decide)
  have done : s.unifyPassing .never 6 l r = some (true, s.bind 1 (.atom ⟨"a"⟩)) := rfl
  have leads := Turn.leads_iff.mpr ⟨6, done⟩
  have calm : ∀ t, PassesChoosing .never s l r t → t.Acyclic := fun t =>
    calm_of_leads (descending.bind (by decide)).acyclic leads
  obtain ⟨answer, t, agree⟩ := (shortcuts_change_nothing descending.acyclic l r).1 .never calm
  obtain ⟨fuel, done'⟩ := agree .never
  have same := leads.unique (Turn.leads_iff.mpr ⟨fuel, done'⟩)
  exact ⟨descending.acyclic, calm, same ▸ agree⟩

end Store

end LogicSearch
