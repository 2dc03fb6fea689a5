import LogicSearch.Proofs.Search.Likeness
import LogicSearch.Proofs.Store.Frame
import LogicSearch.Query

namespace LogicSearch

variable {U : Type} {W V : Var → Prop} {left right : Store}

theorem Activation.Alike.eq_of_over {a a' : Activation U} (alike : Alike (.over W) a a') :
    a' = a := by
  induction alike with
  | test tests =>
      cases tests with
      | notUnifiable left right => rw [left.1, right.1]
      | ofKind like => rw [like.1]
      | compare left right => rw [left.1, right.1]
      | _ => rfl
  | equation like _ =>
      cases like with
      | unify left right => rw [left.1, right.1]
      | evaluate result expression => rw [result.1, expression.1]
  | member like phases =>
      cases phases with
      | fresh lists => rw [like.1, lists.1]
      | tried _ _ tails => rw [like.1, tails.1]
      | done => rw [like.1]
  | conjunctionLeft left right _ ih => rw [left.1, right.1, ih]
  | conjunctionRight left right _ _ below ih => rw [left.1, right.1, below, ih]
  | disjunctionLeft left right _ ih => rw [left.1, right.1, ih]
  | disjunctionRight left right _ ih => rw [left.1, right.1, ih]
  | conjunctionFresh left right => rw [left.1, right.1]
  | conjunctionDone left right => rw [left.1, right.1]
  | disjunctionFresh left right => rw [left.1, right.1]
  | disjunctionBetween left right => rw [left.1, right.1]
  | disjunctionDone left right => rw [left.1, right.1]

namespace Query

open Activation (Alike Asks Replies)
open Store (Shares)

variable [Plugin U]

inductive Request where
  | next
  | abort
  | drop
  deriving DecidableEq

/-- A request that returns: the answer if it has one, and the query and the machine after it. A
query that is dropped is given up. -/
inductive Serves : Request → Query U → Machine → Option (Except Halt Bool) → Query U → Machine →
    Prop where
  | next (fuel : Nat) {q q' : Query U} {m m' : Machine} {answer : Except Halt Bool} :
      q.next fuel m = some ⟨answer, q', m'⟩ → Serves .next q m (some answer) q' m'
  | abort {q q' : Query U} {m m' : Machine} : q.abort m = (q', m') → Serves .abort q m none q' m'
  | drop {q q' : Query U} {m m' : Machine} : q.abort m = (q', m') → Serves .drop q m none q' m'

structure Event where
  request : Request
  answer : Option (Except Halt Bool)

inductive Alone (q : Query U) (m : Machine) : List Event → Query U → Machine → Prop where
  | start : Alone q m [] q m
  | serve {events : List Event} {q₁ q₂ : Query U} {m₁ m₂ : Machine} {request : Request}
      {answer : Option (Except Halt Bool)} : Alone q m events q₁ m₁ →
      Serves request q₁ m₁ answer q₂ m₂ → Alone q m (events ++ [⟨request, answer⟩]) q₂ m₂

/-- Two queries served by turns on one machine; the log says what was requested of which. -/
inductive Interleaved (p q : Query U) (m : Machine) :
    List (Event ⊕ Event) → Query U → Query U → Machine → Prop where
  | start : Interleaved p q m [] p q m
  | first {log : List (Event ⊕ Event)} {p₁ p₂ q₁ : Query U} {m₁ m₂ : Machine} {request : Request}
      {answer : Option (Except Halt Bool)} : Interleaved p q m log p₁ q₁ m₁ →
      Serves request p₁ m₁ answer p₂ m₂ →
      Interleaved p q m (log ++ [.inl ⟨request, answer⟩]) p₂ q₁ m₂
  | second {log : List (Event ⊕ Event)} {p₁ q₁ q₂ : Query U} {m₁ m₂ : Machine} {request : Request}
      {answer : Option (Except Halt Bool)} : Interleaved p q m log p₁ q₁ m₁ →
      Serves request q₁ m₁ answer q₂ m₂ →
      Interleaved p q m (log ++ [.inr ⟨request, answer⟩]) p₁ q₂ m₂

structure Keeps (W : Var → Prop) (q : Query U) : Prop where
  registry : q.registry = Registry.builtins
  activation : Alike (.over W) q.activation q.activation

variable {q q' : Query U} {m m' n : Machine} {request : Request}
  {answer : Option (Except Halt Bool)}

theorem Keeps.abort (keeps : q.Keeps W) (shares : Shares W left right m.store n.store)
    (given : q.abort m = (q', m')) :
    ∃ n', q.abort n = (q', n') ∧ q'.Keeps W ∧ Shares W left right m'.store n'.store := by
  simp only [Query.abort] at given ⊢
  split at given
  · rename_i running
    cases given
    obtain ⟨alike, shares'⟩ := keeps.activation.abort (Store.simulates_over W left right) shares
    have same := alike.eq_of_over
    rw [same] at alike
    rw [if_pos running, same]
    exact ⟨_, rfl, ⟨keeps.registry, alike⟩, shares'⟩
  · rename_i stopped
    cases given
    rw [if_neg stopped]
    exact ⟨n, rfl, keeps, shares⟩

theorem Keeps.settle (keeps : q.Keeps W) {reply reply' : Reply Machine (Activation U)}
    (replies : Replies (.over W) (Shares W left right) reply reply') {answer : Except Halt Bool}
    (settled : q.settle reply = ⟨answer, q', m'⟩) :
    ∃ n', q.settle reply' = ⟨answer, q', n'⟩ ∧ q'.Keeps W ∧
      Shares W left right m'.store n'.store := by
  obtain ⟨_, a, m⟩ := reply
  obtain ⟨replied, b, n⟩ := reply'
  obtain ⟨rfl, goals, shares⟩ := replies
  obtain rfl := goals.eq_of_over
  have present (running : Bool) (found : Nat) :
      Keeps W ⟨q.goal, b, q.registry, running, found⟩ := ⟨keeps.registry, goals⟩
  let r : Query U := ⟨q.goal, b, q.registry, true, q.found⟩
  have given : r.abort m = ((r.abort m).1, (r.abort m).2) := rfl
  obtain ⟨n', given', keeps', shares'⟩ := (present true q.found).abort shares given
  simp only [Query.settle] at settled ⊢
  cases replied with
  | error halt =>
      cases halt with
      | error cause =>
          cases settled
          exact ⟨n', by rw [given'], keeps', shares'⟩
      | defect cause =>
          cases settled
          exact ⟨n, rfl, present true q.found, shares⟩
  | ok more =>
      cases more with
      | true =>
          cases settled
          exact ⟨n, rfl, present true (q.found + 1), shares⟩
      | false =>
          by_cases cut : b.committed = true
          · simp only [if_pos cut] at settled ⊢
            cases settled
            exact ⟨n', by rw [given'], keeps', shares'⟩
          · simp only [if_neg cut] at settled ⊢
            cases settled
            exact ⟨n, rfl, present false q.found, shares⟩

theorem Keeps.next {fuel : Nat} {answer : Except Halt Bool} (keeps : q.Keeps W)
    (shares : Shares W left right m.store n.store)
    (done : q.next fuel m = some ⟨answer, q', m'⟩) :
    ∃ more n', q.next more n = some ⟨answer, q', n'⟩ ∧ q'.Keeps W ∧
      Shares W left right m'.store n'.store := by
  unfold Query.next at done ⊢
  split at done
  · rename_i running
    obtain ⟨reply, asked, settled⟩ := Option.map_eq_some_iff.mp done
    rw [keeps.registry] at asked
    obtain ⟨reply', ⟨more, asked'⟩, replies⟩ :=
      keeps.activation.next (Store.simulates_over W left right) shares asked
    obtain ⟨n', settled', kept⟩ := keeps.settle replies settled
    refine ⟨more, n', ?_, kept⟩
    rw [if_pos running, keeps.registry, asked', Option.map_some, settled']
  · rename_i stopped
    cases done
    exact ⟨0, n, by rw [if_neg stopped], keeps, shares⟩

theorem Keeps.serves (keeps : q.Keeps W) (shares : Shares W left right m.store n.store)
    (serves : Serves request q m answer q' m') :
    ∃ n', Serves request q n answer q' n' ∧ q'.Keeps W ∧
      Shares W left right m'.store n'.store := by
  cases serves with
  | next fuel done =>
      obtain ⟨more, n', done', kept⟩ := keeps.next shares done
      exact ⟨n', .next more done', kept⟩
  | abort given =>
      obtain ⟨n', given', kept⟩ := keeps.abort shares given
      exact ⟨n', .abort given', kept⟩
  | drop given =>
      obtain ⟨n', given', kept⟩ := keeps.abort shares given
      exact ⟨n', .drop given', kept⟩

omit [Plugin U] in
theorem keeps_of_start {goal : Term} (started : start Registry.builtins goal m = some (.ok q, m')) :
    q.Keeps (m.store.Reaches goal) := by
  have shares : Shares (m.store.Reaches goal) m.store m.store m.store m.store :=
    Store.shares_refl fun v u reached found y occurs => reached.closed found occurs
  have like : (Likeness.over (m.store.Reaches goal)).terms goal goal := ⟨rfl, fun v => .here⟩
  simp only [start] at started
  split at started
  · cases started
  · rename_i a _ called
    cases started
    have again : ∃ result, (Registry.builtins : Registry U).call goal m = some (result, m) ∧
        Activation.Started (.over (m.store.Reaches goal)) (.ok a) result :=
      ((Store.simulates_over _ m.store m.store).call shares like called).2
    obtain ⟨_, -, alike⟩ := again
    cases alike with
    | ok alike =>
        refine ⟨rfl, ?_⟩
        have same := alike.eq_of_over
        rw [same] at alike
        exact alike
  · cases started

/-- A query on a machine that others use too, beside the machine it would have alone. -/
structure Tracks (W : Var → Prop) (q : Query U) (m : Machine) (events : List Event)
    (present : Query U) (now alone : Machine) : Prop where
  run : Alone q m events present alone
  keeps : present.Keeps W
  shares : Shares W now.store m.store now.store alone.store

variable {p present : Query U} {events : List Event} {now alone : Machine}

theorem Tracks.start (keeps : q.Keeps W)
    (closed : ∀ v u, W v → m.store.lookup v = some u → ∀ w ∈ u.vars, W w) :
    Tracks W q m [] q m m :=
  ⟨.start, keeps, Store.shares_refl closed⟩

theorem Tracks.serve (tracks : Tracks W q m events present now alone)
    (serves : Serves request present now answer q' n) :
    (∃ alone', Tracks W q m (events ++ [⟨request, answer⟩]) q' n alone') ∧
      ∀ v, ¬ W v → n.store.lookup v = now.store.lookup v := by
  obtain ⟨alone', serves', keeps', shares'⟩ := tracks.keeps.serves tracks.shares serves
  refine ⟨⟨alone', .serve tracks.run serves', keeps', ?_⟩, shares'.left⟩
  exact ⟨shares'.same, shares'.closed, fun _ _ => rfl, shares'.right⟩

theorem Tracks.wait (tracks : Tracks W q m events present now alone)
    (untouched : ∀ v, W v → n.store.lookup v = now.store.lookup v) :
    Tracks W q m events present n alone where
  run := tracks.run
  keeps := tracks.keeps
  shares :=
    { same := fun v inside => (tracks.shares.same v inside).trans (untouched v inside).symm
      closed := fun v u inside found =>
        tracks.shares.closed v u inside (untouched v inside ▸ found)
      left := fun _ _ => rfl
      right := tracks.shares.right }

theorem tracks_of_interleaved {log : List (Event ⊕ Event)} {p' : Query U}
    (apart : ∀ v, V v → ¬ W v) (first : Tracks V p m [] p m m) (second : Tracks W q m [] q m m)
    (run : Interleaved p q m log p' q' now) :
    (∃ alone, Tracks V p m (log.filterMap Sum.getLeft?) p' now alone) ∧
      ∃ alone, Tracks W q m (log.filterMap Sum.getRight?) q' now alone := by
  induction run with
  | start => exact ⟨⟨m, first⟩, ⟨m, second⟩⟩
  | first _ serves ih =>
      -- A request of the first query is one that the second one only waits for.
      obtain ⟨⟨_, left⟩, ⟨other, right⟩⟩ := ih
      obtain ⟨⟨alone, served⟩, elsewhere⟩ := left.serve serves
      have waits := right.wait fun v inside => elsewhere v fun other => apart v other inside
      exact ⟨⟨alone, by simpa using served⟩, other, by simpa [List.filterMap_cons] using waits⟩
  | second _ serves ih =>
      obtain ⟨⟨other, left⟩, ⟨_, right⟩⟩ := ih
      obtain ⟨⟨alone, served⟩, elsewhere⟩ := right.serve serves
      have waits := left.wait fun v inside => elsewhere v fun other => apart v inside other
      exact ⟨⟨other, by simpa [List.filterMap_cons] using waits⟩, alone, by simpa using served⟩

/-- After these events a query is where it would be if it had the machine for itself: it gave the
same answers, the variables reached from its goal are bound alike, and what would be served next
alone is served. -/
def AsAlone (goal : Term) (q : Query U) (m : Machine) (events : List Event) (present : Query U)
    (now : Machine) : Prop :=
  ∃ alone, Alone q m events present alone ∧
    (∀ v, m.store.Reaches goal v → now.store.lookup v = alone.store.lookup v) ∧
    ∀ request answer q' n, Serves request present alone answer q' n →
      ∃ n', Serves request present now answer q' n'

/-- Nothing that is requested of the query changes a variable reached from the other goal. -/
def Spares (other : Term) (present : Query U) (now : Machine) : Prop :=
  ∀ request answer q' n, Serves request present now answer q' n →
    ∀ v, now.store.Reaches other v → n.store.lookup v = now.store.lookup v

theorem Tracks.asAlone {goal : Term}
    (tracks : Tracks (m.store.Reaches goal) q m events present now alone) :
    AsAlone goal q m events present now := by
  refine ⟨alone, tracks.run, fun v reached => (tracks.shares.same v reached).symm, ?_⟩
  intro request answer q' n serves
  obtain ⟨n', serves', -, -⟩ := tracks.keeps.serves tracks.shares.symm serves
  exact ⟨n', serves'⟩

theorem Tracks.reaches {goal : Term} {v : Var}
    (tracks : Tracks (m.store.Reaches goal) q m events present now alone)
    (reached : now.store.Reaches goal v) : m.store.Reaches goal v :=
  reached.of_closed tracks.shares.closed fun _ => .here

/-- Queries whose goals reach no common variable do not interfere, however their requests are
interleaved: each is where it would be alone, and neither changes what the other can reach. -/
theorem disjoint_queries_independent {first second : Term} {p q p' q' : Query U} {m now : Machine}
    {log : List (Event ⊕ Event)}
    (apart : ∀ v, m.store.Reaches first v → ¬ m.store.Reaches second v)
    (startedFirst : start Registry.builtins first m = some (.ok p, m))
    (startedSecond : start Registry.builtins second m = some (.ok q, m))
    (run : Interleaved p q m log p' q' now) :
    AsAlone first p m (log.filterMap Sum.getLeft?) p' now ∧
      AsAlone second q m (log.filterMap Sum.getRight?) q' now ∧
      Spares second p' now ∧ Spares first q' now ∧
      (∀ v, now.store.Reaches first v → m.store.Reaches first v) ∧
      ∀ v, now.store.Reaches second v → m.store.Reaches second v := by
  have closed (goal : Term) (v : Var) (u : Term) (reached : m.store.Reaches goal v)
      (found : m.store.lookup v = some u) (w) (occurs : w ∈ u.vars) : m.store.Reaches goal w :=
    reached.closed found occurs
  obtain ⟨⟨_, left⟩, ⟨_, right⟩⟩ := tracks_of_interleaved apart
    (.start (keeps_of_start startedFirst) (closed first))
    (.start (keeps_of_start startedSecond) (closed second)) run
  refine ⟨left.asAlone, right.asAlone, ?_, ?_, fun _ => left.reaches, fun _ => right.reaches⟩
  · intro request answer p'' n serves v reached
    exact (left.serve serves).2 v fun other => apart v other (right.reaches reached)
  · intro request answer q'' n serves v reached
    exact (right.serve serves).2 v fun other => apart v (left.reaches reached) other

theorem disjoint_queries_independent_members : ∃ (p q p' q' : Query Empty) (now : Machine),
    start (Registry.builtins : Registry Empty) (.compound .member (.var 0)
      [.list [.int 1, .int 2]]) Machine.empty = some (.ok p, Machine.empty) ∧
    start (Registry.builtins : Registry Empty) (.compound .member (.var 1)
      [.list [.var 2, .int 3]]) Machine.empty = some (.ok q, Machine.empty) ∧
    Interleaved p q Machine.empty
      [.inl ⟨.next, some (.ok true)⟩, .inr ⟨.next, some (.ok true)⟩, .inl ⟨.abort, none⟩]
      p' q' now ∧
    AsAlone (.compound .member (.var 0) [.list [.int 1, .int 2]]) p Machine.empty
      [⟨.next, some (.ok true)⟩, ⟨.abort, none⟩] p' now ∧
    AsAlone (.compound .member (.var 1) [.list [.var 2, .int 3]]) q Machine.empty
      [⟨.next, some (.ok true)⟩] q' now := by
  let p : Query Empty := ⟨.compound .member (.var 0) [.list [.int 1, .int 2]],
    .member (.var 0) (.fresh (.list [.int 1, .int 2])), Registry.builtins, true, 0⟩
  let q : Query Empty := ⟨.compound .member (.var 1) [.list [.var 2, .int 3]],
    .member (.var 1) (.fresh (.list [.var 2, .int 3])), Registry.builtins, true, 0⟩
  have startedFirst : start (Registry.builtins : Registry Empty) p.goal Machine.empty =
      some (.ok p, Machine.empty) := rfl
  have startedSecond : start (Registry.builtins : Registry Empty) q.goal Machine.empty =
      some (.ok q, Machine.empty) := rfl
  have apart : ∀ v, Machine.empty.store.Reaches p.goal v →
      ¬ Machine.empty.store.Reaches q.goal v := by
    intro v first second
    have inFirst : v ∈ [0] := Store.reaches_empty first
    have inSecond : v ∈ [1, 2] := Store.reaches_empty second
    simp_all
  have served : ((p.next 9 Machine.empty).bind fun r =>
      (q.next 9 r.state).map fun r' => (r.answer, r'.answer)) = some (.ok true, .ok true) := rfl
  obtain ⟨⟨_, p₁, m₁⟩, asked, rest⟩ := Option.bind_eq_some_iff.mp served
  obtain ⟨⟨_, q₁, m₂⟩, asked', given⟩ := Option.map_eq_some_iff.mp rest
  cases given
  have run : Interleaved p q Machine.empty
      [.inl ⟨.next, some (.ok true)⟩, .inr ⟨.next, some (.ok true)⟩, .inl ⟨.abort, none⟩]
      (p₁.abort m₂).1 q₁ (p₁.abort m₂).2 :=
    .first (.second (.first .start (.next 9 asked)) (.next 9 asked')) (.abort rfl)
  obtain ⟨left, right, -⟩ := disjoint_queries_independent apart startedFirst startedSecond run
  exact ⟨p, q, _, _, _, startedFirst, startedSecond, run, left, right⟩

end Query

end LogicSearch
