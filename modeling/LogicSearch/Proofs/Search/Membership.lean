import LogicSearch.Proofs.Goal.Cells
import LogicSearch.Proofs.Search.Request
import LogicSearch.Registry.Builtin

namespace LogicSearch

open Activation (Asks)

namespace Member

/-- The conversation with a membership that was first asked in the store `s`, over cells with these
heads. It gives the answers found, and then ends if no heads are left `behind` them. Before its next
request, or before it aborts an answer, the caller may change what was free in the element and in
the head of that answer. -/
def Enumerates (U : Type) [Plugin U] (s : Store) (element : Term) (heads behind : List Term) :
    List (Term × Store) → Phase → Machine → Prop
  | [], phase, m =>
      StaysOn s element heads m.store phase ∧
      (behind = [] → ∃ next, Asks (Registry.builtins : Registry U) (.member element phase) m
        ⟨.ok false, .member element next, m.withStore s⟩ ∧
        (Activation.member element next : Activation U).committed = false)
  | (head, t) :: found, phase, m =>
      StaysOn s element heads m.store phase ∧
      ∃ next, Asks (Registry.builtins : Registry U) (.member element phase) m
        ⟨.ok true, .member element next, m.withStore t⟩ ∧
        ∀ m' : Machine, Store.SameOutside (fun v => s.Free element v ∨ s.Free head v) t m'.store →
          ((Activation.member element next : Activation U).abort m').2 = m'.withStore s ∧
          Enumerates U s element heads behind found next m'

variable {U : Type} [Plugin U] {s t : Store} {m : Machine} {element list : Term} {phase : Phase}
  {front behind heads : List Term} {found : List (Term × Store)}

theorem asks_of_next {fuel : Nat} {answer : Bool} {phase' : Phase}
    (answered : next fuel element m.store phase = some (answer, phase', t)) :
    Asks (Registry.builtins : Registry U) (.member element phase) m
      ⟨.ok answer, .member element phase', m.withStore t⟩ :=
  ⟨fuel + 1, by simp only [Activation.next, answered, Option.map_some]⟩

theorem enumerates_of_standing (acyclic : s.Acyclic)
    (standing : Standing s element list phase m.store) (cells : s.Cells list (front ++ behind))
    (within : front ++ behind <:+ heads) (attempts : Attempts s element front found) :
    Enumerates U s element heads behind found phase m := by
  induction found generalizing front list phase m with
  | nil =>
      refine ⟨(standing.staysOn cells).mono within, ?_⟩
      rintro rfl
      rw [List.append_nil] at cells
      obtain ⟨saved, exact, -, returns⟩ := standing.exists_walk acyclic
      obtain ⟨fuel, answered⟩ := returns _ (leads_of_no_hit acyclic exact cells attempts)
      exact ⟨.done, asks_of_next answered, rfl⟩
  | cons answer found ih =>
      obtain ⟨head, t⟩ := answer
      refine ⟨(standing.staysOn cells).mono within, ?_⟩
      obtain ⟨saved, exact, -, returns⟩ := standing.exists_walk acyclic
      obtain ⟨later, tail, savedHead, fewer, rest, attempts, exactHead, ⟨_, unified⟩, leads⟩ :=
        leads_of_hit acyclic exact cells attempts
      obtain ⟨fuel, answered⟩ := returns _ leads
      refine ⟨.tried saved savedHead tail, asks_of_next answered, fun m' changed => ?_⟩
      have undone : undo m'.store saved savedHead = s :=
        undo_of_exact exact exactHead ((Store.unify_grows unified).sameOutside.trans changed)
      have fewer : later ++ behind <:+ front ++ behind := by
        obtain ⟨before, rfl⟩ := fewer
        exact ⟨before, by rw [List.append_assoc]⟩
      constructor
      · simp only [Activation.abort, abort, undone]
      · exact ih (.tried exact undone) rest (fewer.trans within) attempts

end Member

variable {U : Type} [Plugin U] {m : Machine} {element list : Term} {front behind : List Term}
  {found : List (Term × Store)}

/-- A call of membership, first asked in a store without cyclic bindings, answers with the cells of
its list whose heads unify with the element in that store, in their order and with the bindings of
that attempt alone, and then fails without a cut and with the store it was first asked in. That
store is where every attempt sets out from and where an abort leads back to. Attempts that return
are answered up to the first that does not. -/
theorem member_enumerates_matching_cells (acyclic : m.store.Acyclic)
    (cells : m.store.Cells list (front ++ behind))
    (attempts : Member.Attempts m.store element front found) :
    ∃ phase, (∀ goal (n : Machine), n.store.deref goal = some (.compound .member element [list]) →
        (Registry.builtins : Registry U).call goal n = some (.ok (.member element phase), n)) ∧
      Member.Enumerates U m.store element (front ++ behind) behind found phase m := by
  refine ⟨.fresh list, fun goal n ends => ?_, ?_⟩
  · simp only [Registry.call, ends, Option.map_some]
    rfl
  · exact Member.enumerates_of_standing acyclic .fresh cells List.suffix_rfl attempts

theorem member_enumerates_before_open_tail :
    let m : Machine := ⟨Store.empty.bind 0 (.cons (.atom ⟨"b"⟩) (.var 1)), []⟩
    let element : Term := .cons (.int 7) (.atom .nil)
    let heads : List Term := [.var 1, .atom ⟨"b"⟩]
    m.store.Acyclic ∧ m.store.Cells (.cons (.var 1) (.var 0)) heads ∧ ∃ t,
      t.lookup 1 = some element ∧ Member.Attempts m.store element heads [(.var 1, t)] ∧
      ∃ a b c : Activation Empty,
        Registry.builtins.call (.compound .member element [.cons (.var 1) (.var 0)]) m =
          some (.ok a, m) ∧
        Asks Registry.builtins a m ⟨.ok true, b, m.withStore t⟩ ∧
        (b.abort (m.withStore (t.bind 1 (.atom .nil)))).2 = m ∧
        Asks Registry.builtins b (m.withStore (t.bind 1 (.atom .nil))) ⟨.ok false, c, m⟩ := by
  intro m element heads
  have acyclic : m.store.Acyclic := Store.acyclic_empty.bind_new (by decide) (by simp)
  have cells : m.store.Cells (.cons (.var 1) (.var 0)) (heads ++ []) :=
    .cell rfl (.cell rfl (.ends rfl))
  have hit : m.store.unify 2 element (.var 1) = some (true, m.store.bind 1 element) := rfl
  have miss : m.store.unify 1 element (.atom ⟨"b"⟩) = some (false, m.store) := rfl
  have attempts : Member.Attempts m.store element heads [(.var 1, m.store.bind 1 element)] :=
    .hit hit (.miss miss .none)
  obtain ⟨phase, called, -, next, asked, later⟩ :=
    member_enumerates_matching_cells (U := Empty) acyclic cells attempts
  have changed : Store.SameOutside
      (fun v => m.store.Free element v ∨ m.store.Free (.var 1) v) (m.store.bind 1 element)
      ((m.store.bind 1 element).bind 1 (.atom .nil)) := by
    intro v outside
    have other : 1 ≠ v := by
      rintro rfl
      exact outside (.inr (.here rfl))
    rw [Store.lookup_bind, if_neg other]
  obtain ⟨aborted, -, ended⟩ := later (m.withStore _) changed
  obtain ⟨last, asked', -⟩ := ended rfl
  exact ⟨acyclic, cells, _, Store.lookup_bind_self _ _ _, attempts, _, _, _, called _ m rfl, asked,
    aborted, asked'⟩

end LogicSearch
