import LogicSearch.Proofs.Goal.Passes

namespace LogicSearch

open Relation (ReflTransGen)

/-- List cells with these heads, followed through bindings to an end that is no list cell. -/
inductive Store.Cells (s : Store) : Term → List Term → Prop where
  | ends {list : Term} : s.cell? list = some none → Cells s list []
  | cell {list head tail : Term} {heads : List Term} :
      s.cell? list = some (some (head, tail)) → Cells s tail heads → Cells s list (head :: heads)

namespace Member

/-- The element is tried on these heads in turn, each time in the same store. Found are the heads
that unify with it, each with the store that this leads to. -/
inductive Attempts (s : Store) (element : Term) : List Term → List (Term × Store) → Prop where
  | none : Attempts s element [] []
  | hit {head : Term} {heads : List Term} {found : List (Term × Store)} {fuel : Nat} {t : Store} :
      s.unify fuel element head = some (true, t) → Attempts s element heads found →
      Attempts s element (head :: heads) ((head, t) :: found)
  | miss {head : Term} {heads : List Term} {found : List (Term × Store)} {fuel : Nat} {t : Store} :
      s.unify fuel element head = some (false, t) → Attempts s element heads found →
      Attempts s element (head :: heads) found

def Walks (element : Term) (s : Store) (position : Term × Store) : Phase → Prop
  | .fresh list => ∃ fuel saved, s.snapshot fuel element = some saved ∧
      ReflTransGen (Continues element saved) (list, s) position
  | .tried saved savedHead tail =>
      ReflTransGen (Continues element saved) (tail, undo s saved savedHead) position
  | .done => False

/-- Asking the membership tries only cells with the last of these heads, all in the first store. -/
def StaysOn (s : Store) (element : Term) (heads : List Term) (t : Store) (phase : Phase) : Prop :=
  ∀ position, Walks element t position phase →
    position.2 = s ∧ ∃ rest, rest <:+ heads ∧ s.Cells position.1 rest

variable {s t : Store} {element list : Term} {saved : Snapshot} {phase : Phase}
  {front back heads : List Term} {found : List (Term × Store)} {position : Term × Store}

theorem step_of_unify {head tail : Term} {fuel : Nat} {answer : Bool} (acyclic : s.Acyclic)
    (exact : ∀ v, v ∈ saved.vars ↔ s.Free element v)
    (cell : s.cell? list = some (some (head, tail)))
    (unified : s.unify fuel element head = some (answer, t)) :
    ∃ fuel savedHead, (∀ v, v ∈ savedHead.vars ↔ s.Free head v) ∧
      step fuel element saved (list, s) =
        some (if answer then .finish (true, .tried saved savedHead tail, t)
          else .again (tail, s)) := by
  obtain ⟨more, savedHead, snapped⟩ := Store.snapshot_returns acyclic head
  have exactHead : ∀ v, v ∈ savedHead.vars ↔ s.Free head v := fun v => Store.mem_snapshot snapped
  refine ⟨max fuel more, savedHead, exactHead, ?_⟩
  simp only [step, cell, Store.snapshot_mono (Nat.le_max_right fuel more) snapped,
    Store.unify_mono (Nat.le_max_left fuel more) unified]
  have undone : undo t saved savedHead = s :=
    undo_of_exact exact exactHead (Store.unify_grows unified).sameOutside
  cases answer with
  | true => rfl
  | false => exact congrArg (fun s => some (Turn.again (tail, s))) undone

theorem cells_of_walk (exact : ∀ v, v ∈ saved.vars ↔ s.Free element v)
    (cells : s.Cells list heads)
    (path : ReflTransGen (Continues element saved) (list, s) position) :
    position.2 = s ∧ ∃ rest, rest <:+ heads ∧ s.Cells position.1 rest := by
  induction path with
  | refl => exact ⟨rfl, heads, List.suffix_rfl, cells⟩
  | tail _ continues ih =>
      rename_i present next _
      obtain ⟨list', s'⟩ := present
      obtain ⟨rfl, rest, within, here⟩ := ih
      obtain ⟨fuel, taken⟩ := continues
      rcases step_cases exact taken with ⟨-, same⟩ | ⟨head, tail, cell, outcome⟩
      · cases same
      · rcases outcome with ⟨_, _, -, -, same⟩ | ⟨_, -, same⟩
        · cases same
        · cases same
          cases here with
          | ends ended =>
              rw [ended] at cell
              cases cell
          | cell same later =>
              rw [same] at cell
              cases cell
              exact ⟨rfl, _, (List.suffix_cons _ _).trans within, later⟩

theorem leads_of_hit {head : Term} (acyclic : s.Acyclic)
    (exact : ∀ v, v ∈ saved.vars ↔ s.Free element v) (cells : s.Cells list (front ++ back))
    (attempts : Attempts s element front ((head, t) :: found)) :
    ∃ later tail savedHead, later <:+ front ∧ s.Cells tail (later ++ back) ∧
      Attempts s element later found ∧ (∀ v, v ∈ savedHead.vars ↔ s.Free head v) ∧
      (∃ fuel, s.unify fuel element head = some (true, t)) ∧
      Turn.Leads (fun position turn => ∃ fuel, step fuel element saved position = some turn)
        (list, s) (true, .tried saved savedHead tail, t) := by
  generalize answers : (head, t) :: found = all at attempts
  induction attempts generalizing list with
  | none => cases answers
  | hit unified attempts =>
      cases answers
      cases cells with
      | cell cell cells =>
          obtain ⟨fuel, savedHead, exactHead, taken⟩ := step_of_unify acyclic exact cell unified
          exact ⟨_, _, savedHead, List.suffix_cons _ _, cells, attempts, exactHead, ⟨_, unified⟩,
            .finish ⟨fuel, taken⟩⟩
  | miss unified attempts ih =>
      cases cells with
      | cell cell cells =>
          obtain ⟨fuel, _, -, taken⟩ := step_of_unify acyclic exact cell unified
          obtain ⟨later, tail, savedHead, within, cells, attempts, exactHead, hit, leads⟩ :=
            ih cells answers
          exact ⟨later, tail, savedHead, within.trans (List.suffix_cons _ _), cells, attempts,
            exactHead, hit, .again ⟨fuel, taken⟩ leads⟩

theorem leads_of_no_hit (acyclic : s.Acyclic) (exact : ∀ v, v ∈ saved.vars ↔ s.Free element v)
    (cells : s.Cells list heads) (attempts : Attempts s element heads []) :
    Turn.Leads (fun position turn => ∃ fuel, step fuel element saved position = some turn)
      (list, s) (false, .done, s) := by
  induction cells with
  | ends ended => exact .finish ⟨0, by simp only [step, ended]⟩
  | cell cell _ ih =>
      cases attempts with
      | miss unified attempts =>
          obtain ⟨fuel, _, -, taken⟩ := step_of_unify acyclic exact cell unified
          exact .again ⟨fuel, taken⟩ (ih attempts)

theorem StaysOn.mono {fewer : List Term} (stays : StaysOn s element fewer t phase)
    (within : fewer <:+ heads) : StaysOn s element heads t phase := by
  intro position walks
  obtain ⟨same, rest, inside, cells⟩ := stays position walks
  exact ⟨same, rest, inside.trans within, cells⟩

theorem Standing.staysOn (standing : Standing s element list phase t)
    (cells : s.Cells list heads) : StaysOn s element heads t phase := by
  intro position walks
  cases standing with
  | fresh =>
      obtain ⟨fuel, saved, snapped, path⟩ := walks
      exact cells_of_walk (fun v => Store.mem_snapshot snapped) cells path
  | tried exact undone =>
      simp only [Walks, undone] at walks
      exact cells_of_walk exact cells walks

end Member

end LogicSearch
