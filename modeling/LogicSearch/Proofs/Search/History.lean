import LogicSearch.Proofs.Search.Recorded
import Mathlib.Data.List.Chain
import Mathlib.Order.Basic

namespace LogicSearch

namespace ChildEvent

variable {i j : Nat} {t : Term} {answer : Except Halt Bool} {committed : Bool}

def Creates (i : Nat) : ChildEvent → Prop
  | created j _ => j = i
  | _ => False

def Fails (i : Nat) : ChildEvent → Prop
  | asked j answer _ => j = i ∧ answer = .ok false
  | _ => False

def Aborts (i : Nat) : ChildEvent → Prop
  | aborted j => j = i
  | _ => False

def Touches (i : Nat) : ChildEvent → Prop
  | asked j _ _ | aborted j => j = i
  | _ => False

@[simp] theorem creates_created : (created j t).Creates i ↔ j = i := .rfl

@[simp] theorem creates_refused : ¬ (refused t).Creates i := id

@[simp] theorem creates_asked : ¬ (asked j answer committed).Creates i := id

@[simp] theorem creates_aborted : ¬ (aborted j).Creates i := id

@[simp] theorem fails_created : ¬ (created j t).Fails i := id

@[simp] theorem fails_refused : ¬ (refused t).Fails i := id

@[simp] theorem fails_asked :
    (asked j answer committed).Fails i ↔ j = i ∧ answer = .ok false := .rfl

@[simp] theorem fails_aborted : ¬ (aborted j).Fails i := id

@[simp] theorem aborts_created : ¬ (created j t).Aborts i := id

@[simp] theorem aborts_refused : ¬ (refused t).Aborts i := id

@[simp] theorem aborts_asked : ¬ (asked j answer committed).Aborts i := id

@[simp] theorem aborts_aborted : (aborted j).Aborts i ↔ j = i := .rfl

end ChildEvent

namespace History

def Created (h : History) (i : Nat) : Prop := ∃ e ∈ h, e.Creates i

def Failed (h : History) (i : Nat) : Prop := ∃ e ∈ h, e.Fails i

def Aborted (h : History) (i : Nat) : Prop := ∃ e ∈ h, e.Aborts i

def Alive (h : History) (i : Nat) : Prop := h.Created i ∧ ¬ h.Failed i ∧ ¬ h.Aborted i

/-- No request is made of a child after it has failed or has been given up. -/
def EndsOnce (h : History) : Prop :=
  h.Pairwise fun earlier later => ∀ i, earlier.Fails i ∨ earlier.Aborts i → ¬ later.Touches i

/-- Every child there has been has failed or has been given up, but not both. -/
def Settled (h : History) : Prop := ∀ i, h.Created i → Xor (h.Failed i) (h.Aborted i)

/-- The history left these children on the stack, the top first. -/
inductive Stacked : List Nat → History → Prop where
  | nil : Stacked [] []
  | created {live : List Nat} {h : History} {t : Term} : Stacked live h →
      Stacked (h.children :: live) (h ++ [.created h.children t])
  | refused {live : List Nat} {h : History} {t : Term} : Stacked live h →
      Stacked live (h ++ [.refused t])
  | asked {i : Nat} {live : List Nat} {h : History} {answer : Except Halt Bool}
      {committed : Bool} : Stacked (i :: live) h → answer ≠ .ok false →
      Stacked (i :: live) (h ++ [.asked i answer committed])
  | failed {i : Nat} {live : List Nat} {h : History} {committed : Bool} : Stacked (i :: live) h →
      Stacked live (h ++ [.asked i (.ok false) committed])
  | aborted {i : Nat} {live : List Nat} {h : History} : Stacked (i :: live) h →
      Stacked live (h ++ [.aborted i])

variable {h : History} {live : List Nat} {e : ChildEvent} {i : Nat}

theorem children_append (h h' : History) : (h ++ h').children = h.children + h'.children :=
  List.countP_append

theorem created_snoc : Created (h ++ [e]) i ↔ h.Created i ∨ e.Creates i := by
  simp [Created, or_and_right, exists_or]

theorem failed_snoc : Failed (h ++ [e]) i ↔ h.Failed i ∨ e.Fails i := by
  simp [Failed, or_and_right, exists_or]

theorem aborted_snoc : Aborted (h ++ [e]) i ↔ h.Aborted i ∨ e.Aborts i := by
  simp [Aborted, or_and_right, exists_or]

theorem Stacked.lt_children (stacked : Stacked live h) : ∀ i ∈ live, i < h.children := by
  induction stacked with
  | nil => simp
  | created _ ih =>
      intro i member
      rw [children_append]
      rcases List.mem_cons.mp member with rfl | older
      · exact Nat.lt_succ_self _
      · exact Nat.lt_succ_of_lt (ih i older)
  | refused _ ih | asked _ _ ih =>
      intro i member
      rw [children_append]
      exact Nat.lt_of_lt_of_le (ih i member) (Nat.le_add_right _ _)
  | failed _ ih | aborted _ ih =>
      intro i member
      rw [children_append]
      exact Nat.lt_of_lt_of_le (ih i (List.mem_cons_of_mem _ member)) (Nat.le_add_right _ _)

theorem Stacked.decreasing (stacked : Stacked live h) : live.Pairwise (· > ·) := by
  induction stacked with
  | nil => exact .nil
  | created stacked ih => exact .cons stacked.lt_children ih
  | refused _ ih | asked _ _ ih => exact ih
  | failed _ ih | aborted _ ih => exact ih.of_cons

theorem Stacked.lt_of_known (stacked : Stacked live h)
    (known : h.Created i ∨ h.Failed i ∨ h.Aborted i) : i < h.children := by
  induction stacked with
  | nil => simp [Created, Failed, Aborted] at known
  | @created live h t _ ih =>
      have earlier : (h.Created i ∨ h.Failed i ∨ h.Aborted i) ∨ h.children = i := by
        simp only [created_snoc, failed_snoc, aborted_snoc, ChildEvent.creates_created,
          ChildEvent.fails_created, ChildEvent.aborts_created] at known
        grind
      rw [children_append]
      rcases earlier with earlier | rfl
      · exact Nat.lt_succ_of_lt (ih earlier)
      · exact Nat.lt_succ_self _
  | refused _ ih =>
      rw [children_append]
      exact ih (by simpa [created_snoc, failed_snoc, aborted_snoc] using known)
  | asked _ given ih =>
      rw [children_append]
      exact ih (by simpa [created_snoc, failed_snoc, aborted_snoc, given] using known)
  | @failed j live h committed stacked ih | @aborted j live h stacked ih =>
      have top := stacked.lt_children j List.mem_cons_self
      have earlier : (h.Created i ∨ h.Failed i ∨ h.Aborted i) ∨ j = i := by
        simp only [created_snoc, failed_snoc, aborted_snoc, ChildEvent.creates_asked,
          ChildEvent.creates_aborted, ChildEvent.fails_asked, ChildEvent.fails_aborted,
          ChildEvent.aborts_asked, ChildEvent.aborts_aborted] at known
        grind
      rw [children_append]
      rcases earlier with earlier | rfl
      · exact ih earlier
      · exact top

theorem Stacked.mem_iff (stacked : Stacked live h) : i ∈ live ↔ h.Alive i := by
  induction stacked with
  | nil => simp [Alive, Created]
  | @created live h t stacked ih =>
      have fresh : ¬ (h.Failed h.children ∨ h.Aborted h.children) := fun ended =>
        Nat.lt_irrefl _ (stacked.lt_of_known (.inr ended))
      simp only [List.mem_cons, ih, Alive, created_snoc, failed_snoc, aborted_snoc,
        ChildEvent.creates_created, ChildEvent.fails_created, ChildEvent.aborts_created]
      grind
  | refused _ ih => simp [ih, Alive, created_snoc, failed_snoc, aborted_snoc]
  | asked _ given ih => simp [ih, Alive, created_snoc, failed_snoc, aborted_snoc, given]
  | failed stacked ih | aborted stacked ih =>
      have below := (List.pairwise_cons.mp stacked.decreasing).1
      simp only [List.mem_cons, Alive] at ih
      simp only [Alive, created_snoc, failed_snoc, aborted_snoc, ChildEvent.creates_asked,
        ChildEvent.creates_aborted, ChildEvent.fails_asked, ChildEvent.fails_aborted,
        ChildEvent.aborts_asked, ChildEvent.aborts_aborted]
      grind

theorem Stacked.top (stacked : Stacked (i :: live) h) : h.Alive i :=
  stacked.mem_iff.mp List.mem_cons_self

theorem Stacked.endsOnce (stacked : Stacked live h) : h.EndsOnce := by
  have snoc {h : History} {e : ChildEvent} (once : h.EndsOnce)
      (alive : ∀ i, e.Touches i → h.Alive i) : EndsOnce (h ++ [e]) := by
    refine List.pairwise_append.mpr ⟨once, List.pairwise_singleton _ _, ?_⟩
    intro earlier member later last i ended touches
    rw [List.mem_singleton.mp last] at touches
    obtain ⟨-, failed, aborted⟩ := alive i touches
    exact ended.elim (fun fails => failed ⟨_, member, fails⟩)
      fun aborts => aborted ⟨_, member, aborts⟩
  induction stacked with
  | nil => exact .nil
  | created _ ih | refused _ ih => exact snoc ih fun i touches => touches.elim
  | asked stacked _ ih | failed stacked ih | aborted stacked ih =>
      refine snoc ih fun i touches => ?_
      rw [← show _ = i from touches]
      exact stacked.top

theorem Stacked.not_both (stacked : Stacked live h) : ¬ (h.Failed i ∧ h.Aborted i) := by
  induction stacked with
  | nil => simp [Failed]
  | created _ ih | refused _ ih => simpa [failed_snoc, aborted_snoc] using ih
  | asked _ given ih => simpa [failed_snoc, aborted_snoc, given] using ih
  | failed stacked ih | aborted stacked ih =>
      obtain ⟨-, failed, aborted⟩ := stacked.top
      simp only [failed_snoc, aborted_snoc, ChildEvent.fails_asked, ChildEvent.fails_aborted,
        ChildEvent.aborts_asked, ChildEvent.aborts_aborted]
      grind

theorem Stacked.settled (stacked : Stacked [] h) : h.Settled := by
  intro i created
  have dead : ¬ h.Alive i := fun alive => by simpa using stacked.mem_iff.mpr alive
  have once := stacked.not_both (i := i)
  simp only [Alive, Xor] at dead ⊢
  grind

theorem Stacked.abort_all (stacked : Stacked live h) :
    Stacked [] (h ++ live.map .aborted) := by
  induction live generalizing h with
  | nil => simpa using stacked
  | cons i live ih =>
      have rest := ih stacked.aborted
      rwa [List.append_assoc] at rest

theorem Stacked.earlier {h' : History} (stacked : Stacked live (h ++ h')) :
    ∃ live', Stacked live' h := by
  induction h' using List.reverseRecOn generalizing live with
  | nil => exact ⟨live, by simpa using stacked⟩
  | append_singleton h' e ih =>
      rw [← List.append_assoc] at stacked
      generalize same : h ++ h' ++ [e] = whole at stacked
      cases stacked with
      | nil => simp at same
      | created stacked | refused stacked | asked stacked _ | failed stacked | aborted stacked =>
          obtain ⟨rfl, -⟩ := List.append_inj' same rfl
          exact ih stacked

end History

end LogicSearch
