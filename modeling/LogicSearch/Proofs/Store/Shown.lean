import LogicSearch.Proofs.Store.Equality
import LogicSearch.Proofs.Store.Resolved
import LogicSearch.Proofs.Text.Term
import LogicSearch.Store.Shown

namespace LogicSearch

namespace Term

variable {tree : Var → Option Term} {value : Place → Var → Option (List Char → List Char)}
  {θ : Assignment} {t u : Term} {place : Place}

theorem writeWith_compound {f : Atom} {first : Term} {rest : List Term}
    {head others : List Char → List Char} (plain : (compound f first rest).cell? = none)
    (here : writeWith value .alone first = some head)
    (there : writeRestWith value rest = some others) :
    writeWith value place (compound f first rest) =
      some (place.around fun after => f.chars ++ '(' :: head (others after)) := by
  rw [writeWith]
  · simp only [here, there]
  · intro last dot single
    subst single
    exact cell?_eq_none_iff.mp plain (of_decide_eq_true dot) rfl

theorem writeRestWith_eq_map {ts : List Term}
    (each : ∀ t ∈ ts, writeWith value .alone t = some (write .alone (t.subst θ))) :
    writeRestWith value ts = some (writeRest (ts.map (subst θ))) := by
  induction ts with
  | nil => rfl
  | cons t ts ih =>
      have later := ih fun u member => each u (List.mem_cons_of_mem t member)
      rw [writeRestWith, each t List.mem_cons_self, later]
      rfl

/-- Writing through the bindings writes the tree, if it does so for each variable. -/
theorem writeWith_eq_subst
    (each : ∀ v ∈ t.vars, ∀ place, value place v = some (write place (θ v))) (place : Place) :
    t.writeWith value place = some (write place (t.subst θ)) := by
  induction t using inductionOn generalizing place with
  | atom a => rfl
  | int n => rfl
  | var v => exact each v (by simp [vars]) place
  | compound f first rest ih =>
      have arg (u : Term) (member : u ∈ first :: rest) (place : Place) :
          u.writeWith value place = some (write place (u.subst θ)) :=
        ih u member (fun v occurs => each v (mem_vars_compound.mpr ⟨u, member, occurs⟩)) place
      have head := arg first List.mem_cons_self .alone
      cases cell : (compound f first rest).cell? with
      | none =>
          have others := writeRestWith_eq_map fun u member =>
            arg u (List.mem_cons_of_mem first member) .alone
          have plain : (compound f (first.subst θ) (rest.map (subst θ))).cell? = none := by
            rw [cell?_eq_none_iff, List.length_map]
            exact cell?_eq_none_iff.mp cell
          rw [writeWith_compound cell head others, subst, substAll_eq_map]
          exact congrArg some (funext fun after => (write_compound plain).symm)
      | some parts =>
          obtain ⟨_, last⟩ := parts
          cases eq_cons_of_cell? cell
          have tail := arg last (by simp) .tail
          simp only [writeWith, head, tail, decide_true]
          rfl

theorem writeWith_of_expand
    (each : ∀ v u, tree v = some u → ∀ place, value place v = some (write place u))
    (known : t.expand tree = some u) (place : Place) :
    t.writeWith value place = some (write place u) := by
  rw [← subst_of_expand known]
  apply writeWith_eq_subst
  intro v occurs
  obtain ⟨w, found⟩ := known_of_expand known occurs
  simpa [found] using each v w found

end Term

namespace Store

variable {s : Store}

theorem expand_of_deref {depth : Nat} {t u w : Term}
    (known : t.expand (s.treeOfVar? depth) = some u) (done : s.deref t = some w) :
    w.expand (s.treeOfVar? depth) = some u := by
  have ends := deref_eq_some_iff.mp done
  clear done
  induction ends with
  | here => exact known
  | @step v t w found _ ih =>
      apply ih
      rw [Term.expand] at known
      cases depth with
      | zero => simp [treeOfVar?, isBound, found] at known
      | succ depth =>
          simp only [treeOfVar?, found] at known
          exact Term.expand_mono (fun _ _ tree => treeOfVar?_succ_mono tree) known

theorem writeVar_of_tree (chains : s.ChainsEnd) {depth : Nat} {v : Var} {u : Term}
    (known : s.treeOfVar? depth v = some u) (place : Place) :
    s.writeVar depth place v = some (u.write place) := by
  induction depth generalizing v u place with
  | zero =>
      simp only [treeOfVar?] at known
      simp only [writeVar]
      split at known
      · cases known
      · rename_i free
        cases known
        rw [if_neg free]
  | succ depth ih =>
      rw [treeOfVar?] at known
      cases found : s.lookup v with
      | none =>
          rw [found] at known
          cases known
          have stays : s.deref (.var v) = some (.var v) := deref_of_isEnd found
          simp only [writeVar, stays]
      | some t =>
          simp only [found] at known
          obtain ⟨w, done⟩ := chains t
          -- The chain may go on from here, but its end has the same tree at this depth.
          have tree := expand_of_deref known done
          have written := Term.writeWith_of_expand (fun _ _ known => ih known) tree place
          simp only [writeVar, deref_var found, done]
          cases w with
          | var x =>
              rw [Term.expand, treeOfVar?_of_free (deref_isEnd done)] at tree
              cases tree
              rfl
          | _ => exact written

theorem text?_of_acyclic (acyclic : s.Acyclic) (t : Term) :
    s.text? t = some (t.subst s.trees).text := by
  have written := Term.writeWith_of_expand
    (fun v u known => writeVar_of_tree acyclic.chainsEnd known) (acyclic.tree? t) .alone
  rw [text?, written]
  rfl

theorem text?_eq_iff (acyclic : s.Acyclic) {t u : Term} :
    s.text? t = s.text? u ↔ t.subst s.trees = u.subst s.trees := by
  rw [text?_of_acyclic acyclic, text?_of_acyclic acyclic, Option.some_inj,
    Term.text_injective.eq_iff]

/-- In a store without cyclic bindings the text of a term loses nothing: it is the text of what the
term resolves to, no two terms as they stand have one text, and two terms have the same text exactly
when they are equal in the store, which comparing finds out. -/
theorem same_text_iff_equal (acyclic : s.Acyclic) :
    (∀ t, ∃ fuel u, s.resolve fuel t = some u ∧ s.text? t = some u.text) ∧
      (∀ t u : Term, t.text = u.text ↔ t = u) ∧
      (∀ t u, s.text? t = s.text? u ↔ s.IsEqual t u) ∧
      ∀ t u, ∃ fuel, s.equal fuel t u = some (decide (s.text? t = s.text? u)) := by
  refine ⟨?_, fun t u => Term.text_injective.eq_iff, ?_, ?_⟩
  · intro t
    obtain ⟨fuel, resolved⟩ := resolve_of_acyclic acyclic t
    exact ⟨fuel, _, resolved, text?_of_acyclic acyclic t⟩
  · intro t u
    rw [text?_eq_iff acyclic, isEqual_iff acyclic]
  · intro t u
    obtain ⟨fuel, compared⟩ := equal_of_trees acyclic t u
    exact ⟨fuel, by rw [compared, decide_eq_decide.mpr (text?_eq_iff acyclic)]⟩

theorem same_text_iff_equal_partial_list :
    let s := empty.bind 1 (.cons (.atom ⟨"it's"⟩) (.var 0))
    s.Acyclic ∧ s.text? (.var 1) = some "['it\\'s'|_G0]" ∧
      s.IsEqual (.var 1) (.compound .dot (.atom ⟨"it's"⟩) [.var 0]) ∧
      ¬ s.IsEqual (.atom ⟨"_G0"⟩) (.var 0) ∧ ¬ s.IsEqual (.atom ⟨"-5"⟩) (.int (-5)) := by
  intro s
  have acyclic : s.Acyclic := (descending_empty.bind (by decide)).acyclic
  obtain ⟨-, -, same, -⟩ := same_text_iff_equal acyclic
  refine ⟨acyclic, by decide, (same _ _).mp (by decide), ?_, ?_⟩
  · rw [← same]
    decide
  · rw [← same]
    decide

end Store

end LogicSearch
