import LogicSearch.Proofs.Term.Subst
import LogicSearch.Proofs.Text.Token

/-!
The text of a term determines it. A term that is no list cell is written as a token and its
arguments in parentheses, so that at each place the next character tells how the text goes on.
-/

namespace LogicSearch

namespace Term

variable {t u head last : Term} {place : Place} {after after' : List Char}

@[elab_as_elim] theorem argsInduction {motive : Term → Prop} (t : Term)
    (step : ∀ t, (∀ u ∈ t.args, motive u) → motive t) : motive t := by
  induction t using Term.inductionOn with
  | atom a => exact step _ (by simp [args])
  | int n => exact step _ (by simp [args])
  | var v => exact step _ (by simp [args])
  | compound f first rest ih => exact step _ ih

def label : Term → List Char
  | atom a => a.chars
  | int value => Decimal.ofInt value.toInt
  | var v => '_' :: 'G' :: Decimal.ofNat v
  | compound f _ _ => f.chars

def writeArgs : List Term → List Char → List Char
  | [], after => after
  | first :: rest, after => '(' :: write .alone first (writeRest rest after)

theorem token_label (t : Term) : Token t.label := by
  cases t with
  | atom a => exact a.token_chars
  | int n => exact token_ofInt _
  | var v => exact token_var v
  | compound f first rest => exact f.token_chars

theorem eq_of_label (label : t.label = u.label) (args : t.args = u.args) : t = u := by
  cases t with
  | atom a =>
      cases u with
      | atom b => rw [Atom.chars_injective label]
      | int n => exact absurd label (a.chars_ne_ofInt _)
      | var v => exact absurd label (a.chars_ne_var v)
      | compound => cases args
  | int n =>
      cases u with
      | atom a => exact absurd label.symm (a.chars_ne_ofInt _)
      | int k => rw [Int64.toInt_inj.mp (Decimal.ofInt_injective label)]
      | var v => exact absurd label (ofInt_ne_var _ v)
      | compound => cases args
  | var v =>
      cases u with
      | atom a => exact absurd label.symm (a.chars_ne_var v)
      | int n => exact absurd label.symm (ofInt_ne_var _ v)
      | var w =>
          injection label with _ rest
          injection rest with _ digits
          rw [Decimal.ofNat_injective digits]
      | compound => cases args
  | compound f first rest =>
      cases u with
      | compound g first' rest' =>
          injection args with first rest
          rw [Atom.chars_injective label, first, rest]
      | _ => cases args

theorem eq_cons_of_cell? (cell : t.cell? = some (head, last)) : t = cons head last := by
  unfold cell? at cell
  split at cell
  · split at cell
    · rename_i functor
      cases cell
      rw [functor, cons]
    · cases cell
  · cases cell

theorem cell?_eq_none_iff {f : Atom} {first : Term} {rest : List Term} :
    (compound f first rest).cell? = none ↔ (f = .dot → rest.length ≠ 1) := by
  rcases rest with _ | ⟨last, _ | ⟨_, _⟩⟩ <;> simp [cell?]

theorem write_cons : write place (cons head last) after =
    place.lead :: write .alone head (write .tail last after) := rfl

theorem write_nil : write .tail nil after = ']' :: after := rfl

theorem write_compound {f : Atom} {first : Term} {rest : List Term}
    (plain : (compound f first rest).cell? = none) :
    write place (compound f first rest) after =
      place.around (fun k => f.chars ++ '(' :: write .alone first (writeRest rest k)) after := by
  rw [write]
  intro last dot single
  subst single
  exact cell?_eq_none_iff.mp plain (of_decide_eq_true dot) rfl

theorem write_label (plain : t.cell? = none) :
    write .alone t after = t.label ++ writeArgs t.args after := by
  cases t with
  | atom a => simp [write, Place.around, label, args, writeArgs]
  | int n => rfl
  | var v => rfl
  | compound f first rest => exact write_compound plain

theorem write_tail (plain : t.cell? = none) (other : t ≠ nil) :
    write .tail t after = '|' :: write .alone t (']' :: after) := by
  cases t with
  | atom a =>
      have named : a ≠ .nil := fun same => other (congrArg atom same)
      simp [write, Place.around, named]
  | int n => rfl
  | var v => rfl
  | compound f first rest => rw [write_compound plain, write_compound plain]; rfl

def Delimited (after : List Char) : Prop := ∀ c ∈ after.head?, c ∈ [',', ')', ']', '|']

theorem Delimited.stops (delimited : Delimited after) : Stops after := by
  have none : [',', ')', ']', '|'].all (fun c => !Atom.isNameChar c) = true := by decide
  simp only [List.all_eq_true, Bool.not_eq_true'] at none
  exact fun c first => none c (delimited c first)

theorem Delimited.ne_open {x : List Char} (delimited : Delimited after) : after ≠ '(' :: x := by
  intro same
  exact absurd (delimited '(' (by rw [same]; rfl)) (by decide)

theorem delimited_cons {c : Char} (separator : c ∈ [',', ')', ']', '|']) :
    Delimited (c :: after) := by
  intro d first
  cases first
  exact separator

theorem delimited_writeRest (ts : List Term) : Delimited (writeRest ts after) := by
  cases ts with
  | nil => exact delimited_cons (by decide)
  | cons t ts => exact delimited_cons (by decide)

theorem delimited_write_tail (t : Term) : Delimited (write .tail t after) := by
  cases cell : t.cell? with
  | some both =>
      rw [eq_cons_of_cell? cell, write_cons]
      exact delimited_cons (by decide)
  | none =>
      by_cases same : t = nil
      · rw [same, write_nil]
        exact delimited_cons (by decide)
      · rw [write_tail cell same]
        exact delimited_cons (by decide)

theorem stops_writeArgs (ts : List Term) (delimited : Delimited after) :
    Stops (writeArgs ts after) := by
  cases ts with
  | nil => exact delimited.stops
  | cons t ts =>
      intro c first
      cases first
      rfl

theorem write_ne_close {x : List Char} : write .alone t after ≠ ']' :: x := by
  intro same
  cases cell : t.cell? with
  | some both =>
      rw [eq_cons_of_cell? cell, write_cons] at same
      injection same with lead
      exact absurd lead (by decide)
  | none =>
      obtain ⟨c, rest, split, other, -⟩ := t.token_label.eq_cons
      rw [write_label cell, split] at same
      injection same with first
      exact other first

theorem write_ne_cons {x : List Char} (plain : t.cell? = none) :
    write .alone t after ≠ write .alone (cons head last) x := by
  intro same
  obtain ⟨c, rest, split, -, empty⟩ := t.token_label.eq_cons
  rw [write_label plain, write_cons, split] at same
  injection same with first behind
  rw [empty first] at behind
  exact write_ne_close behind.symm

/-- Whatever is written as this term is in one place, with any two texts behind, is this term. -/
def Legible (t : Term) : Prop :=
  ∀ (place : Place) (u : Term) (after after' : List Char), Delimited after → Delimited after' →
    write place t after = write place u after' → t = u ∧ after = after'

theorem writeRest_injective {ts us : List Term} (legible : ∀ t ∈ ts, t.Legible)
    (same : writeRest ts after = writeRest us after') : ts = us ∧ after = after' := by
  induction ts generalizing us with
  | nil =>
      cases us with
      | nil =>
          injection same with _ rest
          exact ⟨rfl, rest⟩
      | cons u us =>
          injection same with close
          exact absurd close (by decide)
  | cons t ts ih =>
      cases us with
      | nil =>
          injection same with close
          exact absurd close (by decide)
      | cons u us =>
          injection same with _ rest
          obtain ⟨rfl, later⟩ := legible t List.mem_cons_self .alone u _ _
            (delimited_writeRest ts) (delimited_writeRest us) rest
          obtain ⟨rfl, done⟩ :=
            ih (fun t member => legible t (List.mem_cons_of_mem _ member)) later
          exact ⟨rfl, done⟩

theorem writeArgs_injective {ts us : List Term} (legible : ∀ t ∈ ts, t.Legible)
    (left : Delimited after) (right : Delimited after')
    (same : writeArgs ts after = writeArgs us after') : ts = us ∧ after = after' := by
  cases ts with
  | nil =>
      cases us with
      | nil => exact ⟨rfl, same⟩
      | cons u us => exact absurd same left.ne_open
  | cons t ts =>
      cases us with
      | nil => exact absurd same.symm right.ne_open
      | cons u us =>
          injection same with _ rest
          exact writeRest_injective legible (congrArg (',' :: ·) rest)

theorem write_cons_injective {head' last' : Term} (first : head.Legible) (rest : last.Legible)
    (left : Delimited after) (right : Delimited after')
    (same : write place (cons head last) after = write place (cons head' last') after') :
    cons head last = cons head' last' ∧ after = after' := by
  rw [write_cons, write_cons] at same
  injection same with _ behind
  obtain ⟨rfl, later⟩ :=
    first .alone _ _ _ (delimited_write_tail last) (delimited_write_tail last') behind
  obtain ⟨rfl, done⟩ := rest .tail _ _ _ left right later
  exact ⟨rfl, done⟩

inductive Form : Term → Prop where
  | nil : Form nil
  | cons (head last : Term) : Form (cons head last)
  | plain {t : Term} : t.cell? = none → t ≠ .nil → Form t

theorem form (t : Term) : t.Form := by
  cases cell : t.cell? with
  | some both =>
      rw [eq_cons_of_cell? cell]
      exact .cons _ _
  | none =>
      by_cases same : t = nil
      · rw [same]
        exact .nil
      · exact .plain cell same

theorem write_alone_injective (arguments : ∀ v ∈ t.args, v.Legible)
    (left : Delimited after) (right : Delimited after')
    (same : write .alone t after = write .alone u after') : t = u ∧ after = after' := by
  cases cell : t.cell? with
  | some both =>
      have split := eq_cons_of_cell? cell
      subst split
      cases other : u.cell? with
      | some both' =>
          rw [eq_cons_of_cell? other] at same ⊢
          exact write_cons_injective (arguments _ (by simp [cons, args]))
            (arguments _ (by simp [cons, args])) left right same
      | none => exact absurd same.symm (write_ne_cons other)
  | none =>
      cases other : u.cell? with
      | some both' =>
          rw [eq_cons_of_cell? other] at same
          exact absurd same (write_ne_cons cell)
      | none =>
          rw [write_label cell, write_label other] at same
          obtain ⟨label, behind⟩ := t.token_label.unambiguous u.token_label
            (stops_writeArgs _ left) (stops_writeArgs _ right) same
          obtain ⟨args, done⟩ := writeArgs_injective arguments left right behind
          exact ⟨eq_of_label label args, done⟩

theorem legible (t : Term) : t.Legible := by
  induction t using argsInduction with
  | step t ih =>
      intro place u after after' left right same
      cases place with
      | alone => exact write_alone_injective ih left right same
      | tail =>
          cases t.form with
          | nil =>
              cases u.form with
              | nil =>
                  injection same with _ behind
                  exact ⟨rfl, behind⟩
              | cons head last => simp [write_nil, write_cons, Place.lead] at same
              | plain cell other => simp [write_nil, write_tail cell other] at same
          | cons head last =>
              cases u.form with
              | nil => simp [write_nil, write_cons, Place.lead] at same
              | cons head' last' =>
                  exact write_cons_injective (ih _ (by simp [cons, args]))
                    (ih _ (by simp [cons, args])) left right same
              | plain cell other => simp [write_cons, write_tail cell other, Place.lead] at same
          | plain cell other =>
              cases u.form with
              | nil => simp [write_nil, write_tail cell other] at same
              | cons head last => simp [write_cons, write_tail cell other, Place.lead] at same
              | plain cell' other' =>
                  rw [write_tail cell other, write_tail cell' other'] at same
                  injection same with _ behind
                  obtain ⟨rfl, later⟩ := write_alone_injective ih (delimited_cons (by decide))
                    (delimited_cons (by decide)) behind
                  injection later with _ done
                  exact ⟨rfl, done⟩

/-- Two terms with the same text are one term. -/
theorem text_injective : Function.Injective text := by
  intro t u same
  have nothing : Delimited [] := by simp [Delimited]
  exact (t.legible .alone u [] [] nothing nothing (String.ofList_injective same)).1

end Term

end LogicSearch
