import LogicSearch.Atom.Table
import Mathlib.Data.Finset.Card
import Mathlib.Data.List.Forall2

namespace LogicSearch

namespace WellKnown

theorem getElem?_predefined (w : WellKnown) : Atom.predefined[w.ctorIdx]? = some w.value := by
  cases w <;> rfl

theorem ctorIdx_lt (w : WellKnown) : w.ctorIdx < Atom.predefined.length :=
  (List.getElem?_eq_some_iff.mp w.getElem?_predefined).1

theorem toNat_id (w : WellKnown) : w.id.toNat = w.ctorIdx :=
  UInt32.toNat_ofNat_of_lt' (Nat.lt_trans w.ctorIdx_lt (by decide))

theorem idxOf_value (w : WellKnown) : Atom.predefined.idxOf w.value = w.ctorIdx := by
  cases w <;> rfl

end WellKnown

namespace AtomTable

variable {t t' t'' : AtomTable} {name : String} {id : UInt32} {names : List String}
  {ids : List UInt32}

/-- Names and numbers belong together in pairs, and the numbers fit into words. -/
structure Inverse (t : AtomTable) : Prop where
  back : ∀ name id, t.ids[name]? = some id ↔ t.name? id = some name
  room : t.names.size ≤ capacity

theorem toNat_ofNat_of_le {k : Nat} (small : k ≤ capacity) : (UInt32.ofNat k).toNat = k :=
  UInt32.toNat_ofNat_of_lt' (Nat.lt_of_le_of_lt small (by decide))

theorem Inverse.id_inj (inverse : t.Inverse) {i j : UInt32} (first : t.name? i = some name)
    (second : t.name? j = some name) : i = j := by
  rw [← inverse.back] at first second
  exact Option.some_inj.mp (first.symm.trans second)

theorem Inverse.nodup (inverse : t.Inverse) : t.names.toList.Nodup := by
  rw [List.nodup_iff_getElem?_ne_getElem?]
  intro i j less inside same
  have inside' : j < t.names.size := by simpa using inside
  have room := inverse.room
  have first : (UInt32.ofNat i).toNat = i := toNat_ofNat_of_le (by omega)
  have second : (UInt32.ofNat j).toNat = j := toNat_ofNat_of_le (by omega)
  have known : t.names[j]? = some t.names[j] := Array.getElem?_eq_getElem inside'
  rw [Array.getElem?_toList, Array.getElem?_toList] at same
  have left : t.name? (.ofNat i) = some t.names[j] := by rw [name?, first, same, known]
  have right : t.name? (.ofNat j) = some t.names[j] := by rw [name?, second, known]
  have equal := inverse.id_inj left right
  have numbers := congrArg UInt32.toNat equal
  rw [first, second] at numbers
  omega

theorem Inverse.missing_iff (inverse : t.Inverse) : t.ids[name]? = none ↔ name ∉ t.names := by
  constructor
  · intro missing member
    obtain ⟨i, inside, rfl⟩ := Array.getElem_of_mem member
    have room := inverse.room
    have known : t.name? (.ofNat i) = some t.names[i] := by
      rw [name?, toNat_ofNat_of_le (by omega), Array.getElem?_eq_getElem]
    rw [← inverse.back, missing] at known
    cases known
  · intro unknown
    by_contra known
    obtain ⟨id, known⟩ := Option.ne_none_iff_exists'.mp known
    exact unknown (Array.mem_of_getElem? ((inverse.back name id).mp known))

/-- The second table has all that the first one has, under the same numbers. -/
def Extends (t t' : AtomTable) : Prop := ∀ id name, t.name? id = some name → t'.name? id = some name

/-- What interning a name leads to. -/
inductive Interned (t : AtomTable) (name : String) : UInt32 → AtomTable → Prop where
  | known {id : UInt32} : t.ids[name]? = some id → Interned t name id t
  | new : t.ids[name]? = none → t.names.size < capacity → Interned t name (.ofNat t.names.size)
      ⟨t.names.push name, t.ids.insert name (.ofNat t.names.size)⟩

theorem interned_of_room (room : t.names.size < capacity) (name : String) :
    Interned t name (t.intern name).1 (t.intern name).2 := by
  unfold intern
  split
  · rename_i found
    exact .known found
  · rename_i missing
    exact .new missing room

theorem request?_eq_some_iff : t.request? name = some (id, t') ↔ Interned t name id t' := by
  unfold request?
  constructor
  · intro asked
    split at asked
    · rename_i found
      cases asked
      exact .known found
    · split at asked
      · rename_i room
        have interned := interned_of_room room name
        rwa [Option.some_inj.mp asked] at interned
      · cases asked
  · intro interned
    cases interned with
    | known found => simp only [found]
    | new missing room => simp only [missing, if_pos room, intern]

theorem Interned.extends (interned : Interned t name id t') : t.Extends t' := by
  cases interned with
  | known => exact fun _ _ known => known
  | new missing room =>
      intro id n known
      obtain ⟨inside, -⟩ := Array.getElem?_eq_some_iff.mp known
      rw [name?, Array.getElem?_push, if_neg (Nat.ne_of_lt inside)]
      exact known

theorem Interned.mem_names (interned : Interned t name id t') (n : String) :
    n ∈ t'.names → n ∈ t.names ∨ n = name := by
  cases interned with
  | known => exact .inl
  | new missing room => exact Array.mem_push.mp

theorem name?_push (room : t.names.size < capacity) (name : String)
    (ids : Std.ExtTreeMap String UInt32 compare) (i : UInt32) :
    name? ⟨t.names.push name, ids⟩ i =
      if i = .ofNat t.names.size then some name else t.name? i := by
  have size := toNat_ofNat_of_le (Nat.le_of_lt room)
  have last : i.toNat = t.names.size ↔ i = .ofNat t.names.size := by
    rw [← UInt32.toNat_inj, size]
  simp only [name?, Array.getElem?_push, last]

theorem Interned.inverse (interned : Interned t name id t') (inverse : t.Inverse) :
    t'.Inverse ∧ t'.name? id = some name := by
  cases interned with
  | known found => exact ⟨inverse, (inverse.back name id).mp found⟩
  | new missing room =>
      have unused : t.name? (.ofNat t.names.size) = none := by
        rw [name?, toNat_ofNat_of_le (Nat.le_of_lt room)]
        exact Array.getElem?_eq_none (Nat.le_refl _)
      refine ⟨⟨fun n i => ?_, ?_⟩, ?_⟩
      · simp only [name?_push room, Std.ExtTreeMap.getElem?_insert,
          Std.LawfulEqCmp.compare_eq_iff_eq]
        by_cases same : name = n
        · subst same
          -- The name had no number, so no other number leads to it.
          have other : t.name? i ≠ some name := by simp [← inverse.back, missing]
          rw [if_pos rfl, Option.some_inj]
          split
          · rename_i last
            simp [last]
          · rename_i before
            simp [other, Ne.symm before]
        · have other : i = .ofNat t.names.size → t.name? i ≠ some n := by
            rintro rfl
            simp [unused]
          rw [if_neg same, inverse.back]
          split
          · rename_i last
            simp [same, other last]
          · rfl
      · rw [Array.size_push]
        exact room
      · rw [name?_push room, if_pos rfl]

theorem inverse_empty : empty.Inverse where
  back name id := by simp [empty, name?]
  room := by decide

theorem internAll_of_new (inverse : t.Inverse) (apart : (t.names.toList ++ names).Nodup)
    (room : t.names.size + names.length ≤ capacity) :
    (t.internAll names).Inverse ∧ (t.internAll names).names.toList = t.names.toList ++ names := by
  induction names generalizing t with
  | nil => exact ⟨inverse, by simp [internAll]⟩
  | cons name names ih =>
      simp only [List.length_cons] at room
      have new : name ∉ t.names := fun known =>
        (List.nodup_append.mp apart).2.2 name (Array.mem_toList_iff.mpr known) name
          List.mem_cons_self rfl
      have grown : (t.intern name).2.names = t.names.push name := by
        simp only [intern, inverse.missing_iff.mpr new]
      have interned := interned_of_room (show t.names.size < capacity by omega) name
      obtain ⟨inverse', later⟩ := ih (interned.inverse inverse).1 (by simpa [grown] using apart)
        (by rw [grown, Array.size_push]; omega)
      rw [grown, Array.toList_push, List.append_assoc] at later
      exact ⟨inverse', later⟩

theorem predefined_spec :
    predefined.Inverse ∧ predefined.names.toList = Atom.predefined.map Atom.name := by
  have apart : (empty.names.toList ++ Atom.predefined.map Atom.name).Nodup := by decide +kernel
  have room : empty.names.size + (Atom.predefined.map Atom.name).length ≤ capacity := by
    rw [List.length_map]
    decide
  obtain ⟨inverse, names⟩ := internAll_of_new inverse_empty apart room
  unfold predefined
  exact ⟨inverse, by rw [names]; rfl⟩

theorem requestEach?_spec (inverse : t.Inverse) (asked : t.requestEach? names = some (ids, t')) :
    t'.Inverse ∧ t.Extends t' ∧
      List.Forall₂ (fun name id => t'.name? id = some name) names ids := by
  induction names generalizing t ids with
  | nil =>
      cases asked
      exact ⟨inverse, fun _ _ known => known, .nil⟩
  | cons name names ih =>
      simp only [requestEach?] at asked
      split at asked
      · cases asked
      · rename_i id t₁ first
        obtain ⟨⟨ids, last⟩, later, same⟩ := Option.map_eq_some_iff.mp asked
        cases same
        have interned := request?_eq_some_iff.mp first
        obtain ⟨inverse₁, known⟩ := interned.inverse inverse
        obtain ⟨inverse', extended, given⟩ := ih inverse₁ later
        exact ⟨inverse', fun i n found => extended i n (interned.extends i n found),
          .cons (extended id name known) given⟩

theorem requestEach?_returns (inverse : t.Inverse) (all : Finset String)
    (few : all.card ≤ capacity) (old : ∀ n ∈ t.names, n ∈ all) (new : ∀ n ∈ names, n ∈ all) :
    ∃ ids t', t.requestEach? names = some (ids, t') := by
  induction names generalizing t with
  | nil => exact ⟨_, _, rfl⟩
  | cons name names ih =>
      obtain ⟨here, later⟩ := List.forall_mem_cons.mp new
      have granted : ∃ id t₁, Interned t name id t₁ := by
        cases known : t.ids[name]? with
        | some id => exact ⟨id, t, .known known⟩
        | none =>
            -- The table holds some of the names that are few enough, and not this one.
            have room : (insert name t.names.toList.toFinset).card ≤ capacity := by
              refine Nat.le_trans (Finset.card_le_card fun n member => ?_) few
              rcases Finset.mem_insert.mp member with rfl | member
              · exact here
              · exact old n (by simpa using member)
            rw [Finset.card_insert_of_notMem (by simpa using inverse.missing_iff.mp known),
              List.toFinset_card_of_nodup inverse.nodup, Array.length_toList] at room
            exact ⟨_, _, .new known room⟩
      obtain ⟨id, t₁, interned⟩ := granted
      have within : ∀ n ∈ t₁.names, n ∈ all := by
        intro n member
        rcases interned.mem_names n member with before | rfl
        · exact old n before
        · exact here
      obtain ⟨ids, t', rest⟩ := ih (interned.inverse inverse).1 within later
      exact ⟨id :: ids, t', by simp only [requestEach?, request?_eq_some_iff.mpr interned, rest,
        Option.map_some]⟩

theorem Inverse.request?_eq (inverse : t.Inverse) (known : t.name? id = some name) :
    t.request? name = some (id, t) :=
  request?_eq_some_iff.mpr (.known ((inverse.back name id).mpr known))

theorem name?_predefined (id : UInt32) :
    predefined.name? id = (Atom.predefined[id.toNat]?).map Atom.name := by
  rw [name?, ← Array.getElem?_toList, predefined_spec.2, List.getElem?_map]

theorem name?_wellKnown (w : WellKnown) : predefined.name? w.id = some w.value.name := by
  rw [name?_predefined, w.toNat_id, w.getElem?_predefined, Option.map_some]

theorem mem_predefined_of_le (extended : predefined.Extends t) {w : WellKnown} (below : id ≤ w.id)
    (known : t.name? id = some name) : (⟨name⟩ : Atom) ∈ Atom.predefined := by
  have place : id.toNat < Atom.predefined.length := by
    have := UInt32.le_iff_toNat_le.mp below
    rw [w.toNat_id] at this
    exact Nat.lt_of_le_of_lt this w.ctorIdx_lt
  have first : predefined.name? id = some (Atom.predefined[id.toNat]).name := by
    rw [name?_predefined, List.getElem?_eq_getElem place, Option.map_some]
  cases (extended id _ first).symm.trans known
  exact List.getElem_mem place

/-- Interning is a growing bijection. Names are requested one after the other from the table of the
predefined ones. As long as all of them are few enough to have a number each, every request is
granted. Names and numbers are then inverse to each other, equal names and no others got equal
numbers, and at every later time the numbers have the same names and the names the same numbers.
Each constant is the number of its atom's name; it is below all numbers of names that are not
predefined, and constants are ordered as their atoms in the list. -/
theorem interning_is_growing_bijection (calls : List String) :
    ((Atom.predefined.map Atom.name ++ calls).toFinset.card ≤ capacity →
      ∃ ids t, predefined.requestEach? calls = some (ids, t)) ∧
    ∀ ids t, predefined.requestEach? calls = some (ids, t) →
      t.Inverse ∧ ids.length = calls.length ∧
      (∀ x ∈ calls.zip ids, ∀ y ∈ calls.zip ids, x.2 = y.2 ↔ x.1 = y.1) ∧
      (∀ later ids' t', t.requestEach? later = some (ids', t') → t'.Inverse ∧
        ∀ x ∈ calls.zip ids, t'.name? x.2 = some x.1 ∧ t'.request? x.1 = some (x.2, t')) ∧
      (∀ w : WellKnown, t.name? w.id = some w.value.name ∧
        t.request? w.value.name = some (w.id, t)) ∧
      (∀ (w : WellKnown) id name, t.name? id = some name → ⟨name⟩ ∉ Atom.predefined →
        w.id < id) ∧
      ∀ v w : WellKnown, v.id < w.id ↔
        Atom.predefined.idxOf v.value < Atom.predefined.idxOf w.value := by
  obtain ⟨inverse₀, names₀⟩ := predefined_spec
  refine ⟨fun few => ?_, fun ids t asked => ?_⟩
  · apply requestEach?_returns inverse₀ _ few
    · intro n member
      rw [← Array.mem_toList_iff, names₀] at member
      exact List.mem_toFinset.mpr (List.mem_append_left _ member)
    · intro n member
      exact List.mem_toFinset.mpr (List.mem_append_right _ member)
  · obtain ⟨inverse, extended, given⟩ := requestEach?_spec inverse₀ asked
    obtain ⟨length, named⟩ := List.forall₂_iff_zip.mp given
    have constant (w : WellKnown) : t.name? w.id = some w.value.name :=
      extended _ _ (name?_wellKnown w)
    refine ⟨inverse, length.symm, ?_, ?_, fun w => ⟨constant w, inverse.request?_eq (constant w)⟩,
      ?_, ?_⟩
    · rintro ⟨n, i⟩ first ⟨k, j⟩ second
      have left : t.name? i = some n := named first
      have right : t.name? j = some k := named second
      constructor
      · rintro rfl
        exact Option.some_inj.mp (left.symm.trans right)
      · rintro rfl
        exact inverse.id_inj left right
    · intro later ids' t' asked'
      obtain ⟨inverse', extended', -⟩ := requestEach?_spec inverse asked'
      refine ⟨inverse', fun x member => ?_⟩
      have known := extended' _ _ (named member)
      exact ⟨known, inverse'.request?_eq known⟩
    · intro w id name known other
      by_contra above
      exact other (mem_predefined_of_le extended (UInt32.not_lt.mp above) known)
    · intro v w
      rw [UInt32.lt_iff_toNat_lt, v.toNat_id, w.toNat_id, v.idxOf_value, w.idxOf_value]

theorem interning_is_growing_bijection_old_and_new_names :
    let calls := ["foo", "member", "bar", "foo"]
    (Atom.predefined.map Atom.name ++ calls).toFinset.card ≤ capacity ∧
      ∃ t t', predefined.requestEach? calls = some ([31, 30, 32, 31], t) ∧
        t.requestEach? ["baz", "bar"] = some ([33, 32], t') ∧ t'.name? 31 = some "foo" ∧
        t'.request? "foo" = some (31, t') ∧ t.name? 30 = some WellKnown.member.value.name ∧
        WellKnown.member.id < 32 := by
  intro calls
  have few : (Atom.predefined.map Atom.name ++ calls).toFinset.card ≤ capacity :=
    Nat.le_trans (List.toFinset_card_le _) (by decide)
  obtain ⟨granted, laws⟩ := interning_is_growing_bijection calls
  obtain ⟨ids, t, asked⟩ := granted few
  have first : (predefined.requestEach? calls).map Prod.fst = some [31, 30, 32, 31] := by
    decide +kernel
  have second : ((predefined.requestEach? calls).bind fun r =>
      (r.2.requestEach? ["baz", "bar"]).map Prod.fst) = some [33, 32] := by decide +kernel
  rw [asked] at first second
  cases first
  obtain ⟨⟨_, t'⟩, asked', same⟩ := Option.map_eq_some_iff.mp second
  cases same
  obtain ⟨-, -, -, later, constants, others, -⟩ := laws _ t asked
  obtain ⟨named, again⟩ := (later _ _ t' asked').2 ("foo", 31) (by decide)
  obtain ⟨bar, -⟩ := (later [] [] t rfl).2 ("bar", 32) (by decide)
  exact ⟨few, t, t', asked, asked', named, again, (constants .member).1,
    others .member 32 "bar" bar (by decide)⟩

end AtomTable

end LogicSearch
