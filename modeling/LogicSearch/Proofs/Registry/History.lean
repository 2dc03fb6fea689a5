import LogicSearch.Registry.Builtin
import Mathlib.Data.List.Dedup
import Mathlib.Data.List.Perm.Basic

namespace LogicSearch

variable {U : Type}

theorem Factory.start_ne_error (factory : Factory U) (args : List Term) (m : Machine)
    (cause : GoalError) : (factory.start args m).1 ≠ .error (.error cause) := by
  unfold start
  split <;> simp [started]

namespace Registry

variable {r : Registry U} {p q : Indicator} {factory : Factory U}
  {entries calls : List (Indicator × Factory U)}

theorem contains_eq_false_iff : r.contains p = false ↔ p ∉ r.indicators := by
  rw [← contains_iff, Bool.not_eq_true]

def first? (p : Indicator) (entries : List (Indicator × Factory U)) : Option (Factory U) :=
  (entries.find? fun entry => entry.1 == p).map Prod.snd

def last? (p : Indicator) (entries : List (Indicator × Factory U)) : Option (Factory U) :=
  first? p entries.reverse

theorem first?_cons (p : Indicator) (entry : Indicator × Factory U)
    (entries : List (Indicator × Factory U)) :
    first? p (entry :: entries) = if entry.1 = p then some entry.2 else first? p entries := by
  by_cases same : entry.1 = p <;> simp [first?, same]

theorem first?_append (p : Indicator) (entries more : List (Indicator × Factory U)) :
    first? p (entries ++ more) = (first? p entries).or (first? p more) := by
  simp only [first?, List.find?_append, Option.map_or]

theorem isSome_first? : (first? p entries).isSome ↔ p ∈ entries.map Prod.fst := by
  simp [first?, List.find?_isSome]

theorem isSome_factory? : (r.factory? p).isSome ↔ p ∈ r.indicators := isSome_first?

theorem factory?_eq_none_iff : r.factory? p = none ↔ p ∉ r.indicators := by
  rw [← isSome_factory?, Option.not_isSome_iff_eq_none]

theorem map_fst_replace (p : Indicator) (factory : Factory U) :
    (replace p factory entries).map Prod.fst = entries.map Prod.fst := by
  induction entries with
  | nil => rfl
  | cons entry entries ih =>
      simp only [replace]
      split
      · rename_i same
        simp [same]
      · rw [List.map_cons, List.map_cons, ih]

theorem first?_replace (known : q ∈ entries.map Prod.fst) :
    first? p (replace q factory entries) = if q = p then some factory else first? p entries := by
  induction entries with
  | nil => cases known
  | cons entry entries ih =>
      simp only [replace, first?_cons]
      split
      · rename_i here
        rw [first?_cons]
        split
        · rfl
        · rename_i other
          rw [if_neg (here ▸ other)]
      · rename_i before
        have later : q ∈ entries.map Prod.fst :=
          (List.mem_cons.mp known).resolve_left (Ne.symm before)
        rw [first?_cons, ih later]
        by_cases same : q = p
        · subst same
          rw [if_neg before, if_pos rfl, if_pos rfl]
        · simp only [if_neg same]

theorem policy_register : (r.register p factory).2.policy = r.policy := by
  unfold register
  split
  · split <;> rfl
  · rfl

theorem indicators_register (r : Registry U) (p : Indicator) (factory : Factory U) :
    (r.register p factory).2.indicators =
      if p ∈ r.indicators then r.indicators else r.indicators ++ [p] := by
  unfold register
  simp only [contains_iff]
  split
  · split
    · rfl
    · exact map_fst_replace p factory
  · simp [indicators]

theorem register_result (r : Registry U) (p : Indicator) (factory : Factory U) :
    (r.register p factory).1 =
      if r.policy = .reject ∧ p ∈ r.indicators then .error (.duplicate p) else .ok () := by
  unfold register
  simp only [contains_iff]
  cases r.policy <;> split <;> simp_all

theorem register_refused (refused : (r.register p factory).1 ≠ .ok ()) :
    (r.register p factory).2 = r := by
  unfold register at refused ⊢
  split
  · split
    · rfl
    · simp_all
  · simp_all

theorem factory?_register_of_new (new : q ∉ r.indicators) :
    (r.register q factory).2.factory? p =
      (r.factory? p).or (if q = p then some factory else none) := by
  rw [register, if_neg (mt (contains_iff r q).mp new)]
  exact (first?_append p r.entries [(q, factory)]).trans (by rw [first?_cons]; rfl)

theorem register_of_known (known : q ∈ r.indicators) :
    r.register q factory =
      match r.policy with
      | .reject => (.error (.duplicate q), r)
      | .overwrite => (.ok (), ⟨.overwrite, replace q factory r.entries⟩) := by
  rw [register, if_pos ((contains_iff r q).mpr known)]
  cases r.policy <;> rfl

theorem factory?_register_reject (policy : r.policy = .reject) :
    (r.register q factory).2.factory? p =
      (r.factory? p).or (if q = p then some factory else none) := by
  by_cases known : q ∈ r.indicators
  · obtain ⟨old, found⟩ := Option.isSome_iff_exists.mp (isSome_factory?.mpr known)
    simp only [register_of_known known, policy]
    split
    · rename_i same
      rw [← same, found]
      rfl
    · rw [Option.or_none]
  · exact factory?_register_of_new known

theorem factory?_register_overwrite (policy : r.policy = .overwrite) :
    (r.register q factory).2.factory? p = if q = p then some factory else r.factory? p := by
  by_cases known : q ∈ r.indicators
  · simp only [register_of_known known, policy]
    exact first?_replace known
  · rw [factory?_register_of_new known]
    split
    · rename_i same
      rw [factory?_eq_none_iff.mpr (same ▸ known), Option.none_or]
    · rw [Option.or_none]

/-- The registry after some registrations were tried one after the other, refused or not. -/
def after (r : Registry U) (calls : List (Indicator × Factory U)) : Registry U :=
  calls.foldl (fun r call => (r.register call.1 call.2).2) r

theorem after_cons (r : Registry U) (call : Indicator × Factory U) :
    r.after (call :: calls) = (r.register call.1 call.2).2.after calls := rfl

theorem policy_after (r : Registry U) (calls : List (Indicator × Factory U)) :
    (r.after calls).policy = r.policy := by
  induction calls generalizing r with
  | nil => rfl
  | cons call calls ih => rw [after_cons, ih, policy_register]

theorem mem_indicators_after :
    p ∈ (r.after calls).indicators ↔ p ∈ r.indicators ∨ p ∈ calls.map Prod.fst := by
  induction calls generalizing r with
  | nil => simp [after]
  | cons call calls ih =>
      have here : p ∈ (r.register call.1 call.2).2.indicators ↔ p ∈ r.indicators ∨ p = call.1 := by
        rw [indicators_register]
        split
        · rename_i known
          exact ⟨.inl, fun either => either.elim id fun same => same ▸ known⟩
        · simp
      rw [after_cons, ih, here, List.map_cons, List.mem_cons, or_assoc]

theorem nodup_indicators_after (distinct : r.indicators.Nodup) :
    (r.after calls).indicators.Nodup := by
  induction calls generalizing r with
  | nil => exact distinct
  | cons call calls ih =>
      rw [after_cons]
      apply ih
      rw [indicators_register]
      split
      · exact distinct
      · rename_i new
        rw [List.nodup_append_comm]
        exact List.nodup_cons.mpr ⟨new, distinct⟩

theorem factory?_after_reject (policy : r.policy = .reject) :
    (r.after calls).factory? p = (r.factory? p).or (first? p calls) := by
  induction calls generalizing r with
  | nil => rw [first?, List.find?_nil, Option.map_none, Option.or_none]; rfl
  | cons call calls ih =>
      rw [after_cons, ih (policy_register.trans policy), factory?_register_reject policy,
        Option.or_assoc, first?_cons]
      split <;> simp

theorem factory?_after_overwrite (policy : r.policy = .overwrite) :
    (r.after calls).factory? p = (last? p calls).or (r.factory? p) := by
  induction calls generalizing r with
  | nil => rfl
  | cons call calls ih =>
      rw [after_cons, ih (policy_register.trans policy), factory?_register_overwrite policy, last?,
        last?, List.reverse_cons, first?_append, Option.or_assoc, first?_cons]
      split <;> simp [first?]

theorem size_eq (r : Registry U) : r.size = r.indicators.length := by
  rw [indicators, List.length_map, size]

theorem size_after_empty (policy : OnDuplicate) (calls : List (Indicator × Factory U)) :
    ((empty policy).after calls).size = (calls.map Prod.fst).dedup.length := by
  have distinct : ((empty policy).after calls).indicators.Nodup :=
    nodup_indicators_after List.nodup_nil
  have same : ((empty policy).after calls).indicators.Perm (calls.map Prod.fst).dedup := by
    rw [List.perm_ext_iff_of_nodup distinct (List.nodup_dedup _)]
    intro p
    rw [mem_indicators_after, List.mem_dedup]
    exact or_iff_right List.not_mem_nil
  rw [size_eq, same.length_eq]

theorem size_le_register (r : Registry U) (p : Indicator) (factory : Factory U) :
    r.size ≤ (r.register p factory).2.size := by
  rw [size_eq, size_eq, indicators_register]
  split <;> simp

/-- What registering some entries comes to: when duplicates are refused, the entries in front of the
first one whose indicator is taken. -/
def cutRegistration (r : Registry U) (entries : List (Indicator × Factory U)) :
    Except RegistrationError Unit × Registry U :=
  match r.policy, entries.find? fun entry => r.contains entry.1 with
  | .reject, some taken =>
      (.error (.duplicate taken.1), r.after (entries.takeWhile fun entry => !r.contains entry.1))
  | _, _ => (.ok (), r.after entries)

theorem registerEach_of_accepted
    (accepted : ∀ before entry rest, entries = before ++ entry :: rest →
      ((r.after before).register entry.1 entry.2).1 = .ok ()) :
    r.registerEach entries = (.ok (), r.after entries) := by
  induction entries generalizing r with
  | nil => rfl
  | cons entry entries ih =>
      have later := ih fun before next rest same => by
        simpa [after_cons] using accepted (entry :: before) next rest (by rw [same]; rfl)
      obtain ⟨p, factory⟩ := entry
      cases first : r.register p factory with
      | mk result r' =>
          obtain rfl : result = .ok () := by
            simpa [after, first] using accepted [] (p, factory) entries rfl
          simp only [registerEach, after_cons, first] at later ⊢
          exact later

theorem registerEach_of_untaken (distinct : (entries.map Prod.fst).Nodup)
    (new : ∀ entry ∈ entries, entry.1 ∉ r.indicators) :
    r.registerEach entries = (.ok (), r.after entries) := by
  apply registerEach_of_accepted
  rintro before entry rest rfl
  rw [register_result, if_neg]
  rintro ⟨-, known⟩
  rcases mem_indicators_after.mp known with known | earlier
  · exact new entry (by simp) known
  · rw [List.map_append, List.map_cons] at distinct
    exact (List.nodup_append.mp distinct).2.2 _ earlier _ List.mem_cons_self rfl

theorem registerEach_eq_cut (r : Registry U) (distinct : (entries.map Prod.fst).Nodup) :
    r.registerEach entries = r.cutRegistration entries := by
  cases policy : r.policy with
  | overwrite =>
      simp only [cutRegistration, policy]
      apply registerEach_of_accepted
      intro before entry rest _
      rw [register_result, policy_after, policy, if_neg (by simp)]
  | reject =>
      simp only [cutRegistration, policy]
      cases found : entries.find? fun entry => r.contains entry.1 with
      | none =>
          have new := List.find?_eq_none.mp found
          simp only [contains_iff] at new
          exact registerEach_of_untaken distinct new
      | some entry =>
          obtain ⟨known, before, rest, rfl, new⟩ := List.find?_eq_some_iff_append.mp found
          have front : (before ++ entry :: rest).takeWhile (fun entry => !r.contains entry.1) =
              before := by
            rw [List.takeWhile_append_of_pos new, List.takeWhile_cons_of_neg (by simp [known]),
              List.append_nil]
          rw [contains_iff] at known
          simp only [Bool.not_eq_true', contains_eq_false_iff] at new
          rw [List.map_append] at distinct
          have taken : (r.after before).register entry.1 entry.2 =
              (.error (.duplicate entry.1), r.after before) := by
            rw [register_of_known (mem_indicators_after.mpr (.inl known)), policy_after, policy]
          simp only [registerEach_append, front,
            registerEach_of_untaken (List.nodup_append.mp distinct).1 new, registerEach, taken]

theorem callEnd_of_indicator {u : Term} (named : u.indicator? = some p) (m : Machine) :
    r.callEnd m u = r.start p u.args m := by
  cases u with
  | atom a =>
      cases named
      rfl
  | compound f first rest =>
      cases named
      rfl
  | int n => cases named
  | var v => cases named

theorem call_of_indicator {m : Machine} {t u : Term} (ends : m.store.deref t = some u)
    (named : u.indicator? = some p) :
    (r.contains p = false → r.call t m = some (.error (.error (.unknownPredicate p)), m)) ∧
      (r.contains p = true → ∃ factory, r.factory? p = some factory ∧
        r.call t m = some (factory.start u.args m) ∧
        ∀ cause, (factory.start u.args m).1 ≠ .error (.error cause)) := by
  have called : r.call t m = some (r.start p u.args m) := by
    rw [call, ends, Option.map_some, callEnd_of_indicator named]
  refine ⟨fun absent => ?_, fun present => ?_⟩
  · rw [contains_eq_false_iff, ← factory?_eq_none_iff] at absent
    rw [called, start, absent]
  · rw [contains_iff, ← isSome_factory?, Option.isSome_iff_exists] at present
    obtain ⟨factory, found⟩ := present
    exact ⟨factory, found, by rw [called, start, found], factory.start_ne_error u.args m⟩

/-- What a registry holds after any history of registrations, refused or not. When duplicates are
refused, exactly those indicators are refused that were registered before, a refused registration
changes nothing, and the first factory stays; otherwise nothing is refused and the last one counts.
A registry holds as many indicators as different ones were registered and never gets smaller, and
all ways to look at it agree, calling a goal included. Registering one library or all of them on any
registry is to register their predicates, cut before the first one that is refused as a
duplicate. -/
theorem contents_after_any_history (policy : OnDuplicate) (calls : List (Indicator × Factory U)) :
    let r := (empty policy).after calls
    (∀ p factory,
      (r.register p factory).1 =
        (if policy = .reject ∧ p ∈ calls.map Prod.fst then .error (.duplicate p) else .ok ()) ∧
      ((r.register p factory).1 ≠ .ok () → (r.register p factory).2 = r) ∧
      r.size ≤ (r.register p factory).2.size) ∧
    (policy = .reject → ∀ p, r.factory? p = first? p calls) ∧
    (policy = .overwrite → ∀ p, r.factory? p = last? p calls) ∧
    r.size = (calls.map Prod.fst).dedup.length ∧ r.size = r.indicators.length ∧
    r.indicators.Nodup ∧
    (∀ p, (r.contains p = true ↔ p ∈ calls.map Prod.fst) ∧
      (p ∈ r.indicators ↔ p ∈ calls.map Prod.fst) ∧
      ((r.factory? p).isSome ↔ p ∈ calls.map Prod.fst)) ∧
    (∀ m t u p, m.store.deref t = some u → u.indicator? = some p →
      (r.contains p = false → r.call t m = some (.error (.error (.unknownPredicate p)), m)) ∧
      (r.contains p = true → ∃ factory, r.factory? p = some factory ∧
        r.call t m = some (factory.start u.args m) ∧
        ∀ cause, (factory.start u.args m).1 ≠ .error (.error cause))) ∧
    ∀ s : Registry U,
      (∀ library : Library,
        s.registerEach library.predicates = s.cutRegistration library.predicates) ∧
      s.registerStandard = s.cutRegistration Library.standard := by
  intro r
  have known (p : Indicator) : p ∈ r.indicators ↔ p ∈ calls.map Prod.fst :=
    mem_indicators_after.trans (or_iff_right List.not_mem_nil)
  refine ⟨fun p factory => ⟨?_, register_refused, size_le_register r p factory⟩, ?_, ?_,
    size_after_empty policy calls, r.size_eq, nodup_indicators_after List.nodup_nil, ?_,
    fun m t u p => call_of_indicator, fun s => ⟨fun library => ?_, ?_⟩⟩
  · have same : r.policy = policy := policy_after _ calls
    rw [register_result]
    simp only [same, known]
  · rintro rfl p
    exact factory?_after_reject rfl
  · rintro rfl p
    rw [factory?_after_overwrite rfl]
    exact Option.or_none
  · exact fun p => ⟨(contains_iff r p).trans (known p), known p, isSome_factory?.trans (known p)⟩
  · exact s.registerEach_eq_cut library.nodup_predicates
  · rw [registerStandard_eq]
    exact s.registerEach_eq_cut Library.nodup_standard

theorem contents_after_any_history_taken_twice :
    let p : Indicator := ⟨⟨"p"⟩, 0⟩
    let calls : List (Indicator × Factory Empty) := [(p, Builtin.test .truth),
      (⟨.member, 2⟩, Builtin.member), (p, Builtin.test .failure)]
    let first := (empty .reject).after calls
    let last := (empty .overwrite).after calls
    let goal : Term := .atom ⟨"p"⟩
    Machine.empty.store.deref goal = some goal ∧ goal.indicator? = some p ∧
      first.size = 2 ∧ last.size = 2 ∧
      (first.register p Builtin.member).1 = .error (.duplicate p) ∧
      (last.register p Builtin.member).1 = .ok () ∧
      first.call goal Machine.empty = some (.ok (.test .truth false), Machine.empty) ∧
      last.call goal Machine.empty = some (.ok (.test .failure false), Machine.empty) ∧
      first.registerStandard.1 = .error (.duplicate ⟨.member, 2⟩) ∧
      last.registerStandard.1 = .ok () := by
  intro p calls first last goal
  obtain ⟨one, keeps, -, size, -, -, -, called, -⟩ := contents_after_any_history .reject calls
  obtain ⟨one', -, takes, size', -, -, -, called', modules⟩ :=
    contents_after_any_history .overwrite calls
  obtain ⟨_, found, started, -⟩ := (called Machine.empty goal goal p rfl rfl).2 (by decide)
  obtain ⟨_, found', started', -⟩ := (called' Machine.empty goal goal p rfl rfl).2 (by decide)
  cases (keeps rfl p).symm.trans found
  cases (takes rfl p).symm.trans found'
  refine ⟨rfl, rfl, size.trans (by decide), size'.trans (by decide), ?_, ?_, started,
    started', ?_, ?_⟩
  · exact (one p _).1.trans (by decide)
  · exact (one' p _).1.trans (by decide)
  · rw [(modules first).2]
    rfl
  · rw [(modules last).2]
    rfl

end Registry

end LogicSearch
