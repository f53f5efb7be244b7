import Sieve.Json.Path
import Sieve.Proofs.Json.Numeral

/-!
# Looking a path up

A path is read step by step, so two paths joined by a dot are looked up one after the other, and every value in
an item is found by the path of the steps that lead to it.

* `Path.steps_append`, `Path.steps_intercalate`: the steps of joined paths and of joined steps;
* `Path.Writes`: a step writes an index (`Path.index?_eq_some_iff`);
* `Json.Leads`: the steps that lead from a value to one in it;
* `Json.lookup_composes`: looking up a joined path, and what is found by steps.
-/

namespace Sieve

/-! ### Steps -/

namespace Path

theorem parts_eq_splitOn (separator : Char) (cs : List Char) : parts separator cs = cs.splitOn separator := by
  induction cs with
  | nil => rfl
  | cons c cs ih =>
    rw [parts, ih, List.splitOn, List.splitOn, List.splitOnP_cons_eq_if_modifyHead]
    by_cases hc : c = separator
    · simp [hc]
    · cases hcs : cs.splitOnP (· == separator) with
      | nil => exact absurd hcs (List.splitOnP_ne_nil _ _)
      | cons p ps => simp [hc]

/-- The steps of two paths joined by a dot are those of the one and then those of the other. -/
theorem steps_append (p q : String) : steps (p ++ "." ++ q) = steps p ++ steps q := by
  have hjoined : (p ++ "." ++ q).toList = p.toList ++ '.' :: q.toList := by simp
  rw [steps, hjoined, parts_eq_splitOn, List.splitOn_append_cons_self, List.map_append, ← parts_eq_splitOn,
    ← parts_eq_splitOn, steps, steps]

/-- Steps without dots are the steps of the path that joins them. -/
theorem steps_intercalate {way : List String} (hne : way ≠ []) (hdots : ∀ s ∈ way, '.' ∉ s.toList) :
    steps (".".intercalate way) = way := by
  have hparts : ∀ cs ∈ way.map String.toList, '.' ∉ cs := by
    intro cs hcs
    obtain ⟨s, hs, rfl⟩ := List.mem_map.1 hcs
    exact hdots s hs
  have hsplit := List.splitOn_intercalate '.' hparts (by simpa using hne)
  rw [steps, parts_eq_splitOn, String.toList_intercalate]
  show (List.splitOn '.' (['.'].intercalate _)).map String.ofList = way
  rw [hsplit, List.map_map]
  simp [Function.comp_def]

/-- A step writes an index in decimal, with or without a `+` in front. -/
def Writes (s : String) (i : Nat) : Prop :=
  ∃ ds : List Char, (s.toList = ds ∨ s.toList = '+' :: ds) ∧ IsDigits ds ∧ digitsValue ds = i

/-- A step stands for the index that it writes, if that fits in 64 bits. -/
theorem index?_eq_some_iff (s : String) (i : Nat) : index? s = some i ↔ Writes s i ∧ i < 2 ^ 64 := by
  have hdigits (ds : List Char) : (if ds.all Char.isDigit ∧ ds ≠ [] ∧ digitsValue ds < 2 ^ 64 then
        some (digitsValue ds) else none) = some i ↔ (IsDigits ds ∧ digitsValue ds = i) ∧ i < 2 ^ 64 := by
    rw [Option.ite_none_right_eq_some, Option.some.injEq, IsDigits, List.all_eq_true]
    constructor
    · rintro ⟨⟨hall, hne, hlt⟩, rfl⟩
      exact ⟨⟨⟨hne, hall⟩, rfl⟩, hlt⟩
    · rintro ⟨⟨⟨hne, hall⟩, rfl⟩, hlt⟩
      exact ⟨⟨hall, hne, hlt⟩, rfl⟩
  unfold index? Writes
  dsimp only
  rw [hdigits]
  refine and_congr_left fun _ => ?_
  split
  next ds hs =>
    constructor
    · rintro ⟨hds, hi⟩
      exact ⟨ds, .inr hs, hds, hi⟩
    · rintro ⟨ds', rfl | hs', hds, hi⟩
      · -- the sign is no digit
        exact absurd (hds.2 '+' (hs ▸ List.mem_cons_self)) (by decide)
      · cases hs.symm.trans hs'
        exact ⟨hds, hi⟩
  next hs =>
    constructor
    · rintro ⟨hds, hi⟩
      exact ⟨s.toList, .inl rfl, hds, hi⟩
    · rintro ⟨ds, rfl | hs', hds, hi⟩
      · exact ⟨hds, hi⟩
      · exact absurd hs' (hs ds)

/-- The decimal digits of an index write it. -/
theorem writes_repr (i : Nat) : Writes i.repr i :=
  ⟨Nat.toDigits 10 i, .inl (by rw [Nat.repr, String.toList_ofList]), isDigits_toDigits i,
    Literal.digitsValue_toDigits i⟩

end Path

/-! ### Values in a value -/

namespace Json

/-- Steps lead from a value to one in it: by the name of a member, the first of that name, or by an index of an
item.  An index is a word of 64 bits, as is the length of every array. -/
inductive Leads : Json → List String → Json → Prop
  | here (x : Json) : Leads x [] x
  | member {name : String} {y z : Json} {way : List String} (before after : List (String × Json))
      (first : ∀ m ∈ before, m.1 ≠ name) (below : Leads y way z) :
      Leads (obj (before ++ (name, y) :: after)) (name :: way) z
  | item {s : String} {xs : List Json} {y z : Json} {way : List String} (i : UInt64)
      (writes : Path.Writes s i.toNat) (there : xs[i.toNat]? = some y) (below : Leads y way z) :
      Leads (arr xs) (s :: way) z

/-- The value of a name is that of the first member of the name. -/
theorem lookup_eq_some_iff (name : String) (ms : List (String × Json)) (y : Json) :
    Keyed.lookup name ms = some y ↔
      ∃ before after, ms = before ++ (name, y) :: after ∧ ∀ m ∈ before, m.1 ≠ name := by
  rw [Keyed.lookup_eq_find?, Option.map_eq_some_iff]
  constructor
  · rintro ⟨⟨k, _⟩, hfind, rfl⟩
    obtain ⟨hk, before, after, hms, hfirst⟩ := List.find?_eq_some_iff_append.1 hfind
    obtain rfl : k = name := of_decide_eq_true hk
    exact ⟨before, after, hms, fun m hm => by simpa using hfirst m hm⟩
  · rintro ⟨before, after, hms, hfirst⟩
    refine ⟨(name, y), List.find?_eq_some_iff_append.2 ⟨by simp, before, after, hms, fun m hm => ?_⟩, rfl⟩
    simpa using hfirst m hm

theorem leads_nil_iff (x y : Json) : Leads x [] y ↔ x = y :=
  ⟨fun | .here _ => rfl, fun h => h ▸ .here x⟩

/-- Steps lead to a value if the first of them leads to one from which the others do. -/
theorem leads_cons_iff (x : Json) (s : String) (way : List String) (z : Json) :
    Leads x (s :: way) z ↔ ∃ y, x.step s = some y ∧ Leads y way z := by
  constructor
  · intro h
    cases h with
    | member before after first below =>
      exact ⟨_, (lookup_eq_some_iff _ _ _).2 ⟨before, after, rfl, first⟩, below⟩
    | item i writes there below =>
      have hindex := (Path.index?_eq_some_iff _ _).2 ⟨writes, i.toNat_lt⟩
      exact ⟨_, Option.bind_eq_some_iff.2 ⟨_, hindex, there⟩, below⟩
  · rintro ⟨y, hstep, below⟩
    cases x with
    | obj ms =>
      obtain ⟨before, after, rfl, first⟩ := (lookup_eq_some_iff _ _ _).1 hstep
      exact .member before after first below
    | arr xs =>
      obtain ⟨i, hindex, there⟩ := Option.bind_eq_some_iff.1 hstep
      obtain ⟨writes, hlt⟩ := (Path.index?_eq_some_iff _ _).1 hindex
      obtain ⟨i, rfl⟩ : ∃ w : UInt64, w.toNat = i := ⟨_, UInt64.toNat_ofNat_of_lt hlt⟩
      exact .item i writes there below
    | _ => cases hstep

/-- Steps are taken one after the other to just the value to which they lead. -/
theorem foldlM_step_eq_some_iff (way : List String) (x z : Json) :
    way.foldlM step x = some z ↔ Leads x way z := by
  induction way generalizing x with
  | nil => rw [leads_nil_iff, List.foldlM_nil, Option.pure_def, Option.some.injEq]
  | cons s way ih =>
    rw [List.foldlM_cons, Option.bind_eq_bind, Option.bind_eq_some_iff, leads_cons_iff]
    exact exists_congr fun y => and_congr_right fun _ => ih y

/-- **Paths are looked up step by step, and every value is found by the steps that lead to it.**

* What is found by two paths joined by a dot is what the second finds in what the first has found.
* Some steps without dots, at least one, are the way from an item to a value just if the path that joins them
  finds that value; and every index is written by its decimal digits. -/
theorem lookup_composes (item : Json) :
    (∀ p q : String, item.at? (p ++ "." ++ q) = (item.at? p).bind (·.at? q)) ∧
    (∀ (way : List String) (x : Json), way ≠ [] → (∀ s ∈ way, '.' ∉ s.toList) →
      (item.at? (".".intercalate way) = some x ↔ item.Leads way x)) ∧
    ∀ i : Nat, Path.Writes i.repr i := by
  refine ⟨fun p q => ?_, fun way x hne hdots => ?_, Path.writes_repr⟩
  · rw [at?, Path.steps_append, List.foldlM_append]
    rfl
  · rw [at?, Path.steps_intercalate hne hdots, foldlM_step_eq_some_iff]

/-- Styles by number, under an empty name. -/
def numbered : Json := obj [("", obj [("0", arr [str "ipa", str "pale"]), ("name", null)])]

/-- An empty name, a number as the name of a member and an index with a zero in front. -/
theorem lookup_composes_numbered :
    numbered.at? ".0.01" = some (str "pale") ∧
    numbered.at? ("" ++ "." ++ "0.01") = (numbered.at? "").bind (·.at? "0.01") := by
  obtain ⟨hjoined, hfound, -⟩ := lookup_composes numbered
  have hdigits : IsDigits ['0', '1'] := ⟨List.cons_ne_nil _ _, by simp⟩
  have hindex : Path.Writes "01" (1 : UInt64).toNat := ⟨['0', '1'], .inl rfl, hdigits, rfl⟩
  have hway : numbered.Leads ["", "0", "01"] (str "pale") :=
    .member [] _ nofun (.member [] _ nofun (.item 1 hindex rfl (.here _)))
  exact ⟨(hfound ["", "0", "01"] _ (by decide) (by decide +kernel)).2 hway, hjoined "" "0.01"⟩

end Json

end Sieve
