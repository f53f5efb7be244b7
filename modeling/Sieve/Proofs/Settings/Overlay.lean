import Mathlib.Data.List.Basic
import Sieve.Settings.Load

/-!
# What layers tell

What becomes of a setting at the end of a path of names when layers are laid over one another.

* `Setting.tells?`, `Layer.tells?`: what a setting or a layer by itself tells of a path.  Of several
  things the last one counts;
* `Setting.suits`, `Layer.suits`: on the way of the path there are only tables, and what stands at its
  end fits;
* `Setting.Prevails`: what is told of a path stands there after the overlay, and what stood there
  before if nothing is told of it.  The overlay suits the path again.

One member that is set (`Setting.prevails_insert`) is the step of every overlay, and
`Setting.prevails_foldl` is the run: of a table over a table, of the names of a layer over a layer
(`Layer.prevails_overlay`), and of layers over one another (`Layer.prevails_layers`).
-/

namespace Sieve

/-- The last of what is found along a list, seen from its first item. -/
theorem getLast?_filterMap_cons {α β : Type} (f : α → Option β) (x : α) (xs : List α) :
    ((x :: xs).filterMap f).getLast? = (xs.filterMap f).getLast?.or (f x) := by
  cases hx : f x with
  | none => simp [hx]
  | some b => cases hxs : (xs.filterMap f).getLast? <;> simp [hx, List.getLast?_cons, hxs]

namespace Setting

/-! ### What is told, and what stands -/

/-- What a setting tells of a path.  In a table the last setting that tells something counts. -/
def tells? : List String → Setting → Option Setting
  | [], s => some s
  | name :: path, table ms =>
    (ms.filterMap fun m => if m.1 = name then tells? path m.2 else none).getLast?
  | _ :: _, _ => none

/-- What a setting tells of a path from an address on. -/
def tellsFrom? : List Step → List String → Setting → Option Setting
  | [], path, s => s.tells? path
  | .member name :: rest, n :: path, s => if name = n then tellsFrom? rest path s else none
  | _, _, _ => none

/-- Whether what a setting tells of a path fits, with nothing but tables on the way. -/
def suits (fits : Setting → Bool) : List String → Setting → Bool
  | [], s => fits s
  | name :: path, table ms => ms.all fun m => m.1 ≠ name || suits fits path m.2
  | _ :: _, _ => false

/-- Whether what a setting tells of a path from an address on fits. -/
def suitsFrom (fits : Setting → Bool) : List Step → List String → Setting → Bool
  | [], path, s => s.suits fits path
  | .member name :: rest, n :: path, s => name ≠ n || suitsFrom fits rest path s
  | _, _, _ => false

/-- What stands at the end of a path. -/
def found? (path : List String) (s : Setting) : Option Setting := at? (path.map .member) s

variable {fits : Setting → Bool} {name : String} {path : List String} {s t : Setting} {ms : Layer}
  {told later under : Option Setting}

@[simp] theorem found?_nil (s : Setting) : found? [] s = some s := rfl

theorem found?_cons (name : String) (path : List String) (s : Setting) :
    found? (name :: path) s = (Keyed.lookup name (members (some s))).bind (found? path) := by
  cases s <;> rfl

/-- A name is looked up in nothing, and in what is not a table, as in an empty table. -/
theorem bind_found?_cons (name : String) (path : List String) (under : Option Setting) :
    under.bind (found? (name :: path)) = found? (name :: path) (table (members under)) := by
  cases under with
  | none => rfl
  | some s => exact found?_cons name path s

theorem suits_cons_iff : s.suits fits (name :: path) = true ↔
    ∃ ms, s = table ms ∧ ∀ m ∈ ms, m.1 = name → m.2.suits fits path = true := by
  cases s <;> simp [suits, Decidable.imp_iff_not_or]

theorem suits_table_iff : (table ms).suits fits (name :: path) = true ↔
    ∀ m ∈ ms, m.1 = name → m.2.suits fits path = true := by
  simp [suits_cons_iff]

theorem table_members_of_suits (h : s.suits fits (name :: path) = true) :
    table (members (some s)) = s := by
  obtain ⟨ms, rfl, -⟩ := suits_cons_iff.1 h
  rfl

theorem suits_of_lookup (h : (table ms).suits fits (name :: path) = true)
    (hs : Keyed.lookup name ms = some s) : s.suits fits path = true :=
  suits_table_iff.1 h (name, s) (Keyed.mem_of_lookup hs) rfl

/-- A part of what suits a path suits the rest of the path. -/
theorem suits_members (h : ∀ u ∈ under, u.suits fits (name :: path) = true) :
    (table (members under)).suits fits (name :: path) = true := by
  cases under with
  | none => rfl
  | some s => rw [table_members_of_suits (h s rfl)]; exact h s rfl

theorem fits_of_found? (h : s.suits fits path = true) (ht : found? path s = some t) :
    fits t = true := by
  induction path generalizing s with
  | nil => cases ht; exact h
  | cons name path ih =>
    obtain ⟨ms, rfl, -⟩ := suits_cons_iff.1 h
    obtain ⟨u, hu, ht⟩ := Option.bind_eq_some_iff.1 ((found?_cons ..).symm.trans ht)
    exact ih (suits_of_lookup h hu) ht

/-! ### What prevails -/

/-- What is told of a path stands there, and else what stood there before. -/
structure Prevails (fits : Setting → Bool) (path : List String) (told under : Option Setting)
    (result : Setting) : Prop where
  suits : result.suits fits path = true
  found : found? path result = told.or (under.bind (found? path))

theorem Prevails.refl (h : s.suits fits path = true) : Prevails fits path none (some s) s := ⟨h, rfl⟩

theorem Prevails.trans (h : Prevails fits path told under s) (h' : Prevails fits path later (some s) t) :
    Prevails fits path (later.or told) under t := by
  refine ⟨h'.suits, ?_⟩
  rw [h'.found, Option.bind_some, h.found, Option.or_assoc]

/-- A path of at least one name leads into what is under the overlay as into a table. -/
theorem Prevails.of_members (h : Prevails fits (name :: path) told (some (table (members under))) s) :
    Prevails fits (name :: path) told under s :=
  ⟨h.suits, by rw [h.found, bind_found?_cons name path under, Option.bind_some]⟩

/-- One member of a table is set: on the way of the path it prevails if it does so below, and off
the way nothing changes. -/
theorem prevails_insert {key : String} (hms : (table ms).suits fits (name :: path) = true)
    (h : key = name → Prevails fits path told (Keyed.lookup key ms) s) :
    Prevails fits (name :: path) (if key = name then told else none) (some (table ms))
      (table (Keyed.insert key s ms)) := by
  constructor
  · refine suits_table_iff.2 fun m hm hname => ?_
    rcases Keyed.mem_insert hm with rfl | hm
    · exact (h hname).suits
    · exact suits_table_iff.1 hms m hm hname
  · simp only [Option.bind_some, found?_cons, members, Keyed.lookup_insert]
    by_cases hkey : key = name
    · subst hkey
      simpa using (h rfl).found
    · simp [hkey]

/-- If every step of a run prevails, the last of what the steps tell prevails over the run. -/
theorem prevails_foldl {α : Type} {step : Layer → α → Layer} {tells : α → Option Setting} {xs : List α}
    (h : ∀ x ∈ xs, ∀ ms, (table ms).suits fits path = true →
      Prevails fits path (tells x) (some (table ms)) (table (step ms x)))
    (hms : (table ms).suits fits path = true) :
    Prevails fits path (xs.filterMap tells).getLast? (some (table ms)) (table (xs.foldl step ms)) := by
  induction xs generalizing ms with
  | nil => exact .refl hms
  | cons x xs ih =>
    have hstep := h x List.mem_cons_self ms hms
    rw [getLast?_filterMap_cons]
    exact hstep.trans (ih (fun y hy => h y (List.mem_cons_of_mem x hy)) hstep.suits)

theorem overlayAll_eq_foldl (upper ms : Layer) : overlayAll upper ms =
    upper.foldl (fun ms m => Keyed.insert m.1 (m.2.overlay (Keyed.lookup m.1 ms)) ms) ms := by
  induction upper generalizing ms with
  | nil => rfl
  | cons m upper ih => exact ih _

variable (htable : ∀ ms, fits (table ms) = false)
include htable

/-- What a setting tells prevails where it is laid over another. -/
theorem prevails_overlay (hs : s.suits fits path = true)
    (hunder : ∀ u ∈ under, u.suits fits path = true) :
    Prevails fits path (s.tells? path) under (s.overlay under) := by
  induction path generalizing s under with
  | nil =>
    have hself : s.overlay under = s := by
      cases s with
      | table ms => exact absurd hs (by simp [Setting.suits, htable])
      | _ => rfl
    exact ⟨hself.symm ▸ hs, by rw [hself]; rfl⟩
  | cons name path ih =>
    obtain ⟨upper, rfl, hupper⟩ := suits_cons_iff.1 hs
    refine .of_members ?_
    rw [overlay, overlayAll_eq_foldl]
    refine prevails_foldl (fun m hm ms hms => ?_) (suits_members hunder)
    refine prevails_insert hms fun hname => ih (hupper m hm hname) fun u hu => ?_
    exact suits_of_lookup hms (hname ▸ hu)

/-- What a setting tells from an address on prevails where it is placed there. -/
theorem prevails_place {steps : List Step} (hs : s.suitsFrom fits steps path = true)
    (hunder : ∀ u ∈ under, u.suits fits path = true) :
    Prevails fits path (s.tellsFrom? steps path) under (s.place steps under) := by
  induction steps generalizing path under with
  | nil => exact prevails_overlay htable hs hunder
  | cons step steps ih =>
    match step, path, hs with
    | .member key, name :: path, hs =>
      have hbelow : key = name → s.suitsFrom fits steps path = true := by
        simpa [suitsFrom, Decidable.imp_iff_not_or] using hs
      refine .of_members (prevails_insert (suits_members hunder) fun hname => ?_)
      exact ih (hbelow hname) fun u hu => suits_of_lookup (suits_members hunder) (hname ▸ hu)

end Setting

/-! ### Layers -/

namespace Layer

open Setting

/-- What a layer tells of a path. -/
def tells? (path : List String) (l : Layer) : Option Setting :=
  (l.filterMap fun m => m.2.tellsFrom? (Step.address m.1) path).getLast?

/-- Whether everything that a layer tells of a path fits. -/
def suits (fits : Setting → Bool) (path : List String) (l : Layer) : Bool :=
  l.all fun m => m.2.suitsFrom fits (Step.address m.1) path

variable {fits : Setting → Bool} {name : String} {path : List String} {layer under : Layer}
variable (htable : ∀ ms, fits (.table ms) = false)
include htable

/-- What a layer tells prevails where it is laid over another. -/
theorem prevails_overlay (h : layer.suits fits (name :: path) = true)
    (hunder : (Setting.table under).suits fits (name :: path) = true) :
    Prevails fits (name :: path) (layer.tells? (name :: path)) (some (.table under))
      (.table (layer.overlay under)) := by
  refine prevails_foldl (fun m hm ms hms => ?_) hunder
  have hplaced : Prevails fits (name :: path) (m.2.tellsFrom? (Step.address m.1) (name :: path))
      (some (.table ms)) (m.2.place (Step.address m.1) (some (.table ms))) :=
    prevails_place htable (List.all_eq_true.1 h m hm) (by simpa using hms)
  rwa [put, table_members_of_suits hplaced.suits]

/-- Of layers that are laid over one another the last that tells something prevails. -/
theorem prevails_layers {layers : List Layer} (h : ∀ l ∈ layers, l.suits fits (name :: path) = true) :
    Prevails fits (name :: path) (layers.filterMap (tells? (name :: path))).getLast?
      (some (.table [])) (.table (layers.foldl (fun under layer => layer.overlay under) [])) :=
  prevails_foldl (fun l hl _ hms => prevails_overlay htable (h l hl) hms) rfl

end Layer

end Sieve
