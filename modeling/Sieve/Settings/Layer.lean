import Sieve.Settings.Address
import Sieve.Text.Casing

/-!
# Layers of settings

Settings are given in layers, each of which may set any of them.

* `Setting`: a setting as it is given, or a list or table of settings;
* `Setting.overlay`: what becomes of a setting when another is laid over it.  Tables are merged name by
  name, at every depth; anything else takes the place of what was there;
* `Setting.place`: the same at an address below a setting.  What is in the way of the address gives
  way to an empty table or list, and a list grows until it has the item.  `Setting.at?` is what
  stands at an address, and `at?_place` ties both;
* `Setting.text?`, `truth?`, `count?`: a setting as text, as a truth value, as a natural number.
-/

namespace Sieve

/-- A setting as it is given. -/
inductive Setting
  | null
  | truth (b : Bool)
  | int (i : Int)
  | real (x : Extended)
  | text (s : String)
  | list (items : List Setting)
  | table (members : List (String × Setting))

/-- Settings by name. -/
abbrev Layer := List (String × Setting)

namespace Setting

instance : Inhabited Setting := ⟨null⟩

/-- The settings of a table; there are none in anything else. -/
def members : Option Setting → Layer
  | some (table ms) => ms
  | _ => []

/-- The items of a list; there are none in anything else. -/
def items : Option Setting → List Setting
  | some (list xs) => xs
  | _ => []

mutual

/-- Lays a setting over another.  A table is laid over the settings of a table, if there is one. -/
def overlay : Setting → Option Setting → Setting
  | table ms, under => table (overlayAll ms (members under))
  | setting, _ => setting

/-- Lays the settings of a table over those of another, one after another. -/
def overlayAll : Layer → Layer → Layer
  | [], under => under
  | (name, setting) :: rest, under =>
    overlayAll rest (Keyed.insert name (overlay setting (Keyed.lookup name under)) under)

end

/-- A number as a setting. -/
def ofNumber : Number → Setting
  | .integer i _ => int i
  | .real x => real (.number x)

mutual

/-- A JSON value as a setting. -/
def ofJson : Json → Setting
  | .null => null
  | .bool b => truth b
  | .num n => ofNumber n
  | .str s => text s
  | .arr xs => list (ofJsonItems xs)
  | .obj ms => table (ofJsonMembers ms)

/-- JSON values as settings. -/
def ofJsonItems : List Json → List Setting
  | [] => []
  | x :: xs => ofJson x :: ofJsonItems xs

/-- The members of a JSON object as settings. -/
def ofJsonMembers : List (String × Json) → Layer
  | [] => []
  | (name, x) :: xs => (name, ofJson x) :: ofJsonMembers xs

end

/-- Makes a list long enough for an index, which is given back as counted from the start: nulls are
put behind its last item, or in front of its first if the index lies before it. -/
def reach (i : Int) (xs : List Setting) : List Setting × Nat :=
  if 0 ≤ i then (xs ++ List.replicate (i.toNat + 1 - xs.length) null, i.toNat)
  else if -i ≤ xs.length then (xs, (xs.length + i).toNat)
  else (List.replicate ((-i).toNat - xs.length) null ++ xs, 0)

/-- Lays a setting over what stands at an address below another. -/
def place (s : Setting) : List Step → Option Setting → Setting
  | [], under => overlay s under
  | .member name :: rest, under =>
    let ms := members under
    table (Keyed.insert name (place s rest (Keyed.lookup name ms)) ms)
  | .item i :: rest, under =>
    let (xs, n) := reach i (items under)
    list (xs.set n (place s rest xs[n]?))

/-- The setting that stands at an address below another. -/
def at? : List Step → Setting → Option Setting
  | [], s => some s
  | .member name :: rest, table ms => (Keyed.lookup name ms).bind (at? rest)
  | .item i :: rest, list xs =>
    let n := if 0 ≤ i then i else xs.length + i
    if 0 ≤ n then xs[n.toNat]?.bind (at? rest) else none
  | _, _ => none

theorem lt_length_reach (i : Int) (xs : List Setting) : (reach i xs).2 < (reach i xs).1.length := by
  unfold reach
  split
  · simp; omega
  · split <;> simp <;> omega

/-- The index that was reached counts as before in the longer list. -/
theorem reach_index (i : Int) (xs : List Setting) :
    (if 0 ≤ i then i else (reach i xs).1.length + i) = (reach i xs).2 := by
  unfold reach
  split
  · simp; omega
  · split <;> simp <;> omega

/-- What has been placed at an address stands there, laid over some setting. -/
theorem at?_place (s : Setting) (path : List Step) (under : Option Setting) :
    ∃ below, at? path (place s path under) = some (overlay s below) := by
  induction path generalizing under with
  | nil => exact ⟨under, rfl⟩
  | cons step rest ih =>
    cases step with
    | member name => simpa [place, at?, Keyed.lookup_insert] using ih _
    | item i =>
      have hn := lt_length_reach i (items under)
      obtain ⟨below, h⟩ := ih ((reach i (items under)).1[(reach i (items under)).2]?)
      refine ⟨below, ?_⟩
      simp only [place, at?, List.length_set, reach_index]
      simpa [hn] using h

/-! ### Values -/

/-- A setting as text. -/
def text? : Setting → Option String
  | text s => some s
  | truth b => some (if b then "true" else "false")
  | int i => some (toString i)
  | real x => some x.text
  | _ => none

/-- The truth value that a word stands for. -/
def word? (s : String) : Option Bool :=
  let s := String.ofList (Text.lowercase s.toList)
  if s = "true" ∨ s = "on" ∨ s = "yes" then some true
  else if s = "false" ∨ s = "off" ∨ s = "no" then some false
  else none

/-- A setting as a truth value: a word, one or zero, or any number. -/
def truth? : Setting → Option Bool
  | truth b => some b
  | int i => some (i ≠ 0)
  | real (.number x) => some (x.steps ≠ 0)
  | real _ => some true
  | text s => if s = "1" then some true else if s = "0" then some false else word? s
  | _ => none

/-- A setting as a natural number of 64 bits; a real number is rounded. -/
def word64? : Setting → Option Nat
  | truth b => some (if b then 1 else 0)
  | int i => if 0 ≤ i then some i.toNat else none
  | real x => some x.rounded
  | text s => ((word? s).map fun b => if b then 1 else 0).or (Path.index? s)
  | _ => none

/-- A setting as a natural number below a bound. -/
def count? (bound : Nat) (s : Setting) : Option Nat := s.word64?.filter (· < bound)

end Setting

end Sieve
