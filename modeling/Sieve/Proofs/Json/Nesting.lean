import Mathlib.Tactic.SplitIfs
import Sieve.Proofs.Json.Scanned

/-!
# Brackets in a text

How deep a value is nested can be counted in its text, bracket by bracket: `Json.nesting_render`.
Brackets inside strings do not count.
-/

namespace Sieve

/-- A count of brackets on the way through a text: whether it is in a string, and there right after a
backslash, how many brackets are open, and the most that were open so far. -/
structure Nesting where
  quoting : Bool
  escaping : Bool
  level : Nat
  deepest : Nat

namespace Nesting

/-- Before the first character. -/
def start : Nesting := ⟨false, false, 0, 0⟩

/-- Takes note of a character. -/
def step (s : Nesting) (c : Char) : Nesting :=
  if s.quoting then
    if s.escaping then { s with escaping := false }
    else if c = '\\' then { s with escaping := true }
    else if c = '"' then { s with quoting := false }
    else s
  else if c = '"' then { s with quoting := true }
  else if c = '[' ∨ c = '\x7b' then
    { s with level := s.level + 1, deepest := max s.deepest (s.level + 1) }
  else if c = ']' ∨ c = '\x7d' then { s with level := s.level - 1 }
  else s

end Nesting

/-- The most brackets that are open at once in a text. -/
def nesting (text : String) : Nat := (text.toList.foldl Nesting.step .start).deepest

namespace Nesting

/-- A character that opens and closes nothing. -/
def Plain (c : Char) : Prop :=
  c ≠ '"' ∧ c ≠ '[' ∧ c ≠ ']' ∧ c ≠ '\x7b' ∧ c ≠ '\x7d'

instance (c : Char) : Decidable (Plain c) := inferInstanceAs (Decidable (_ ∧ _))

theorem step_plain {c : Char} (h : Plain c) (n m : Nat) :
    step ⟨false, false, n, m⟩ c = ⟨false, false, n, m⟩ := by
  obtain ⟨hq, ho, hc, hob, hcb⟩ := h
  simp [step, hq, ho, hc, hob, hcb]

theorem foldl_plain {cs : List Char} (h : ∀ c ∈ cs, Plain c) (n m : Nat) :
    cs.foldl step ⟨false, false, n, m⟩ = ⟨false, false, n, m⟩ := by
  induction cs with
  | nil => rfl
  | cons c cs ih =>
    rw [List.foldl_cons, step_plain (h c List.mem_cons_self),
      ih fun c hc => h c (List.mem_cons_of_mem _ hc)]

theorem plain_isDigit {c : Char} (h : c.isDigit = true) : Plain c := by
  refine ⟨?_, ?_, ?_, ?_, ?_⟩ <;>
  · rintro rfl
    revert h
    decide

theorem plain_isBlank {c : Char} (h : Source.isBlank c = true) : Plain c := by
  refine ⟨?_, ?_, ?_, ?_, ?_⟩ <;>
  · rintro rfl
    revert h
    decide

theorem plain_text (x : Number) : ∀ c ∈ x.text, Plain c := by
  have hw := x.wellFormed_literal
  rw [Number.text_eq_chars]
  generalize x.literal = l at hw ⊢
  obtain ⟨negative, whole, fraction, exponent⟩ := l
  intro c hc
  simp only [Literal.chars, List.mem_append] at hc
  rcases hc with ((hc | hc) | hc) | hc
  · cases negative with
    | false => cases hc
    | true =>
      rw [List.mem_singleton.1 hc]
      decide
  · exact plain_isDigit (hw.whole.2 c hc)
  · cases fraction with
    | none => cases hc
    | some ds =>
      rcases List.mem_cons.1 hc with rfl | hc
      · decide
      · exact plain_isDigit ((hw.fraction ds rfl).2 c hc)
  · cases exponent with
    | none => cases hc
    | some e =>
      obtain ⟨down, ds⟩ := e
      rcases List.mem_cons.1 hc with rfl | hc
      · decide
      rcases List.mem_cons.1 hc with rfl | hc
      · cases down <;> decide
      · exact plain_isDigit ((hw.exponent _ rfl).2 c hc)

/-! ### Strings -/

theorem step_quoted {c : Char} (hq : c ≠ '"') (hb : c ≠ '\\') (n m : Nat) :
    step ⟨true, false, n, m⟩ c = ⟨true, false, n, m⟩ := by
  simp [step, hq, hb]

theorem hexDigit_ne : ∀ n < 32, (Json.hexDigit (n / 16) ≠ '"' ∧ Json.hexDigit (n / 16) ≠ '\\') ∧
    Json.hexDigit (n % 16) ≠ '"' ∧ Json.hexDigit (n % 16) ≠ '\\' := by
  decide

/-- An escaped character neither ends a string nor leaves a backslash behind. -/
theorem foldl_escaped (c : Char) (n m : Nat) :
    (Json.escaped c).foldl step ⟨true, false, n, m⟩ = ⟨true, false, n, m⟩ := by
  unfold Json.escaped
  split_ifs with hquote hslash hline hreturn htab hback hfeed hcontrol
  · rfl
  · rfl
  · rfl
  · rfl
  · rfl
  · rfl
  · rfl
  · -- a backslash, `u` and two zeros stand in front of the two digits
    obtain ⟨⟨hq, hb⟩, hq', hb'⟩ := hexDigit_ne c.toNat hcontrol
    show step (step ⟨true, false, n, m⟩ (Json.hexDigit (c.toNat / 16)))
      (Json.hexDigit (c.toNat % 16)) = _
    rw [step_quoted hq hb, step_quoted hq' hb']
  · exact step_quoted hquote hslash n m

theorem foldl_quoted (s : String) (n m : Nat) :
    (Json.quoted s).foldl step ⟨false, false, n, m⟩ = ⟨false, false, n, m⟩ := by
  have hinside : ∀ cs : List Char,
      (cs.flatMap Json.escaped).foldl step ⟨true, false, n, m⟩ = ⟨true, false, n, m⟩ := by
    intro cs
    induction cs with
    | nil => rfl
    | cons c cs ih => rw [List.flatMap_cons, List.foldl_append, foldl_escaped, ih]
  show (s.toList.flatMap Json.escaped ++ ['"']).foldl step ⟨true, false, n, m⟩ = _
  rw [List.foldl_append, hinside]
  rfl

/-! ### Values -/

section Layout

open Json (Layout chars itemChars memberChars quoted)

variable {l : Layout}

theorem foldl_lineBreak (hl : l.Blank) (k n m : Nat) :
    (l.lineBreak k).foldl step ⟨false, false, n, m⟩ = ⟨false, false, n, m⟩ :=
  foldl_plain (fun c hc => plain_isBlank (hl.lineBreak k c hc)) n m

theorem foldl_colon (hl : l.Blank) (n m : Nat) :
    l.colon.foldl step ⟨false, false, n, m⟩ = ⟨false, false, n, m⟩ := by
  obtain ⟨bs, hcolon, hb⟩ := hl.colon
  rw [hcolon]
  refine foldl_plain (fun c hc => ?_) n m
  rcases List.mem_cons.1 hc with rfl | hc
  · decide
  · exact plain_isBlank (hb c hc)

mutual

/-- Over a value the level stays, and the deepest level is that of the value if it is deeper. -/
theorem foldl_chars (hl : l.Blank) : ∀ (j : Json) (k : Nat) {n m : Nat}, n ≤ m →
    (chars l k j).foldl step ⟨false, false, n, m⟩ = ⟨false, false, n, max m (n + j.depth)⟩
  | .null, k, n, m, h => by
    have hdepth : max m (n + Json.null.depth) = m := Nat.max_eq_left h
    rw [hdepth]
    refine foldl_plain (fun c hc => ?_) n m
    simp only [chars, List.mem_cons, List.not_mem_nil, or_false] at hc
    rcases hc with rfl | rfl | rfl | rfl <;> decide
  | .bool b, k, n, m, h => by
    have hdepth : max m (n + (Json.bool b).depth) = m := Nat.max_eq_left h
    rw [hdepth]
    refine foldl_plain (fun c hc => ?_) n m
    cases b with
    | true =>
      simp only [chars, List.mem_cons, List.not_mem_nil, or_false] at hc
      rcases hc with rfl | rfl | rfl | rfl <;> decide
    | false =>
      simp only [chars, List.mem_cons, List.not_mem_nil, or_false] at hc
      rcases hc with rfl | rfl | rfl | rfl | rfl <;> decide
  | .num x, k, n, m, h => by
    have hdepth : max m (n + (Json.num x).depth) = m := Nat.max_eq_left h
    rw [hdepth]
    exact foldl_plain (plain_text x) n m
  | .str s, k, n, m, h => by
    have hdepth : max m (n + (Json.str s).depth) = m := Nat.max_eq_left h
    rw [hdepth]
    exact foldl_quoted s n m
  | .arr [], k, n, m, h => rfl
  | .arr (x :: xs), k, n, m, h => by
    -- between the brackets the level is one higher, and it has been reached
    have hx := foldl_chars hl x (k + 1) (Nat.le_max_right m (n + 1))
    have hxs := foldl_itemChars hl xs (k + 1) (Nat.le_trans (Nat.le_max_right m (n + 1))
      (Nat.le_max_left _ (n + 1 + x.depth)))
    have hopen : step ⟨false, false, n, m⟩ '[' = ⟨false, false, n + 1, max m (n + 1)⟩ := rfl
    have hclose : ∀ m, step ⟨false, false, n + 1, m⟩ ']' = ⟨false, false, n, m⟩ := fun _ => rfl
    simp only [chars, List.cons_append, List.foldl_append, List.foldl_cons, List.foldl_nil, hopen,
      foldl_lineBreak hl, hx, hxs, hclose, Json.depth, Json.depthItems]
    congr 1
    omega
  | .obj [], k, n, m, h => rfl
  | .obj ((name, x) :: ms), k, n, m, h => by
    have hx := foldl_chars hl x (k + 1) (Nat.le_max_right m (n + 1))
    have hms := foldl_memberChars hl ms (k + 1) (Nat.le_trans (Nat.le_max_right m (n + 1))
      (Nat.le_max_left _ (n + 1 + x.depth)))
    have hopen : step ⟨false, false, n, m⟩ '\x7b' = ⟨false, false, n + 1, max m (n + 1)⟩ := rfl
    have hclose : ∀ m, step ⟨false, false, n + 1, m⟩ '\x7d' = ⟨false, false, n, m⟩ := fun _ => rfl
    simp only [chars, List.cons_append, List.foldl_append, List.foldl_cons, List.foldl_nil, hopen,
      foldl_lineBreak hl, foldl_quoted, foldl_colon hl, hx, hms, hclose, Json.depth,
      Json.depthMembers]
    congr 1
    omega

/-- Over the further items of an array. -/
theorem foldl_itemChars (hl : l.Blank) : ∀ (xs : List Json) (k : Nat) {n m : Nat}, n ≤ m →
    (itemChars l k xs).foldl step ⟨false, false, n, m⟩ =
      ⟨false, false, n, max m (n + Json.depthItems xs)⟩
  | [], k, n, m, h => by
    have hdepth : max m (n + Json.depthItems []) = m := Nat.max_eq_left h
    rw [hdepth]
    rfl
  | x :: xs, k, n, m, h => by
    have hcomma : Plain ',' := by decide
    simp only [itemChars, List.foldl_append, List.foldl_cons, step_plain hcomma,
      foldl_lineBreak hl, foldl_chars hl x k h,
      foldl_itemChars hl xs k (Nat.le_trans h (Nat.le_max_left ..)), Json.depthItems]
    congr 1
    omega

/-- Over the further members of an object. -/
theorem foldl_memberChars (hl : l.Blank) : ∀ (ms : List (String × Json)) (k : Nat) {n m : Nat},
    n ≤ m → (memberChars l k ms).foldl step ⟨false, false, n, m⟩ =
      ⟨false, false, n, max m (n + Json.depthMembers ms)⟩
  | [], k, n, m, h => by
    have hdepth : max m (n + Json.depthMembers []) = m := Nat.max_eq_left h
    rw [hdepth]
    rfl
  | (name, x) :: ms, k, n, m, h => by
    have hcomma : Plain ',' := by decide
    simp only [memberChars, List.cons_append, List.foldl_append, List.foldl_cons, step_plain hcomma,
      foldl_lineBreak hl, foldl_quoted, foldl_colon hl, foldl_chars hl x k h,
      foldl_memberChars hl ms k (Nat.le_trans h (Nat.le_max_left ..)), Json.depthMembers]
    congr 1
    omega

end

end Layout

end Nesting

/-- The nesting of brackets in the text of a value is the nesting of the value. -/
theorem Json.nesting_render {l : Layout} (hl : l.Blank) (j : Json) :
    nesting (j.render l) = j.depth := by
  have h := Nesting.foldl_chars hl j 0 (Nat.le_refl 0)
  rw [nesting, render, String.toList_ofList, Nesting.start, h]
  simp

end Sieve
