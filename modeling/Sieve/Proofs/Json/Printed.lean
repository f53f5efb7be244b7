import Sieve.Proofs.Json.Numeral
import Sieve.Proofs.Json.Quoted

/-!
# Texts of values

Different values have different texts in a layout, also where something follows that cannot go on
with a number.

* `Json.exists_chars`: the first character of a text tells what kind of value it is of;
* `Layout.Blank`: a layout that puts only blanks between tokens;
* `Source.Starts`: a text that starts with a token, so that blanks in front of it do not matter;
* `Json.chars_append_inj`: the induction, on both values at once.  A number goes as far as the grammar
  lets it, a string to its closing quote, and an array or object to its bracket.
-/

namespace Sieve

namespace Json

/-- What a value is, without its contents. -/
inductive Kind
  | null
  | bool (b : Bool)
  | num
  | str
  | arr
  | obj
  deriving DecidableEq

/-- What a value is. -/
def kind : Json → Kind
  | null => .null
  | bool b => .bool b
  | num _ => .num
  | str _ => .str
  | arr _ => .arr
  | obj _ => .obj

/-- What a text is of that starts with a character. -/
def Kind.of? (c : Char) : Option Kind :=
  if c = 'n' then some null
  else if c = 't' then some (bool true)
  else if c = 'f' then some (bool false)
  else if c = '"' then some str
  else if c = '[' then some arr
  else if c = '\x7b' then some obj
  else if c = '-' ∨ c.isDigit then some num
  else none

/-- No value starts with a blank or the end of an array or object. -/
theorem Kind.of?_ne {c : Char} {k : Kind} (h : of? c = some k) :
    Source.isBlank c = false ∧ c ≠ ']' ∧ c ≠ '\x7d' := by
  refine ⟨Bool.eq_false_iff.2 fun hb => ?_, ?_, ?_⟩
  · simp only [Source.isBlank, Bool.or_eq_true, decide_eq_true_eq] at hb
    rcases hb with ((rfl | rfl) | rfl) | rfl <;> cases h
  · rintro rfl
    cases h
  · rintro rfl
    cases h

theorem Kind.of?_digit {c : Char} (hc : c.isDigit = true) : of? c = some num := by
  have hne : ∀ d : Char, d.isDigit = false → c ≠ d := by
    rintro d hd rfl
    exact absurd hc (by simp [hd])
  simp only [of?, hne 'n' rfl, hne 't' rfl, hne 'f' rfl, hne '"' rfl, hne '[' rfl, hne '\x7b' rfl, hc,
    or_true, if_true, if_false]

/-- The first character of the text of a number. -/
theorem exists_text (x : Number) : ∃ c cs, x.text = c :: cs ∧ (c = '-' ∨ c.isDigit = true) := by
  have hw := x.wellFormed_literal.whole
  rw [Number.text_eq_chars, Literal.chars]
  cases x.literal.negative with
  | true => exact ⟨'-', _, rfl, .inl rfl⟩
  | false =>
    cases hds : x.literal.whole with
    | nil => exact absurd hds hw.1
    | cons d ds => exact ⟨d, _, rfl, .inr (hw.2 d (by simp [hds]))⟩

/-- The first character of the text of a value. -/
theorem exists_chars (l : Layout) (n : Nat) (j : Json) :
    ∃ c cs, chars l n j = c :: cs ∧ Kind.of? c = some j.kind := by
  match j with
  | null => exact ⟨_, _, rfl, rfl⟩
  | bool true => exact ⟨_, _, rfl, rfl⟩
  | bool false => exact ⟨_, _, rfl, rfl⟩
  | num x =>
    obtain ⟨c, cs, ht, rfl | hc⟩ := exists_text x
    · exact ⟨_, cs, ht, rfl⟩
    · exact ⟨c, cs, ht, Kind.of?_digit hc⟩
  | str s => exact ⟨_, _, rfl, rfl⟩
  | arr [] => exact ⟨_, _, rfl, rfl⟩
  | arr (_ :: _) => exact ⟨_, _, rfl, rfl⟩
  | obj [] => exact ⟨_, _, rfl, rfl⟩
  | obj ((_, _) :: _) => exact ⟨_, _, rfl, rfl⟩

/-- Texts that are the same at their start are of values of one kind. -/
theorem kind_eq {l l' : Layout} {n n' : Nat} {a b : Json} {r r' : List Char}
    (h : chars l n a ++ r = chars l' n' b ++ r') : a.kind = b.kind := by
  obtain ⟨c, cs, ha, hc⟩ := exists_chars l n a
  obtain ⟨d, ds, hb, hd⟩ := exists_chars l' n' b
  rw [ha, hb] at h
  have hcd : c = d := (List.cons.inj h).1
  exact Option.some.inj (by rw [← hc, ← hd, hcd])

end Json

/-! ### Blanks -/

namespace Json

/-- A layout that puts only blanks between tokens. -/
structure Layout.Blank (l : Layout) : Prop where
  lineBreak : ∀ n, ∀ c ∈ l.lineBreak n, Source.isBlank c = true
  colon : ∃ bs, l.colon = ':' :: bs ∧ ∀ c ∈ bs, Source.isBlank c = true

theorem Layout.blank_compact : Layout.compact.Blank :=
  ⟨fun _ _ hc => absurd hc List.not_mem_nil, [], rfl, fun _ hc => absurd hc List.not_mem_nil⟩

theorem Layout.blank_indented : Layout.indented.Blank := by
  refine ⟨fun n c hc => ?_, [' '], rfl, fun c hc => ?_⟩
  · rcases List.mem_cons.1 hc with rfl | hc
    · rfl
    · rw [(List.mem_replicate.1 hc).2]
      rfl
  · rw [List.mem_singleton.1 hc]
    rfl

end Json

namespace Source

open Json (Layout chars itemChars memberChars quoted)

/-- A text that starts with a token other than the end of an array or object. -/
def Starts (cs : List Char) : Prop :=
  ∃ c rest, cs = c :: rest ∧ isBlank c = false ∧ c ≠ ']' ∧ c ≠ '\x7d'

theorem starts_chars (l : Layout) (n : Nat) (j : Json) (rest : List Char) :
    Starts (chars l n j ++ rest) := by
  obtain ⟨c, cs, hcs, hk⟩ := Json.exists_chars l n j
  exact ⟨c, cs ++ rest, by rw [hcs, List.cons_append], Json.Kind.of?_ne hk⟩

theorem starts_quoted (s : String) (rest : List Char) : Starts (quoted s ++ rest) :=
  ⟨'"', _, rfl, rfl, by decide, by decide⟩

namespace Starts

variable {cs : List Char}

theorem ne_nil (h : Starts cs) : cs ≠ [] := by
  obtain ⟨c, rest, rfl, -⟩ := h
  exact List.cons_ne_nil c rest

theorem ne_bracket (h : Starts cs) (r : List Char) : cs ≠ ']' :: r := by
  obtain ⟨c, rest, rfl, -, hc, -⟩ := h
  exact fun he => hc (List.cons.inj he).1

theorem ne_brace (h : Starts cs) (r : List Char) : cs ≠ '\x7d' :: r := by
  obtain ⟨c, rest, rfl, -, -, hc⟩ := h
  exact fun he => hc (List.cons.inj he).1

end Starts

/-- Blanks in front of a token are passed over. -/
theorem skipBlanks_append {bs : List Char} (hb : ∀ c ∈ bs, isBlank c = true) {c : Char}
    (hc : isBlank c = false) (rest : List Char) : skipBlanks (bs ++ c :: rest) = c :: rest := by
  rw [skipBlanks, List.dropWhile_append_of_pos hb]
  simp [hc]

theorem Starts.skipBlanks_append {cs : List Char} (h : Starts cs) {bs : List Char}
    (hb : ∀ c ∈ bs, isBlank c = true) : skipBlanks (bs ++ cs) = cs := by
  obtain ⟨c, rest, rfl, hc, -⟩ := h
  exact Source.skipBlanks_append hb hc rest

/-- Blanks and a token that is no part of a number end a number. -/
theorem delimited_append {bs : List Char} (hb : ∀ c ∈ bs, isBlank c = true) {rest : List Char}
    (hr : Delimited rest) : Delimited (bs ++ rest) := by
  cases bs with
  | nil => exact hr
  | cons b bs =>
    have hblank := hb b List.mem_cons_self
    simp only [isBlank, Bool.or_eq_true, decide_eq_true_eq] at hblank
    rcases hblank with ((rfl | rfl) | rfl) | rfl <;> exact ⟨rfl, by decide, by decide, by decide⟩

end Source

namespace Json

open Source

theorem chars_arr (l : Layout) (n : Nat) (x : Json) (xs : List Json) (r : List Char) :
    chars l n (.arr (x :: xs)) ++ r = '[' :: (l.lineBreak (n + 1) ++ (chars l (n + 1) x ++
      (itemChars l (n + 1) xs ++ (l.lineBreak n ++ ']' :: r)))) := by
  simp [chars]

theorem chars_obj (l : Layout) (n : Nat) (k : String) (x : Json) (ms : List (String × Json))
    (r : List Char) : chars l n (.obj ((k, x) :: ms)) ++ r =
      '\x7b' :: (l.lineBreak (n + 1) ++ (quoted k ++ (l.colon ++ (chars l (n + 1) x ++
        (memberChars l (n + 1) ms ++ (l.lineBreak n ++ '\x7d' :: r)))))) := by
  simp [chars]

theorem itemChars_append (l : Layout) (n : Nat) (x : Json) (xs : List Json) (r : List Char) :
    itemChars l n (x :: xs) ++ r =
      ',' :: (l.lineBreak n ++ (chars l n x ++ (itemChars l n xs ++ r))) := by
  simp [itemChars]

theorem memberChars_append (l : Layout) (n : Nat) (k : String) (x : Json)
    (ms : List (String × Json)) (r : List Char) : memberChars l n ((k, x) :: ms) ++ r =
      ',' :: (l.lineBreak n ++ (quoted k ++ (l.colon ++ (chars l n x ++
        (memberChars l n ms ++ r))))) := by
  simp [memberChars]

/-- What stands behind an item ends it. -/
theorem delimited_itemChars (hl : l.Blank) (n m : Nat) (xs : List Json) (r : List Char) :
    Delimited (itemChars l n xs ++ (l.lineBreak m ++ ']' :: r)) := by
  cases xs with
  | nil => exact delimited_append (hl.lineBreak m) ⟨rfl, by decide, by decide, by decide⟩
  | cons x xs => exact ⟨rfl, by decide, by decide, by decide⟩

/-- What stands behind a member ends it. -/
theorem delimited_memberChars (hl : l.Blank) (n m : Nat) (ms : List (String × Json))
    (r : List Char) : Delimited (memberChars l n ms ++ (l.lineBreak m ++ '\x7d' :: r)) := by
  cases ms with
  | nil => exact delimited_append (hl.lineBreak m) ⟨rfl, by decide, by decide, by decide⟩
  | cons m ms => exact ⟨rfl, by decide, by decide, by decide⟩

section Layout

variable {l : Layout}

/-- An array with no item is not written as one with an item is. -/
theorem chars_arr_ne (hl : l.Blank) (n : Nat) (x : Json) (xs : List Json) (r r' : List Char) :
    chars l n (.arr (x :: xs)) ++ r ≠ chars l n (.arr []) ++ r' := by
  intro h
  rw [chars_arr] at h
  have hskip := congrArg skipBlanks (List.cons.inj h).2
  rw [(starts_chars ..).skipBlanks_append (hl.lineBreak (n + 1))] at hskip
  exact (starts_chars ..).ne_bracket r' hskip

/-- An object with no member is not written as one with a member is. -/
theorem chars_obj_ne (hl : l.Blank) (n : Nat) (k : String) (x : Json) (ms : List (String × Json))
    (r r' : List Char) : chars l n (.obj ((k, x) :: ms)) ++ r ≠ chars l n (.obj []) ++ r' := by
  intro h
  rw [chars_obj] at h
  have hskip := congrArg skipBlanks (List.cons.inj h).2
  rw [(starts_quoted ..).skipBlanks_append (hl.lineBreak (n + 1))] at hskip
  exact (starts_quoted ..).ne_brace r' hskip

/-- The end of an array is not the comma in front of a further item. -/
theorem itemChars_append_ne (hl : l.Blank) (n m : Nat) (x : Json) (xs : List Json)
    (r r' : List Char) : itemChars l n (x :: xs) ++ r ≠ l.lineBreak m ++ ']' :: r' := by
  intro h
  rw [itemChars_append] at h
  have hskip := congrArg skipBlanks h
  rw [skipBlanks_append (hl.lineBreak m) rfl] at hskip
  cases (List.cons.inj hskip).1

/-- The end of an object is not the comma in front of a further member. -/
theorem memberChars_append_ne (hl : l.Blank) (n m : Nat) (k : String) (x : Json)
    (ms : List (String × Json)) (r r' : List Char) :
    memberChars l n ((k, x) :: ms) ++ r ≠ l.lineBreak m ++ '\x7d' :: r' := by
  intro h
  rw [memberChars_append] at h
  have hskip := congrArg skipBlanks h
  rw [skipBlanks_append (hl.lineBreak m) rfl] at hskip
  cases (List.cons.inj hskip).1

mutual

/-- Values are the same if their texts in one layout are, up to what follows. -/
theorem chars_append_inj (hl : l.Blank) : ∀ (a b : Json) {n : Nat} {r r' : List Char},
    Delimited r → Delimited r' → chars l n a ++ r = chars l n b ++ r' → a = b ∧ r = r'
  | null, b, _, _, _, _, _, h => by
    cases b <;> cases kind_eq h
    exact ⟨rfl, by simpa [chars] using h⟩
  | bool v, b, _, _, _, _, _, h => by
    cases b <;> cases kind_eq h
    exact ⟨rfl, by cases v <;> simpa [chars] using h⟩
  | num x, b, _, _, _, hr, hr', h => by
    cases b <;> cases kind_eq h
    -- only here does it matter what follows: more digits would belong to the number
    obtain ⟨rfl, hrest⟩ := Number.text_append_inj hr hr' h
    exact ⟨rfl, hrest⟩
  | str s, b, _, _, _, _, _, h => by
    cases b <;> cases kind_eq h
    obtain ⟨rfl, hrest⟩ := quoted_append_inj h
    exact ⟨rfl, hrest⟩
  | arr [], b, _, _, _, _, _, h => by
    cases b <;> cases kind_eq h
    next ys =>
    cases ys with
    | nil => exact ⟨rfl, by simpa [chars] using h⟩
    | cons y ys => exact absurd h.symm (chars_arr_ne hl _ y ys _ _)
  | arr (x :: xs), b, _, _, _, _, _, h => by
    cases b <;> cases kind_eq h
    next ys =>
    cases ys with
    | nil => exact absurd h (chars_arr_ne hl _ x xs _ _)
    | cons y ys =>
      rw [chars_arr, chars_arr] at h
      obtain ⟨rfl, hmore⟩ := chars_append_inj hl x y (delimited_itemChars hl _ _ xs _)
        (delimited_itemChars hl _ _ ys _) (List.append_cancel_left (List.cons.inj h).2)
      obtain ⟨rfl, hrest⟩ := itemChars_append_inj hl xs ys hmore
      exact ⟨rfl, hrest⟩
  | obj [], b, _, _, _, _, _, h => by
    cases b <;> cases kind_eq h
    next ms =>
    cases ms with
    | nil => exact ⟨rfl, by simpa [chars] using h⟩
    | cons m ms => exact absurd h.symm (chars_obj_ne hl _ m.1 m.2 ms _ _)
  | obj ((k, x) :: ms), b, _, _, _, _, _, h => by
    cases b <;> cases kind_eq h
    next ms' =>
    cases ms' with
    | nil => exact absurd h (chars_obj_ne hl _ k x ms _ _)
    | cons m ms' =>
      rw [chars_obj, chars_obj] at h
      obtain ⟨rfl, hvalue⟩ := quoted_append_inj (List.append_cancel_left (List.cons.inj h).2)
      obtain ⟨rfl, hmore⟩ := chars_append_inj hl x m.2 (delimited_memberChars hl _ _ ms _)
        (delimited_memberChars hl _ _ ms' _) (List.append_cancel_left hvalue)
      obtain ⟨rfl, hrest⟩ := memberChars_append_inj hl ms ms' hmore
      exact ⟨rfl, hrest⟩

/-- Items are the same if their texts in one layout are, up to what follows the array. -/
theorem itemChars_append_inj (hl : l.Blank) : ∀ (xs ys : List Json) {n m : Nat} {r r' : List Char},
    itemChars l n xs ++ (l.lineBreak m ++ ']' :: r) =
      itemChars l n ys ++ (l.lineBreak m ++ ']' :: r') → xs = ys ∧ r = r'
  | [], [], _, _, _, _, h => ⟨rfl, (List.cons.inj (List.append_cancel_left h)).2⟩
  | [], y :: ys, _, _, _, _, h => absurd h.symm (itemChars_append_ne hl _ _ y ys _ _)
  | x :: xs, [], _, _, _, _, h => absurd h (itemChars_append_ne hl _ _ x xs _ _)
  | x :: xs, y :: ys, _, _, _, _, h => by
    rw [itemChars_append, itemChars_append] at h
    obtain ⟨rfl, hmore⟩ := chars_append_inj hl x y (delimited_itemChars hl _ _ xs _)
      (delimited_itemChars hl _ _ ys _) (List.append_cancel_left (List.cons.inj h).2)
    obtain ⟨rfl, hrest⟩ := itemChars_append_inj hl xs ys hmore
    exact ⟨rfl, hrest⟩

/-- Members are the same if their texts in one layout are, up to what follows the object. -/
theorem memberChars_append_inj (hl : l.Blank) : ∀ (ms ms' : List (String × Json)) {n m : Nat}
    {r r' : List Char}, memberChars l n ms ++ (l.lineBreak m ++ '\x7d' :: r) =
      memberChars l n ms' ++ (l.lineBreak m ++ '\x7d' :: r') → ms = ms' ∧ r = r'
  | [], [], _, _, _, _, h => ⟨rfl, (List.cons.inj (List.append_cancel_left h)).2⟩
  | [], (k, y) :: ms', _, _, _, _, h => absurd h.symm (memberChars_append_ne hl _ _ k y ms' _ _)
  | (k, x) :: ms, [], _, _, _, _, h => absurd h (memberChars_append_ne hl _ _ k x ms _ _)
  | (k, x) :: ms, (k', y) :: ms', _, _, _, _, h => by
    rw [memberChars_append, memberChars_append] at h
    obtain ⟨rfl, hvalue⟩ := quoted_append_inj (List.append_cancel_left (List.cons.inj h).2)
    obtain ⟨rfl, hmore⟩ := chars_append_inj hl x y (delimited_memberChars hl _ _ ms _)
      (delimited_memberChars hl _ _ ms' _) (List.append_cancel_left hvalue)
    obtain ⟨rfl, hrest⟩ := memberChars_append_inj hl ms ms' hmore
    exact ⟨rfl, hrest⟩

end

/-- Different values have different texts in one layout. -/
theorem render_injective (hl : l.Blank) : Function.Injective (render l) := by
  intro a b h
  have hnil : Delimited [] := trivial
  have hchars : chars l 0 a ++ [] = chars l 0 b ++ [] := by
    rw [String.ofList_injective h]
  exact (chars_append_inj hl a b hnil hnil hchars).1

/-- Different values have different texts on one line. -/
theorem compact_injective : Function.Injective compact :=
  render_injective Layout.blank_compact

/-- Different values have different texts over several lines. -/
theorem indented_injective : Function.Injective indented :=
  render_injective Layout.blank_indented

end Layout

end Json

end Sieve
