import Sieve.Decode
import Sieve.Proofs.Json.Printed

/-!
# Scanning a printed value

A scanner gets a value back from its text, in either layout.

* `Source.ofPrinted`: the value that it gets.  Numbers are what their literals read as, so the value
  is the printed one if every number in it reads back (`Source.ofPrinted_eq_ofJson`);
* `Source.scanValue_chars`: scanning the text of a value, with enough fuel, gives the value and what
  follows the text.  The induction is on the value, and each level of it takes two steps of fuel and
  at least one character;
* `Source.ofText_render`: scanning a whole text.
-/

namespace Sieve

namespace Source

mutual

/-- A value as it is scanned from its text. -/
def ofPrinted : Json → Source
  | .null => null
  | .bool b => bool b
  | .num n => number n.literal.read
  | .str s => string (some s)
  | .arr xs => array (ofPrintedItems xs) .closed
  | .obj ms => object (ofPrintedMembers ms) .closed

/-- The items of an array as they are scanned. -/
def ofPrintedItems : List Json → List Source
  | [] => []
  | x :: xs => ofPrinted x :: ofPrintedItems xs

/-- The members of an object as they are scanned. -/
def ofPrintedMembers : List (String × Json) → List (Option String × Source)
  | [] => []
  | (k, x) :: xs => (some k, ofPrinted x) :: ofPrintedMembers xs

end

open Json (Layout chars itemChars memberChars quoted)

/-! ### Values -/

/-- A number of either sign. -/
theorem scanValue_text (x : Number) (fuel : Nat) {rest : List Char} (hr : Delimited rest) :
    scanValue (fuel + 1) (x.text ++ rest) = (number x.literal.read, some rest) := by
  obtain ⟨c, cs, hcs, hc⟩ := Json.exists_text x
  have hscan := x.scanNumber_text hr
  rw [hcs] at hscan ⊢
  have hne : ∀ d : Char, d ≠ '-' → d.isDigit = false → c ≠ d := by
    rintro d hd hdigit rfl
    rcases hc with hc | hc
    · exact hd hc
    · exact absurd hc (by simp [hdigit])
  rw [List.cons_append] at hscan ⊢
  simp only [scanValue, hne '"' (by decide) rfl, hne '[' (by decide) rfl, hne '\x7b' (by decide) rfl,
    hne 'n' (by decide) rfl, hne 't' (by decide) rfl, hne 'f' (by decide) rfl, if_false, if_pos hc,
    hscan]

/-- An array that is not empty. -/
theorem scanValue_array {fuel : Nat} {bs next : List Char} (hb : ∀ c ∈ bs, isBlank c = true)
    (hn : Starts next) : scanValue (fuel + 1) ('[' :: (bs ++ next)) =
      (array (scanItems fuel next).1 (scanItems fuel next).2.1, (scanItems fuel next).2.2) := by
  have hquote : ('[' : Char) ≠ '"' := by decide
  have h0 := hn.ne_nil
  have hend := hn.ne_bracket
  simp only [scanValue, if_neg hquote, if_true, hn.skipBlanks_append hb]

/-- An object that is not empty. -/
theorem scanValue_object {fuel : Nat} {bs next : List Char} (hb : ∀ c ∈ bs, isBlank c = true)
    (hn : Starts next) : scanValue (fuel + 1) ('\x7b' :: (bs ++ next)) =
      (object (scanMembers fuel false next).1 (scanMembers fuel false next).2.1,
        (scanMembers fuel false next).2.2) := by
  have hquote : ('\x7b' : Char) ≠ '"' := by decide
  have hbracket : ('\x7b' : Char) ≠ '[' := by decide
  have h0 := hn.ne_nil
  have hend := hn.ne_brace
  simp only [scanValue, if_neg hquote, if_neg hbracket, if_true, hn.skipBlanks_append hb]

/-- The last item of an array. -/
theorem scanItems_last {fuel : Nat} {cs bs rest : List Char} {item : Source}
    (hb : ∀ c ∈ bs, isBlank c = true)
    (hv : scanValue fuel cs = (item, some (bs ++ ']' :: rest))) :
    scanItems (fuel + 1) cs = ([item], .closed, some rest) := by
  simp only [scanItems, hv, skipBlanks_append hb (c := ']') rfl]

/-- An item that is followed by another. -/
theorem scanItems_more {fuel : Nat} {cs bs next : List Char} {item : Source}
    (hb : ∀ c ∈ bs, isBlank c = true) (hn : Starts next)
    (hv : scanValue fuel cs = (item, some (',' :: (bs ++ next)))) :
    scanItems (fuel + 1) cs = (item :: (scanItems fuel next).1, (scanItems fuel next).2) := by
  have h0 := hn.ne_nil
  have hend := hn.ne_bracket
  have hcomma : skipBlanks (',' :: (bs ++ next)) = ',' :: (bs ++ next) := rfl
  simp only [scanItems, hv, hcomma, hn.skipBlanks_append hb]

section Members

variable {fuel : Nat} {afterComma : Bool} {l : Layout} {cs bs rest next : List Char} {k : String}
  {value : Source}

/-- The name of a member and the colon, up to the value. -/
theorem scanString_member (hl : l.Blank) (k : String) (hc : Starts cs) :
    ∃ body rest rest', quoted k ++ (l.colon ++ cs) = '"' :: body ∧
      scanString none body = .closed (some k.toList) rest ∧ skipBlanks rest = ':' :: rest' ∧
      skipBlanks rest' = cs := by
  obtain ⟨bs, hcolon, hb⟩ := hl.colon
  refine ⟨k.toList.flatMap Json.escaped ++ '"' :: (l.colon ++ cs), l.colon ++ cs, bs ++ cs, ?_,
    scanString_flatMap _ _, ?_, hc.skipBlanks_append hb⟩
  · simp [quoted]
  · rw [hcolon]
    rfl

/-- The last member of an object. -/
theorem scanMembers_last (hl : l.Blank) (hc : Starts cs) (hb : ∀ c ∈ bs, isBlank c = true)
    (hv : scanValue fuel cs = (value, some (bs ++ '\x7d' :: rest))) :
    scanMembers (fuel + 1) afterComma (quoted k ++ (l.colon ++ cs)) =
      ([(some k, value)], .closed, some rest) := by
  obtain ⟨body, rest', rest'', htext, hs, hcolon, hvalue⟩ := scanString_member hl k hc
  have hend : skipBlanks (bs ++ '\x7d' :: rest) = '\x7d' :: rest := skipBlanks_append hb rfl rest
  simp only [htext, scanMembers, hs, hcolon, hvalue, hv, hend, Option.map_some,
    String.ofList_toList]

/-- A member that is followed by another. -/
theorem scanMembers_more (hl : l.Blank) (hc : Starts cs) (hb : ∀ c ∈ bs, isBlank c = true)
    (hn : Starts next) (hv : scanValue fuel cs = (value, some (',' :: (bs ++ next)))) :
    scanMembers (fuel + 1) afterComma (quoted k ++ (l.colon ++ cs)) =
      ((some k, value) :: (scanMembers fuel true next).1, (scanMembers fuel true next).2) := by
  obtain ⟨body, rest', rest'', htext, hs, hcolon, hvalue⟩ := scanString_member hl k hc
  have h0 := hn.ne_nil
  have hend := hn.ne_brace
  have hcomma : skipBlanks (',' :: (bs ++ next)) = ',' :: (bs ++ next) := rfl
  simp only [htext, scanMembers, hs, hcolon, hvalue, hv, hcomma, hn.skipBlanks_append hb,
    Option.map_some, String.ofList_toList]

end Members

/-! ### Texts -/

section Text

variable {l : Layout}

/-- Enough fuel for a value is enough for its first step. -/
theorem exists_fuel {n : Nat} {j : Json} {rest : List Char} {fuel : Nat}
    (hf : 2 * (chars l n j ++ rest).length ≤ fuel) : ∃ f, fuel = f + 1 := by
  have hpos := List.length_pos_iff.2 (starts_chars l n j rest).ne_nil
  exact ⟨fuel - 1, by omega⟩

mutual

/-- Scanning the text of a value gives the value and what follows. -/
theorem scanValue_chars (hl : l.Blank) : ∀ (j : Json) {n fuel : Nat} {rest : List Char},
    2 * (chars l n j ++ rest).length ≤ fuel → Delimited rest →
    scanValue fuel (chars l n j ++ rest) = (ofPrinted j, some rest)
  | .null, n, fuel, rest, hf, _ => by
    obtain ⟨fuel, rfl⟩ := exists_fuel hf
    rfl
  | .bool b, n, fuel, rest, hf, _ => by
    obtain ⟨fuel, rfl⟩ := exists_fuel hf
    cases b <;> rfl
  | .num x, n, fuel, rest, hf, hr => by
    obtain ⟨fuel, rfl⟩ := exists_fuel hf
    exact scanValue_text x fuel hr
  | .str s, n, fuel, rest, hf, _ => by
    obtain ⟨fuel, rfl⟩ := exists_fuel hf
    simp only [chars, quoted, List.cons_append, List.append_assoc, List.nil_append, scanValue,
      if_true, scanString_flatMap, Option.map_some, String.ofList_toList, ofPrinted]
  | .arr [], n, fuel, rest, hf, _ => by
    obtain ⟨fuel, rfl⟩ := exists_fuel hf
    rfl
  | .arr (x :: xs), n, fuel, rest, hf, _ => by
    obtain ⟨fuel, rfl⟩ := exists_fuel hf
    rw [Json.chars_arr] at hf ⊢
    rw [scanValue_array (hl.lineBreak (n + 1)) (starts_chars ..), scanItems_chars hl x xs]
    · rfl
    -- one step of fuel is used up, and the bracket was worth two
    · simp only [List.length_cons, List.length_append] at hf ⊢
      omega
  | .obj [], n, fuel, rest, hf, _ => by
    obtain ⟨fuel, rfl⟩ := exists_fuel hf
    rfl
  | .obj ((k, x) :: ms), n, fuel, rest, hf, _ => by
    obtain ⟨fuel, rfl⟩ := exists_fuel hf
    rw [Json.chars_obj] at hf ⊢
    rw [scanValue_object (hl.lineBreak (n + 1)) (starts_quoted ..), scanMembers_chars hl k x ms]
    · rfl
    · simp only [List.length_cons, List.length_append] at hf ⊢
      omega

termination_by j => sizeOf j

/-- Scanning items from the first on gives the items and what follows the array. -/
theorem scanItems_chars (hl : l.Blank) : ∀ (x : Json) (xs : List Json) {n m fuel : Nat}
    {rest : List Char},
    2 * (chars l n x ++ (itemChars l n xs ++ (l.lineBreak m ++ ']' :: rest))).length < fuel →
    scanItems fuel (chars l n x ++ (itemChars l n xs ++ (l.lineBreak m ++ ']' :: rest))) =
      (ofPrinted x :: ofPrintedItems xs, .closed, some rest)
  | x, [], n, m, fuel + 1, rest, hf => by
    have hv := scanValue_chars hl x (Nat.le_of_lt_succ hf) (Json.delimited_itemChars hl n m [] rest)
    exact scanItems_last (hl.lineBreak m) hv
  | x, y :: xs, n, m, fuel + 1, rest, hf => by
    have hv := scanValue_chars hl x (Nat.le_of_lt_succ hf)
      (Json.delimited_itemChars hl n m (y :: xs) rest)
    rw [Json.itemChars_append] at hf hv ⊢
    rw [scanItems_more (hl.lineBreak n) (starts_chars ..) hv, scanItems_chars hl y xs]
    · rfl
    · simp only [List.length_cons, List.length_append] at hf ⊢
      omega

termination_by x xs => sizeOf x + sizeOf xs

/-- Scanning members from the first on gives the members and what follows the object. -/
theorem scanMembers_chars (hl : l.Blank) : ∀ (k : String) (x : Json) (ms : List (String × Json))
    {n m fuel : Nat} {rest : List Char} {afterComma : Bool},
    2 * (quoted k ++ (l.colon ++ (chars l n x ++
      (memberChars l n ms ++ (l.lineBreak m ++ '\x7d' :: rest))))).length < fuel →
    scanMembers fuel afterComma (quoted k ++ (l.colon ++ (chars l n x ++
      (memberChars l n ms ++ (l.lineBreak m ++ '\x7d' :: rest))))) =
      ((some k, ofPrinted x) :: ofPrintedMembers ms, .closed, some rest)
  | k, x, [], n, m, fuel + 1, rest, afterComma, hf => by
    have hfuel : 2 * (chars l n x ++ (memberChars l n [] ++
        (l.lineBreak m ++ '\x7d' :: rest))).length ≤ fuel := by
      simp only [List.length_append] at hf ⊢
      omega
    have hv := scanValue_chars hl x hfuel (Json.delimited_memberChars hl n m [] rest)
    exact scanMembers_last hl (starts_chars ..) (hl.lineBreak m) hv
  | k, x, (k', y) :: ms, n, m, fuel + 1, rest, afterComma, hf => by
    have hfuel : 2 * (chars l n x ++ (memberChars l n ((k', y) :: ms) ++
        (l.lineBreak m ++ '\x7d' :: rest))).length ≤ fuel := by
      simp only [List.length_append] at hf ⊢
      omega
    have hv := scanValue_chars hl x hfuel (Json.delimited_memberChars hl n m ((k', y) :: ms) rest)
    rw [Json.memberChars_append] at hf hv ⊢
    rw [scanMembers_more hl (starts_chars ..) (hl.lineBreak n) (starts_quoted ..) hv,
      scanMembers_chars hl k' y ms]
    · rfl
    · simp only [List.length_cons, List.length_append] at hf ⊢
      omega
termination_by _ x ms => sizeOf x + sizeOf ms

end

/-- Scanning a whole text gives its value, and nothing follows. -/
theorem ofText_render (hl : l.Blank) (j : Json) : ofText (j.render l) = ⟨ofPrinted j, false⟩ := by
  have hskip : skipBlanks ([] ++ (chars l 0 j ++ [])) = chars l 0 j ++ [] :=
    (starts_chars l 0 j []).skipBlanks_append nofun
  have hfuel : 2 * (chars l 0 j ++ []).length ≤ 2 * (chars l 0 j).length + 2 := by
    simp
  have hv := scanValue_chars hl j hfuel trivial
  rw [List.nil_append, List.append_nil] at hskip
  rw [List.append_nil] at hv
  simp only [ofText, Json.render, String.toList_ofList, ofChars, hskip, hv]
  rfl

end Text

end Source

/-! ### Numbers that read back -/

/-- The text of a number decodes to the number. -/
def Number.ReadsBack (x : Number) : Prop :=
  Decode.ofText Decode.readJson (Json.num x).compact = .ok (.num x)

namespace Number

theorem ofText_num (x : Number) : Decode.ofText Decode.readJson (Json.num x).compact =
    match x.literal.read with
    | some y => .ok (.num y)
    | none => .error .malformed := by
  unfold Decode.ofText Json.compact
  rw [Source.ofText_render Json.Layout.blank_compact]
  simp only [Source.ofPrinted]
  cases x.literal.read with
  | some y => rfl
  | none => rfl

theorem ReadsBack.literal_read {x : Number} (h : x.ReadsBack) : x.literal.read = some x := by
  rw [ReadsBack, ofText_num] at h
  cases hx : x.literal.read with
  | none =>
    rw [hx] at h
    cases h
  | some y =>
    rw [hx] at h
    cases h
    rfl

/-- Every integer reads back. -/
theorem readsBack_integer (i : Int) (hi : InWord i) : (integer i hi).ReadsBack := by
  have hint : (integer i hi).literal.readInt = some i := by
    simp only [literal, Literal.readInt, Option.isNone_none, and_self, if_true,
      Literal.digitsValue_toDigits, decide_eq_true_eq]
    by_cases hneg : i < 0
    · have h0 : i.natAbs ≠ 0 := by omega
      rw [if_pos hneg, if_neg h0]
      congr 1
      omega
    · rw [if_neg hneg]
      congr 1
      omega
  rw [ReadsBack, ofText_num, Literal.read, hint]
  simp only [dif_pos hi]

end Number

mutual

/-- The numbers in a value. -/
def Json.numbers : Json → List Number
  | .num x => [x]
  | .arr xs => Json.numbersOfItems xs
  | .obj ms => Json.numbersOfMembers ms
  | _ => []

/-- The numbers in the items of an array. -/
def Json.numbersOfItems : List Json → List Number
  | [] => []
  | x :: xs => Json.numbers x ++ Json.numbersOfItems xs

/-- The numbers in the members of an object. -/
def Json.numbersOfMembers : List (String × Json) → List Number
  | [] => []
  | (_, x) :: ms => Json.numbers x ++ Json.numbersOfMembers ms

end

namespace Source

mutual

/-- A value all of whose numbers read back is scanned as it was printed. -/
theorem ofPrinted_eq_ofJson : ∀ (j : Json), (∀ x ∈ j.numbers, x.literal.read = some x) →
    ofPrinted j = ofJson j
  | .null, _ => rfl
  | .bool _, _ => rfl
  | .num x, h => by rw [ofPrinted, ofJson, h x List.mem_cons_self]
  | .str _, _ => rfl
  | .arr xs, h => by rw [ofPrinted, ofJson, ofPrintedItems_eq_ofItems xs h]
  | .obj ms, h => by rw [ofPrinted, ofJson, ofPrintedMembers_eq_ofMembers ms h]

theorem ofPrintedItems_eq_ofItems : ∀ (xs : List Json),
    (∀ x ∈ Json.numbersOfItems xs, x.literal.read = some x) → ofPrintedItems xs = ofItems xs
  | [], _ => rfl
  | y :: ys, h => by
    rw [ofPrintedItems, ofItems, ofPrinted_eq_ofJson y fun x hx => h x (List.mem_append_left _ hx),
      ofPrintedItems_eq_ofItems ys fun x hx => h x (List.mem_append_right _ hx)]

theorem ofPrintedMembers_eq_ofMembers : ∀ (ms : List (String × Json)),
    (∀ x ∈ Json.numbersOfMembers ms, x.literal.read = some x) → ofPrintedMembers ms = ofMembers ms
  | [], _ => rfl
  | (k, y) :: ms, h => by
    rw [ofPrintedMembers, ofMembers,
      ofPrinted_eq_ofJson y fun x hx => h x (List.mem_append_left _ hx),
      ofPrintedMembers_eq_ofMembers ms fun x hx => h x (List.mem_append_right _ hx)]

end

end Source

end Sieve
