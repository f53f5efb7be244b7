import Mathlib.Tactic.SplitIfs
import Sieve.Json.Printer
import Sieve.Json.Source

/-!
# Strings in quotes

A scanner gets a string back from its text in quotes, whatever follows: `Source.scanString_flatMap`
puts together what it does with one escaped character (`Source.scanString_escaped`).
-/

namespace Sieve

namespace Source

/-- The escape of a character below U+0020 that has no shorter one. -/
theorem hexUnit?_control : ∀ n < 32, hexUnit? '0' '0' (Json.hexDigit (n / 16))
    (Json.hexDigit (n % 16)) = some n := by
  decide

theorem unit16_control {n : Nat} (h : n < 32) : Unit16.of n = .whole := by
  rw [Unit16.of, if_neg (by omega), if_neg (by omega)]

/-- A character that stands for itself. -/
theorem scanString_plain {c : Char} (hq : c ≠ '"') (hb : c ≠ '\\') (hc : ¬ c.toNat < 32)
    (rest : List Char) : scanString none (c :: rest) = (scanString none rest).cons c := by
  rw [scanString.eq_def]
  split
  next h => cases h
  next h => exact absurd (List.cons.inj h).1 hb
  next h => exact absurd (List.cons.inj h).1 hq
  next h => exact absurd (List.cons.inj h).1 hb
  next h => exact absurd (List.cons.inj h).1 hb
  next h => exact absurd (List.cons.inj h).1 hb
  next h =>
    cases h
    simp [hc, settle]

/-- A letter after a backslash. -/
theorem scanString_letter {c x : Char} (hx : unescape? c = some x) (rest : List Char) :
    scanString none ('\\' :: c :: rest) = (scanString none rest).cons x := by
  have hu : c ≠ 'u' := by
    rintro rfl
    cases hx
  rw [scanString.eq_def]
  split
  next h => cases h
  next h => cases h
  next h => cases h
  next h => exact absurd (List.cons.inj (List.cons.inj h).2).1 hu
  next h => exact absurd (List.cons.inj (List.cons.inj h).2).1 hu
  next h =>
    cases h
    simp only [hx, settle, Option.isSome_none, Bool.false_eq_true, if_false]
  next hplain h =>
    cases h
    exact (hplain _ _ rfl rfl).elim

/-- A scanner reads an escaped character as the character. -/
theorem scanString_escaped (c : Char) (rest : List Char) :
    scanString none (Json.escaped c ++ rest) = (scanString none rest).cons c := by
  unfold Json.escaped
  split_ifs with hquote hslash hline hreturn htab hback hfeed hcontrol
  · subst hquote
    exact scanString_letter rfl rest
  · subst hslash
    exact scanString_letter rfl rest
  · subst hline
    exact scanString_letter rfl rest
  · subst hreturn
    exact scanString_letter rfl rest
  · subst htab
    exact scanString_letter rfl rest
  · subst hback
    exact scanString_letter rfl rest
  · subst hfeed
    exact scanString_letter rfl rest
  · simp [scanString, hexUnit?_control _ hcontrol, unit16_control hcontrol]
  · exact scanString_plain hquote hslash hcontrol rest

/-- A scanner gets a text back from its escaped characters and the closing quote. -/
theorem scanString_flatMap (cs rest : List Char) :
    scanString none (cs.flatMap Json.escaped ++ '"' :: rest) = .closed (some cs) rest := by
  induction cs with
  | nil => simp [scanString, settle]
  | cons c cs ih =>
    rw [List.flatMap_cons, List.append_assoc, scanString_escaped, ih]
    rfl

end Source

/-- Quoted strings are one string if the texts they start are the same. -/
theorem Json.quoted_append_inj {s t : String} {rest rest' : List Char}
    (h : quoted s ++ rest = quoted t ++ rest') : s = t ∧ rest = rest' := by
  have hs := Source.scanString_flatMap s.toList rest
  simp only [quoted, List.cons_append, List.append_assoc, List.nil_append, List.cons.injEq,
    true_and] at h
  rw [h, Source.scanString_flatMap] at hs
  injection hs with ht hrest
  exact ⟨String.toList_injective (Option.some.inj ht).symm, hrest.symm⟩

end Sieve
