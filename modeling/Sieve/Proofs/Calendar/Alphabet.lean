import Mathlib.Data.List.TakeDrop
import Mathlib.Data.List.TakeWhile
import Sieve.Calendar

/-!
# The characters of points in time

A text that names a point in time has no characters but digits, white space, signs, and the marks and
letters of timestamps.  Each reader takes only such characters away, so where what it leaves is written in
them, so is the text that it was given.

* `Instant.InAlphabet`, `Instant.Written`: a character, and all characters of a text;
* `Instant.written_of_ofChars?`: a text that names a point in time is written in the alphabet.
-/

namespace Sieve.Instant

/-- A character that stands in some text of a point in time. -/
def InAlphabet (c : Char) : Prop :=
  c.isDigit = true ∨ isSpace c = true ∨ c ∈ ['-', '+', '\u2212', ':', '.', 'T', 't', 'Z', 'z']

instance (c : Char) : Decidable (InAlphabet c) := inferInstanceAs (Decidable (_ ∨ _ ∨ _))

/-- A text in the alphabet. -/
def Written (cs : List Char) : Prop := ∀ c ∈ cs, InAlphabet c

variable {cs rest : List Char}

theorem written_nil : Written [] := nofun

theorem written_cons {c : Char} (hc : InAlphabet c) (h : Written cs) : Written (c :: cs) :=
  List.forall_mem_cons.2 ⟨hc, h⟩

theorem written_append (h : Written cs) (hrest : Written rest) : Written (cs ++ rest) :=
  List.forall_mem_append.2 ⟨h, hrest⟩

theorem written_takeWhile_isDigit (cs : List Char) : Written (cs.takeWhile Char.isDigit) :=
  fun _ hc => .inl (List.mem_takeWhile_imp hc)

theorem written_of_dropWhile_isSpace (h : Written (cs.dropWhile isSpace)) : Written cs := by
  rw [← List.takeWhile_append_dropWhile (p := isSpace) (l := cs)]
  exact written_append (fun _ hc => .inr (.inl (List.mem_takeWhile_imp hc))) h

/-! ### Readers -/

theorem written_of_digits? {n : Nat} {ds : List Char} (h : digits? n cs = some (ds, rest))
    (hrest : Written rest) : Written cs := by
  induction n generalizing cs ds with
  | zero =>
    cases h
    exact hrest
  | succ n ih =>
    cases cs with
    | nil => cases h
    | cons c cs =>
      rw [digits?] at h
      split at h
      next hc =>
        obtain ⟨⟨ds', rest'⟩, htail, he⟩ := Option.map_eq_some_iff.1 h
        cases he
        exact written_cons (.inl hc) (ih htail)
      next => cases h

theorem written_of_fixed? {n m : Nat} (h : fixed? n cs = some (m, rest)) (hrest : Written rest) :
    Written cs := by
  obtain ⟨⟨ds, rest'⟩, hds, he⟩ := Option.map_eq_some_iff.1 h
  cases he
  exact written_of_digits? hds hrest

theorem written_of_char? {c : Char} (h : char? c cs = some rest) (hc : InAlphabet c) (hrest : Written rest) :
    Written cs := by
  cases cs with
  | nil => cases h
  | cons d cs =>
    rw [char?] at h
    split at h
    next he =>
      cases h
      exact written_cons (he ▸ hc) hrest
    next => cases h

/-- The letter between date and time may be large or small, or a blank. -/
theorem written_of_letter
    (h : ((char? 'T' cs).orElse fun _ => (char? 't' cs).orElse fun _ => char? ' ' cs) = some rest)
    (hrest : Written rest) : Written cs := by
  simp only [Option.orElse_eq_or, Option.or_eq_some_iff] at h
  obtain h | ⟨-, h | ⟨-, h⟩⟩ := h <;> exact written_of_char? h (by decide) hrest

theorem written_of_fraction? {n : Nat} (h : fraction? cs = some (n, rest)) (hrest : Written rest) :
    Written cs := by
  unfold fraction? at h
  split at h
  next ds =>
    rw [List.span_eq_takeWhile_dropWhile] at h
    split at h
    next => cases h
    next he =>
      cases h
      cases he
      rw [← List.takeWhile_append_dropWhile (p := Char.isDigit) (l := ds)]
      exact written_cons (by decide) (written_append (written_takeWhile_isDigit ds) hrest)
  next =>
    cases h
    exact hrest

theorem written_of_amount {n : Nat} (h : offset?.amount cs = some (n, rest)) (hrest : Written rest) :
    Written cs := by
  obtain ⟨⟨hours, _⟩, hhours, h⟩ := Option.bind_eq_some_iff.1 h
  obtain ⟨_, hmark, h⟩ := Option.bind_eq_some_iff.1 h
  obtain ⟨⟨minutes, _⟩, hminutes, h⟩ := Option.bind_eq_some_iff.1 h
  obtain ⟨-, he⟩ := Option.ite_none_right_eq_some.1 h
  cases he
  exact written_of_fixed? hhours (written_of_char? hmark (by decide) (written_of_fixed? hminutes hrest))

theorem written_of_offset? {i : Int} (h : offset? cs = some (i, rest)) (hrest : Written rest) :
    Written cs := by
  unfold offset? at h
  split at h
  case h_1 | h_2 =>
    cases h
    exact written_cons (by decide) hrest
  case h_6 => cases h
  all_goals
    obtain ⟨⟨n, rest'⟩, hn, he⟩ := Option.map_eq_some_iff.1 h
    cases he
    exact written_cons (by decide) (written_of_amount hn hrest)

/-- A text is written in the alphabet if what follows some of its first digits is. -/
theorem written_of_drop {ds : List Char} (hds : ds <+: cs.takeWhile Char.isDigit)
    (hrest : Written (cs.drop ds.length)) : Written cs := by
  rw [← List.prefix_iff_eq_append.1 (hds.trans (List.takeWhile_prefix _))]
  exact written_append (fun c hc => written_takeWhile_isDigit cs c (hds.subset hc)) hrest

theorem written_of_number? {most : Option Nat} {n : Nat} (h : number? most cs = some (n, rest))
    (hrest : Written rest) : Written cs := by
  cases most with
  | none =>
    simp only [number?] at h
    split at h
    next => cases h
    next =>
      cases h
      exact written_of_drop List.prefix_rfl hrest
  | some k =>
    simp only [number?] at h
    split at h
    next => cases h
    next =>
      cases h
      exact written_of_drop (List.take_prefix k _) hrest

theorem written_of_year? {i : Int} (h : year? cs = some (i, rest)) (hrest : Written rest) : Written cs := by
  unfold year? at h
  split at h
  all_goals
    obtain ⟨⟨n, rest'⟩, hn, he⟩ := Option.map_eq_some_iff.1 h
    cases he
  · exact written_cons (by decide) (written_of_number? hn hrest)
  · exact written_cons (by decide) (written_of_number? hn hrest)
  · exact written_of_number? hn hrest

/-! ### Points in time -/

theorem written_of_ofTimestamp? {a : Instant} (h : ofTimestamp? cs = some a) : Written cs := by
  obtain ⟨⟨year, _⟩, hyear, h⟩ := Option.bind_eq_some_iff.1 h
  obtain ⟨_, hmark1, h⟩ := Option.bind_eq_some_iff.1 h
  obtain ⟨⟨month, _⟩, hmonth, h⟩ := Option.bind_eq_some_iff.1 h
  obtain ⟨_, hmark2, h⟩ := Option.bind_eq_some_iff.1 h
  obtain ⟨⟨day, _⟩, hday, h⟩ := Option.bind_eq_some_iff.1 h
  obtain ⟨_, hletter, h⟩ := Option.bind_eq_some_iff.1 h
  obtain ⟨⟨hour, _⟩, hhour, h⟩ := Option.bind_eq_some_iff.1 h
  obtain ⟨_, hmark3, h⟩ := Option.bind_eq_some_iff.1 h
  obtain ⟨⟨minute, _⟩, hminute, h⟩ := Option.bind_eq_some_iff.1 h
  obtain ⟨_, hmark4, h⟩ := Option.bind_eq_some_iff.1 h
  obtain ⟨⟨second, _⟩, hsecond, h⟩ := Option.bind_eq_some_iff.1 h
  obtain ⟨⟨fraction, _⟩, hfraction, h⟩ := Option.bind_eq_some_iff.1 h
  obtain ⟨⟨offset, _⟩, hoffset, h⟩ := Option.bind_eq_some_iff.1 h
  obtain ⟨⟨rfl, -⟩, -⟩ := Option.ite_none_right_eq_some.1 h
  refine written_of_fixed? hyear (written_of_char? hmark1 (by decide) ?_)
  refine written_of_fixed? hmonth (written_of_char? hmark2 (by decide) ?_)
  refine written_of_fixed? hday (written_of_letter hletter ?_)
  refine written_of_fixed? hhour (written_of_char? hmark3 (by decide) ?_)
  refine written_of_fixed? hminute (written_of_char? hmark4 (by decide) ?_)
  exact written_of_fixed? hsecond (written_of_fraction? hfraction (written_of_offset? hoffset written_nil))

theorem written_of_ofDateText? {a : Instant} (h : ofDateText? cs = some a) : Written cs := by
  obtain ⟨⟨year, _⟩, hyear, h⟩ := Option.bind_eq_some_iff.1 h
  obtain ⟨_, hmark1, h⟩ := Option.bind_eq_some_iff.1 h
  obtain ⟨⟨month, _⟩, hmonth, h⟩ := Option.bind_eq_some_iff.1 h
  obtain ⟨_, hmark2, h⟩ := Option.bind_eq_some_iff.1 h
  obtain ⟨⟨day, _⟩, hday, h⟩ := Option.bind_eq_some_iff.1 h
  obtain ⟨⟨rfl, -⟩, -⟩ := Option.ite_none_right_eq_some.1 h
  refine written_of_dropWhile_isSpace (written_of_year? hyear (written_of_char? hmark1 (by decide) ?_))
  refine written_of_dropWhile_isSpace (written_of_number? hmonth (written_of_char? hmark2 (by decide) ?_))
  exact written_of_dropWhile_isSpace (written_of_number? hday written_nil)

/-- A text that names a point in time is written in the alphabet. -/
theorem written_of_ofChars? {a : Instant} (h : ofChars? cs = some a) : Written cs := by
  rw [ofChars?, Option.orElse_eq_or, Option.or_eq_some_iff] at h
  obtain h | ⟨-, h⟩ := h
  · exact written_of_ofTimestamp? h
  · exact written_of_ofDateText? h

end Sieve.Instant
