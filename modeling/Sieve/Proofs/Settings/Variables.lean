import Mathlib
import Sieve.Proofs.Json.Numeral
import Sieve.Proofs.Settings.Layering

/-!
# Settings in variables

The value of a variable is a text, and it tells a setting what the text says: a truth value, an integer, a real
number, or else the text itself.  So a text need not come to itself even where a text is wanted: `007` says the
integer seven, which is written `7`.

* `Layer.valueOf_digits`: a row of digits says the integer that it reads as, zeros in front or not;
* `Layer.valueOf_int`, `Layer.valueOf_bool`: what is written for an integer or for a truth value says it;
* `Layer.Plain`: the texts that say neither these nor a real number, so that they say themselves
  (`Layer.valueOf_plain`).  A text that does not begin like a number is plain, but for a few words
  (`Layer.plain_of_head`);
* `Leaf.written`, `Leaf.Writable`: how the value of a setting is written, and the values for which that says it;
* `Leaf.read_written`: what is written for a setting is read as its value, whatever its kind;
* `Leaf.value_variable`: so a variable gives its setting the value that is written in it, over all other layers.
-/

namespace Sieve

variable {ds cs : List Char} {c : Char} {i : Int} {s : String}

/-- The lower-case form of a text begins with that of its first character, if this is in ASCII. -/
theorem Text.head?_lowercase (hc : c.toNat < 128) (cs : List Char) :
    (lowercase (c :: cs)).head? = some c.toLower := by
  have hsigma : c ≠ 'Σ' := by
    rintro rfl
    exact absurd hc (by decide)
  simp [lowercase, lowercaseAfter, hsigma, lowerChar, hc]

/-! ### Integers -/

namespace Numeral

/-- The digits of the base ten are the decimal digits, as letters count from ten on. -/
theorem isDigitOf_ten (c : Char) : isDigitOf 10 c = c.isDigit := by
  cases hc : c.isDigit with
  | true =>
    have hnine : c.toNat ≤ 57 := (Char.isDigit_iff_toNat.1 hc).2
    have hvalue : c.toNat - 48 < 10 := by omega
    simp [isDigitOf, Char.isAlphanum, digitOf, hc, hvalue]
  | false =>
    cases hletter : c.isAlpha with
    | false => simp [isDigitOf, Char.isAlphanum, hc, hletter]
    | true =>
      have hlower : c.toLower.isLower = true := (Char.isLower_toLower_eq_isAlpha c).trans hletter
      have hlow : 97 ≤ c.toLower.toNat := by
        rw [Char.isLower, Bool.and_eq_true] at hlower
        exact UInt32.le_iff_toNat_le.1 (of_decide_eq_true hlower.1)
      have hvalue : ¬ c.toLower.toNat - 87 < 10 := by omega
      simp [isDigitOf, digitOf, hc, hvalue]

theorem valueIn_ten (h : ∀ c ∈ ds, c.isDigit = true) : valueIn 10 ds = digitsValue ds := by
  refine List.foldl_ext _ _ 0 fun n c hc => ?_
  rw [digitOf, if_pos (h c hc)]
  rfl

/-- Digits are read as the integer that they write, if it fits in 64 bits with a sign. -/
theorem ofDigits?_ten (h : IsDigits ds) (negative : Bool) : ofDigits? 10 negative ds =
    inRange? (if negative then -(digitsValue ds : Int) else digitsValue ds) := by
  have hall : ds.all (isDigitOf 10) = true :=
    List.all_eq_true.2 fun c hc => (isDigitOf_ten c).trans (h.2 c hc)
  rw [ofDigits?, valueIn_ten h.2, if_neg (by simp [h.1, hall])]

theorem unsign_cons (c : Char) (cs : List Char) : unsign (c :: cs) =
    if c = '-' then (true, cs) else if c = '+' then (false, cs) else (false, c :: cs) := by
  unfold unsign
  split <;> simp_all

theorem int?_digits (h : IsDigits ds) : int? ds = inRange? (digitsValue ds) := by
  cases ds with
  | nil => exact absurd rfl h.1
  | cons c ds =>
    have hdigit := h.2 c List.mem_cons_self
    have hminus : c ≠ '-' := by
      rintro rfl
      exact absurd hdigit (by decide)
    have hplus : c ≠ '+' := by
      rintro rfl
      exact absurd hdigit (by decide)
    rw [int?, unsign_cons, if_neg hminus, if_neg hplus]
    exact ofDigits?_ten h false

theorem int?_negative (h : IsDigits ds) : int? ('-' :: ds) = inRange? (-(digitsValue ds : Int)) :=
  ofDigits?_ten h true

/-- What is written for an integer of 64 bits is read as the integer. -/
theorem int?_toString (hlow : -2 ^ 63 ≤ i) (hhigh : i < 2 ^ 63) : int? (toString i).toList = some i := by
  have hrange : inRange? i = some i := if_pos ⟨hlow, hhigh⟩
  cases i with
  | ofNat n =>
    have htext : (toString (Int.ofNat n)).toList = Nat.toDigits 10 n := String.toList_ofList
    rw [htext, int?_digits (isDigits_toDigits n), Literal.digitsValue_toDigits]
    exact hrange
  | negSucc n =>
    have htext : (toString (Int.negSucc n)).toList = '-' :: Nat.toDigits 10 (n + 1) := by
      show ("-" ++ (n + 1).repr).toList = _
      simp
    rw [htext, int?_negative (isDigits_toDigits _), Literal.digitsValue_toDigits]
    exact hrange

/-- An integer begins with a sign or a digit, and these come before all letters. -/
theorem head_le_nine (h : int? (c :: cs) = some i) : c.toNat ≤ 57 := by
  by_cases hminus : c = '-'
  · rw [hminus]
    decide
  by_cases hplus : c = '+'
  · rw [hplus]
    decide
  rw [int?, unsign_cons, if_neg hminus, if_neg hplus] at h
  cases hdigit : c.isDigit with
  | false => simp [ofDigits?, isDigitOf_ten, hdigit] at h
  | true => exact (Char.isDigit_iff_toNat.1 hdigit).2

/-- A text that does not begin with a digit, after its sign if there is one, is no integer. -/
theorem int?_eq_none (h : ∀ c ∈ (unsign cs).2.head?, c.isDigit = false) : int? cs = none := by
  rw [int?]
  generalize unsign cs = signed at h ⊢
  obtain ⟨negative, _ | ⟨c, ds⟩⟩ := signed
  · rfl
  · have hdigit : c.isDigit = false := h c rfl
    simp [ofDigits?, isDigitOf_ten, hdigit]

end Numeral

namespace Layer

open Numeral

/-- What the words for truth values are in lower case. -/
def truthWords : List (List Char) := [['t', 'r', 'u', 'e'], ['f', 'a', 'l', 's', 'e']]

/-- No word for a truth value is an integer, as it begins with a letter. -/
theorem lowercase_notMem_of_int? (h : int? cs = some i) : Text.lowercase cs ∉ truthWords := by
  cases cs with
  | nil => decide
  | cons c cs =>
    have hnine := head_le_nine h
    have hlower : c.toLower = c := Char.toLower_eq_of_not_isUpper fun hupper => by
      rw [Char.isUpper, decide_eq_true_eq] at hupper
      have hlow : 65 ≤ c.toNat := UInt32.le_iff_toNat_le.1 hupper.1
      omega
    have hhead := Text.head?_lowercase (Nat.lt_of_le_of_lt hnine (by decide)) cs
    intro hmem
    have hletter := List.mem_map_of_mem (f := List.head?) hmem
    rw [hhead, hlower] at hletter
    rcases List.mem_pair.1 hletter with ht | hf
    · cases ht
      exact absurd hnine (by decide)
    · cases hf
      exact absurd hnine (by decide)

/-- A text that is no word for a truth value says a number, an integer if it can be one, or itself. -/
theorem valueOf_of_notMem (h : Text.lowercase s.toList ∉ truthWords) : valueOf s =
    match int? s.toList with
    | some i => .int i
    | none => ((real? s.toList).map .real).getD (.text s) := by
  obtain ⟨htrue, hfalse⟩ : Text.lowercase s.toList ≠ ['t', 'r', 'u', 'e'] ∧
      Text.lowercase s.toList ≠ ['f', 'a', 'l', 's', 'e'] := by
    simpa [truthWords] using h
  simp only [valueOf, if_neg htrue, if_neg hfalse]
  cases real? s.toList <;> rfl

/-- The texts that say neither a truth value nor a number. -/
structure Plain (s : String) : Prop where
  truth : Text.lowercase s.toList ∉ truthWords
  int : int? s.toList = none
  real : real? s.toList = none

theorem valueOf_plain (h : Plain s) : valueOf s = .text s := by
  rw [valueOf_of_notMem h.truth, h.int, h.real]
  rfl

theorem valueOf_bool (b : Bool) : valueOf (toString b) = .truth b := by
  cases b <;> rfl

theorem valueOf_of_int? (h : int? s.toList = some i) : valueOf s = .int i := by
  rw [valueOf_of_notMem (lowercase_notMem_of_int? h), h]

/-- What is written for an integer of 64 bits says it. -/
theorem valueOf_int (hlow : -2 ^ 63 ≤ i) (hhigh : i < 2 ^ 63) : valueOf (toString i) = .int i :=
  valueOf_of_int? (int?_toString hlow hhigh)

/-- Digits say the integer that they read as, also if there are zeros in front. -/
theorem valueOf_digits (h : IsDigits ds) (hds : digitsValue ds < 2 ^ 63) :
    valueOf (String.ofList ds) = .int (digitsValue ds) := by
  refine valueOf_of_int? ?_
  rw [String.toList_ofList, int?_digits h]
  exact if_pos ⟨by omega, by omega⟩

example : (valueOf "007").text? = some "7" := by rfl

/-- A text is plain if, after its sign, it begins with neither a digit nor a point, unless it is a word for a truth
value, for infinity or for an undefined value. -/
theorem plain_of_head (hhead : ∀ c ∈ (unsign s.toList).2.head?, c.isDigit = false ∧ c ≠ '.')
    (htruth : Text.lowercase s.toList ∉ truthWords)
    (hreal : String.ofList ((unsign s.toList).2.map Char.toLower) ∉ ["inf", "infinity", "nan"]) : Plain s := by
  refine ⟨htruth, int?_eq_none fun c hc => (hhead c hc).1, ?_⟩
  rw [real?]
  generalize unsign s.toList = signed at hhead hreal ⊢
  obtain ⟨negative, cs⟩ := signed
  simp only [List.mem_cons, List.not_mem_nil, or_false, not_or] at hreal
  simp only [hreal, or_self, if_false]
  cases cs with
  | nil => rfl
  | cons c cs =>
    obtain ⟨hdigit, hpoint⟩ := hhead c rfl
    simp [decimal?, hdigit, hpoint]

/-- The texts that come to themselves where a text is wanted: those that are plain, and those that are written
for a truth value or for an integer. -/
def Lasting (s : String) : Prop :=
  Plain s ∨ (∃ b : Bool, s = toString b) ∨ ∃ i : Int, -2 ^ 63 ≤ i ∧ i < 2 ^ 63 ∧ s = toString i

theorem text?_valueOf (h : Lasting s) : (valueOf s).text? = some s := by
  rcases h with hplain | ⟨b, rfl⟩ | ⟨i, hlow, hhigh, rfl⟩
  · rw [valueOf_plain hplain]
    rfl
  · rw [valueOf_bool]
    cases b <;> rfl
  · rw [valueOf_int hlow hhigh]
    rfl

theorem count?_valueOf {n bound : Nat} (hn : n < 2 ^ 63) (hbound : n < bound) :
    (valueOf (toString n)).count? bound = some n := by
  have hint : valueOf (toString n) = .int n := valueOf_int (i := n) (by omega) (by omega)
  rw [hint]
  simp [Setting.count?, Setting.word64?, hbound]

theorem truth?_valueOf (b : Bool) : (valueOf (toString b)).truth? = some b := by
  rw [valueOf_bool]
  rfl

end Layer

/-! ### Variables of settings -/

/-- What is told at an address of names is told of the path of these names. -/
theorem Setting.tellsFrom?_member (s : Setting) (path : List String) :
    s.tellsFrom? (path.map .member) path = some s := by
  induction path with
  | nil => rfl
  | cons name path ih => simp [tellsFrom?, ih]

namespace Settings

variable {α : Type}

/-- How the value of a setting is written. -/
def Leaf.written : Leaf α → α → String
  | .serviceName, s | .environment, s | .loggedName, s | .logLevel, s => s
  | .retryLimit, n | .retryInitial, n | .retryCap, n | .cacheSeconds, n | .cacheCapacity, n => toString n
  | .cacheEnabled, b | .jsonLogs, b | .metricsEnabled, b => toString b

/-- The values that a setting can have and that are said by what is written for them. -/
def Leaf.Writable : Leaf α → α → Prop
  | .serviceName, s | .environment, s | .loggedName, s | .logLevel, s => Layer.Lasting s
  | .retryLimit, n => n < 2 ^ 32
  | .retryInitial, n | .retryCap, n | .cacheSeconds, n | .cacheCapacity, n => n < 2 ^ 63
  | .cacheEnabled, _ | .jsonLogs, _ | .metricsEnabled, _ => True

/-- **A setting is read back from what is written for its value**, be it a text, a number or a truth value. -/
theorem Leaf.read_written (leaf : Leaf α) {a : α} (h : leaf.Writable a) :
    leaf.read (Layer.valueOf (leaf.written a)) = some a := by
  cases leaf with
  | serviceName | environment | loggedName | logLevel => exact Layer.text?_valueOf h
  | retryLimit => exact Layer.count?_valueOf (Nat.lt_trans h (by decide)) h
  | retryInitial | retryCap | cacheSeconds | cacheCapacity =>
    exact Layer.count?_valueOf h (Nat.lt_trans h (by decide))
  | cacheEnabled | jsonLogs | metricsEnabled => exact Layer.truth?_valueOf a

/-- The name of the variable of a setting. -/
def Leaf.variableName (leaf : Leaf α) : String :=
  "FILTER_" ++ "__".intercalate (leaf.path.map String.toUpper)

theorem Leaf.nameOf?_variableName (leaf : Leaf α) :
    Layer.nameOf? leaf.variableName = some (".".intercalate leaf.path) := by
  cases leaf <;> decide +kernel

theorem Leaf.address_path (leaf : Leaf α) :
    Step.address (".".intercalate leaf.path) = leaf.path.map .member := by
  cases leaf <;> decide +kernel

/-- A variable tells its setting what its text says, whatever the variables before it tell. -/
theorem Leaf.tells?_variable (leaf : Leaf α) (vars : List (String × String)) (value : String) :
    (Layer.ofVariables (vars ++ [(leaf.variableName, value)])).tells? leaf.path =
      some (Layer.valueOf value) := by
  simp [Layer.ofVariables, Layer.tells?, leaf.nameOf?_variableName, leaf.address_path,
    Setting.tellsFrom?_member]

/-- Layers tell a setting the value that is written in its variable, whatever those below and the variables
before it tell. -/
theorem Leaf.value_variable (leaf : Leaf α) {a : α} (h : leaf.Writable a) (layers : List Layer)
    (vars : List (String × String)) (default : Settings) :
    leaf.value (layers ++ [.ofVariables (vars ++ [(leaf.variableName, leaf.written a)])]) default = a := by
  have htold : leaf.told? (layers ++ [.ofVariables (vars ++ [(leaf.variableName, leaf.written a)])]) =
      some (Layer.valueOf (leaf.written a)) := by
    simp [told?, leaf.tells?_variable]
  rw [value, htold, Option.bind_some, leaf.read_written h]
  rfl

end Settings

end Sieve
