import Sieve.Json.Basic

/-!
# Equality of values

Structural equality compares binary64 numbers by value, so it does not see the sign of a zero, and it sees
everything else.

* `Json.unsignedZeros`: a value without the signs of its zeros, at every depth;
* `Json.beq_iff`: two values are equal if they are the same without the signs of their zeros;
* `Json.unsignedZeros_unsignedZeros`: the signs of zeros can be left out but once.
-/

namespace Sieve

/-- A number that, if it is zero, is not negative. -/
def Binary64.unsignedZero (x : Binary64) : Binary64 := if x.steps = 0 then zero false else x

/-- Two numbers have one value if they are the same but for the sign of a zero. -/
theorem Binary64.beq_iff (x y : Binary64) : (x == y) = true ↔ x.unsignedZero = y.unsignedZero := by
  have hvalue : (x == y) = true ↔ x.signedSteps = y.signedSteps :=
    beq_iff_eq (a := x.signedSteps) (b := y.signedSteps)
  obtain ⟨a, m, hm, hm'⟩ := x
  obtain ⟨b, n, hn, hn'⟩ := y
  rw [hvalue]
  by_cases h : m = 0 <;> by_cases h' : n = 0 <;> cases a <;> cases b <;>
    simp [signedSteps, unsignedZero, zero, h, h'] <;> omega

@[simp] theorem Binary64.unsignedZero_unsignedZero (x : Binary64) :
    x.unsignedZero.unsignedZero = x.unsignedZero := by
  by_cases h : x.steps = 0 <;> simp [unsignedZero, zero, h]

@[simp] theorem Binary64.signedSteps_unsignedZero (x : Binary64) :
    x.unsignedZero.signedSteps = x.signedSteps := by
  by_cases h : x.steps = 0 <;> simp [unsignedZero, signedSteps, zero, h]

namespace Number

/-- A number without the sign of a zero. -/
def unsignedZero : Number → Number
  | integer i h => integer i h
  | real x => real x.unsignedZero

theorem beq_iff : ∀ m n : Number, (m == n) = true ↔ m.unsignedZero = n.unsignedZero
  | integer i _, integer j _ => by
    rw [unsignedZero, unsignedZero, integer.injEq]
    exact beq_iff_eq (a := i) (b := j)
  | real x, real y => by
    rw [unsignedZero, unsignedZero, real.injEq]
    exact Binary64.beq_iff x y
  | integer _ _, real _ => ⟨(by cases ·), (by cases ·)⟩
  | real _, integer _ _ => ⟨(by cases ·), (by cases ·)⟩

end Number

namespace Json

mutual

/-- A value without the signs of its zeros. -/
def unsignedZeros : Json → Json
  | num n => num n.unsignedZero
  | arr xs => arr (unsignedItems xs)
  | obj ms => obj (unsignedMembers ms)
  | j => j

/-- Each item without the signs of its zeros. -/
def unsignedItems : List Json → List Json
  | [] => []
  | x :: xs => unsignedZeros x :: unsignedItems xs

/-- Each member's value without the signs of its zeros. -/
def unsignedMembers : List (String × Json) → List (String × Json)
  | [] => []
  | (k, x) :: ms => (k, unsignedZeros x) :: unsignedMembers ms

end

mutual

/-- Two values are equal if they are the same without the signs of their zeros. -/
theorem beq_iff : ∀ x y : Json, beq x y = true ↔ x.unsignedZeros = y.unsignedZeros
  | null, y => by cases y <;> simp [beq, unsignedZeros]
  | bool a, y => by cases y <;> simp [beq, unsignedZeros]
  | num m, y => by
    cases y with
    | num n => simpa [beq, unsignedZeros] using Number.beq_iff m n
    | _ => simp [beq, unsignedZeros]
  | str s, y => by cases y <;> simp [beq, unsignedZeros]
  | arr xs, y => by
    cases y with
    | arr ys => simpa [beq, unsignedZeros] using beqItems_iff xs ys
    | _ => simp [beq, unsignedZeros]
  | obj ms, y => by
    cases y with
    | obj ns => simpa [beq, unsignedZeros] using beqMembers_iff ms ns
    | _ => simp [beq, unsignedZeros]

theorem beqItems_iff : ∀ xs ys : List Json,
    beqItems xs ys = true ↔ unsignedItems xs = unsignedItems ys
  | [], ys => by cases ys <;> simp [beqItems, unsignedItems]
  | x :: xs, [] => by simp [beqItems, unsignedItems]
  | x :: xs, y :: ys => by
    simp [beqItems, unsignedItems, beq_iff x y, beqItems_iff xs ys]

theorem beqMembers_iff : ∀ ms ns : List (String × Json),
    beqMembers ms ns = true ↔ unsignedMembers ms = unsignedMembers ns
  | [], ns => by cases ns <;> simp [beqMembers, unsignedMembers]
  | m :: ms, [] => by simp [beqMembers, unsignedMembers]
  | (k, x) :: ms, (l, y) :: ns => by
    simp [beqMembers, unsignedMembers, beq_iff x y, beqMembers_iff ms ns]

end

mutual

@[simp] theorem unsignedZeros_unsignedZeros : ∀ x : Json, x.unsignedZeros.unsignedZeros = x.unsignedZeros
  | null | bool _ | str _ => rfl
  | num (.integer i h) => rfl
  | num (.real x) => by simp [unsignedZeros, Number.unsignedZero]
  | arr xs => by rw [unsignedZeros, unsignedZeros, unsignedItems_unsignedItems xs]
  | obj ms => by rw [unsignedZeros, unsignedZeros, unsignedMembers_unsignedMembers ms]

theorem unsignedItems_unsignedItems : ∀ xs : List Json,
    unsignedItems (unsignedItems xs) = unsignedItems xs
  | [] => rfl
  | x :: xs => by
    simp only [unsignedItems, unsignedZeros_unsignedZeros x, unsignedItems_unsignedItems xs]

theorem unsignedMembers_unsignedMembers : ∀ ms : List (String × Json),
    unsignedMembers (unsignedMembers ms) = unsignedMembers ms
  | [] => rfl
  | (k, x) :: ms => by
    simp only [unsignedMembers, unsignedZeros_unsignedZeros x, unsignedMembers_unsignedMembers ms]

end

theorem unsignedItems_eq_map (xs : List Json) : unsignedItems xs = xs.map unsignedZeros := by
  induction xs with
  | nil => rfl
  | cons x xs ih => rw [unsignedItems, ih, List.map_cons]

end Json

end Sieve
