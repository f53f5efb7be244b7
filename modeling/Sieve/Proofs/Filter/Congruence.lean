import Sieve.Proofs.Filter.Comparison
import Sieve.Proofs.Json.Equality

/-!
# Equal values are interchangeable

Operators see less than the whole of a value: of a number only its value as a binary64 number, and
nowhere the sign of a zero.  What they see is a value again, its worth, and values are equal if they are of
one worth.  So equality is an equivalence, and no operator tells equal values apart.

* `Json.worth`: what operators see of a value;
* `Json.equates_iff`: values are equal if they are of one worth;
* `Operator.holds_worth`: an operator says of the worth of two values what it says of the values;
* `Operator.equal_congruence`: equality is an equivalence, and equal values can stand for each other.
-/

namespace Sieve

namespace Json

/-! ### The worth of a value -/

/-- What operators see of a value: of a number the binary64 number that it is compared as, and no signs of
zeros. -/
def worth : Json → Json
  | num n => num (.real n.toBinary64.unsignedZero)
  | x => x.unsignedZeros

/-- The worth of a value that is no number is the value without the signs of its zeros. -/
theorem worth_eq_unsignedZeros {x : Json} (h : ∀ n, x ≠ num n) : x.worth = x.unsignedZeros := by
  cases x with
  | num n => exact absurd rfl (h n)
  | _ => rfl

@[simp] theorem worth_unsignedZeros (x : Json) : x.unsignedZeros.worth = x.worth := by
  cases x with
  | num n =>
    cases n with
    | integer i h => rfl
    | real x => simp [unsignedZeros, worth, Number.unsignedZero, Number.toBinary64]
  | null | bool _ | str _ => rfl
  | arr xs => exact unsignedZeros_unsignedZeros (arr xs)
  | obj ms => exact unsignedZeros_unsignedZeros (obj ms)

@[simp] theorem worth_worth (x : Json) : x.worth.worth = x.worth := by
  cases x with
  | num n => simp [worth, Number.toBinary64]
  | _ => exact worth_unsignedZeros _

theorem worth_eq_iff {x : Json} (h : ∀ n, x ≠ num n) (y : Json) :
    x.worth = y.worth ↔ x.unsignedZeros = y.unsignedZeros := by
  rw [worth_eq_unsignedZeros h]
  cases y with
  | num n =>
    cases x with
    | num m => exact absurd rfl (h m)
    | _ => exact ⟨nofun, nofun⟩
  | _ => rfl

/-- Values are equal if they are of one worth. -/
theorem equates_iff (x y : Json) : equates x y = true ↔ x.worth = y.worth := by
  cases x with
  | num m =>
    cases y with
    | num n => simpa [equates, worth] using Binary64.beq_iff m.toBinary64 n.toBinary64
    | _ => exact ⟨nofun, nofun⟩
  | _ => exact (beq_iff _ y).trans (worth_eq_iff (by rintro n ⟨⟩) y).symm

theorem equates_congr {x x' y y' : Json} (hx : x.worth = x'.worth) (hy : y.worth = y'.worth) :
    equates x y = equates x' y' := by
  rw [Bool.eq_iff_iff, equates_iff, equates_iff, hx, hy]

/-! ### What operators see -/

theorem order?_worth (x y : Json) : order? x.worth y.worth = order? x y := by
  cases x with
  | num m =>
    cases y with
    | num n =>
      have hrank (a b : Binary64) : compare a.unsignedZero b.unsignedZero = compare a b := by
        show compare a.unsignedZero.signedSteps b.unsignedZero.signedSteps = _
        rw [Binary64.signedSteps_unsignedZero, Binary64.signedSteps_unsignedZero]
        rfl
      exact congrArg some (hrank m.toBinary64 n.toBinary64)
    | _ => rfl
  | _ => cases y <;> rfl

theorem containsText_worth (x y : Json) : containsText x.worth y.worth = containsText x y := by
  cases x <;> cases y <;> rfl

theorem isAmong_worth (x y : Json) : isAmong x.worth y.worth = isAmong x y := by
  cases y with
  | arr ys =>
    have hitems : isAmong x.worth (arr ys).worth = (ys.map unsignedZeros).any x.worth.equates := by
      rw [← unsignedItems_eq_map]
      rfl
    have hitem (y : Json) : equates x.worth y.unsignedZeros = equates x y :=
      equates_congr (worth_worth x) (worth_unsignedZeros y)
    rw [hitems, List.any_map]
    exact congrArg ys.any (funext hitem)
  | _ => rfl

end Json

namespace Operator

/-- An operator says of the worth of a field and a value what it says of the field and the value. -/
theorem holds_worth (op : Operator) (field : Option Json) (value : Json) :
    op.holds (field.map Json.worth) value.worth = op.holds field value := by
  cases field with
  | none =>
    cases op with
    | notAmong => rw [holds_notAmong, holds_notAmong]; rfl
    | _ => rfl
  | some x =>
    have hequates := Json.equates_congr (Json.worth_worth x) (Json.worth_worth value)
    have horder (accept : Ordering → Bool) :
        ordered accept (some x.worth) value.worth = ordered accept (some x) value := by
      rw [ordered_some, ordered_some, Json.order?_worth]
    cases op with
    | equal => exact hequates
    | different => exact congrArg not hequates
    | less | atMost | greater | atLeast => exact horder _
    | contains => exact Json.containsText_worth x value
    | among => exact Json.isAmong_worth x value
    | notAmong =>
      rw [holds_notAmong, holds_notAmong]
      exact congrArg not (Json.isAmong_worth x value)

theorem relates_equal_iff (x y : Json) : equal.Relates x y ↔ x.worth = y.worth := Json.equates_iff x y

/-- **Equality is an equivalence, and equal values are interchangeable**: whatever operator is asked, and
whether they are the value of the field or that of the rule. -/
theorem equal_congruence :
    Equivalence equal.Relates ∧
    ∀ x y : Json, equal.Relates x y → ∀ op : Operator,
      (∀ v : Json, op.holds (some x) v = op.holds (some y) v) ∧
      ∀ field : Option Json, op.holds field x = op.holds field y := by
  refine ⟨⟨fun x => ?_, fun h => ?_, fun h h' => ?_⟩, fun x y h op => ⟨fun v => ?_, fun field => ?_⟩⟩
  · exact (relates_equal_iff x x).2 rfl
  · exact (relates_equal_iff _ _).2 ((relates_equal_iff _ _).1 h).symm
  · exact (relates_equal_iff _ _).2 (((relates_equal_iff _ _).1 h).trans ((relates_equal_iff _ _).1 h'))
  · rw [← op.holds_worth, Option.map_some, (relates_equal_iff x y).1 h, ← Option.map_some, op.holds_worth]
  · rw [← op.holds_worth, (relates_equal_iff x y).1 h, op.holds_worth]

/-- A list with a zero, of either sign, in a list in it. -/
def zeroList (negative : Bool) : Json := .arr [.str "a", .arr [.num (.real (.zero negative))], .int 1]

/-- One and 1.0 are interchangeable, and so are lists of other zeros. -/
theorem equal_congruence_unlikeTwins :
    (equal.Relates (.int 1) (.num (.real .one)) ∧
      among.holds (some (.int 1)) (zeroList true) = among.holds (some (.num (.real .one))) (zeroList true)) ∧
    (equal.Relates (zeroList false) (zeroList true) ∧
      ∀ field, notAmong.holds field (zeroList false) = notAmong.holds field (zeroList true)) := by
  obtain ⟨-, hsame⟩ := equal_congruence
  have hone : equal.Relates (.int 1) (.num (.real .one)) := by decide +kernel
  have hzeros : equal.Relates (zeroList false) (zeroList true) := by decide +kernel
  exact ⟨⟨hone, (hsame _ _ hone among).1 _⟩, hzeros, (hsame _ _ hzeros notAmong).2⟩

end Operator

end Sieve
