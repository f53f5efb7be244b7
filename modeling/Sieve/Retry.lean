import Sieve.Binary64.Extended

/-!
# Retries

A failed operation is tried again after a pause.  The pauses grow from one attempt to the next by a
factor, up to a cap.

* `RetryPolicy.delay`: the pause after a failed attempt, the first attempt being `0`.  It is computed
  in binary64 arithmetic, with the attempt as a signed number of 32 bits, and its whole part counts;
* `RetryPolicy.attempt`: tries until an operation succeeds, fails for good, or has been tried again
  as often as the policy permits.  The outcome is that of the last try.  The tries that are left are
  counted down, and `RetryPolicy.attemptAfter_eq` says that this comes to asking `RetryPolicy.permits`
  after every failure.

Times are in milliseconds.
-/

namespace Sieve

/-- How often and after which pauses a failed operation is tried again. -/
structure RetryPolicy where
  limit : Nat
  initial : Nat
  cap : Nat
  factor : Binary64

namespace RetryPolicy

/-- The longest time that can be told: seconds in 64 bits, and less than one second more. -/
def unlimited : Nat := 2 ^ 64 * 1000 - 1

/-- The factor two. -/
def doubling : Binary64 := Binary64.ofInt 2 (by decide)

/-- Three more tries after pauses from one second to thirty. -/
def standard : RetryPolicy := ⟨3, 1000, 30000, doubling⟩

/-- Pauses that double without a cap. -/
def exponential (limit initial : Nat) : RetryPolicy := ⟨limit, initial, unlimited, doubling⟩

/-- The signed number of 32 bits that an attempt is taken for. -/
def exponent (attempt : Nat) : Int := (attempt : Int).bmod (2 ^ 32)

/-- The pause after a failed attempt. -/
def delay (p : RetryPolicy) (attempt : Nat) : Nat :=
  let grown := (Extended.ofNat p.initial).mul ((Extended.number p.factor).power (exponent attempt))
  (grown.atMost (Extended.ofNat p.cap)).toWord

/-- Whether an operation is tried again after a failed attempt. -/
def permits (p : RetryPolicy) (attempt : Nat) : Bool := attempt < p.limit

variable {m : Type → Type} [Monad m] {ε α : Type}

/-- Tries an operation that may be tried again so many times. -/
def attemptLeft (p : RetryPolicy) (mayRetry : ε → Bool) (pause : Nat → m Unit)
    (operation : m (Except ε α)) : Nat → m (Except ε α)
  | 0 => operation
  | left + 1 => do
    match ← operation with
    | .ok a => return .ok a
    | .error e =>
      if mayRetry e then
        pause (p.delay (p.limit - (left + 1)))
        p.attemptLeft mayRetry pause operation left
      else return .error e

/-- Tries an operation of which so many attempts have failed. -/
def attemptAfter (p : RetryPolicy) (mayRetry : ε → Bool) (pause : Nat → m Unit)
    (operation : m (Except ε α)) (failed : Nat) : m (Except ε α) :=
  p.attemptLeft mayRetry pause operation (p.limit - failed)

/-- Tries an operation under a policy. -/
def attempt (p : RetryPolicy) (mayRetry : ε → Bool) (pause : Nat → m Unit)
    (operation : m (Except ε α)) : m (Except ε α) :=
  p.attemptAfter mayRetry pause operation 0

/-- After a failed attempt there is a pause and another attempt, if the failure may pass and the policy
permits it. -/
theorem attemptAfter_eq [LawfulMonad m] (p : RetryPolicy) (mayRetry : ε → Bool) (pause : Nat → m Unit)
    (operation : m (Except ε α)) (failed : Nat) :
    p.attemptAfter mayRetry pause operation failed = do
      match ← operation with
      | .ok a => return .ok a
      | .error e =>
        if mayRetry e && p.permits failed then
          pause (p.delay failed)
          p.attemptAfter mayRetry pause operation (failed + 1)
        else return .error e := by
  by_cases hfailed : failed < p.limit
  · obtain ⟨left, hleft⟩ : ∃ left, p.limit - failed = left + 1 := ⟨p.limit - failed - 1, by omega⟩
    have hnext : p.limit - (failed + 1) = left := by omega
    have hpause : p.limit - (left + 1) = failed := by omega
    simp [attemptAfter, hleft, hnext, attemptLeft, hpause, permits, hfailed]
  · have hnone : p.limit - failed = 0 := by omega
    rw [attemptAfter, hnone, attemptLeft]
    refine (bind_pure operation).symm.trans (bind_congr fun r => ?_)
    cases r with
    | ok a => rfl
    | error e => simp [permits, hfailed]

end RetryPolicy

end Sieve
