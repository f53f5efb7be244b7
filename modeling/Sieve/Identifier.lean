/-!
# Ids

* `IdSupply`: an endless row of ids, of which some have been given away;
* `uuidV4`: an id in the form of a random UUID, from 128 bits, and `isUuidV4`, which tells that form;
* `IdSupply.ofSeed`: a row of such ids that depends on a seed.
-/

namespace Sieve

-- Powers are those of core also where a module imports other ones.
attribute [default_instance high, scoped instance (high)] instPowNat

/-- An endless row of ids, the first `used` of which have been given away. -/
structure IdSupply where
  issue : Nat → String
  used : Nat

/-- Gives away the next id. -/
def IdSupply.fresh : StateM IdSupply String := fun s => (s.issue s.used, { s with used := s.used + 1 })

/-- The lowest `count` hexadecimal digits of a number, the highest first. -/
def hexDigits (count n : Nat) : List Char :=
  ((List.range count).map fun i => Nat.digitChar (n / 16 ^ i % 16)).reverse

/-- The UUID of version 4 with the given random bits. -/
def uuidV4 (bits : Nat) : String :=
  String.ofList <|
    hexDigits 8 bits ++ '-' :: hexDigits 4 (bits / 2 ^ 32) ++ '-' :: '4' ::
    hexDigits 3 (bits / 2 ^ 48) ++ '-' :: Nat.digitChar (8 + bits / 2 ^ 60 % 4) ::
    hexDigits 3 (bits / 2 ^ 62) ++ '-' :: hexDigits 12 (bits / 2 ^ 74)

/-- Whether a text is a UUID of version 4, in small letters and with hyphens. -/
def isUuidV4 (s : String) : Bool :=
  let cs := s.toList
  let hex (c : Char) : Bool := c.isDigit || ('a' ≤ c && c ≤ 'f')
  cs.length = 36 && cs.zipIdx.all fun (c, i) =>
    if i = 8 ∨ i = 13 ∨ i = 18 ∨ i = 23 then c = '-'
    else if i = 14 then c = '4'
    else if i = 19 then ['8', '9', 'a', 'b'].contains c
    else hex c

/-- Scrambles 64 bits so that every bit of the input counts. -/
def scramble (n : UInt64) : UInt64 :=
  let a := (n ^^^ (n >>> 30)) * 0xBF58476D1CE4E5B9
  let b := (a ^^^ (a >>> 27)) * 0x94D049BB133111EB
  b ^^^ (b >>> 31)

/-- A row of UUIDs that depends on a seed. -/
def IdSupply.ofSeed (seed : UInt64) : IdSupply where
  issue n :=
    let word (i : Nat) : Nat := (scramble (seed + 0x9E3779B97F4A7C15 * (UInt64.ofNat i + 1))).toNat
    uuidV4 (word (2 * n) * 2 ^ 64 + word (2 * n + 1))
  used := 0

end Sieve
