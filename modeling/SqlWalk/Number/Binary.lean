namespace SqlWalk

/-- The number `mantissa · 2 ^ exponent`. -/
structure Binary where
  mantissa : Nat
  exponent : Int
  deriving DecidableEq, Repr

/-- Mantissas lie below `2 ^ precision`, and exponents between `lowest` and `highest`. -/
structure BinaryFormat where
  precision : Nat
  lowest : Int
  highest : Int

def binary32 : BinaryFormat := ⟨24, -149, 104⟩

def binary64 : BinaryFormat := ⟨53, -1074, 971⟩

def roundHalfEven (num den : Nat) : Nat :=
  let q := num / den
  let r := num % den
  if 2 * r < den || 2 * r == den && q % 2 == 0 then q else q + 1

def inUnits (num den : Nat) (exponent : Int) : Nat × Nat :=
  (num * Nat.pow 2 (-exponent).toNat, den * Nat.pow 2 exponent.toNat)

namespace Binary

def ratio (b : Binary) : Nat × Nat :=
  (b.mantissa * Nat.pow 2 b.exponent.toNat, Nat.pow 2 (-b.exponent).toNat)

end Binary

namespace BinaryFormat

/-- The unit in the last place of the quotient `num / den`, as a power of two. -/
def unitOf (f : BinaryFormat) (num den : Nat) : Int :=
  let e := (num.log2 : Int) - den.log2 - f.precision
  let (a, b) := inUnits num den e
  max f.lowest (if a / b < Nat.pow 2 f.precision then e else e + 1)

/-- The magnitude nearest to `num / den`, or nothing when that is beyond the greatest one. -/
def nearest (f : BinaryFormat) (num den : Nat) : Option Binary :=
  if num = 0 then some ⟨0, f.lowest⟩
  else
    let e := f.unitOf num den
    let (a, b) := inUnits num den e
    let m := roundHalfEven a b
    if f.highest < e || e == f.highest && Nat.pow 2 f.precision ≤ m then none
    else some ⟨m, e⟩

/-- The bit pattern, sign aside, of a magnitude that `nearest` gave; nothing is infinity. -/
def encode (f : BinaryFormat) : Option Binary → Nat
  | none => (f.highest - f.lowest + 2).toNat * Nat.pow 2 (f.precision - 1)
  | some b => (b.exponent - f.lowest).toNat * Nat.pow 2 (f.precision - 1) + b.mantissa

/-- The magnitude of a bit pattern without its sign, if it is finite. -/
def decode (f : BinaryFormat) (bits : Nat) : Option Binary :=
  let field := bits / Nat.pow 2 (f.precision - 1)
  let rest := bits % Nat.pow 2 (f.precision - 1)
  if field = 0 then some ⟨rest, f.lowest⟩
  else if (field : Int) < f.highest - f.lowest + 2 then
    some ⟨Nat.pow 2 (f.precision - 1) + rest, f.lowest + field - 1⟩
  else none

def convert (f : BinaryFormat) (b : Option Binary) : Option Binary :=
  b.bind fun b => f.nearest b.ratio.1 b.ratio.2

end BinaryFormat

def single (negative : Bool) (b : Option Binary) : Float32 :=
  Float32.ofBits (UInt32.ofNat (binary32.encode b + if negative then Nat.pow 2 31 else 0))

def double (negative : Bool) (b : Option Binary) : Float :=
  Float.ofBits (UInt64.ofNat (binary64.encode b + if negative then Nat.pow 2 63 else 0))

def signedMagnitude? (x : Float32) : Option (Bool × Binary) :=
  let bits := x.toBits.toNat
  (binary32.decode (bits % Nat.pow 2 31)).map fun b => (decide (Nat.pow 2 31 ≤ bits), b)

end SqlWalk
