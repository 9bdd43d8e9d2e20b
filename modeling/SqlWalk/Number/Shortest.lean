import SqlWalk.Number.Binary

namespace SqlWalk

/-- The decimal `digits · 10 ^ exponent`. -/
structure Decimal where
  digits : Nat
  exponent : Int
  deriving DecidableEq, Repr

/-- Four times the mantissas of the ends of the interval that rounds to a magnitude, in its unit.
Below a power of two the magnitudes lie twice as close. -/
def BinaryFormat.interval (f : BinaryFormat) (b : Binary) : Nat × Nat :=
  let below := if b.mantissa = Nat.pow 2 (f.precision - 1) && f.lowest < b.exponent then 1 else 2
  (4 * b.mantissa - below, 4 * b.mantissa + 2)

/-- The multiple of `10 ^ power` that is nearest to a magnitude among those that read back as it. -/
def BinaryFormat.onGrid? (f : BinaryFormat) (b : Binary) (power : Int) : Option Nat :=
  let up := Nat.pow 2 (b.exponent - 2).toNat * Nat.pow 10 (-power).toNat
  let step := Nat.pow 2 (2 - b.exponent).toNat * Nat.pow 10 power.toNat
  let (low, high) := f.interval b
  let value := 4 * b.mantissa * up
  let within (n : Nat) : Bool :=
    if b.mantissa % 2 = 0 then low * up ≤ n * step && n * step ≤ high * up
    else low * up < n * step && n * step < high * up
  let n := value / step
  match within n, within (n + 1) with
  | true, true =>
    if 2 * value < (2 * n + 1) * step || 2 * value == (2 * n + 1) * step && n % 2 == 0
    then some n else some (n + 1)
  | true, false => some n
  | false, true => some (n + 1)
  | false, false => none

/-- Searches grids from `10 ^ (finest + steps)` down; the magnitude lies on `10 ^ finest`. -/
def BinaryFormat.searchGrids (f : BinaryFormat) (b : Binary) (finest : Int) : Nat → Decimal
  | 0 => ⟨b.mantissa * Nat.pow 2 b.exponent.toNat * Nat.pow 5 (-b.exponent).toNat, finest⟩
  | steps + 1 =>
    match f.onGrid? b (finest + (steps + 1)) with
    | some n => ⟨n, finest + (steps + 1)⟩
    | none => searchGrids f b finest steps

/-- Of the decimals that read back as a magnitude the nearest one with the fewest digits. -/
def BinaryFormat.shortest (f : BinaryFormat) (b : Binary) : Decimal :=
  let finest := min b.exponent 0
  let top := (b.mantissa.log2 : Int) + 1 + b.exponent
  let coarsest := (if 0 ≤ top then top * 31 / 100 else top * 3 / 10) + 1
  f.searchGrids b finest (coarsest - finest).toNat

end SqlWalk
