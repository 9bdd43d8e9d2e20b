import SqlWalk.Number.Binary

namespace SqlWalk

/-- A written number. Without digits in `fraction` no point is written. -/
structure Numeral where
  negative : Bool
  whole : List Char
  fraction : List Char
  exponent : Option Int
  deriving DecidableEq, Repr

def digitValue (c : Char) : Nat :=
  c.toNat - 48

def digitsValue (value : Nat) (digits : List Char) : Nat :=
  digits.foldl (fun n c => 10 * n + digitValue c) value

namespace Numeral

def ofNat (n : Nat) : Numeral :=
  ⟨false, Nat.toDigits 10 n, [], none⟩

def isInteger (n : Numeral) : Bool :=
  n.fraction.isEmpty && n.exponent.isNone

def natural? (n : Numeral) : Option Nat :=
  if n.isInteger && !n.negative then some (digitsValue 0 n.whole) else none

def exponentText (e : Int) : List Char :=
  'e' :: (if e < 0 then '-' else '+') :: Nat.toDigits 10 e.natAbs

def text (n : Numeral) : List Char :=
  (if n.negative then ['-'] else []) ++ n.whole ++
    (if n.fraction.isEmpty then [] else '.' :: n.fraction) ++ (n.exponent.map exponentText).getD []

/-- The value without sign, as an integer and a power of ten to multiply it by. -/
def scaled (n : Numeral) : Nat × Int :=
  (digitsValue 0 (n.whole ++ n.fraction), n.exponent.getD 0 - n.fraction.length)

/-- The magnitude of a format nearest to the value without sign. The formats in use hold nothing
but zero below `10 ^ -400` and nothing above `10 ^ 400`. -/
def nearest (f : BinaryFormat) (n : Numeral) : Option Binary :=
  let (digits, power) := n.scaled
  let size := (Nat.toDigits 10 digits).length + power
  if digits = 0 || size < -400 then some ⟨0, f.lowest⟩
  else if 400 < size then none
  else f.nearest (digits * Nat.pow 10 power.toNat) (Nat.pow 10 (-power).toNat)

end Numeral
end SqlWalk
