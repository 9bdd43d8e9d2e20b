import SqlWalk.Json.Basic

namespace SqlWalk

namespace Binary

def mul (f : BinaryFormat) (a b : Binary) : Option Binary :=
  f.nearest (a.ratio.1 * b.ratio.1) (a.ratio.2 * b.ratio.2)

def div (f : BinaryFormat) (a b : Binary) : Option Binary :=
  f.nearest (a.ratio.1 * b.ratio.2) (a.ratio.2 * b.ratio.1)

end Binary

/-- Continues a number with digits while it is below `2 ^ 64`, and counts the digits left over. -/
def fitDigits (value : Nat) : List Char → Nat × Nat
  | [] => (value, 0)
  | c :: cs =>
    let next := 10 * value + digitValue c
    if next < UInt64.size then fitDigits next cs else (value, cs.length + 1)

namespace Numeral

/-- The leading digits that fit into 64 bits, and the power of ten to scale them with. -/
def significand (n : Numeral) : Nat × Int :=
  let (value, dropped) := fitDigits 0 n.whole
  let (value, unread) := fitDigits value n.fraction
  (value, dropped - (n.fraction.length - unread : Nat) + n.exponent.getD 0)

def tenTo (k : Nat) : Option Binary :=
  binary64.nearest (Nat.pow 10 k) 1

/-- The value as scaled once in double precision, which may lie a unit beside the nearest one. -/
def magnitude? (n : Numeral) : Option Binary := do
  let (value, power) := n.significand
  let start ← binary64.nearest value 1
  let k := power.natAbs
  if value = 0 then return start
  else if 0 ≤ power then
    if k ≤ 308 then start.mul binary64 (← tenTo k) else none
  else if k ≤ 308 then start.div binary64 (← tenTo k)
  else if k ≤ 616 then (← start.div binary64 (← tenTo 308)).div binary64 (← tenTo (k - 308))
  else return ⟨0, binary64.lowest⟩

/-- Says whether a number is written as an integer that fits into 64 bits, sign included. -/
def fitsWord (n : Numeral) : Bool :=
  let value := digitsValue 0 n.whole
  n.isInteger && if n.negative then 0 < value && value ≤ Nat.pow 2 63 else value < UInt64.size

def single? (n : Numeral) : Option Float32 :=
  if n.fitsWord then some (single n.negative (binary32.nearest (digitsValue 0 n.whole) 1))
  else n.magnitude?.map fun b => single n.negative (binary32.convert (some b))

def word? (n : Numeral) : Option Nat :=
  n.natural?.filter (· < UInt64.size)

end Numeral
end SqlWalk
