import SqlWalk.Number.Numeral
import SqlWalk.Number.Shortest

namespace SqlWalk

/-- The exponents of the leading digit, from `least` to `greatest`, that are written in place. -/
structure NumberStyle where
  least : Int
  greatest : Int

/-- Sets out digits, the first at `10 ^ leading`; in place one always stands behind the point. -/
def NumberStyle.layOut (style : NumberStyle) (negative : Bool) (digits : List Char)
    (leading : Int) : Numeral :=
  if style.least ≤ leading && leading ≤ style.greatest then
    if leading < 0 then
      ⟨negative, ['0'], List.replicate (-leading - 1).toNat '0' ++ digits, none⟩
    else
      let places := (leading + 1).toNat
      let fraction := digits.drop places
      ⟨negative, digits.take places ++ List.replicate (places - digits.length) '0',
        if fraction.isEmpty then ['0'] else fraction, none⟩
  else ⟨negative, digits.take 1, digits.drop 1, some leading⟩

def NumberStyle.write (style : NumberStyle) (f : BinaryFormat) (negative : Bool) (b : Binary) :
    Numeral :=
  if b.mantissa = 0 then ⟨negative, ['0'], ['0'], none⟩
  else
    let d := f.shortest b
    let digits := Nat.toDigits 10 d.digits
    style.layOut negative digits (digits.length - 1 + d.exponent)

/-- Single precision is written in place from a millionth up to thirteen digits. -/
def singleStyle : NumberStyle := ⟨-6, 12⟩

/-- Double precision is written in place from a hundred-thousandth up to sixteen digits. -/
def doubleStyle : NumberStyle := ⟨-5, 15⟩

def singleNumeral? (x : Float32) : Option Numeral :=
  (signedMagnitude? x).map fun (negative, b) => singleStyle.write binary32 negative b

/-- The numeral of a finite single-precision value taken as a double-precision one. -/
def widenedNumeral? (x : Float32) : Option Numeral := do
  let (negative, b) ← signedMagnitude? x
  let wide ← binary64.convert (some b)
  return doubleStyle.write binary64 negative wide

end SqlWalk
