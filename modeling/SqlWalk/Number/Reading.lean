import SqlWalk.Number.Numeral

namespace SqlWalk

inductive TypedNumber where
  | numeral (n : Numeral)
  | infinite (negative : Bool)
  | notANumber
  deriving DecidableEq, Repr

namespace TypedNumber

def exponent? : List Char → Option (Option Int)
  | [] => some none
  | c :: r =>
    if c == 'e' || c == 'E' then
      let (negative, digits) :=
        match r with
        | '-' :: r => (true, r)
        | '+' :: r => (false, r)
        | r => (false, r)
      if digits.isEmpty || !digits.all Char.isDigit then none
      else some (some (if negative then -(digitsValue 0 digits : Int) else digitsValue 0 digits))
    else none

def unsigned? (negative : Bool) (s : List Char) : Option TypedNumber :=
  let word := String.ofList (s.map Char.toLower)
  if word == "inf" || word == "infinity" then some (infinite negative)
  else if word == "nan" then some notANumber
  else
    let whole := s.takeWhile Char.isDigit
    let (fraction, rest) :=
      match s.dropWhile Char.isDigit with
      | '.' :: r => (r.takeWhile Char.isDigit, r.dropWhile Char.isDigit)
      | r => ([], r)
    if whole.isEmpty && fraction.isEmpty then none
    else (exponent? rest).map fun e => numeral ⟨negative, whole, fraction, e⟩

/-- Reads a number as people type it, or a name of infinity or of no number. -/
def ofString? (s : String) : Option TypedNumber :=
  match s.toList with
  | '-' :: r => unsigned? true r
  | '+' :: r => unsigned? false r
  | r => unsigned? false r

def toSingle : TypedNumber → Float32
  | numeral n => single n.negative (n.nearest binary32)
  | infinite negative => single negative none
  | notANumber => Float32.ofBits 0x7FC00000

def toDouble : TypedNumber → Float
  | numeral n => double n.negative (n.nearest binary64)
  | infinite negative => double negative none
  | notANumber => Float.ofBits 0x7FF8000000000000

end TypedNumber
end SqlWalk
