import SqlWalk.Json.Basic

namespace SqlWalk.Json

def isSpace (c : Char) : Bool :=
  c == ' ' || c == '\n' || c == '\t' || c == '\r'

def skipSpace (s : List Char) : List Char :=
  s.dropWhile isSpace

def hexDigit? (c : Char) : Option Nat :=
  let n := c.toNat
  if 48 ≤ n && n ≤ 57 then some (n - 48)
  else if 65 ≤ n && n ≤ 70 then some (n - 55)
  else if 97 ≤ n && n ≤ 102 then some (n - 87)
  else none

def codeUnit? (a b c d : Char) : Option Nat := do
  let a ← hexDigit? a
  let b ← hexDigit? b
  let c ← hexDigit? c
  let d ← hexDigit? d
  return ((a * 16 + b) * 16 + c) * 16 + d

def escaped? (c : Char) : Option Char :=
  match c with
  | '\x22' => some '\x22'
  | '\x5c' => some '\x5c'
  | '/' => some '/'
  | 'b' => some '\x08'
  | 'f' => some '\x0c'
  | 'n' => some '\n'
  | 'r' => some '\r'
  | 't' => some '\t'
  | _ => none

/-- The code units of a string after its opening quote, and the text behind the closing one. A
character that is not escaped counts as one unit. -/
def stringUnits : List Char → Option (List Nat × List Char)
  | [] => none
  | '\x22' :: r => some ([], r)
  | '\x5c' :: 'u' :: a :: b :: c :: d :: r => do
    let unit ← codeUnit? a b c d
    let (units, rest) ← stringUnits r
    return (unit :: units, rest)
  | '\x5c' :: c :: r => do
    let c ← escaped? c
    let (units, rest) ← stringUnits r
    return (c.toNat :: units, rest)
  | c :: r =>
    if c.toNat < 0x20 || c == '\x5c' then none
    else (stringUnits r).map fun (units, rest) => (c.toNat :: units, rest)

def isHighSurrogate (n : Nat) : Bool :=
  0xD800 ≤ n && n < 0xDC00

def isLowSurrogate (n : Nat) : Bool :=
  0xDC00 ≤ n && n < 0xE000

/-- The characters of code units, if no half of a surrogate pair stands alone. -/
def ofUnits? : List Nat → Option (List Char)
  | [] => some []
  | [n] => if isHighSurrogate n || isLowSurrogate n then none else some [Char.ofNat n]
  | n :: m :: r =>
    if isHighSurrogate n && isLowSurrogate m then
      (ofUnits? r).map (Char.ofNat (0x10000 + (n - 0xD800) * 0x400 + (m - 0xDC00)) :: ·)
    else if isHighSurrogate n || isLowSurrogate n then none
    else (ofUnits? (m :: r)).map (Char.ofNat n :: ·)

def string? (s : List Char) : Option (Option String × List Char) :=
  (stringUnits s).map fun (units, rest) => ((ofUnits? units).map String.ofList, rest)

def digits? (s : List Char) : Option (List Char × List Char) :=
  let ds := s.takeWhile Char.isDigit
  if ds.isEmpty then none else some (ds, s.dropWhile Char.isDigit)

def whole? : List Char → Option (List Char × List Char)
  | '0' :: r => some (['0'], r)
  | s => digits? s

def fraction? : List Char → Option (List Char × List Char)
  | '.' :: r => digits? r
  | s => some ([], s)

def exponent? : List Char → Option (Option Int × List Char)
  | c :: r =>
    if c == 'e' || c == 'E' then
      match r with
      | '-' :: r => (digits? r).map fun (ds, r) => (some (-(digitsValue 0 ds : Int)), r)
      | '+' :: r => (digits? r).map fun (ds, r) => (some (digitsValue 0 ds), r)
      | r => (digits? r).map fun (ds, r) => (some (digitsValue 0 ds), r)
    else some (none, c :: r)
  | [] => some (none, [])

def number? (s : List Char) : Option (Numeral × List Char) := do
  let (negative, s) := match s with
    | '-' :: r => (true, r)
    | s => (false, s)
  let (whole, s) ← whole? s
  let (fraction, s) ← fraction? s
  let (exponent, s) ← exponent? s
  return (⟨negative, whole, fraction, exponent⟩, s)

mutual

/-- A value at the front of a text; `depth` bounds the calls that may be nested. -/
def value? (depth : Nat) (s : List Char) : Option (Json × List Char) :=
  match depth, skipSpace s with
  | 0, _ => none
  | _, [] => none
  | _ + 1, 'n' :: 'u' :: 'l' :: 'l' :: r => some (.null, r)
  | _ + 1, 't' :: 'r' :: 'u' :: 'e' :: r => some (.bool true, r)
  | _ + 1, 'f' :: 'a' :: 'l' :: 's' :: 'e' :: r => some (.bool false, r)
  | _ + 1, '\x22' :: r => (string? r).map fun (text, r) => (.str text, r)
  | depth + 1, '[' :: r =>
    match skipSpace r with
    | ']' :: r => some (.arr [], r)
    | r => (items? depth r).map fun (items, r) => (.arr items, r)
  | depth + 1, '\x7b' :: r =>
    match skipSpace r with
    | '\x7d' :: r => some (.obj [], r)
    | r => (members? depth r).map fun (members, r) => (.obj members, r)
  | _ + 1, r => (number? r).map fun (n, r) => (.num n, r)

def items? (depth : Nat) (s : List Char) : Option (List Json × List Char) :=
  match depth with
  | 0 => none
  | depth + 1 => do
    let (item, r) ← value? depth s
    match skipSpace r with
    | ',' :: r =>
      let (items, r) ← items? depth r
      return (item :: items, r)
    | ']' :: r => return ([item], r)
    | _ => none

def members? (depth : Nat) (s : List Char) : Option (List (Option String × Json) × List Char) :=
  match depth, skipSpace s with
  | depth + 1, '\x22' :: r => do
    let (name, r) ← string? r
    match skipSpace r with
    | ':' :: r =>
      let (value, r) ← value? depth r
      let member := (name, value)
      match skipSpace r with
      | ',' :: r =>
        let (members, r) ← members? depth r
        return (member :: members, r)
      | '\x7d' :: r => return ([member], r)
      | _ => none
    | _ => none
  | _, _ => none

end

/-- The value that a text writes. Its length bounds the calls that may be nested. -/
def ofList? (s : List Char) : Option Json := do
  let (j, r) ← value? (s.length + 1) s
  if (skipSpace r).isEmpty then some j else none

def ofString? (s : String) : Option Json :=
  ofList? s.toList

end SqlWalk.Json
