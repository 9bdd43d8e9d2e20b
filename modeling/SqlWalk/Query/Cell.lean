import SqlWalk.Query.Basic

namespace SqlWalk

def isColumnChar (c : Char) : Bool :=
  c.isAlphanum || c == '_' || c == '.'

def splitDots : List Char → List (List Char)
  | [] => [[]]
  | c :: r =>
    if c = '.' then [] :: splitDots r
    else
      match splitDots r with
      | [] => [[c]]
      | p :: ps => (c :: p) :: ps

def isIdentifier : List Char → Bool
  | [] => false
  | c :: r => (c.isAlpha || c == '_') && r.all fun d => d.isAlphanum || d == '_'

def isColumn (s : List Char) : Bool :=
  (splitDots s).all isIdentifier

/-- The text inside single quotes, behind the opening one. Each inner quote is written twice. -/
def unquote : List Char → Option (List Char)
  | [] => none
  | ['\x27'] => some []
  | '\x27' :: '\x27' :: r => (unquote r).map ('\x27' :: ·)
  | c :: r => if c = '\x27' then none else (unquote r).map (c :: ·)

/-- The text inside double quotes, given what follows the opening one. -/
def undoubled : List Char → Option (List Char)
  | [] => none
  | ['\x22'] => some []
  | c :: r => if c = '\x22' then none else (undoubled r).map (c :: ·)

def isBareChar (c : Char) : Bool :=
  !(isBlank c || ['\x27', '\x22', '=', '<', '>', '!'].contains c)

def literal? : List Char → Option (List Char)
  | [] => none
  | '\x27' :: r => unquote r
  | '\x22' :: r => undoubled r
  | s => if s.all isBareChar then some s else none

/-- Reads `column = literal`, a condition that names a single value of a column. -/
def Cell.ofChars? (s : List Char) : Option Cell :=
  let column := s.takeWhile isColumnChar
  if isColumn column then
    match (s.drop column.length).dropWhile isBlank with
    | '=' :: r =>
      (literal? (r.dropWhile isBlank)).map fun value => ⟨.ofList column, .ofList value⟩
    | _ => none
  else none

def Cell.ofString? (s : String) : Option Cell :=
  ofChars? s.toList

end SqlWalk
