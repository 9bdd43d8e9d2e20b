import SqlWalk.Number.Numeral

namespace SqlWalk

/-- A JSON value. A text is missing if an escape in it names half of a surrogate pair. -/
inductive Json where
  | null
  | bool (value : Bool)
  | num (value : Numeral)
  | str (text : Option String)
  | arr (items : List Json)
  | obj (members : List (Option String × Json))

namespace Json

def text (s : String) : Json :=
  .str (some s)

def nat (n : Nat) : Json :=
  .num (.ofNat n)

def record (members : List (String × Json)) : Json :=
  .obj (members.map fun (name, value) => (some name, value))

def textOrNull (s : Option String) : Json :=
  s.elim .null text

def texts (ss : List String) : Json :=
  .arr (ss.map text)

def members : Json → List (Option String × Json)
  | .obj members => members
  | _ => []

def get? (j : Json) (name : String) : Option Json :=
  (j.members.find? fun m => m.1 == some name).map (·.2)

end Json
end SqlWalk
