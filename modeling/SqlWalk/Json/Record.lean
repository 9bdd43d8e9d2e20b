import SqlWalk.Json.Number

namespace SqlWalk.Json

variable {α : Type}

/-- The values of the named fields, where one may be missing from an object. The items of an array
must be as many as the fields, or at most as many if it may be `short`. -/
def fields? (names : List String) (short : Bool) : Json → Option (List (Option Json))
  | .obj members =>
    if members.any (·.1.isNone) then none
    else
      names.mapM fun name =>
        match members.filter (·.1 == some name) with
        | [] => some none
        | [m] => some (some m.2)
        | _ => none
  | .arr items =>
    if items.length == names.length || short && items.length < names.length then
      some (items.map some ++ List.replicate (names.length - items.length) none)
    else none
  | _ => none

def asString? : Json → Option String
  | .str s => s
  | _ => none

def asBool? : Json → Option Bool
  | .bool b => some b
  | _ => none

def asList? (item? : Json → Option α) : Json → Option (List α)
  | .arr items => items.mapM item?
  | _ => none

/-- The value of a name, given as a string or as an object with that single member, null. -/
def asVariant? (values : List α) (name : α → String) : Json → Option α
  | .str (some s) => values.find? (name · == s)
  | .obj [(some s, .null)] => values.find? (name · == s)
  | _ => none

def required (read? : Json → Option α) (field : Option Json) : Option α :=
  field.bind read?

def optional (read? : Json → Option α) : Option Json → Option (Option α)
  | none => some none
  | some .null => some none
  | some j => (read? j).map some

def defaulting (default : α) (read? : Json → Option α) : Option Json → Option α
  | none => some default
  | some j => read? j

end SqlWalk.Json
