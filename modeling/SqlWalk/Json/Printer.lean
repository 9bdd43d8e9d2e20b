import SqlWalk.Json.Basic

namespace SqlWalk.Json

def escape (c : Char) : List Char :=
  match c with
  | '\x22' => ['\x5c', '\x22']
  | '\x5c' => ['\x5c', '\x5c']
  | '\x08' => ['\x5c', 'b']
  | '\x0c' => ['\x5c', 'f']
  | '\n' => ['\x5c', 'n']
  | '\r' => ['\x5c', 'r']
  | '\t' => ['\x5c', 't']
  | c =>
    if c.toNat < 0x20 then
      ['\x5c', 'u', '0', '0', Nat.digitChar (c.toNat / 16), Nat.digitChar (c.toNat % 16)]
    else [c]

/-- A string in quotes; one whose characters are missing is written as a replacement character. -/
def quoted (s : Option String) : List Char :=
  '\x22' :: (s.getD "\ufffd").toList.flatMap escape ++ ['\x22']

def newline (level : Nat) : List Char :=
  '\n' :: List.replicate (2 * level) ' '

def lineBreak (level : Option Nat) : List Char :=
  (level.map newline).getD []

mutual

/-- The text of a value at a level, or on one line when there is none. -/
def write (level : Option Nat) : Json → List Char
  | .null => "null".toList
  | .bool true => "true".toList
  | .bool false => "false".toList
  | .num n => n.text
  | .str s => quoted s
  | .arr [] => ['[', ']']
  | .arr (j :: js) =>
    '[' :: lineBreak (level.map (· + 1)) ++ write (level.map (· + 1)) j ++
      writeItems (level.map (· + 1)) js ++ lineBreak level ++ [']']
  | .obj [] => ['\x7b', '\x7d']
  | .obj (m :: ms) =>
    '\x7b' :: lineBreak (level.map (· + 1)) ++ writeMember (level.map (· + 1)) m ++
      writeMembers (level.map (· + 1)) ms ++ lineBreak level ++ ['\x7d']

def writeItems (level : Option Nat) : List Json → List Char
  | [] => []
  | j :: js => ',' :: lineBreak level ++ write level j ++ writeItems level js

def writeMember (level : Option Nat) : Option String × Json → List Char
  | (name, j) => quoted name ++ (if level.isSome then [':', ' '] else [':']) ++ write level j

def writeMembers (level : Option Nat) : List (Option String × Json) → List Char
  | [] => []
  | m :: ms => ',' :: lineBreak level ++ writeMember level m ++ writeMembers level ms

end

def compact (j : Json) : String :=
  String.ofList (write none j)

def pretty (j : Json) : String :=
  String.ofList (write (some 0) j)

end SqlWalk.Json
