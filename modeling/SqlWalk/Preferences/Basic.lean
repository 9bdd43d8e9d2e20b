import SqlWalk.Layout
import SqlWalk.Player.Machine
import SqlWalk.Number.Style
import SqlWalk.Json.Record

namespace SqlWalk

structure Preferences where
  speed : Nat
  canvasWidth : Float32
  tableWidth : Float32
  tableHeight : Float32
  padding : Float32

/-- A size that is not finite is written as null. -/
def Json.single (x : Float32) : Json :=
  (singleNumeral? x).elim .null .num

def Json.asSingle? : Json → Option Float32
  | .num n => n.single?
  | _ => none

def Json.asWord? : Json → Option Nat
  | .num n => n.word?
  | _ => none

namespace Preferences

def standard : Preferences :=
  ⟨defaultSpeed, 960, Dimensions.standard.tableWidth, Dimensions.standard.tableHeight,
    Dimensions.standard.padding⟩

def dimensions (p : Preferences) : Dimensions :=
  ⟨p.tableWidth, p.tableHeight, p.padding⟩

/-- A width or height, where one that is not finite and positive gives way to a default. -/
def usableExtent (x default : Float32) : Float32 :=
  if x.isFinite && 0 < x then x else default

def usableSpace (x default : Float32) : Float32 :=
  if x.isFinite && 0 ≤ x then x else default

def sanitized (p : Preferences) : Preferences where
  speed := clampSpeed p.speed
  canvasWidth := usableExtent p.canvasWidth standard.canvasWidth
  tableWidth := usableExtent p.tableWidth standard.tableWidth
  tableHeight := usableExtent p.tableHeight standard.tableHeight
  padding := usableSpace p.padding standard.padding

def fieldNames : List String :=
  ["speed_ms", "canvas_width", "table_width", "table_height", "padding"]

open Json

def toJson (p : Preferences) : Json :=
  record (fieldNames.zip
    [nat p.speed, .single p.canvasWidth, .single p.tableWidth, .single p.tableHeight,
      .single p.padding])

/-- The preferences that a value writes; a field that it leaves out has its standard value. -/
def ofJson? (j : Json) : Option Preferences := do
  let [speed, canvasWidth, tableWidth, tableHeight, padding] ← fields? fieldNames true j | none
  return {
    speed := ← defaulting standard.speed asWord? speed
    canvasWidth := ← defaulting standard.canvasWidth asSingle? canvasWidth
    tableWidth := ← defaulting standard.tableWidth asSingle? tableWidth
    tableHeight := ← defaulting standard.tableHeight asSingle? tableHeight
    padding := ← defaulting standard.padding asSingle? padding }

end Preferences
end SqlWalk
