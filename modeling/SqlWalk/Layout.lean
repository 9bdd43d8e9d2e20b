namespace SqlWalk

structure Dimensions where
  tableWidth : Float32
  tableHeight : Float32
  padding : Float32

structure TableBox where
  table : String
  row : Nat
  col : Nat
  x : Float32
  y : Float32

structure Layout where
  columnsPerRow : Nat
  boxes : List TableBox

namespace Dimensions

def standard : Dimensions :=
  ⟨180, 120, 40⟩

def cellWidth (d : Dimensions) : Float32 :=
  d.tableWidth + d.padding

def cellHeight (d : Dimensions) : Float32 :=
  d.tableHeight + d.padding

/-- How many boxes fit in a row: at least one, and at most as many as a 64-bit word holds. -/
def columnsPerRow (d : Dimensions) (canvasWidth : Float32) : Nat :=
  if canvasWidth.isFinite && 0 < d.cellWidth then max 1 (canvasWidth / d.cellWidth).toUInt64.toNat
  else 1

end Dimensions

namespace Layout

def blank : Layout :=
  ⟨0, []⟩

def ofTables (tables : List String) (canvasWidth : Float32) (d : Dimensions) : Layout :=
  let perRow := d.columnsPerRow canvasWidth
  ⟨perRow, tables.zipIdx.map fun (table, i) =>
    { table
      row := i / perRow
      col := i % perRow
      x := d.padding + (i % perRow).toFloat32 * d.cellWidth
      y := d.padding + (i / perRow).toFloat32 * d.cellHeight }⟩

def get? (l : Layout) (table : String) : Option (Float32 × Float32) :=
  (l.boxes.find? (·.table == table)).map fun b => (b.x, b.y)

def size (l : Layout) : Nat :=
  l.boxes.length

def isEmpty (l : Layout) : Bool :=
  l.boxes.isEmpty

/-- The greater of two numbers. What is not a number gives way to any number. -/
def greater (a b : Float32) : Float32 :=
  if a.isNaN || a < b then b else a

def extent (l : Layout) (d : Dimensions) : Float32 × Float32 :=
  l.boxes.foldl
    (fun (w, h) b =>
      (greater w (b.x + d.tableWidth + d.padding), greater h (b.y + d.tableHeight + d.padding)))
    (0, 0)

end Layout
end SqlWalk
