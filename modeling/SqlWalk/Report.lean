import SqlWalk.Query.Record
import SqlWalk.Catalog
import SqlWalk.Session

namespace SqlWalk

namespace Json

/-- A single-precision number in JSON, by the shortest decimal of the equal double-precision one. -/
def widened (x : Float32) : Json :=
  (widenedNumeral? x).elim .null .num

def insertMember (m : Option String × Json) :
    List (Option String × Json) → List (Option String × Json)
  | [] => [m]
  | n :: ns => if m.1.getD "" ≤ n.1.getD "" then m :: n :: ns else n :: insertMember m ns

mutual

/-- Puts members in alphabetical order at every level. -/
def sorted : Json → Json
  | .arr js => .arr (sortedItems js)
  | .obj ms => .obj (sortedMembers ms)
  | j => j

def sortedItems : List Json → List Json
  | [] => []
  | j :: js => sorted j :: sortedItems js

def sortedMembers : List (Option String × Json) → List (Option String × Json)
  | [] => []
  | (name, j) :: ms => insertMember (name, sorted j) (sortedMembers ms)

end

end Json

open Json

def Plan.toJson (p : Plan) : Json :=
  record [("steps", texts (p.steps.map Step.name))]

def Snapshot.toJson (s : Snapshot) : Json :=
  record [("step_index", nat s.index), ("step", textOrNull (s.step.map Step.name)),
    ("total_steps", nat s.total), ("machine_state", text s.phase.name), ("speed_ms", nat s.speed),
    ("status_text", text s.status)]

def Layout.toJson (l : Layout) : Json :=
  record [("columns_per_row", nat l.columnsPerRow),
    ("positions", arr (l.boxes.map fun b =>
      record [("table", text b.table), ("row", nat b.row), ("col", nat b.col),
        ("pos", record [("x", widened b.x), ("y", widened b.y)])]))]

def Highlights.toJson (h : Highlights) : Json :=
  record [("step", textOrNull (h.step.map Step.name)),
    ("tables", arr (h.tables.map fun t =>
      record [("table", text t.table), ("active", bool t.active)])),
    ("joins", arr (h.joins.map fun j =>
      record [("index", nat j.index), ("table", text j.table), ("active", bool j.active)])),
    ("columns", texts h.columns), ("conditions", texts h.conditions),
    ("cells", arr (h.cells.map Cell.toJson))]

namespace Session

def report (s : Session) (c : Catalog) : Json :=
  let (width, height) := s.layout.extent s.dimensions
  (record [("query", s.query.toJson), ("plan", s.plan.toJson), ("layout", s.layout.toJson),
    ("extent", arr [widened width, widened height]),
    ("catalog", arr ((c.resolve s.query).map Resolution.toJson)),
    ("snapshot", s.snapshot.toJson)]).sorted

def frame (s : Session) : Json :=
  (record [("label", textOrNull (s.snapshot.step.map Step.label)), ("snapshot", s.snapshot.toJson),
    ("highlights", s.highlights.toJson)]).sorted

end Session
end SqlWalk
