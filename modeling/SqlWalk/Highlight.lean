import SqlWalk.Plan

namespace SqlWalk

/-- The parts that continue a dotted name, and what follows them. A star may stand for a part. -/
def chainTail : List Token → List Token × List Token
  | dot :: t :: ts =>
    if dot.isSymbol '.' && (t.isName || t.isSymbol '*') then
      (t :: (chainTail ts).1, (chainTail ts).2)
    else ([], dot :: t :: ts)
  | ts => ([], ts)

/-- The dotted names among tokens of which the first `skip` belong to the name before them. -/
def chainsFrom : (skip : Nat) → List Token → List (List Token)
  | _, [] => []
  | skip + 1, _ :: ts => chainsFrom skip ts
  | 0, t :: ts =>
    if t.isName then
      let parts := (chainTail ts).1
      (t :: parts) :: chainsFrom (2 * parts.length) ts
    else chainsFrom 0 ts

def chains (ts : List Token) : List (List Token) :=
  chainsFrom 0 ts

def qualifierText (parts : List Token) : String :=
  .ofList (List.intercalate ['.'] (parts.dropLast.map (·.text)))

/-- The qualifiers of the dotted names in a text, each once: `u` for `u.id`. -/
def qualifiers (fragment : String) : List String :=
  (((chains (tokenize fragment.toList)).filter (1 < ·.length)).map qualifierText).eraseDups

structure TableMark where
  table : String
  active : Bool
  deriving DecidableEq, Repr

structure JoinMark where
  index : Nat
  table : String
  active : Bool
  deriving DecidableEq, Repr

/-- What is lit up. The tables and joins are always all listed. -/
structure Highlights where
  step : Option Step
  tables : List TableMark
  joins : List JoinMark
  columns : List String
  conditions : List String
  cells : List Cell
  deriving DecidableEq, Repr

namespace Query

def markTables (q : Query) (active : String → Bool) : List TableMark :=
  q.tables.map fun t => ⟨t, active t⟩

def markJoins (q : Query) (active : Bool) : List JoinMark :=
  q.joins.zipIdx.map fun (j, i) => ⟨i, j.table, active⟩

def referredTables (q : Query) (fragment : String) : List String :=
  (qualifiers fragment).filterMap q.resolve?

/-- Fragments that refer to no table concern the only one of a query. -/
def tablesOfFragments (q : Query) (fragments : List String) : List String :=
  match fragments.flatMap q.referredTables, q.tables with
  | [], [t] => if fragments.isEmpty then [] else [t]
  | keys, _ => keys

end Query

namespace Highlights

def none (q : Query) : Highlights :=
  ⟨.none, q.markTables fun _ => false, q.markJoins false, [], [], []⟩

def ofStep (step : Step) (q : Query) : Highlights :=
  let base := { none q with step := some step }
  let touching (fragments : List String) :=
    q.markTables fun t => (q.tablesOfFragments fragments).contains t
  match step with
  | .parse => base
  | .select => { base with columns := q.selectColumns }
  | .fromTables =>
    { base with tables := q.markTables fun t => (q.tableRef? t).any (·.origin == .source) }
  | .join =>
    let keys := q.joins.map (·.table) ++ q.joins.flatMap fun j => q.referredTables j.condition
    { base with
      tables := q.markTables fun t => keys.contains t
      joins := q.markJoins true
      conditions := q.joins.map (·.condition) }
  | .whereRows =>
    { base with
      tables := touching q.whereConditions
      conditions := q.whereConditions
      cells := q.whereCells }
  | .groupBy => { base with tables := touching q.groupByColumns, columns := q.groupByColumns }
  | .having => { base with tables := touching q.havingConditions, conditions := q.havingConditions }
  | .orderBy => { base with tables := touching q.orderBy.toList, columns := q.orderBy.toList }
  | .result => { base with tables := q.markTables fun _ => true, columns := q.selectColumns }

def isJoinActive (h : Highlights) (index : Nat) : Bool :=
  h.joins.any fun j => j.active && j.index == index

def activeTables (h : Highlights) : List String :=
  (h.tables.filter (·.active)).map (·.table)

end Highlights
end SqlWalk
