import SqlWalk.Query.Basic

namespace SqlWalk

/-- The steps of an execution, in canonical order. -/
inductive Step where
  | parse | select | fromTables | join | whereRows | groupBy | having | orderBy | result
  deriving DecidableEq, Repr

namespace Step

def canonical : List Step :=
  [parse, select, fromTables, join, whereRows, groupBy, having, orderBy, result]

def name : Step → String
  | parse => "Parse"
  | select => "Select"
  | fromTables => "From"
  | join => "Join"
  | whereRows => "Where"
  | groupBy => "GroupBy"
  | having => "Having"
  | orderBy => "OrderBy"
  | result => "Result"

def label : Step → String
  | parse => "PARSE"
  | select => "SELECT"
  | fromTables => "FROM"
  | join => "JOIN"
  | whereRows => "WHERE"
  | groupBy => "GROUP BY"
  | having => "HAVING"
  | orderBy => "ORDER BY"
  | result => "RESULT"

def isPlannedFor (q : Query) : Step → Bool
  | parse | select | fromTables | result => true
  | join => !q.joins.isEmpty
  | whereRows => !q.whereConditions.isEmpty
  | groupBy => !q.groupByColumns.isEmpty
  | having => !q.havingConditions.isEmpty
  | orderBy => q.orderBy.isSome

theorem mem_canonical (s : Step) : s ∈ canonical := by
  cases s <;> decide

end Step

structure Plan where
  steps : List Step
  deriving DecidableEq, Repr

namespace Plan

/-- The plan of a query; without tables there is nothing to walk. -/
def ofQuery (q : Query) : Plan :=
  ⟨if q.isEmpty then [] else Step.canonical.filter (·.isPlannedFor q)⟩

def size (p : Plan) : Nat :=
  p.steps.length

def isEmpty (p : Plan) : Bool :=
  p.steps.isEmpty

def get? (p : Plan) (i : Nat) : Option Step :=
  p.steps[i]?

def lastIndex? (p : Plan) : Option Nat :=
  if p.isEmpty then none else some (p.size - 1)

def position? (p : Plan) (s : Step) : Option Nat :=
  p.steps.idxOf? s

def isMinimal (p : Plan) : Bool :=
  p.size == 4

def describe? (p : Plan) (i : Nat) : Option String :=
  (p.get? i).map fun
    | .parse => "Parsing the query text"
    | .select => "Identifying the selected columns"
    | .fromTables => "Reading rows from the source tables"
    | .join => "Joining tables on their join conditions"
    | .whereRows => "Filtering rows with the WHERE conditions"
    | .groupBy => "Grouping rows by the GROUP BY columns"
    | .having => "Filtering groups with the HAVING conditions"
    | .orderBy => "Sorting rows by the ORDER BY expression"
    | .result =>
      if p.isMinimal then "Returning the rows read from the source tables"
      else "Returning the joined, filtered and ordered result set"

theorem describe?_isSome (p : Plan) (i : Nat) : (p.describe? i).isSome = decide (i < p.size) := by
  by_cases h : i < p.steps.length <;> simp [describe?, get?, size, h]

end Plan
end SqlWalk
