import SqlWalk.Query.Basic
import SqlWalk.Json.Record

namespace SqlWalk

def StatementKind.name : StatementKind → String
  | empty => "Empty"
  | select => "Select"
  | insert => "Insert"
  | update => "Update"
  | delete => "Delete"
  | withTables => "With"
  | other => "Other"

def StatementKind.every : List StatementKind :=
  [empty, select, insert, update, delete, withTables, other]

def JoinKind.name : JoinKind → String
  | inner => "Inner"
  | left => "Left"
  | right => "Right"
  | full => "Full"
  | cross => "Cross"
  | natural => "Natural"

def JoinKind.every : List JoinKind :=
  [inner, left, right, full, cross, natural]

def Origin.name : Origin → String
  | source => "From"
  | join => "Join"

def Origin.every : List Origin :=
  [source, join]

open Json

def TableRef.toJson (r : TableRef) : Json :=
  record [("name", text r.name), ("alias", textOrNull r.alias?), ("origin", text r.origin.name)]

def TableRef.ofJson? (j : Json) : Option TableRef := do
  let [name, alias?, origin] ← fields? ["name", "alias", "origin"] false j | none
  return {
    name := ← required asString? name
    alias? := ← optional asString? alias?
    origin := ← required (asVariant? Origin.every Origin.name) origin }

def Join.toJson (j : Join) : Json :=
  record [("table", text j.table), ("condition", text j.condition), ("kind", text j.kind.name)]

def Join.ofJson? (j : Json) : Option Join := do
  let [table, condition, kind] ← fields? ["table", "condition", "kind"] false j | none
  return {
    table := ← required asString? table
    condition := ← required asString? condition
    kind := ← required (asVariant? JoinKind.every JoinKind.name) kind }

def Cell.toJson (c : Cell) : Json :=
  record [("column", text c.column), ("value", text c.value)]

def Cell.ofJson? (j : Json) : Option Cell := do
  let [column, value] ← fields? ["column", "value"] false j | none
  return { column := ← required asString? column, value := ← required asString? value }

namespace Query

def fieldNames : List String :=
  ["kind", "tables", "table_refs", "joins", "distinct", "select_columns", "where_conditions",
    "where_cells", "group_by_columns", "having_conditions", "order_by", "limit"]

def toJson (q : Query) : Json :=
  record (fieldNames.zip
    [text q.kind.name, texts q.tables, arr (q.tableRefs.map TableRef.toJson),
      arr (q.joins.map Join.toJson), bool q.distinct, texts q.selectColumns,
      texts q.whereConditions, arr (q.whereCells.map Cell.toJson), texts q.groupByColumns,
      texts q.havingConditions, textOrNull q.orderBy, textOrNull q.limit])

def ofJson? (j : Json) : Option Query := do
  let [kind, tables, tableRefs, joins, distinct, selectColumns, whereConditions, whereCells,
    groupByColumns, havingConditions, orderBy, limit] ← fields? fieldNames false j | none
  return {
    kind := ← required (asVariant? StatementKind.every StatementKind.name) kind
    tables := ← required (asList? asString?) tables
    tableRefs := ← required (asList? TableRef.ofJson?) tableRefs
    joins := ← required (asList? Join.ofJson?) joins
    distinct := ← required asBool? distinct
    selectColumns := ← required (asList? asString?) selectColumns
    whereConditions := ← required (asList? asString?) whereConditions
    whereCells := ← required (asList? Cell.ofJson?) whereCells
    groupByColumns := ← required (asList? asString?) groupByColumns
    havingConditions := ← required (asList? asString?) havingConditions
    orderBy := ← optional asString? orderBy
    limit := ← optional asString? limit }

end Query
end SqlWalk
