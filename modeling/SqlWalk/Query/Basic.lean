import SqlWalk.Clause

namespace SqlWalk

inductive StatementKind where
  | empty | select | insert | update | delete | withTables | other
  deriving DecidableEq, Repr

def StatementKind.ofWord (word : List Char) : StatementKind :=
  match Keyword.ofText? word with
  | some .select => .select
  | some .insert => .insert
  | some .update => .update
  | some .delete => .delete
  | some .withTables => .withTables
  | _ => .other

inductive Origin where
  | source | join
  deriving DecidableEq, Repr

/-- A reference to a table: its name as written, with any schema in front, or a subquery. -/
structure TableRef where
  name : String
  alias? : Option String
  origin : Origin
  deriving DecidableEq, Repr

/-- What the rest of the query calls the table. -/
def TableRef.key (r : TableRef) : String :=
  r.alias?.getD r.name

structure Join where
  table : String
  condition : String
  kind : JoinKind
  deriving DecidableEq, Repr

structure Cell where
  column : String
  value : String
  deriving DecidableEq, Repr

def beforeLastDot? (s : List Char) : Option (List Char) :=
  if s.contains '.' then
    some ((s.reverse.dropWhile (· ≠ '.')).drop 1).reverse
  else none

/-- The qualifier of a dotted column: `u` in `u.id`. -/
def Cell.qualifier? (c : Cell) : Option String :=
  (beforeLastDot? c.column.toList).map String.ofList

structure Query where
  kind : StatementKind
  tables : List String
  tableRefs : List TableRef
  joins : List Join
  distinct : Bool
  selectColumns : List String
  whereConditions : List String
  whereCells : List Cell
  groupByColumns : List String
  havingConditions : List String
  orderBy : Option String
  limit : Option String
  deriving DecidableEq, Repr

namespace Query

def blank (kind : StatementKind) : Query :=
  ⟨kind, [], [], [], false, [], [], [], [], [], none, none⟩

def isEmpty (q : Query) : Bool :=
  q.tables.isEmpty

def tableRef? (q : Query) (key : String) : Option TableRef :=
  q.tableRefs.find? (·.key == key)

/-- The key of the table that a qualifier means: a key goes before a name. -/
def resolve? (q : Query) (qualifier : String) : Option String :=
  ((q.tableRefs.find? (·.key == qualifier)).or
    (q.tableRefs.find? (·.name == qualifier))).map (·.key)

end Query
end SqlWalk
