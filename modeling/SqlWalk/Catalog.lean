import SqlWalk.Query.Basic
import SqlWalk.Json.Record
import SqlWalk.Json.Parser

namespace SqlWalk

/-- Equality up to the case of ASCII letters. -/
def sameLetters (a b : List Char) : Bool :=
  a.map Char.toUpper == b.map Char.toUpper

structure TableSchema where
  name : String
  columns : List String
  deriving DecidableEq, Repr

structure Catalog where
  tables : List TableSchema
  deriving DecidableEq, Repr

inductive CatalogError where
  | malformed
  | duplicateTable (name : String)
  deriving DecidableEq, Repr

def CatalogError.message : CatalogError → String
  | malformed => "invalid catalog json"
  | duplicateTable name => "table defined twice in catalog: " ++ name

def TableSchema.hasName (t : TableSchema) (name : List Char) : Bool :=
  sameLetters t.name.toList name

def TableSchema.hasColumn (t : TableSchema) (column : String) : Bool :=
  t.columns.any fun c => sameLetters c.toList column.toList

def duplicateName? (seen : List TableSchema) : List TableSchema → Option String
  | [] => none
  | t :: ts =>
    if seen.any (·.hasName t.name.toList) then some t.name else duplicateName? (seen ++ [t]) ts

def afterLastDot (s : List Char) : List Char :=
  (s.reverse.takeWhile (· ≠ '.')).reverse

def isIdentifierQuote (c : Char) : Bool :=
  c == '\x22' || c == '\x60' || c == '[' || c == ']'

/-- A name without schema and quotes. -/
def bareName (s : List Char) : List Char :=
  (((afterLastDot s).dropWhile isIdentifierQuote).reverse.dropWhile isIdentifierQuote).reverse

/-- A column name in a query, with what it is qualified by. -/
structure Mention where
  qualifier : Option String
  column : List Char
  deriving DecidableEq, Repr

/-- The mentions among tokens behind the two given ones. A word before a dot is no mention. -/
def mentionsFrom (second first : Option Token) : List Token → List Mention
  | [] => []
  | t :: ts =>
    let qualifier := if first.any (·.isSymbol '.') then second.map (·.name) else none
    let later := mentionsFrom first (some t) ts
    if t.kind = .word && !ts.head?.any (·.isSymbol '.') then ⟨qualifier, t.text⟩ :: later
    else later

def mentionsOf (fragment : String) : List Mention :=
  mentionsFrom none none (tokenize fragment.toList)

def Query.fragments (q : Query) : List String :=
  q.selectColumns ++ q.whereConditions ++ q.groupByColumns ++ q.havingConditions ++
    q.joins.map (·.condition) ++ q.orderBy.toList

def Query.mentions (q : Query) : List Mention :=
  q.fragments.flatMap mentionsOf

structure Resolution where
  reference : String
  schemaTable : Option String
  columns : List String
  deriving DecidableEq, Repr

namespace Catalog

/-- The catalog of some tables, no two of which have the same name. -/
def ofTables (tables : List TableSchema) : Except CatalogError Catalog :=
  match duplicateName? [] tables with
  | some name => .error (.duplicateTable name)
  | none => .ok ⟨tables⟩

def demo : Catalog :=
  ⟨[⟨"users", ["id", "name", "email", "created_at"]⟩,
    ⟨"orders", ["id", "user_id", "product_id", "quantity", "order_date"]⟩,
    ⟨"products", ["id", "name", "price", "category"]⟩]⟩

/-- The table with a name, which may be quoted and may have a schema in front. -/
def table? (c : Catalog) (name : String) : Option TableSchema :=
  c.tables.find? (·.hasName (bareName name.toList))

def isAmbiguous (c : Catalog) (q : Query) (column : String) : Bool :=
  1 < (q.tableRefs.filterMap fun r => c.table? r.name).countP (·.hasColumn column)

/-- A qualified mention counts for the table that it means, a bare one for the only one that has it.
-/
def counts (c : Catalog) (q : Query) (r : TableRef) (column : String) (m : Mention) : Bool :=
  sameLetters m.column column.toList &&
    match m.qualifier with
    | some qualifier => q.resolve? qualifier == some r.key
    | none => q.tables.length == 1 || !c.isAmbiguous q column

def resolution (c : Catalog) (q : Query) (r : TableRef) : Resolution :=
  match c.table? r.name with
  | none => ⟨r.key, none, []⟩
  | some t => ⟨r.key, some t.name, t.columns.filter fun col => q.mentions.any (c.counts q r col)⟩

def resolve (c : Catalog) (q : Query) : List Resolution :=
  q.tableRefs.map (c.resolution q)

end Catalog

open Json

def TableSchema.toJson (t : TableSchema) : Json :=
  record [("name", text t.name), ("columns", texts t.columns)]

def TableSchema.ofJson? (j : Json) : Option TableSchema := do
  let [name, columns] ← fields? ["name", "columns"] false j | none
  return { name := ← required asString? name, columns := ← required (asList? asString?) columns }

def Catalog.toJson (c : Catalog) : Json :=
  record [("tables", arr (c.tables.map TableSchema.toJson))]

def Catalog.ofJson? (j : Json) : Option (List TableSchema) := do
  let [tables] ← fields? ["tables"] false j | none
  required (asList? TableSchema.ofJson?) tables

def Catalog.read (s : String) : Except CatalogError Catalog :=
  match (Json.ofString? s).bind Catalog.ofJson? with
  | some tables => ofTables tables
  | none => .error .malformed

def Resolution.toJson (r : Resolution) : Json :=
  record [("reference", text r.reference), ("schema_table", textOrNull r.schemaTable),
    ("columns", texts r.columns)]

end SqlWalk
