import SqlWalk.Proofs.Lexing.Spelling
import SqlWalk.Proofs.Query.Boundary
import SqlWalk.Proofs.Query.Split
import SqlWalk.Proofs.Query.Reference

namespace SqlWalk

open Token

/-- The tokens of a text that stands behind a space. -/
def partTokens (s : String) : List Token :=
  respaced true (tokenize s.toList)

/-- A text with nothing left open at its end, which opens no clause and ends no statement. -/
structure IsPart (s : String) : Prop where
  ne_empty : s ≠ ""
  fragment_tokenize : fragment (tokenize s.toList) = s
  closed : Closed s.toList
  unbroken : Unbroken (partTokens s)

instance (s : String) : Decidable (IsPart s) :=
  decidable_of_iff (s ≠ "" ∧ fragment (tokenize s.toList) = s ∧ Closed s.toList ∧
    Unbroken (partTokens s))
    ⟨fun ⟨he, hf, hc, hu⟩ => ⟨he, hf, hc, hu⟩, fun ⟨he, hf, hc, hu⟩ => ⟨he, hf, hc, hu⟩⟩

structure IsItem (s : String) : Prop extends IsPart s where
  commaFree : CommaFree (partTokens s)

instance (s : String) : Decidable (IsItem s) :=
  decidable_of_iff (IsPart s ∧ CommaFree (partTokens s))
    ⟨fun ⟨hp, hc⟩ => ⟨hp, hc⟩, fun ⟨hp, hc⟩ => ⟨hp, hc⟩⟩

structure IsCondition (s : String) : Prop extends IsPart s where
  closesBetween : closesBetween false 0 (partTokens s) = true

instance (s : String) : Decidable (IsCondition s) :=
  decidable_of_iff (IsPart s ∧ SqlWalk.closesBetween false 0 (partTokens s) = true)
    ⟨fun ⟨hp, hc⟩ => ⟨hp, hc⟩, fun ⟨hp, hc⟩ => ⟨hp, hc⟩⟩

/-- A single name that does not continue the statement; AS is one only behind another AS. -/
def IsAlias (withAs : Bool) : List Token → Prop
  | [t] => t.isName = true ∧ endsTable t = false ∧ (withAs = false → t.isKeyword .as = false)
  | _ => False

instance (withAs : Bool) : (ts : List Token) → Decidable (IsAlias withAs ts)
  | [] => isFalse id
  | [_] => inferInstanceAs (Decidable (_ ∧ _))
  | _ :: _ :: _ => isFalse id

structure TableText where
  name : String
  alias? : Option String
  withAs : Bool

namespace TableText

def print (t : TableText) : String :=
  match t.alias? with
  | none => t.name
  | some a => t.name ++ (if t.withAs then " AS " else " ") ++ a

def aliasTokens (t : TableText) : List Token :=
  match t.alias? with
  | none => []
  | some a => (if t.withAs then [Keyword.as.token true] else []) ++ partTokens a

def tokens (t : TableText) : List Token :=
  partTokens t.name ++ t.aliasTokens

def toRef (origin : Origin) (t : TableText) : TableRef :=
  ⟨t.name, t.alias?, origin⟩

structure WellFormed (t : TableText) : Prop where
  name : IsPart t.name
  namesTable : NamesTable (partTokens t.name)
  isAlias : ∀ a ∈ t.alias?, IsPart a ∧ IsAlias t.withAs (partTokens a)
  /-- Name and alias together open no clause either, as `group by` would. -/
  plain : Outside Plain 0 t.tokens

instance (t : TableText) : Decidable t.WellFormed :=
  decidable_of_iff (IsPart t.name ∧ NamesTable (partTokens t.name) ∧
    (∀ a ∈ t.alias?, IsPart a ∧ IsAlias t.withAs (partTokens a)) ∧ Outside Plain 0 t.tokens)
    ⟨fun ⟨hn, ht, ha, hp⟩ => ⟨hn, ht, ha, hp⟩, fun ⟨hn, ht, ha, hp⟩ => ⟨hn, ht, ha, hp⟩⟩

end TableText

structure JoinText where
  kind : JoinKind
  table : TableText
  on? : Option String

def JoinKind.words : JoinKind → List Keyword
  | inner => [.join]
  | left => [.left, .join]
  | right => [.right, .join]
  | full => [.full, .join]
  | cross => [.cross, .join]
  | natural => [.natural, .join]

namespace JoinText

def opening : JoinKind → String
  | .inner => " JOIN "
  | .left => " LEFT JOIN "
  | .right => " RIGHT JOIN "
  | .full => " FULL JOIN "
  | .cross => " CROSS JOIN "
  | .natural => " NATURAL JOIN "

def print (j : JoinText) : String :=
  opening j.kind ++ j.table.print ++
    match j.on? with
    | none => ""
    | some c => " ON " ++ c

def conditionTokens (j : JoinText) : List Token :=
  match j.on? with
  | none => []
  | some c => Keyword.on.token true :: partTokens c

def clause (j : JoinText) : Clause where
  kind := .join j.kind
  keywords := j.kind.words.map (Keyword.token true)
  body := j.table.tokens ++ j.conditionTokens

def toRef (j : JoinText) : TableRef :=
  j.table.toRef .join

def toJoin (j : JoinText) : Join :=
  ⟨j.toRef.key, j.on?.getD "", j.kind⟩

structure WellFormed (j : JoinText) : Prop where
  table : j.table.WellFormed
  unconditional : Unconditional j.table.tokens
  on : ∀ c ∈ j.on?, IsPart c

instance (j : JoinText) : Decidable j.WellFormed :=
  decidable_of_iff (j.table.WellFormed ∧ Unconditional j.table.tokens ∧ ∀ c ∈ j.on?, IsPart c)
    ⟨fun ⟨ht, hu, hc⟩ => ⟨ht, hu, hc⟩, fun ⟨ht, hu, hc⟩ => ⟨ht, hu, hc⟩⟩

end JoinText

structure SelectText where
  distinct : Bool
  columns : List String
  sources : List TableText
  joins : List JoinText
  conditions : List String
  groups : List String
  having : List String
  orderBy? : Option String
  limit? : Option String

def printParts (opening separator : String) (parts : List String) : String :=
  if parts.isEmpty then "" else opening ++ separator.intercalate parts

def partsClause (kind : ClauseKind) (words : List Keyword) (separator : Token)
    (parts : List String) : List Clause :=
  if parts.isEmpty then []
  else [⟨kind, words.map (Keyword.token true), [separator].intercalate (parts.map partTokens)⟩]

namespace SelectText

def print (p : SelectText) : String :=
  (if p.distinct then "SELECT DISTINCT " else "SELECT ") ++ ", ".intercalate p.columns ++
    " FROM " ++ ", ".intercalate (p.sources.map TableText.print) ++
    String.join (p.joins.map JoinText.print) ++
    printParts " WHERE " " AND " p.conditions ++
    printParts " GROUP BY " ", " p.groups ++
    printParts " HAVING " " AND " p.having ++
    printParts " ORDER BY " ", " p.orderBy?.toList ++
    printParts " LIMIT " ", " p.limit?.toList

def selectClause (gap : Bool) (p : SelectText) : Clause where
  kind := .select
  keywords := [Keyword.select.token gap]
  body := (if p.distinct then [Keyword.distinct.token true] else []) ++
    [commaToken].intercalate (p.columns.map partTokens)

def fromClause (p : SelectText) : Clause where
  kind := .fromTables
  keywords := [Keyword.fromTables.token true]
  body := [commaToken].intercalate (p.sources.map TableText.tokens)

/-- The clauses, where `gap` says whether a gap lies before the first. -/
def clauses (gap : Bool) (p : SelectText) : List Clause :=
  p.selectClause gap :: p.fromClause :: p.joins.map JoinText.clause ++
    partsClause .whereRows [.whereRows] (Keyword.and.token true) p.conditions ++
    partsClause .groupBy [.group, .byColumns] commaToken p.groups ++
    partsClause .having [.having] (Keyword.and.token true) p.having ++
    partsClause .orderBy [.order, .byColumns] commaToken p.orderBy?.toList ++
    partsClause .limit [.limit] commaToken p.limit?.toList

/-- The clauses into which the text of the parts should be cut. -/
def statement (p : SelectText) : Statement :=
  ⟨[], p.clauses false, []⟩

def refs (p : SelectText) : List TableRef :=
  p.sources.map (TableText.toRef .source) ++ p.joins.map JoinText.toRef

/-- The picture that the text of the parts should give. -/
def toQuery (p : SelectText) : Query where
  kind := .select
  tables := p.refs.map TableRef.key
  tableRefs := p.refs
  joins := p.joins.map JoinText.toJoin
  distinct := p.distinct
  selectColumns := p.columns
  whereConditions := p.conditions
  whereCells := p.conditions.filterMap Cell.ofString?
  groupByColumns := p.groups
  havingConditions := p.having
  orderBy := p.orderBy?
  limit := p.limit?

structure WellFormed (p : SelectText) : Prop where
  columns_ne_nil : p.columns ≠ []
  columns : ∀ c ∈ p.columns, IsItem c
  /-- Without the flag the columns do not start with a word that is read as one. -/
  flag : p.distinct = false → ∀ c ∈ p.columns.head?, ∀ t ∈ (partTokens c).head?,
    t.isKeyword .distinct = false ∧ t.isKeyword .all = false
  sources_ne_nil : p.sources ≠ []
  sources : ∀ t ∈ p.sources, t.WellFormed
  joins : ∀ j ∈ p.joins, j.WellFormed
  joinsApart : Clause.JoinsApart (p.clauses true)
  conditions : ∀ c ∈ p.conditions, IsCondition c
  groups : ∀ c ∈ p.groups, IsItem c
  having : ∀ c ∈ p.having, IsCondition c
  orderBy : ∀ c ∈ p.orderBy?, IsPart c
  limit : ∀ c ∈ p.limit?, IsPart c
  keys : (p.refs.map TableRef.key).Nodup

end SelectText
end SqlWalk
