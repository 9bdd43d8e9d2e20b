namespace SqlWalk

/-- The words that open or join clauses, and those that a table's alias must not be. -/
inductive Keyword where
  | select | distinct | all | fromTables | join | on | usingColumns | whereRows
  | group | byColumns | having | order | limit | offset | and | between | as
  | inner | left | right | full | outer | cross | natural
  | union | intersect | except
  | withTables | forRows | set
  | insert | update | delete
  deriving DecidableEq, Repr

namespace Keyword

def spelling : Keyword → String
  | select => "SELECT"
  | distinct => "DISTINCT"
  | all => "ALL"
  | fromTables => "FROM"
  | join => "JOIN"
  | on => "ON"
  | usingColumns => "USING"
  | whereRows => "WHERE"
  | group => "GROUP"
  | byColumns => "BY"
  | having => "HAVING"
  | order => "ORDER"
  | limit => "LIMIT"
  | offset => "OFFSET"
  | and => "AND"
  | between => "BETWEEN"
  | as => "AS"
  | inner => "INNER"
  | left => "LEFT"
  | right => "RIGHT"
  | full => "FULL"
  | outer => "OUTER"
  | cross => "CROSS"
  | natural => "NATURAL"
  | union => "UNION"
  | intersect => "INTERSECT"
  | except => "EXCEPT"
  | withTables => "WITH"
  | forRows => "FOR"
  | set => "SET"
  | insert => "INSERT"
  | update => "UPDATE"
  | delete => "DELETE"

def every : List Keyword :=
  [select, distinct, all, fromTables, join, on, usingColumns, whereRows, group, byColumns, having,
    order, limit, offset, and, between, as, inner, left, right, full, outer, cross, natural,
    union, intersect, except, withTables, forRows, set, insert, update, delete]

def ofText? (word : List Char) : Option Keyword :=
  every.find? fun k => k.spelling.toList == word.map Char.toUpper

end Keyword
end SqlWalk
