import SqlWalk.Query.Cell

namespace SqlWalk

def pushToken (t : Token) : List (List Token) → List (List Token)
  | [] => [[t]]
  | p :: ps => (t :: p) :: ps

/-- Splits a token list outside parentheses. The separator sees each token there and says whether to
split at it; it may note a fact about the tokens seen so far. -/
def splitOutside (separator : Bool → Token → Bool × Bool) :
    (noted : Bool) → (depth : Nat) → List Token → List (List Token)
  | _, _, [] => [[]]
  | noted, depth, t :: ts =>
    if depth = 0 then
      match separator noted t with
      | (true, noted) => [] :: splitOutside separator noted 0 ts
      | (false, noted) => pushToken t (splitOutside separator noted (t.depthAfter 0) ts)
    else pushToken t (splitOutside separator noted (t.depthAfter depth) ts)

def commaSeparator (noted : Bool) (t : Token) : Bool × Bool :=
  (t.isSymbol ',', noted)

/-- AND separates, except the first one behind a BETWEEN; what is noted is such a BETWEEN. -/
def andSeparator (between : Bool) (t : Token) : Bool × Bool :=
  match t.keyword? with
  | some .between => (false, true)
  | some .and => (!between, false)
  | _ => (false, between)

def listItems (ts : List Token) : List (List Token) :=
  (splitOutside commaSeparator false 0 ts).filter (!·.isEmpty)

def conjuncts (ts : List Token) : List (List Token) :=
  (splitOutside andSeparator false 0 ts).filter (!·.isEmpty)

/-- Cuts a token list behind the parenthesis that closes the ones open, if there is one. -/
def cutGroup (depth : Nat) : List Token → Option (List Token × List Token)
  | [] => none
  | t :: ts =>
    if t.isSymbol ')' && t.depthAfter depth == 0 then some ([t], ts)
    else (cutGroup (t.depthAfter depth) ts).map fun (group, rest) => (t :: group, rest)

def cutDotted : List Token → List Token × List Token
  | dot :: t :: ts =>
    if dot.isSymbol '.' && t.isName then (dot :: t :: (cutDotted ts).1, (cutDotted ts).2)
    else ([], dot :: t :: ts)
  | ts => ([], ts)

/-- Cuts tokens behind the table in front: a dotted name, or a subquery in parentheses. -/
def cutTable : List Token → Option (List Token × List Token)
  | [] => none
  | t :: ts =>
    if t.isSymbol '(' then cutGroup 0 (t :: ts)
    else if t.isName then some (t :: (cutDotted ts).1, (cutDotted ts).2)
    else none

/-- The words that continue the statement behind a table, and so are no alias. -/
def endsTable (t : Token) : Bool :=
  match t.keyword? with
  | some .on | some .usingColumns | some .whereRows | some .join | some .inner | some .left
  | some .right | some .full | some .outer | some .cross | some .natural | some .group
  | some .order | some .having | some .limit | some .offset | some .withTables | some .forRows
  | some .union | some .set => true
  | _ => false

def aliasOf? (ts : List Token) : Option String :=
  let ts := if ts.head?.any (·.isKeyword .as) then ts.drop 1 else ts
  (ts.head?.filter fun t => t.isName && !endsTable t).map (·.name)

def TableRef.ofTokens? (origin : Origin) (ts : List Token) : Option TableRef :=
  (cutTable ts).map fun (name, rest) => ⟨Token.fragment name, aliasOf? rest, origin⟩

/-- Cuts a token list before the first ON or USING outside parentheses. -/
def cutCondition (depth : Nat) : List Token → List Token × List Token
  | [] => ([], [])
  | t :: ts =>
    if t.depthAfter depth = 0 && (t.isKeyword .on || t.isKeyword .usingColumns) then ([], t :: ts)
    else
      let (table, condition) := cutCondition (t.depthAfter depth) ts
      (t :: table, condition)

/-- The text of a join condition: ON is left out, USING belongs to it. -/
def conditionText : List Token → String
  | [] => ""
  | t :: ts => if t.isKeyword .on then Token.fragment ts else Token.fragment (t :: ts)

def Join.ofTokens? (kind : JoinKind) (ts : List Token) : Option (TableRef × Join) :=
  let (table, condition) := cutCondition 0 ts
  (TableRef.ofTokens? .join table).map fun r => (r, ⟨r.key, conditionText condition, kind⟩)

def addRef (refs : List TableRef) (r : TableRef) : List TableRef :=
  if refs.any (·.key == r.key) then refs else refs ++ [r]

/-- The columns of a SELECT body behind DISTINCT or ALL, and whether it was DISTINCT. -/
def selectList (ts : List Token) : Bool × List Token :=
  match ts with
  | [] => (false, [])
  | t :: rest =>
    match t.keyword? with
    | some .distinct => (true, rest)
    | some .all => (false, rest)
    | _ => (false, t :: rest)

def clauseText? (body : Option (List Token)) : Option String :=
  (body.filter (!·.isEmpty)).map Token.fragment

def clauseParts (split : List Token → List (List Token)) (body : Option (List Token)) :
    List String :=
  (split (body.getD [])).map Token.fragment

namespace Statement

def joins (s : Statement) : List (TableRef × Join) :=
  s.clauses.filterMap fun c =>
    match c.kind with
    | .join kind => Join.ofTokens? kind c.body
    | _ => none

end Statement

namespace Query

def ofStatement (kind : StatementKind) (s : Statement) (source : List Token) : Query :=
  let sources := (listItems source).filterMap (TableRef.ofTokens? .source)
  let refs := (sources ++ s.joins.map (·.1)).foldl addRef []
  let (distinct, columns) := selectList ((s.body? .select).getD [])
  let conditions := clauseParts conjuncts (s.body? .whereRows)
  { kind
    tables := refs.map (·.key)
    tableRefs := refs
    joins := s.joins.map (·.2)
    distinct
    selectColumns := clauseParts listItems (some columns)
    whereConditions := conditions
    whereCells := conditions.filterMap Cell.ofString?
    groupByColumns := clauseParts listItems (s.body? .groupBy)
    havingConditions := clauseParts conjuncts (s.body? .having)
    orderBy := clauseText? (s.body? .orderBy)
    limit := clauseText? (s.body? .limit) }

def kindOf : List Token → StatementKind
  | [] => .empty
  | t :: _ => if t.kind = .word then .ofWord t.text else .other

/-- The picture of a token list. A statement without FROM has nothing to show. -/
def ofTokens (ts : List Token) : Query :=
  let s := Statement.ofTokens ts
  match s.body? .fromTables with
  | some source => ofStatement (kindOf ts) s source
  | none => blank (kindOf ts)

def ofText (s : String) : Query :=
  ofTokens (tokenize s.toList)

end Query
end SqlWalk
