import SqlWalk.Proofs.Query.Keys
import SqlWalk.Proofs.Query.Skeleton

namespace SqlWalk

variable {ts : List Token} {s : Statement} {q q' : Query}

/-- How a query is structured: which clauses it has, and how many parts in each. -/
structure Outline where
  kind : StatementKind
  distinct : Bool
  joins : List JoinKind
  plan : Plan
  columns : Nat
  conditions : Nat
  groups : Nat
  having : Nat
  isOrdered : Bool
  isLimited : Bool
  deriving DecidableEq, Repr

def Query.outline (q : Query) : Outline where
  kind := q.kind
  distinct := q.distinct
  joins := q.joins.map (·.kind)
  plan := .ofQuery q
  columns := q.selectColumns.length
  conditions := q.whereConditions.length
  groups := q.groupByColumns.length
  having := q.havingConditions.length
  isOrdered := q.orderBy.isSome
  isLimited := q.limit.isSome

theorem kind_of_joinOfTokens? (kind : JoinKind) (ts : List Token) :
    (Join.ofTokens? kind ts).map (·.2.kind) = (cutTable (cutCondition 0 ts).1).map fun _ => kind := by
  simp [Join.ofTokens?, TableRef.ofTokens?, Option.map_map, Function.comp_def]

theorem map_const_eq {α β : Type} {o o' : Option α} (h : o.isSome = o'.isSome) (b : β) :
    o.map (fun _ => b) = o'.map fun _ => b := by
  cases o <;> cases o' <;> simp_all

theorem Statement.map_kind_joins_skeleton (s : Statement) :
    (s.skeleton 0).joins.map (·.2.kind) = s.joins.map (·.2.kind) := by
  simp only [joins, skeleton, List.filterMap_map, List.map_filterMap]
  congr 1
  funext c
  simp only [Function.comp_apply, Clause.skeleton]
  cases c.kind with
  | join kind =>
    have hc := fst_cutCondition_skeleton 0 c.body
    rw [Nat.zero_min] at hc
    have ht := isSome_cutTable_skeleton (cutCondition 0 c.body).1
    simp only [kind_of_joinOfTokens?, hc]
    exact map_const_eq ht kind
  | _ => rfl

theorem isSome_ofTokens?_skeleton (origin : Origin) (ts : List Token) :
    (TableRef.ofTokens? origin (skeleton 0 ts)).isSome = (TableRef.ofTokens? origin ts).isSome := by
  simp only [TableRef.ofTokens?, Option.isSome_map, isSome_cutTable_skeleton]

theorem length_clauseParts {split : List Token → List (List Token)}
    (h : ∀ ts, split (skeleton 0 ts) = (split ts).map (skeleton 0)) (body : Option (List Token)) :
    (clauseParts split (body.map (skeleton 0))).length = (clauseParts split body).length := by
  cases body with
  | none => rfl
  | some ts => simp [clauseParts, h]

theorem isSome_clauseText?_skeleton (body : Option (List Token)) :
    (clauseText? (body.map (skeleton 0))).isSome = (clauseText? body).isSome := by
  cases body with
  | none => rfl
  | some ts =>
    cases ts with
    | nil => rfl
    | cons t ts =>
      rw [Option.map_some, skeleton_zero_cons]
      rfl

theorem isEmpty_congr {α β : Type} {l : List α} {l' : List β} (h : l.length = l'.length) :
    l.isEmpty = l'.isEmpty := by
  cases l <;> cases l' <;> simp_all

namespace Query

theorem outline_congr (hkind : q.kind = q'.kind) (hdistinct : q.distinct = q'.distinct)
    (htables : q.tables.isEmpty = q'.tables.isEmpty)
    (hjoins : q.joins.map (·.kind) = q'.joins.map (·.kind))
    (hcolumns : q.selectColumns.length = q'.selectColumns.length)
    (hconditions : q.whereConditions.length = q'.whereConditions.length)
    (hgroups : q.groupByColumns.length = q'.groupByColumns.length)
    (hhaving : q.havingConditions.length = q'.havingConditions.length)
    (horder : q.orderBy.isSome = q'.orderBy.isSome) (hlimit : q.limit.isSome = q'.limit.isSome) :
    q.outline = q'.outline := by
  have hlength : q.joins.length = q'.joins.length := by
    simpa using congrArg List.length hjoins
  have hsteps : Step.isPlannedFor q = Step.isPlannedFor q' := by
    funext s
    cases s with
    | join => exact congrArg not (isEmpty_congr hlength)
    | whereRows => exact congrArg not (isEmpty_congr hconditions)
    | groupBy => exact congrArg not (isEmpty_congr hgroups)
    | having => exact congrArg not (isEmpty_congr hhaving)
    | orderBy => exact horder
    | _ => rfl
  have hplan : Plan.ofQuery q = Plan.ofQuery q' := by
    rw [Plan.ofQuery, Plan.ofQuery, isEmpty, isEmpty, htables, hsteps]
  simp only [outline, hkind, hdistinct, hjoins, hplan, hcolumns, hconditions, hgroups, hhaving,
    horder, hlimit]

theorem isEmpty_tables_ofStatement (kind : StatementKind) (s : Statement) (source : List Token) :
    (ofStatement kind s source).tables.isEmpty =
      (((listItems source).filterMap (TableRef.ofTokens? .source)).isEmpty && s.joins.isEmpty) := by
  simp [ofStatement, isEmpty_foldl_addRef]

theorem length_sources_skeleton (source : List Token) :
    ((listItems (skeleton 0 source)).filterMap (TableRef.ofTokens? .source)).length =
      ((listItems source).filterMap (TableRef.ofTokens? .source)).length := by
  simp [listItems_skeleton, List.length_filterMap_eq_countP, isSome_ofTokens?_skeleton]

theorem selectList_body_skeleton (s : Statement) :
    selectList (((s.skeleton 0).body? .select).getD []) =
      ((selectList ((s.body? .select).getD [])).1,
        skeleton 0 (selectList ((s.body? .select).getD [])).2) := by
  rw [s.body?_skeleton, ← selectList_skeleton]
  cases s.body? .select <;> rfl

theorem outline_ofStatement_skeleton (kind : StatementKind) (s : Statement) (source : List Token) :
    (ofStatement kind (s.skeleton 0) (skeleton 0 source)).outline =
      (ofStatement kind s source).outline := by
  have hjoins := s.map_kind_joins_skeleton
  have hselect := selectList_body_skeleton s
  apply outline_congr
  case hkind => rfl
  case hdistinct => simp only [ofStatement, hselect]
  case htables =>
    have hempty : (s.skeleton 0).joins.isEmpty = s.joins.isEmpty :=
      isEmpty_congr (by simpa using congrArg List.length hjoins)
    rw [isEmpty_tables_ofStatement, isEmpty_tables_ofStatement, hempty,
      isEmpty_congr (length_sources_skeleton source)]
  case hjoins => simpa [ofStatement, Function.comp_def] using hjoins
  case hcolumns =>
    simp only [ofStatement, hselect]
    exact length_clauseParts listItems_skeleton (some _)
  case hconditions =>
    simp only [ofStatement, s.body?_skeleton]
    exact length_clauseParts conjuncts_skeleton _
  case hgroups =>
    simp only [ofStatement, s.body?_skeleton]
    exact length_clauseParts listItems_skeleton _
  case hhaving =>
    simp only [ofStatement, s.body?_skeleton]
    exact length_clauseParts conjuncts_skeleton _
  case horder =>
    simp only [ofStatement, s.body?_skeleton]
    exact isSome_clauseText?_skeleton _
  case hlimit =>
    simp only [ofStatement, s.body?_skeleton]
    exact isSome_clauseText?_skeleton _

theorem kindOf_skeleton (ts : List Token) : kindOf (skeleton 0 ts) = kindOf ts := by
  cases ts with
  | nil => rfl
  | cons t ts =>
    rw [skeleton_zero_cons]
    by_cases hk : t.kind = .word
    · have ht := t.keyword?_bare
      simp only [Token.keyword?, Token.kind_bare, hk, if_true] at ht
      simp [kindOf, hk, StatementKind.ofWord, ht]
    · simp [kindOf, hk]

theorem outline_skeleton (ts : List Token) :
    (ofTokens (skeleton 0 ts)).outline = (ofTokens ts).outline := by
  simp only [ofTokens, Statement.ofTokens_skeleton, Statement.body?_skeleton, kindOf_skeleton]
  cases (Statement.ofTokens ts).body? .fromTables with
  | none => rfl
  | some source => exact outline_ofStatement_skeleton _ _ source

end Query
end SqlWalk
