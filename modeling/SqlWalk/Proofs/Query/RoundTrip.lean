import SqlWalk.Proofs.Query.Keys
import SqlWalk.Proofs.Query.Printing

namespace SqlWalk

open Token

variable {s : String} {ts : List Token} {parts : List String} {t : TableText} {j : JoinText}
  {js : List JoinText} {p : SelectText} {kind : ClauseKind} {words : List Keyword} {u : Token}
  {origin : Origin}

theorem IsPart.fragment_partTokens (h : IsPart s) : fragment (partTokens s) = s := by
  rw [fragment, partTokens, join_respaced]
  exact h.fragment_tokenize

theorem IsPart.partTokens_ne_nil (h : IsPart s) : partTokens s ≠ [] := by
  intro hn
  have hf := h.fragment_partTokens
  rw [hn] at hf
  exact h.ne_empty hf.symm

theorem map_fragment_partTokens (h : ∀ s ∈ parts, IsPart s) :
    (parts.map partTokens).map fragment = parts := by
  rw [List.map_map]
  conv => rhs; rw [← List.map_id parts]
  exact List.map_congr_left fun s hs => (h s hs).fragment_partTokens

theorem filterMap_of_eq_some {α β : Type} {f : α → Option β} {g : α → β} {xs : List α}
    (h : ∀ x ∈ xs, f x = some (g x)) : xs.filterMap f = xs.map g := by
  induction xs with
  | nil => rfl
  | cons x xs ih =>
    obtain ⟨hx, hxs⟩ := List.forall_mem_cons.1 h
    rw [List.filterMap_cons, hx, ih hxs, List.map_cons]

def partsBody (u : Token) (parts : List String) : Option (List Token) :=
  if parts.isEmpty then none else some ([u].intercalate (parts.map partTokens))

theorem getD_partsBody (u : Token) (parts : List String) :
    (partsBody u parts).getD [] = [u].intercalate (parts.map partTokens) := by
  cases parts <;> rfl

theorem find?_partsClause (kind kind' : ClauseKind) (words : List Keyword) (u : Token)
    (parts : List String) :
    ((partsClause kind words u parts).find? (·.kind == kind')).map (·.body) =
      if kind = kind' then partsBody u parts else none := by
  rw [partsClause, partsBody]
  split
  · simp
  · by_cases hk : kind = kind' <;> simp [hk]

theorem find?_joins (js : List JoinText) (hk : ∀ j, kind ≠ .join j) :
    (js.map JoinText.clause).find? (·.kind == kind) = none := by
  rw [List.find?_eq_none]
  intro c hc
  obtain ⟨j, _, rfl⟩ := List.mem_map.1 hc
  rw [beq_iff_eq]
  exact (hk j.kind).symm

theorem joins_append (cs ds : List Clause) : Statement.joins ⟨[], cs ++ ds, []⟩ =
    Statement.joins ⟨[], cs, []⟩ ++ Statement.joins ⟨[], ds, []⟩ :=
  List.filterMap_append

theorem joins_partsClause (words : List Keyword) (u : Token) (parts : List String)
    (hk : ∀ j, kind ≠ .join j) : Statement.joins ⟨[], partsClause kind words u parts, []⟩ = [] := by
  rw [partsClause]
  split
  · rfl
  · cases kind with
    | join j => exact absurd rfl (hk j)
    | _ => rfl

theorem clauseParts_items (h : ∀ s ∈ parts, IsItem s) :
    clauseParts listItems (partsBody commaToken parts) = parts := by
  rw [clauseParts, getD_partsBody, listItems_intercalate rfl]
  · exact map_fragment_partTokens fun s hs => (h s hs).toIsPart
  · intro ts hts
    obtain ⟨s, hs, rfl⟩ := List.mem_map.1 hts
    have hi := h s hs
    exact ⟨hi.partTokens_ne_nil, hi.unbroken.balanced, hi.commaFree⟩

theorem clauseParts_conditions (h : ∀ s ∈ parts, IsCondition s) :
    clauseParts conjuncts (partsBody (Keyword.and.token true) parts) = parts := by
  rw [clauseParts, getD_partsBody, conjuncts_intercalate (Keyword.keyword?_token true .and)]
  · exact map_fragment_partTokens fun s hs => (h s hs).toIsPart
  · intro ts hts
    obtain ⟨s, hs, rfl⟩ := List.mem_map.1 hts
    have hc := h s hs
    exact ⟨hc.partTokens_ne_nil, hc.unbroken.balanced, hc.closesBetween⟩

theorem clauseText?_part {o : Option String} (h : ∀ s ∈ o, IsPart s) :
    clauseText? (partsBody u o.toList) = o := by
  cases o with
  | none => rfl
  | some s =>
    have hs := h s rfl
    have hb : partsBody u (some s).toList = some (partTokens s) := by
      rw [partsBody, Option.toList_some, List.map_singleton, List.intercalate_singleton]
      rfl
    have hf : (some (partTokens s)).filter (!·.isEmpty) = some (partTokens s) := by
      rw [Option.filter_some]
      simp [hs.partTokens_ne_nil]
    rw [hb, clauseText?, hf, Option.map_some, hs.fragment_partTokens]

theorem CommaFree.cons_name {t : Token} (ht : t.isName = true) (h : CommaFree ts) :
    CommaFree (t :: ts) := by
  constructor
  · intro _
    exact isSymbol_of_isName ht ','
  · rw [depthAfter_of_isName ht]
    exact h

theorem commaFree_of_isDotted (h : isDotted ts = true) : CommaFree ts := by
  fun_induction isDotted ts with
  | case1 => trivial
  | case2 => cases h
  | case3 dot t ts ih =>
    obtain ⟨hd, hts⟩ := Bool.and_eq_true_iff.1 h
    obtain ⟨hdot, ht⟩ := Bool.and_eq_true_iff.1 hd
    have hne (c : Char) (hc : '.' ≠ c) : dot.isSymbol c = false := isSymbol_ne hdot hc
    constructor
    · intro _
      exact hne ',' (by decide)
    · rw [depthAfter, hne '(' (by decide), hne ')' (by decide)]
      exact CommaFree.cons_name ht (ih hts)

theorem NamesTable.commaFree (h : NamesTable ts) : CommaFree ts := by
  cases ts with
  | nil => trivial
  | cons t ts =>
    obtain ⟨ht, hts⟩ | ⟨ht, hts, _⟩ := h
    · exact .cons_name ht (commaFree_of_isDotted hts)
    · have hd : t.depthAfter 0 = 1 := by simp [depthAfter, ht]
      constructor
      · intro _
        exact isSymbol_ne ht (by decide)
      · rw [hd]
        exact hts.imp fun _ _ hf => hf.elim

namespace TableText.WellFormed

theorem aliasTokens_cases (h : t.WellFormed) :
    t.alias? = none ∧ t.aliasTokens = [] ∨
      ∃ u : Token, t.alias? = some u.name ∧ u.isName = true ∧ endsTable u = false ∧
        (t.aliasTokens = [Keyword.as.token true, u] ∨
          t.aliasTokens = [u] ∧ u.isKeyword .as = false) := by
  obtain ⟨name, alias?, withAs⟩ := t
  cases alias? with
  | none => exact .inl ⟨rfl, rfl⟩
  | some a =>
    obtain ⟨hp, ha⟩ := h.isAlias a rfl
    have hf := hp.fragment_partTokens
    right
    rw [IsAlias.eq_def] at ha
    split at ha
    · next u hu =>
      obtain ⟨hn, he, has⟩ := ha
      rw [hu] at hf
      have hname : u.name = a := by
        rw [← hf, Token.name, fragment, join, List.flatMap_nil, List.append_nil]
      refine ⟨u, congrArg some hname.symm, hn, he, ?_⟩
      cases withAs with
      | false => exact .inr ⟨hu, has rfl⟩
      | true => exact .inl (congrArg (Keyword.as.token true :: ·) hu)
    · exact ha.elim

theorem commaFree (h : t.WellFormed) : CommaFree t.tokens := by
  have halias : CommaFree t.aliasTokens := by
    obtain ⟨_, ha⟩ | ⟨u, _, hn, _, ha | ⟨ha, _⟩⟩ := h.aliasTokens_cases
    · rw [ha]
      trivial
    · rw [ha]
      exact .cons_name rfl (.cons_name hn trivial)
    · rw [ha]
      exact .cons_name hn trivial
  rw [tokens, CommaFree, outside_append, h.name.unbroken.balanced]
  exact ⟨h.namesTable.commaFree, halias⟩

theorem ofTokens?_tokens (h : t.WellFormed) :
    TableRef.ofTokens? origin t.tokens = some (t.toRef origin) := by
  have hcases := h.aliasTokens_cases
  rw [tokens, TableRef.ofTokens?_append h.namesTable, h.name.fragment_partTokens, toRef]
  · obtain ⟨hnone, ha⟩ | ⟨u, hsome, hn, he, ha | ⟨ha, has⟩⟩ := hcases
    · rw [ha, hnone]
      rfl
    · rw [ha, hsome, aliasOf?_as (Keyword.keyword?_token true .as) hn he]
    · rw [ha, hsome, aliasOf?_bare has hn he]
  · intro v hv
    obtain ⟨_, ha⟩ | ⟨u, _, hn, _, ha | ⟨ha, _⟩⟩ := hcases
    · rw [ha] at hv
      cases hv
    · rw [ha] at hv
      cases hv
      rfl
    · rw [ha] at hv
      cases hv
      exact isSymbol_of_isName hn '.'

end TableText.WellFormed

theorem JoinText.WellFormed.ofTokens?_body (h : j.WellFormed) :
    Join.ofTokens? j.kind j.clause.body = some (j.toRef, j.toJoin) := by
  obtain ⟨kind, table, on?⟩ := j
  have hr : TableRef.ofTokens? .join table.tokens = some (table.toRef .join) :=
    h.table.ofTokens?_tokens
  cases on? with
  | none =>
    have hj := Join.ofTokens?_bare kind h.unconditional h.table.unbroken.balanced hr
    rw [clause, conditionTokens, List.append_nil]
    exact hj
  | some c =>
    have hj := Join.ofTokens?_on kind h.unconditional h.table.unbroken.balanced hr
      (Keyword.keyword?_token true .on) (partTokens c)
    rw [(h.on c rfl).fragment_partTokens] at hj
    exact hj

theorem selectList_of_not_flag {t : Token} (hd : t.isKeyword .distinct = false)
    (ha : t.isKeyword .all = false) : selectList (t :: ts) = (false, t :: ts) := by
  rw [selectList]
  split
  · next hk =>
    rw [isKeyword_iff.2 hk] at hd
    cases hd
  · next hk =>
    rw [isKeyword_iff.2 hk] at ha
    cases ha
  · rfl

namespace SelectText

theorem body?_select (p : SelectText) :
    p.statement.body? .select = some (p.selectClause false).body :=
  rfl

theorem body?_from (p : SelectText) : p.statement.body? .fromTables = some p.fromClause.body :=
  rfl

theorem body?_parts (p : SelectText) (hs : kind ≠ .select) (hf : kind ≠ .fromTables)
    (hj : ∀ j, kind ≠ .join j) : p.statement.body? kind =
      (if .whereRows = kind then partsBody (Keyword.and.token true) p.conditions else none).or
        ((if .groupBy = kind then partsBody commaToken p.groups else none).or
          ((if .having = kind then partsBody (Keyword.and.token true) p.having else none).or
            ((if .orderBy = kind then partsBody commaToken p.orderBy?.toList else none).or
              (if .limit = kind then partsBody commaToken p.limit?.toList else none)))) := by
  have hselect : (p.selectClause false).kind ≠ kind := hs.symm
  have hfrom : p.fromClause.kind ≠ kind := hf.symm
  simp [-List.find?_map, statement, Statement.body?, clauses, hselect, hfrom,
    find?_joins p.joins hj, find?_partsClause, Option.map_or]

theorem body?_where (p : SelectText) :
    p.statement.body? .whereRows = partsBody (Keyword.and.token true) p.conditions := by
  simp [body?_parts]

theorem body?_groupBy (p : SelectText) :
    p.statement.body? .groupBy = partsBody commaToken p.groups := by
  simp [body?_parts]

theorem body?_having (p : SelectText) :
    p.statement.body? .having = partsBody (Keyword.and.token true) p.having := by
  simp [body?_parts]

theorem body?_orderBy (p : SelectText) :
    p.statement.body? .orderBy = partsBody commaToken p.orderBy?.toList := by
  simp [body?_parts]

theorem body?_limit (p : SelectText) :
    p.statement.body? .limit = partsBody commaToken p.limit?.toList := by
  simp [body?_parts]

namespace WellFormed

theorem selectList_body (h : p.WellFormed) : selectList (p.selectClause false).body =
    (p.distinct, [commaToken].intercalate (p.columns.map partTokens)) := by
  rw [selectClause]
  cases hd : p.distinct with
  | true => simp [selectList]
  | false =>
    obtain ⟨c, cs, hc⟩ := List.exists_cons_of_ne_nil h.columns_ne_nil
    have hmem : c ∈ p.columns := hc ▸ List.mem_cons_self
    obtain ⟨t, ts, ht⟩ := List.exists_cons_of_ne_nil (h.columns c hmem).partTokens_ne_nil
    obtain ⟨hdistinct, hall⟩ := h.flag hd c (by rw [hc]; rfl) t (by rw [ht]; rfl)
    rw [hc, List.map_cons, ht, List.intercalate_cons_cons_left]
    exact selectList_of_not_flag hdistinct hall

theorem clauseParts_columns (h : p.WellFormed) : clauseParts listItems
    (some ([commaToken].intercalate (p.columns.map partTokens))) = p.columns := by
  have hbody := clauseParts_items h.columns
  rw [partsBody, if_neg (by simp [h.columns_ne_nil])] at hbody
  exact hbody

theorem filterMap_listItems (h : p.WellFormed) :
    (listItems p.fromClause.body).filterMap (TableRef.ofTokens? .source) =
      p.sources.map (TableText.toRef .source) := by
  rw [fromClause, listItems_intercalate rfl, List.filterMap_map]
  · exact filterMap_of_eq_some fun t ht => (h.sources t ht).ofTokens?_tokens
  · intro ts hts
    obtain ⟨t, ht, rfl⟩ := List.mem_map.1 hts
    have hw := h.sources t ht
    refine ⟨?_, hw.unbroken.balanced, hw.commaFree⟩
    rw [TableText.tokens]
    exact List.append_ne_nil_of_left_ne_nil hw.name.partTokens_ne_nil _

theorem joins_statement (h : p.WellFormed) :
    p.statement.joins = p.joins.map fun j => (j.toRef, j.toJoin) := by
  have hjoins : Statement.joins ⟨[], p.joins.map JoinText.clause, []⟩ =
      p.joins.map fun j => (j.toRef, j.toJoin) := by
    rw [Statement.joins, List.filterMap_map]
    exact filterMap_of_eq_some fun j hj => (h.joins j hj).ofTokens?_body
  have hfront : Statement.joins ⟨[], p.selectClause false :: p.fromClause ::
      p.joins.map JoinText.clause, []⟩ = p.joins.map fun j => (j.toRef, j.toJoin) :=
    hjoins
  simp only [statement, clauses, joins_append, hfront, joins_partsClause, ne_eq, reduceCtorEq,
    not_false_eq_true, implies_true, List.append_nil]

theorem foldl_addRef_refs (h : p.WellFormed) : (p.sources.map (TableText.toRef .source) ++
    (p.joins.map fun j => (j.toRef, j.toJoin)).map (·.1)).foldl addRef [] = p.refs := by
  rw [List.map_map]
  exact foldl_addRef h.keys

end WellFormed

/-- Reading a printed statement gives the picture its parts determine. -/
theorem ofText_print (p : SelectText) (h : p.WellFormed) :
    Query.ofText p.print = p.toQuery := by
  have hkind : Query.kindOf (tokenize p.print.toList) = .select := by
    rw [h.tokenize_print]
    rfl
  rw [Query.ofText, Query.ofTokens, h.ofTokens_tokenize_print, hkind]
  simp only [body?_from]
  rw [Query.ofStatement]
  simp only [body?_select, body?_where, body?_groupBy, body?_having, body?_orderBy, body?_limit,
    Option.getD_some, h.selectList_body, h.filterMap_listItems, h.joins_statement,
    h.foldl_addRef_refs, h.clauseParts_columns, clauseParts_conditions h.conditions,
    clauseParts_items h.groups, clauseParts_conditions h.having, clauseText?_part h.orderBy,
    clauseText?_part h.limit]
  simp [toQuery]

def full : SelectText where
  distinct := true
  columns := ["c.region", "SUM(o.total)"]
  sources := [⟨"customers", some "c", true⟩]
  joins := [⟨.left, ⟨"orders", some "o", false⟩, some "o.customer_id = c.id"⟩]
  conditions := ["o.status = 'paid'", "o.total BETWEEN 10 AND 100"]
  groups := ["c.region"]
  having := ["SUM(o.total) > 500"]
  orderBy? := some "c.region DESC"
  limit? := some "20"

theorem wellFormed_full : full.WellFormed where
  columns_ne_nil := List.cons_ne_nil _ _
  columns := by decide +kernel
  flag := nofun
  sources_ne_nil := List.cons_ne_nil _ _
  sources := by decide +kernel
  joins := by decide +kernel
  joinsApart := by decide +kernel
  conditions := by decide +kernel
  groups := by decide +kernel
  having := by decide +kernel
  orderBy := by decide +kernel
  limit := by decide +kernel
  keys := by decide +kernel

theorem ofText_print_full :
    full.print = "SELECT DISTINCT c.region, SUM(o.total) FROM customers AS c" ++
        " LEFT JOIN orders o ON o.customer_id = c.id" ++
        " WHERE o.status = 'paid' AND o.total BETWEEN 10 AND 100" ++
        " GROUP BY c.region HAVING SUM(o.total) > 500 ORDER BY c.region DESC LIMIT 20" ∧
      Query.ofText full.print = full.toQuery :=
  ⟨by decide +kernel, ofText_print full wellFormed_full⟩

end SelectText
end SqlWalk
