import SqlWalk.Proofs.Query.FirstStatement
import SqlWalk.Proofs.Query.Keys
import SqlWalk.Proofs.Query.Stretch

namespace SqlWalk

open Token

variable {d : Nat} {ts : List Token} {r : TableRef} {j : Join} {key : String} {q : Query}

theorem TableRef.origin_eq {origin : Origin} (h : ofTokens? origin ts = some r) :
    r.origin = origin := by
  obtain ⟨_, -, rfl⟩ := Option.map_eq_some_iff.1 h
  rfl

theorem Join.ofTokens?_eq_some {join : JoinKind} (h : ofTokens? join ts = some (r, j)) :
    r.origin = .join ∧ j.table = r.key := by
  obtain ⟨r', hr, he⟩ := Option.map_eq_some_iff.1 h
  cases he
  exact ⟨TableRef.origin_eq hr, rfl⟩

theorem Statement.of_mem_joins {s : Statement} (h : (r, j) ∈ s.joins) :
    r.origin = .join ∧ j.table = r.key := by
  obtain ⟨c, -, hc⟩ := List.mem_filterMap.1 h
  split at hc
  · exact Join.ofTokens?_eq_some hc
  · cases hc

/-- No FROM stands outside parentheses in the first statement. -/
def Sourceless (ts : List Token) : Prop :=
  Outside (fun t _ => t.isKeyword .fromTables = false) 0 (firstStatement 0 ts)

instance (ts : List Token) : Decidable (Sourceless ts) :=
  inferInstanceAs (Decidable (Outside _ 0 (firstStatement 0 ts)))

namespace Statement

theorem kind_ne_fromTables (h : Outside (fun t _ => t.isKeyword .fromTables = false) d ts) :
    ∀ c ∈ (scanFrom 0 d ts).clauses, c.kind ≠ .fromTables := by
  induction d, ts using scanFrom_induction with
  | nil d => exact nofun
  | ended t ts he =>
    rw [scanFrom_ended he]
    exact nofun
  | opened kind ks ts hc ih =>
    obtain ⟨hks, hts⟩ := outside_append.1 h
    rw [depthFrom_keywords (keyword?_of_head hc)] at hts
    rw [scanFrom_opened hc]
    refine List.forall_mem_cons.2 ⟨?_, ih hts⟩
    rintro rfl
    cases ks with
    | nil => exact absurd (clauseHead?_bounds hc).1 (by simp)
    | cons t ks =>
      have ht := isKeyword_iff.2 (keyword?_of_clauseHead?_fromTables hc)
      exact Bool.false_ne_true ((hks.1 rfl).symm.trans ht)
  | other d t ts hc ih =>
    rw [scanFrom_other hc]
    exact ih h.2

theorem body?_fromTables_of_sourceless (h : Sourceless ts) :
    (ofTokens ts).body? .fromTables = none := by
  rw [body?, Option.map_eq_none_iff, List.find?_eq_none, ← clauses_firstStatement]
  intro c hc
  rw [beq_iff_eq]
  exact kind_ne_fromTables h c hc

end Statement

namespace Query

def clauseTexts (q : Query) : List String :=
  q.selectColumns ++ q.whereConditions ++ q.groupByColumns ++ q.havingConditions ++
    q.orderBy.toList ++ q.limit.toList

/-- What holds of a query that comes from a text, whether the text makes sense or not. -/
structure Consistent (q : Query) : Prop where
  tables_eq : q.tables = q.tableRefs.map TableRef.key
  nodup : q.tables.Nodup
  sourcesFirst : q.tableRefs.Pairwise fun a b => b.origin = .source → a.origin = .source
  joins : ∀ j ∈ q.joins, j.table ∈ q.tables
  cells : q.whereCells = q.whereConditions.filterMap Cell.ofString?
  clauseTexts : "" ∉ q.clauseTexts

theorem Consistent.nodup_keys (h : q.Consistent) : (q.tableRefs.map TableRef.key).Nodup :=
  h.tables_eq ▸ h.nodup

theorem Consistent.eq_of_key_eq (h : q.Consistent) {r' : TableRef} (hr : r ∈ q.tableRefs)
    (hr' : r' ∈ q.tableRefs) (hk : r.key = r'.key) : r = r' :=
  List.inj_on_of_nodup_map h.nodup_keys hr hr' hk

theorem Consistent.tableRef?_eq_some_iff (h : q.Consistent) :
    q.tableRef? key = some r ↔ r ∈ q.tableRefs ∧ r.key = key := by
  constructor
  · intro hr
    exact ⟨List.mem_of_find?_eq_some hr, by simpa using List.find?_some hr⟩
  · rintro ⟨hr, rfl⟩
    cases hf : q.tableRef? r.key with
    | none => exact absurd (beq_self_eq_true r.key) (List.find?_eq_none.1 hf r hr)
    | some r' =>
      have hm : r' ∈ q.tableRefs := List.mem_of_find?_eq_some hf
      have hk : r'.key = r.key := by simpa using List.find?_some hf
      rw [h.eq_of_key_eq hm hr hk]

theorem Consistent.resolve?_key (h : q.Consistent) (hr : r ∈ q.tableRefs) :
    q.resolve? r.key = some r.key := by
  have hf : q.tableRefs.find? (·.key == r.key) = some r := h.tableRef?_eq_some_iff.2 ⟨hr, rfl⟩
  rw [resolve?, hf]
  rfl

theorem Consistent.resolve?_mem (h : q.Consistent) {qualifier : String}
    (hq : q.resolve? qualifier = some key) : key ∈ q.tables := by
  obtain ⟨r, hr, rfl⟩ := Option.map_eq_some_iff.1 hq
  rw [h.tables_eq]
  apply List.mem_map_of_mem
  rcases Option.or_eq_some_iff.1 hr with hkey | ⟨-, hname⟩
  · exact List.mem_of_find?_eq_some hkey
  · exact List.mem_of_find?_eq_some hname

theorem consistent_blank (kind : StatementKind) : (blank kind).Consistent :=
  ⟨rfl, List.nodup_nil, .nil, nofun, rfl, nofun⟩

theorem empty_notMem_clauseTexts_ofStatement (hv : Visible ts) (kind : StatementKind)
    (source : List Token) : "" ∉ (ofStatement kind (Statement.ofTokens ts) source).clauseTexts := by
  have hbody := Statement.getD_body?_infix ts
  have hcolumns :
      (some (selectList (((Statement.ofTokens ts).body? .select).getD [])).2).getD [] <:+: ts :=
    (selectList_suffix _).isInfix.trans (hbody .select)
  have hselect := hv.clauseParts cuts_listItems hcolumns
  have hwhere := hv.clauseParts cuts_conjuncts (hbody .whereRows)
  have hgroup := hv.clauseParts cuts_listItems (hbody .groupBy)
  have hhaving := hv.clauseParts cuts_conjuncts (hbody .having)
  have horder := hv.clauseText? (hbody .orderBy)
  have hlimit := hv.clauseText? (hbody .limit)
  simp only [clauseTexts, List.mem_append, Option.mem_toList, not_or]
  exact ⟨⟨⟨⟨⟨hselect, hwhere⟩, hgroup⟩, hhaving⟩, horder⟩, hlimit⟩

theorem consistent_ofStatement (hv : Visible ts) (kind : StatementKind) (source : List Token) :
    (ofStatement kind (Statement.ofTokens ts) source).Consistent where
  tables_eq := rfl
  nodup := by
    apply nodup_keys_foldl_addRef
    exact List.nodup_nil
  sourcesFirst := by
    apply pairwise_foldl_addRef
    · intro r hr
      obtain ⟨p, -, hp⟩ := List.mem_filterMap.1 hr
      exact TableRef.origin_eq hp
    · intro r hr
      obtain ⟨⟨r, j⟩, hm, rfl⟩ := List.mem_map.1 hr
      exact (Statement.of_mem_joins hm).1
  joins := by
    intro j hj
    obtain ⟨⟨r, j⟩, hm, rfl⟩ := List.mem_map.1 hj
    rw [(Statement.of_mem_joins hm).2]
    apply mem_keys_foldl_addRef.2
    have hr : r ∈ (Statement.ofTokens ts).joins.map (·.1) := List.mem_map_of_mem hm
    exact List.mem_map_of_mem (List.mem_append_right [] (List.mem_append_right _ hr))
  cells := rfl
  clauseTexts := empty_notMem_clauseTexts_ofStatement hv kind source

theorem consistent_ofTokens (hv : Visible ts) : (ofTokens ts).Consistent := by
  rw [ofTokens]
  split
  · exact consistent_ofStatement hv _ _
  · exact consistent_blank _

theorem ofTokens_of_sourceless (h : Sourceless ts) : ofTokens ts = blank (kindOf ts) := by
  rw [ofTokens, Statement.body?_fromTables_of_sourceless h]

/-- Every text, however malformed, gives a consistent query. -/
theorem consistent_ofText (s : String) :
    let q : Query := ofText s
    (q.tables = q.tableRefs.map TableRef.key ∧ q.tables.Nodup) ∧
      (q.tableRefs.Pairwise fun a b => b.origin = .source → a.origin = .source) ∧
      (∀ j ∈ q.joins, j.table ∈ q.tables) ∧
      (∀ r ∈ q.tableRefs, q.tableRef? r.key = some r ∧ q.resolve? r.key = some r.key) ∧
      (∀ qualifier, ∀ key ∈ q.resolve? qualifier, key ∈ q.tables) ∧
      q.whereCells = q.whereConditions.filterMap Cell.ofString? ∧
      ("" ∉ q.selectColumns ∧ "" ∉ q.whereConditions ∧ "" ∉ q.groupByColumns ∧
        "" ∉ q.havingConditions ∧ q.orderBy ≠ some "" ∧ q.limit ≠ some "") ∧
      (Sourceless (tokenize s.toList) → q = blank q.kind) := by
  intro q
  have h : q.Consistent := consistent_ofTokens (visible_tokenize s.toList)
  refine ⟨⟨h.tables_eq, h.nodup⟩, h.sourcesFirst, h.joins, ?_, ?_, h.cells, ?_, ?_⟩
  · exact fun r hr => ⟨h.tableRef?_eq_some_iff.2 ⟨hr, rfl⟩, h.resolve?_key hr⟩
  · exact fun qualifier key hq => h.resolve?_mem hq
  · have ht := h.clauseTexts
    simp only [clauseTexts, List.mem_append, Option.mem_toList, not_or, and_assoc] at ht
    exact ht
  · intro hs
    have hq : q = blank (kindOf (tokenize s.toList)) := ofTokens_of_sourceless hs
    rw [hq]
    rfl

/-- A FROM in parentheses, or in a statement behind the first one, gives no tables. -/
theorem consistent_ofText_sourceless :
    let s := "SELECT (SELECT a FROM t) WHERE b = 1; SELECT c FROM u"
    Sourceless (tokenize s.toList) ∧ ofText s = blank .select := by
  intro s
  have h : Sourceless (tokenize s.toList) := by decide
  have hk : (ofText s).kind = .select := by decide
  obtain ⟨-, -, -, -, -, -, -, hblank⟩ := consistent_ofText s
  refine ⟨h, ?_⟩
  rw [hblank h, hk]

/-- A join to a table whose key is taken stays, and belongs to the table that took it. -/
example : (ofText "SELECT a FROM t u, t JOIN v u ON u.a = t.a").tables = ["u", "t"] ∧
    (ofText "SELECT a FROM t u, t JOIN v u ON u.a = t.a").joins = [⟨"u", "u.a = t.a", .inner⟩] := by
  decide

end Query
end SqlWalk
