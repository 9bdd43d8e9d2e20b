import SqlWalk.Proofs.Highlight.Chain
import SqlWalk.Proofs.Query.Consistency

namespace SqlWalk

open Token

variable {q : Query} {fragment qualifier key t : String} {fragments : List String}

theorem mem_qualifiers_iff : qualifier ∈ qualifiers fragment ↔
    ∃ before name after, tokenize fragment.toList = before ++ name ++ after ∧
      MaximalName before name after ∧ 1 < (nameParts name).length ∧
        qualifierText (nameParts name) = qualifier := by
  simp only [qualifiers, List.mem_eraseDups, List.mem_map, List.mem_filter, mem_chains_iff,
    decide_eq_true_eq]
  constructor
  · rintro ⟨_, ⟨⟨before, name, after, hts, hm, rfl⟩, hlen⟩, hq⟩
    exact ⟨before, name, after, hts, hm, hlen, hq⟩
  · rintro ⟨before, name, after, hts, hm, hlen, hq⟩
    exact ⟨_, ⟨⟨before, name, after, hts, hm, rfl⟩, hlen⟩, hq⟩

namespace Query

/-- The table has the qualifier as its key; if none has, it is the first with that name. -/
def Means (q : Query) (qualifier key : String) : Prop :=
  qualifier ∈ q.tables ∧ key = qualifier ∨
    qualifier ∉ q.tables ∧ ∃ refs r refs', q.tableRefs = refs ++ r :: refs' ∧
      r.name = qualifier ∧ r.key = key ∧ ∀ r' ∈ refs, r'.name ≠ qualifier

/-- The qualifier of a dotted name in the text, taken as long as it is, means the table. -/
def RefersTo (q : Query) (fragment key : String) : Prop :=
  ∃ before name after, tokenize fragment.toList = before ++ name ++ after ∧
    MaximalName before name after ∧ 1 < (nameParts name).length ∧
      q.Means (qualifierText (nameParts name)) key

theorem Consistent.find?_key_eq_none_iff (h : q.Consistent) :
    q.tableRefs.find? (·.key == qualifier) = none ↔ qualifier ∉ q.tables := by
  simp [h.tables_eq]

theorem Consistent.resolve?_eq_some_iff (h : q.Consistent) :
    q.resolve? qualifier = some key ↔ q.Means qualifier key := by
  constructor
  · intro hq
    obtain ⟨r, hr, rfl⟩ := Option.map_eq_some_iff.1 hq
    rcases Option.or_eq_some_iff.1 hr with hkey | ⟨hnone, hname⟩
    · obtain ⟨hmem, rfl⟩ := h.tableRef?_eq_some_iff.1 hkey
      exact .inl ⟨h.resolve?_mem (h.resolve?_key hmem), rfl⟩
    · obtain ⟨hn, refs, refs', hrefs, hfirst⟩ := List.find?_eq_some_iff_append.1 hname
      refine .inr ⟨h.find?_key_eq_none_iff.1 hnone, refs, r, refs', hrefs, by simpa using hn, rfl, ?_⟩
      intro r' hr'
      simpa using hfirst r' hr'
  · rintro (⟨hmem, rfl⟩ | ⟨hmem, refs, r, refs', hrefs, rfl, rfl, hfirst⟩)
    · rw [h.tables_eq] at hmem
      obtain ⟨r, hr, rfl⟩ := List.mem_map.1 hmem
      exact h.resolve?_key hr
    · have hname : q.tableRefs.find? (·.name == r.name) = some r := by
        refine List.find?_eq_some_iff_append.2 ⟨beq_self_eq_true _, refs, refs', hrefs, ?_⟩
        intro r' hr'
        simpa using hfirst r' hr'
      rw [resolve?, h.find?_key_eq_none_iff.2 hmem, Option.none_or, hname]
      rfl

theorem Consistent.mem_referredTables (h : q.Consistent) :
    key ∈ q.referredTables fragment ↔ q.RefersTo fragment key := by
  simp only [referredTables, List.mem_filterMap, mem_qualifiers_iff, h.resolve?_eq_some_iff]
  constructor
  · rintro ⟨_, ⟨before, name, after, hts, hm, hlen, rfl⟩, hmeans⟩
    exact ⟨before, name, after, hts, hm, hlen, hmeans⟩
  · rintro ⟨before, name, after, hts, hm, hlen, hmeans⟩
    exact ⟨_, ⟨before, name, after, hts, hm, hlen, rfl⟩, hmeans⟩

theorem Consistent.mem_tables_of_refersTo (h : q.Consistent) (hr : q.RefersTo fragment key) :
    key ∈ q.tables := by
  obtain ⟨s, -, hs⟩ := List.mem_filterMap.1 (h.mem_referredTables.2 hr)
  exact h.resolve?_mem hs

/-- One of the texts refers to the table, or none refers to a table and it is the only one. -/
def Concerns (q : Query) (fragments : List String) (key : String) : Prop :=
  (∃ fragment ∈ fragments, q.RefersTo fragment key) ∨
    q.tables = [key] ∧ fragments ≠ [] ∧ ∀ fragment ∈ fragments, ∀ u, ¬q.RefersTo fragment u

theorem Consistent.mem_tablesOfFragments (h : q.Consistent) :
    key ∈ q.tablesOfFragments fragments ↔ q.Concerns fragments key := by
  have hmem (u : String) : u ∈ fragments.flatMap q.referredTables ↔
      ∃ fragment ∈ fragments, q.RefersTo fragment u := by
    simp only [List.mem_flatMap, h.mem_referredTables]
  have hnil : fragments.flatMap q.referredTables = [] ↔
      ∀ fragment ∈ fragments, ∀ u, ¬q.RefersTo fragment u := by
    simp only [List.eq_nil_iff_forall_not_mem, hmem, not_exists, not_and]
    exact ⟨fun hn f hf u => hn u f hf, fun hn u f hf => hn f hf u⟩
  rw [tablesOfFragments, Concerns, ← hmem, ← hnil]
  split
  · next t hkeys htables =>
    rw [hkeys, htables]
    cases fragments <;> simp [eq_comm]
  · next hkeys =>
    refine ⟨.inl, fun hk => hk.elim id ?_⟩
    rintro ⟨htables, -, hnone⟩
    exact (hkeys key hnone htables).elim

theorem Consistent.concerns_iff_of_tables_eq (h : q.Consistent) (ht : q.tables = [t]) :
    q.Concerns fragments t ↔ fragments ≠ [] := by
  constructor
  · rintro (⟨fragment, hf, -⟩ | ⟨-, hne, -⟩)
    · exact List.ne_nil_of_mem hf
    · exact hne
  · intro hne
    by_cases hr : ∃ fragment ∈ fragments, ∃ u, q.RefersTo fragment u
    · obtain ⟨fragment, hf, u, hu⟩ := hr
      have hu' := h.mem_tables_of_refersTo hu
      rw [ht, List.mem_singleton] at hu'
      subst hu'
      exact .inl ⟨fragment, hf, hu⟩
    · refine .inr ⟨ht, hne, ?_⟩
      intro fragment hf u hu
      exact hr ⟨fragment, hf, u, hu⟩

/-- The tables that each step lights up. -/
def Activates (q : Query) (step : Step) (key : String) : Prop :=
  match step with
  | .parse | .select => False
  | .fromTables => ∃ r ∈ q.tableRefs, r.key = key ∧ r.origin = .source
  | .join => ∃ j ∈ q.joins, j.table = key ∨ q.RefersTo j.condition key
  | .whereRows => q.Concerns q.whereConditions key
  | .groupBy => q.Concerns q.groupByColumns key
  | .having => q.Concerns q.havingConditions key
  | .orderBy => q.Concerns q.orderBy.toList key
  | .result => True

theorem Consistent.any_tableRef? (h : q.Consistent) :
    (q.tableRef? key).any (·.origin == .source) = true ↔ q.Activates .fromTables key := by
  simp only [Option.any_eq_true, h.tableRef?_eq_some_iff, beq_iff_eq, and_assoc, Activates]

theorem map_table_markTables (q : Query) (active : String → Bool) :
    (q.markTables active).map (·.table) = q.tables := by
  simp [markTables, Function.comp_def]

theorem active_of_mem_markTables {active : String → Bool} {m : TableMark}
    (hm : m ∈ q.markTables active) : m.active = active m.table := by
  obtain ⟨t, -, rfl⟩ := List.mem_map.1 hm
  rfl

theorem filter_markTables (q : Query) (active : String → Bool) :
    ((q.markTables active).filter (·.active)).map (·.table) = q.tables.filter active := by
  simp [markTables, List.filter_map, Function.comp_def]

theorem map_markJoins (q : Query) (active : Bool) :
    (q.markJoins active).map (fun m => (m.table, m.index)) = (q.joins.map (·.table)).zipIdx := by
  simp [markJoins, List.zipIdx_map, Function.comp_def]

theorem any_markJoins {active : Bool} {i : Nat} :
    (q.markJoins active).any (fun m => m.active && m.index == i) = true ↔
      active = true ∧ i < q.joins.length := by
  simp only [markJoins, List.any_map, List.any_eq_true, Function.comp_apply, Bool.and_eq_true,
    beq_iff_eq]
  constructor
  · rintro ⟨⟨j, k⟩, hj, ha, rfl⟩
    exact ⟨ha, (List.getElem?_eq_some_iff.1 (List.mk_mem_zipIdx_iff_getElem?.1 hj)).1⟩
  · rintro ⟨ha, hi⟩
    exact ⟨(q.joins[i], i), List.mk_mem_zipIdx_iff_getElem?.2 (List.getElem?_eq_getElem hi), ha, rfl⟩

end Query

namespace Highlights

theorem exists_tables_ofStep (h : q.Consistent) (step : Step) : ∃ active,
    (ofStep step q).tables = q.markTables active ∧
      ∀ key, active key = true ↔ q.Activates step key := by
  have hclause (fragments : List String) (key : String) :
      (q.tablesOfFragments fragments).contains key = true ↔ q.Concerns fragments key := by
    rw [List.contains_iff_mem, h.mem_tablesOfFragments]
  cases step with
  | parse | select => exact ⟨_, rfl, fun _ => iff_of_false Bool.false_ne_true id⟩
  | fromTables => exact ⟨_, rfl, fun _ => h.any_tableRef?⟩
  | join =>
    refine ⟨_, rfl, fun key => ?_⟩
    simp only [List.contains_iff_mem, List.mem_append, List.mem_map, List.mem_flatMap,
      h.mem_referredTables, Query.Activates, and_or_left, exists_or]
  | whereRows | groupBy | having | orderBy => exact ⟨_, rfl, hclause _⟩
  | result => exact ⟨_, rfl, fun _ => iff_of_true rfl trivial⟩

theorem mem_activeTables_ofStep (h : q.Consistent) (step : Step) :
    t ∈ (ofStep step q).activeTables ↔ t ∈ q.tables ∧ q.Activates step t := by
  obtain ⟨active, ht, ha⟩ := exists_tables_ofStep h step
  rw [activeTables, ht, q.filter_markTables, List.mem_filter, ha]

theorem activeTables_ofStep_of_tables_eq (h : q.Consistent) {step : Step} (ht : q.tables = [t])
    (hs : q.Activates step t) : (ofStep step q).activeTables = [t] := by
  obtain ⟨active, hm, ha⟩ := exists_tables_ofStep h step
  rw [activeTables, hm, q.filter_markTables, ht, List.filter_singleton, (ha t).2 hs]
  rfl

theorem joins_ofStep (step : Step) (q : Query) :
    (ofStep step q).joins = q.markJoins (step == .join) := by
  cases step <;> rfl

/-- Each step lists all tables and joins, and lights up just the tables that it is about. -/
theorem tables_ofStep_ofText (s : String) (step : Step) :
    let q : Query := .ofText s
    let h := ofStep step q
    h.tables.map (·.table) = q.tables ∧
      (∀ m ∈ h.tables, m.active = true ↔ q.Activates step m.table) ∧
      h.joins.map (fun m => (m.table, m.index)) = (q.joins.map (·.table)).zipIdx ∧
      ∀ i, h.isJoinActive i = true ↔ step = .join ∧ i < q.joins.length := by
  intro q h
  have hq : q.Consistent := Query.consistent_ofTokens (visible_tokenize s.toList)
  obtain ⟨active, ht, ha⟩ := exists_tables_ofStep hq step
  have hj : h.joins = q.markJoins (step == .join) := joins_ofStep step q
  refine ⟨?_, ?_, ?_, ?_⟩
  · rw [ht, q.map_table_markTables]
  · intro m hm
    rw [ht] at hm
    rw [Query.active_of_mem_markTables hm, ha]
  · rw [hj, q.map_markJoins]
  · intro i
    rw [isJoinActive, hj, Query.any_markJoins, beq_iff_eq]

-- A key goes before a name, and columns without a table light up none of two.
theorem tables_ofStep_ofText_two_tables :
    let q := Query.ofText "SELECT * FROM a b, b c WHERE b.x = 1 ORDER BY y"
    (⟨"b", true⟩ ∈ (ofStep .whereRows q).tables ∧ q.Activates .whereRows "b") ∧
      (⟨"c", false⟩ ∈ (ofStep .whereRows q).tables ∧ ¬q.Activates .whereRows "c") ∧
      ⟨"b", false⟩ ∈ (ofStep .orderBy q).tables ∧ ¬q.Activates .orderBy "b" := by
  intro q
  have hb : ⟨"b", true⟩ ∈ (ofStep .whereRows q).tables := by decide +kernel
  have hc : ⟨"c", false⟩ ∈ (ofStep .whereRows q).tables := by decide +kernel
  have ho : ⟨"b", false⟩ ∈ (ofStep .orderBy q).tables := by decide +kernel
  have h := tables_ofStep_ofText "SELECT * FROM a b, b c WHERE b.x = 1 ORDER BY y"
  obtain ⟨-, hwhere, -⟩ := h .whereRows
  obtain ⟨-, horder, -⟩ := h .orderBy
  refine ⟨⟨hb, (hwhere _ hb).1 rfl⟩, ⟨hc, ?_⟩, ho, ?_⟩
  · intro ha
    exact Bool.false_ne_true ((hwhere _ hc).2 ha)
  · intro ha
    exact Bool.false_ne_true ((horder _ ho).2 ha)

end Highlights
end SqlWalk
