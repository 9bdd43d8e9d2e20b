import SqlWalk.Proofs.Highlight.Marks

namespace SqlWalk

variable {q : Query} {step : Step} {t : String}

namespace Step

def clauses : List Step :=
  [join, whereRows, groupBy, having, orderBy]

theorem isPlannedFor_iff (h : step ∈ clauses) : step.isPlannedFor q = true ↔
    (Highlights.ofStep step q).conditions ≠ [] ∨ (Highlights.ofStep step q).columns ≠ [] := by
  cases step with
  | parse | select | fromTables | result => exact absurd h (by decide)
  | join | whereRows | groupBy | having | orderBy =>
    simp [isPlannedFor, Highlights.ofStep, Highlights.none, Option.isSome_iff_ne_none]

theorem activates_of_isPlannedFor (h : q.Consistent) (ht : q.tables = [t])
    (hs : step ∈ result :: clauses) (hp : step.isPlannedFor q = true) : q.Activates step t := by
  cases step with
  | parse | select | fromTables => exact absurd hs (by decide)
  | join =>
    obtain ⟨j, hj⟩ := List.exists_mem_of_ne_nil q.joins (by simpa [isPlannedFor] using hp)
    have htable := h.joins j hj
    rw [ht, List.mem_singleton] at htable
    exact ⟨j, hj, .inl htable⟩
  | whereRows | groupBy | having | orderBy =>
    refine (h.concerns_iff_of_tables_eq ht).2 ?_
    simpa [isPlannedFor, Option.isSome_iff_ne_none] using hp
  | result => trivial

end Step

namespace Plan

theorem steps_ofQuery (h : q.tables ≠ []) :
    (ofQuery q).steps = Step.canonical.filter (·.isPlannedFor q) := by
  simp [ofQuery, Query.isEmpty, h]

theorem isEmpty_ofQuery_iff : (ofQuery q).isEmpty = true ↔ q.tables = [] := by
  by_cases h : q.tables = []
  · simp [isEmpty, ofQuery, Query.isEmpty, h]
  · simp [isEmpty, steps_ofQuery h, h, Step.canonical, Step.isPlannedFor]

theorem mem_steps_ofQuery (h : q.tables ≠ []) :
    step ∈ (ofQuery q).steps ↔ step.isPlannedFor q = true := by
  rw [steps_ofQuery h, List.mem_filter, and_iff_right step.mem_canonical]

theorem pairwise_steps_ofQuery (q : Query) : (ofQuery q).steps.Pairwise
    fun a b => Step.canonical.idxOf a < Step.canonical.idxOf b := by
  have hc : Step.canonical.Pairwise fun a b => Step.canonical.idxOf a < Step.canonical.idxOf b := by
    decide
  by_cases h : q.tables = []
  · simp [ofQuery, Query.isEmpty, h]
  · rw [steps_ofQuery h]
    exact hc.filter _

theorem steps_ofQuery_eq_append (h : q.tables ≠ []) : (ofQuery q).steps =
    [.parse, .select, .fromTables] ++ Step.clauses.filter (·.isPlannedFor q) ++ [.result] := by
  have hc : Step.canonical = [.parse, .select, .fromTables] ++ Step.clauses ++ [.result] := rfl
  rw [steps_ofQuery h, hc, List.filter_append, List.filter_append]
  rfl

/-- A plan is empty just for a query without tables. Any other one goes from parsing to the result
in canonical order, with a step for each clause that has something to show. -/
theorem ofQuery_ofText (s : String) :
    let q : Query := .ofText s
    let p := ofQuery q
    (p.isEmpty = true ↔ q.tables = []) ∧
      (q.tables ≠ [] →
        p.steps.Pairwise (fun a b => Step.canonical.idxOf a < Step.canonical.idxOf b) ∧
          [.parse, .select, .fromTables] <+: p.steps ∧ p.steps.getLast? = some .result ∧
          (∀ step ∈ Step.clauses, step ∈ p.steps ↔
            (Highlights.ofStep step q).conditions ≠ [] ∨ (Highlights.ofStep step q).columns ≠ []) ∧
          ∀ t, q.tables = [t] → ∀ step ∈ p.steps, step ∈ .result :: Step.clauses →
            (Highlights.ofStep step q).activeTables = [t]) := by
  intro q p
  have hq : q.Consistent := Query.consistent_ofTokens (visible_tokenize s.toList)
  refine ⟨isEmpty_ofQuery_iff, ?_⟩
  intro h
  have hsteps : p.steps = _ := steps_ofQuery_eq_append h
  refine ⟨pairwise_steps_ofQuery q, ?_, ?_, ?_, ?_⟩
  · rw [hsteps, List.append_assoc]
    exact List.prefix_append _ _
  · rw [hsteps]
    exact List.getLast?_concat
  · intro step hstep
    rw [mem_steps_ofQuery h, Step.isPlannedFor_iff hstep]
  · intro t ht step hp hstep
    have hplanned := (mem_steps_ofQuery h).1 hp
    apply Highlights.activeTables_ofStep_of_tables_eq hq ht
    exact Step.activates_of_isPlannedFor hq ht hstep hplanned

theorem ofQuery_ofText_two_clauses :
    let q := Query.ofText "SELECT name FROM users u WHERE active = 1 ORDER BY name"
    q.tables = ["u"] ∧ q.tables ≠ [] ∧
      (ofQuery q).steps = [.parse, .select, .fromTables, .whereRows, .orderBy, .result] ∧
      ((Highlights.ofStep .orderBy q).conditions ≠ [] ∨
        (Highlights.ofStep .orderBy q).columns ≠ []) ∧
      (Highlights.ofStep .whereRows q).activeTables = ["u"] := by
  intro q
  have htables : q.tables = ["u"] := by decide +kernel
  have hne : q.tables ≠ [] := by rw [htables]; exact List.cons_ne_nil _ _
  have hsteps : (ofQuery q).steps =
      [.parse, .select, .fromTables, .whereRows, .orderBy, .result] := by
    decide +kernel
  obtain ⟨-, h⟩ := ofQuery_ofText "SELECT name FROM users u WHERE active = 1 ORDER BY name"
  obtain ⟨-, -, -, hshown, hactive⟩ := h hne
  have horder : .orderBy ∈ (ofQuery q).steps := by rw [hsteps]; decide
  have hwhere : .whereRows ∈ (ofQuery q).steps := by rw [hsteps]; decide
  exact ⟨htables, hne, hsteps, (hshown .orderBy (by decide)).1 horder,
    hactive "u" htables .whereRows hwhere (by decide)⟩

end Plan
end SqlWalk
