import SqlWalk.Proofs.Query.SelectText

namespace SqlWalk

open Token

variable {s opening separator : String} {words : List Keyword} {parts : List String}
  {t : TableText} {j : JoinText} {p : SelectText} {kind : ClauseKind} {gap : Bool}

theorem Spells.keywords (ks : List Keyword) :
    Spells (ks.flatMap fun k => ' ' :: k.spelling.toList) (ks.map (Keyword.token true)) := by
  induction ks with
  | nil => exact nil
  | cons k ks ih => exact (keyword k).append ih

theorem Spells.intercalate {α : Type} {f : α → List Char} {g : α → List Token} {a : List Char}
    {us : List Token} {xs : List α} (ha : Spells a us) (hne : xs ≠ [])
    (h : ∀ x ∈ xs, Spells (' ' :: f x) (g x)) :
    Spells (' ' :: (a ++ [' ']).intercalate (xs.map f)) (us.intercalate (xs.map g)) := by
  induction xs with
  | nil => exact absurd rfl hne
  | cons x xs ih =>
    obtain ⟨hx, hxs⟩ := List.forall_mem_cons.1 h
    cases xs with
    | nil =>
      rw [List.map_singleton, List.map_singleton, List.intercalate_singleton,
        List.intercalate_singleton]
      exact hx
    | cons y ys =>
      have hrest := (hx.append ha).append (ih (List.cons_ne_nil y ys) hxs)
      rw [List.map_cons, List.map_cons, List.map_cons, List.map_cons, List.intercalate_cons_cons,
        List.intercalate_cons_cons]
      simpa using hrest

theorem IsPart.spells (h : IsPart s) : Spells (' ' :: s.toList) (partTokens s) := by
  apply Spells.of_closed h.closed
  · have hf := congrArg String.toList h.fragment_tokenize
    rw [fragment, String.toList_ofList] at hf
    exact hf
  · intro hs
    exact h.ne_empty (String.toList_eq_nil_iff.1 hs)

theorem IsPart.of_spells {u : Token} {us : List Token}
    (h : Spells (' ' :: s.toList) (respaced true (u :: us)))
    (hu : Unbroken (respaced true (u :: us))) :
    IsPart s ∧ partTokens s = respaced true (u :: us) := by
  have htokens := h.tokenize_eq
  have hpart : partTokens s = respaced true (u :: us) := by
    rw [partTokens, htokens, respaced_respaced]
  refine ⟨⟨?_, ?_, h.closed_of_spaced, hpart ▸ hu⟩, hpart⟩
  · rintro rfl
    cases htokens
  · have hjoin : join (u :: us) = s.toList := (List.cons.inj h.text).2
    rw [htokens, fragment, join_respaced, hjoin, String.ofList_toList]

theorem TableText.WellFormed.spells (h : t.WellFormed) : Spells (' ' :: t.print.toList) t.tokens := by
  obtain ⟨name, alias?, withAs⟩ := t
  have hname := h.name.spells
  cases alias? with
  | none =>
    rw [tokens, aliasTokens, List.append_nil]
    exact hname
  | some a =>
    have ha := (h.isAlias a rfl).1.spells
    cases withAs with
    | false =>
      have hs := hname.append ha
      simpa [print, tokens, aliasTokens] using hs
    | true =>
      have hs := hname.append ((Spells.keyword .as).append ha)
      simpa [print, tokens, aliasTokens, Keyword.spelling] using hs

theorem JoinText.WellFormed.spells (h : j.WellFormed) : Spells j.print.toList j.clause.tokens := by
  obtain ⟨kind, table, on?⟩ := j
  have hopen : (opening kind).toList =
      (kind.words.flatMap fun k => ' ' :: k.spelling.toList) ++ [' '] := by
    cases kind <;> decide
  have hs := (Spells.keywords kind.words).append h.table.spells
  cases on? with
  | none =>
    simpa [print, hopen, clause, Clause.tokens, conditionTokens] using hs
  | some c =>
    have hc := hs.append ((Spells.keyword .on).append (h.on c rfl).spells)
    simpa [print, hopen, clause, Clause.tokens, conditionTokens, Keyword.spelling] using hc

theorem spells_printParts {a : List Char} {t : Token} (ha : Spells a [t])
    (hs : separator.toList = a ++ [' '])
    (ho : opening.toList = (words.flatMap fun k => ' ' :: k.spelling.toList) ++ [' '])
    (h : ∀ s ∈ parts, IsPart s) :
    Spells (printParts opening separator parts).toList
      ((partsClause kind words t parts).flatMap Clause.tokens) := by
  by_cases hne : parts = []
  · subst hne
    exact Spells.nil
  · have hlist := Spells.intercalate ha hne fun s hm => (h s hm).spells
    have hall := (Spells.keywords words).append hlist
    simpa [printParts, partsClause, hne, ho, hs, String.toList_intercalate, Clause.tokens] using hall

theorem spells_joins {js : List JoinText} (h : ∀ j ∈ js, j.WellFormed) :
    Spells (String.join (js.map JoinText.print)).toList
      ((js.map JoinText.clause).flatMap Clause.tokens) := by
  induction js with
  | nil => exact Spells.nil
  | cons j js ih =>
    obtain ⟨hj, hjs⟩ := List.forall_mem_cons.1 h
    have hs := hj.spells.append (ih hjs)
    simpa [String.join_cons] using hs

namespace SelectText.WellFormed

theorem spells_select (h : p.WellFormed) :
    Spells (' ' :: ((if p.distinct then "SELECT DISTINCT " else "SELECT ") ++
      ", ".intercalate p.columns).toList) (p.selectClause true).tokens := by
  have hcols := Spells.intercalate .comma h.columns_ne_nil fun s hm => (h.columns s hm).spells
  have hsel := Spells.keyword .select
  cases hd : p.distinct with
  | false =>
    have hs := hsel.append hcols
    simpa [selectClause, Clause.tokens, hd, Keyword.spelling, String.toList_intercalate] using hs
  | true =>
    have hs := hsel.append ((Spells.keyword .distinct).append hcols)
    simpa [selectClause, Clause.tokens, hd, Keyword.spelling, String.toList_intercalate] using hs

theorem spells_from (h : p.WellFormed) :
    Spells (" FROM " ++ ", ".intercalate (p.sources.map TableText.print)).toList
      p.fromClause.tokens := by
  have hrefs := Spells.intercalate .comma h.sources_ne_nil fun t hm => (h.sources t hm).spells
  have hs := (Spells.keyword .fromTables).append hrefs
  simpa [fromClause, Clause.tokens, Keyword.spelling, String.toList_intercalate,
    Function.comp_def] using hs

theorem spells_print (h : p.WellFormed) :
    Spells (' ' :: p.print.toList) ((p.clauses true).flatMap Clause.tokens) := by
  have hand : Spells (' ' :: Keyword.and.spelling.toList) [Keyword.and.token true] := .keyword .and
  have hwhere : Spells (printParts " WHERE " " AND " p.conditions).toList
      ((partsClause .whereRows [.whereRows] (Keyword.and.token true) p.conditions).flatMap
        Clause.tokens) :=
    spells_printParts hand rfl rfl fun s hm => (h.conditions s hm).toIsPart
  have hgroup : Spells (printParts " GROUP BY " ", " p.groups).toList
      ((partsClause .groupBy [.group, .byColumns] commaToken p.groups).flatMap Clause.tokens) :=
    spells_printParts .comma rfl rfl fun s hm => (h.groups s hm).toIsPart
  have hhaving : Spells (printParts " HAVING " " AND " p.having).toList
      ((partsClause .having [.having] (Keyword.and.token true) p.having).flatMap Clause.tokens) :=
    spells_printParts hand rfl rfl fun s hm => (h.having s hm).toIsPart
  have horder : Spells (printParts " ORDER BY " ", " p.orderBy?.toList).toList
      ((partsClause .orderBy [.order, .byColumns] commaToken p.orderBy?.toList).flatMap
        Clause.tokens) :=
    spells_printParts .comma rfl rfl fun s hm => h.orderBy s (Option.mem_toList.1 hm)
  have hlimit : Spells (printParts " LIMIT " ", " p.limit?.toList).toList
      ((partsClause .limit [.limit] commaToken p.limit?.toList).flatMap Clause.tokens) :=
    spells_printParts .comma rfl rfl fun s hm => h.limit s (Option.mem_toList.1 hm)
  have hfront := h.spells_select.append (h.spells_from.append (spells_joins h.joins))
  have hback := hwhere.append (hgroup.append (hhaving.append (horder.append hlimit)))
  simpa [print, clauses] using hfront.append hback

theorem tokenize_print (h : p.WellFormed) :
    tokenize p.print.toList = (p.clauses false).flatMap Clause.tokens :=
  Spells.tokenize_eq (t := Keyword.select.token true) h.spells_print

end SelectText.WellFormed

theorem Keyword.neutral_token (k : Keyword) (h : k ∉ .group :: .order :: .byColumns :: breaking)
    (gap : Bool) : (k.token gap).Neutral :=
  .of_keyword? (keyword?_token gap k) h

theorem TableText.WellFormed.unbroken (h : t.WellFormed) : Unbroken t.tokens where
  plain := h.plain
  balanced := by
    rw [tokens, depthFrom_append, h.name.unbroken.balanced, aliasTokens]
    split
    · rfl
    · next a ha =>
      have hb := (h.isAlias a ha).1.unbroken.balanced
      rw [depthFrom_append]
      split
      · exact hb
      · exact hb

theorem JoinText.WellFormed.wellCut (h : j.WellFormed) : j.clause.WellCut where
  opens := by
    intro rest
    cases hk : j.kind <;>
      simp [clause, hk, JoinKind.words, clauseHead?, joinHead?, isJoinModifier, isKeyword,
        JoinKind.ofModifiers, JoinKind.ofModifier?]
  body := by
    apply h.table.unbroken.append
    · rw [conditionTokens]
      split
      · exact .nil
      · next c hc =>
        exact .cons (Keyword.neutral_token .on (by decide) true) (h.on c hc).unbroken
    · rw [conditionTokens]
      split
      · rfl
      · simp [isKeyword]

theorem neutral_commaToken : commaToken.Neutral :=
  .of_not_keyword rfl rfl rfl

theorem wellCut_partsClause {u : Token} (hu : u.Neutral)
    (hopen : ∀ rest, clauseHead? (words.map (Keyword.token true) ++ rest) =
      some (kind, words.length))
    (h : ∀ s ∈ parts, IsPart s) : ∀ c ∈ partsClause kind words u parts, c.WellCut := by
  intro c hc
  rw [partsClause] at hc
  split at hc
  · cases hc
  · obtain rfl := List.mem_singleton.1 hc
    refine ⟨?_, Unbroken.intercalate hu fun s hs => (h s hs).unbroken⟩
    rw [List.length_map]
    exact hopen

namespace SelectText.WellFormed

theorem wellCut_select (h : p.WellFormed) (gap : Bool) : (p.selectClause gap).WellCut where
  opens := by
    intro rest
    simp [selectClause, clauseHead?]
  body := by
    have hcols := Unbroken.intercalate neutral_commaToken fun s hs => (h.columns s hs).unbroken
    rw [selectClause]
    split
    · exact .cons (Keyword.neutral_token .distinct (by decide) true) hcols
    · exact hcols

theorem wellCut_from (h : p.WellFormed) : p.fromClause.WellCut where
  opens := by
    intro rest
    simp [fromClause, clauseHead?]
  body := Unbroken.intercalate neutral_commaToken fun t ht => (h.sources t ht).unbroken

theorem wellCut_clauses (h : p.WellFormed) (gap : Bool) : ∀ c ∈ p.clauses gap, c.WellCut := by
  have hand : (Keyword.and.token true).Neutral := Keyword.neutral_token .and (by decide) true
  have hjoins : ∀ c ∈ p.joins.map JoinText.clause, c.WellCut := by
    intro c hc
    obtain ⟨j, hj, rfl⟩ := List.mem_map.1 hc
    exact (h.joins j hj).wellCut
  have hwhere : ∀ c ∈ partsClause .whereRows [.whereRows] (Keyword.and.token true) p.conditions,
      c.WellCut :=
    wellCut_partsClause hand (by simp [clauseHead?]) fun s hs => (h.conditions s hs).toIsPart
  have hgroup : ∀ c ∈ partsClause .groupBy [.group, .byColumns] commaToken p.groups, c.WellCut :=
    wellCut_partsClause neutral_commaToken (by simp [clauseHead?, isKeyword])
      fun s hs => (h.groups s hs).toIsPart
  have hhaving : ∀ c ∈ partsClause .having [.having] (Keyword.and.token true) p.having,
      c.WellCut :=
    wellCut_partsClause hand (by simp [clauseHead?]) fun s hs => (h.having s hs).toIsPart
  have horder : ∀ c ∈ partsClause .orderBy [.order, .byColumns] commaToken p.orderBy?.toList,
      c.WellCut :=
    wellCut_partsClause neutral_commaToken (by simp [clauseHead?, isKeyword])
      fun s hs => h.orderBy s (Option.mem_toList.1 hs)
  have hlimit : ∀ c ∈ partsClause .limit [.limit] commaToken p.limit?.toList, c.WellCut :=
    wellCut_partsClause neutral_commaToken (by simp [clauseHead?])
      fun s hs => h.limit s (Option.mem_toList.1 hs)
  intro c hc
  simp only [clauses, List.mem_append, List.mem_cons] at hc
  obtain (((((rfl | rfl | hc) | hc) | hc) | hc) | hc) | hc := hc
  · exact h.wellCut_select gap
  · exact h.wellCut_from
  · exact hjoins c hc
  · exact hwhere c hc
  · exact hgroup c hc
  · exact hhaving c hc
  · exact horder c hc
  · exact hlimit c hc

/-- A printed statement is cut into the clauses it was printed from. -/
theorem ofTokens_tokenize_print (h : p.WellFormed) :
    Statement.ofTokens (tokenize p.print.toList) = p.statement := by
  rw [h.tokenize_print]
  exact Statement.ofTokens_flatMap_tokens (h.wellCut_clauses false) h.joinsApart

end SelectText.WellFormed
end SqlWalk
