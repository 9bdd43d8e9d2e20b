import SqlWalk.Proofs.Lexing.Locality
import SqlWalk.Proofs.Query.Parts

namespace SqlWalk

open Token

variable {separator : Bool → Token → Bool × Bool} {a front : List Char} {u : Token}
  {ts us body ks p : List Token} {parts : List (List Token)} {kind : ClauseKind}

theorem Token.Legible.lexesBefore_space (h : Legible (ts ++ u :: us)) :
    ∀ t ∈ ts.getLast?, t.LexesBefore [' '] := by
  intro t ht
  obtain ⟨vs, rfl⟩ := List.getLast?_eq_some_iff.1 ht
  rw [List.append_assoc] at h
  obtain ⟨hlast, hrest⟩ := h.of_append.2
  apply hlast.of_delimits
  refine .inr ⟨hrest.flatMap_ne_nil (List.cons_ne_nil u us), ?_⟩
  rintro c ⟨⟩
  exact isInert_space

/-- Parts that come apart again when put together. Only the last one may be left open. -/
structure Rejoinable (separator : Bool → Token → Bool × Bool) (parts : List (List Token)) :
    Prop where
  ne_nil : ∀ p ∈ parts, p ≠ []
  legible : ∀ p ∈ parts, Legible p
  plain : ∀ p ∈ parts, Outside Plain 0 p
  whole : ∀ p ∈ parts, (passOver separator false 0 p).isSome = true
  settled : ∀ p ∈ parts.dropLast, passOver separator false 0 p = some (false, 0)
  ended : ∀ p ∈ parts.dropLast, ∀ t ∈ p.getLast?, t.LexesBefore [' ']

theorem dropLast_filter_subset {α : Type} (f : α → Bool) (xs : List α) :
    (xs.filter f).dropLast ⊆ xs.dropLast := by
  rcases List.eq_nil_or_concat xs with rfl | ⟨ys, y, rfl⟩
  · exact List.Subset.refl _
  rw [List.concat_eq_append, List.filter_append, List.dropLast_concat]
  cases hy : f y with
  | true =>
    rw [List.filter_cons_of_pos hy, List.filter_nil, List.dropLast_concat]
    exact List.filter_sublist.subset
  | false =>
    rw [List.filter_cons_of_neg (by simp [hy]), List.filter_nil, List.append_nil]
    intro x hx
    exact List.filter_sublist.subset (List.dropLast_subset _ hx)

theorem rejoinable_splitOutside (hs : Settles separator) (hl : Legible body)
    (hp : Outside Plain 0 body) :
    Rejoinable separator ((splitOutside separator false 0 body).filter (!·.isEmpty)) where
  ne_nil := by
    intro p hm
    simpa using (List.mem_filter.1 hm).2
  legible := by
    intro p hm
    exact hl.of_infix (infix_of_mem_splitOutside (List.mem_filter.1 hm).1)
  plain := by
    intro p hm
    obtain ⟨us, vs, rfl, hd, -⟩ := exists_of_mem_splitOutside hs (List.mem_filter.1 hm).1
    exact hp.of_append_prefix hd
  whole := by
    intro p hm
    obtain ⟨-, -, -, -, hw⟩ := exists_of_mem_splitOutside hs (List.mem_filter.1 hm).1
    exact hw
  settled := by
    intro p hm
    obtain ⟨-, -, -, -, hsettled⟩ :=
      exists_of_mem_dropLast_splitOutside hs (dropLast_filter_subset _ _ hm)
    exact hsettled
  ended := by
    intro p hm
    obtain ⟨us, t, vs, rfl, -⟩ :=
      exists_of_mem_dropLast_splitOutside hs (dropLast_filter_subset _ _ hm)
    rw [List.append_assoc] at hl
    exact hl.of_append.2.lexesBefore_space

namespace Rejoinable

theorem tail {ps : List (List Token)} {q : List Token} (h : Rejoinable separator (p :: q :: ps)) :
    Rejoinable separator (q :: ps) where
  ne_nil := (List.forall_mem_cons.1 h.ne_nil).2
  legible := (List.forall_mem_cons.1 h.legible).2
  plain := (List.forall_mem_cons.1 h.plain).2
  whole := (List.forall_mem_cons.1 h.whole).2
  settled := (List.forall_mem_cons.1 h.settled).2
  ended := (List.forall_mem_cons.1 h.ended).2

theorem respaced (h : Rejoinable separator parts) (hs : SeesBare separator) :
    Rejoinable separator (parts.map (respaced true)) where
  ne_nil := by
    rw [List.forall_mem_map]
    intro p hm
    obtain ⟨t, ts, rfl⟩ := List.exists_cons_of_ne_nil (h.ne_nil p hm)
    exact List.cons_ne_nil _ _
  legible := List.forall_mem_map.2 fun p hm => legible_respaced.2 (h.legible p hm)
  plain := List.forall_mem_map.2 fun p hm => (h.plain p hm).respaced true
  whole := by
    rw [List.forall_mem_map]
    intro p hm
    rw [passOver_respaced hs]
    exact h.whole p hm
  settled := by
    rw [← List.map_dropLast, List.forall_mem_map]
    intro p hm
    rw [passOver_respaced hs]
    exact h.settled p hm
  ended := by
    rw [← List.map_dropLast, List.forall_mem_map]
    exact fun p hm => lexesBefore_respaced (h.ended p hm) true

theorem plain_intercalate (h : Rejoinable separator parts) (hu : u.Neutral) :
    Outside Plain 0 ([u].intercalate parts) := by
  induction parts with
  | nil => trivial
  | cons p parts ih =>
    have hp := h.plain p List.mem_cons_self
    cases parts with
    | nil =>
      rw [List.intercalate_singleton]
      exact hp
    | cons q qs =>
      have hd : depthFrom 0 p = 0 := depthFrom_of_passOver (h.settled p List.mem_cons_self)
      rw [List.intercalate_cons_cons, List.append_assoc, outside_append, hd]
      refine ⟨hp.imp fun t vs ht => ht.append hu.isKeyword_by, fun _ => hu.plain _, ?_⟩
      rw [hu.depth]
      exact ih h.tail

theorem flatMap_intercalate (h : ∀ p ∈ parts, p ≠ []) (ha : Spells a [u]) (hne : parts ≠ []) :
    ([u].intercalate (parts.map (Token.respaced true))).flatMap spacedText =
      ' ' :: (a ++ [' ']).intercalate (parts.map join) := by
  induction parts with
  | nil => exact absurd rfl hne
  | cons p parts ih =>
    obtain ⟨hp, hps⟩ := List.forall_mem_cons.1 h
    have hjoin : (Token.respaced true p).flatMap spacedText = ' ' :: join p := by
      obtain ⟨t, ts, rfl⟩ := List.exists_cons_of_ne_nil hp
      rfl
    cases parts with
    | nil =>
      rw [List.map_singleton, List.map_singleton, List.intercalate_singleton,
        List.intercalate_singleton, hjoin]
    | cons q qs =>
      have hi := ih hps (List.cons_ne_nil q qs)
      rw [List.map_cons, List.map_cons] at hi ⊢
      rw [List.map_cons, List.map_cons, List.intercalate_cons_cons, List.intercalate_cons_cons,
        List.flatMap_append, List.flatMap_append, hjoin, ha.text, hi]
      simp

theorem legible_intercalate (h : Rejoinable separator parts) (ha : Spells a [u]) :
    Legible ([u].intercalate (parts.map (Token.respaced true))) := by
  induction parts with
  | nil => trivial
  | cons p parts ih =>
    have hp : Legible (Token.respaced true p) :=
      legible_respaced.2 (h.legible p List.mem_cons_self)
    cases parts with
    | nil =>
      rw [List.map_singleton, List.intercalate_singleton]
      exact hp
    | cons q qs =>
      have htext := flatMap_intercalate h.tail.ne_nil ha (List.cons_ne_nil q qs)
      have hi := ih h.tail
      rw [List.map_cons] at htext hi
      rw [List.map_cons, List.map_cons, List.intercalate_cons_cons, List.append_assoc]
      apply hp.append
      · apply ha.legible.append hi ha.closed
        rw [htext]
        rintro c ⟨⟩
        exact isInert_space
      · exact lexesBefore_respaced (h.ended p List.mem_cons_self) true
      · have hne : a ≠ [] := ha.text ▸ ha.legible.flatMap_ne_nil (List.cons_ne_nil u [])
        obtain ⟨c, b, rfl⟩ := List.exists_cons_of_ne_nil hne
        rw [List.flatMap_append, ha.text]
        exact ha.inert

end Rejoinable

def tableTokens : List Token :=
  [Keyword.select.token false, ⟨.symbol, ['*'], true⟩, Keyword.fromTables.token true,
    ⟨.word, ['t'], true⟩]

def tableStatement (c : Clause) : Statement :=
  ⟨[], [⟨.select, [Keyword.select.token false], [⟨.symbol, ['*'], true⟩]⟩,
    ⟨.fromTables, [Keyword.fromTables.token true], [⟨.word, ['t'], true⟩]⟩, c], []⟩

theorem Statement.ofTokens_tableTokens (ho : Opens kind ks) (hp : Outside Plain 0 body) :
    ofTokens (tableTokens ++ (ks ++ body)) = tableStatement ⟨kind, ks, body⟩ := by
  have hselect : Opens .select [Keyword.select.token false] := .word (Keyword.keyword?_token _ _) rfl
  have hfrom : Opens .fromTables [Keyword.fromTables.token true] :=
    .word (Keyword.keyword?_token _ _) rfl
  have hstar : Unbroken [⟨.symbol, ['*'], true⟩] := by decide
  have hname : Unbroken [⟨.word, ['t'], true⟩] := by decide
  have hby : (ks ++ body).head?.any (·.isKeyword .byColumns) = false := by
    obtain ⟨t, us, rfl, k, hk, ht⟩ := ho.exists_cons
    have hne : ∀ k ∈ Keyword.opening, (some k == some Keyword.byColumns) = false := by decide
    simp [isKeyword, ht, hne k hk]
  have hclause : scanFrom 0 0 (ks ++ body) = ⟨[], [⟨kind, ks, body⟩], []⟩ := by
    rw [scanFrom_opened (ho.clauseHead?_append body), scanFrom_plain hp]
    rfl
  have hsource : scanFrom 0 0 ([Keyword.fromTables.token true] ++
      ([⟨.word, ['t'], true⟩] ++ (ks ++ body))) =
        ⟨[], (tableStatement ⟨kind, ks, body⟩).clauses.tail, []⟩ := by
    rw [scanFrom_opened (hfrom.clauseHead?_append _),
      scanFrom_unbroken hname hby (.inr (by decide)), hclause]
    rfl
  change scanFrom 0 0 ([Keyword.select.token false] ++ ([⟨.symbol, ['*'], true⟩] ++
    ([Keyword.fromTables.token true] ++ ([⟨.word, ['t'], true⟩] ++ (ks ++ body))))) = _
  rw [scanFrom_opened (hselect.clauseHead?_append _),
    scanFrom_unbroken hstar rfl (.inr (by decide)), hsource]
  rfl

theorem Rejoinable.tokenize_append (h : Rejoinable separator parts) (ha : Spells a [u])
    (hc : Closed front) (hn : tokenize front ≠ []) :
    tokenize (front ++ ' ' :: (a ++ [' ']).intercalate (parts.map join)) =
      tokenize front ++ [u].intercalate (parts.map (Token.respaced true)) := by
  rw [hc.tokenize_space_append hn, List.append_cancel_left_eq]
  by_cases hne : parts = []
  · subst hne
    rfl
  · rw [← ofLexemes_scan_blank (c := ' ') rfl false, ← flatMap_intercalate h.ne_nil ha hne,
      (h.legible_intercalate ha).ofLexemes_scan]

namespace Query

/-- Says that one of the lists of a query has the texts of the parts of one of its clauses. -/
structure ListsParts (list : Query → List String) (kind : ClauseKind)
    (separator : Bool → Token → Bool × Bool) : Prop where
  settles : Settles separator
  blank : ∀ k, list (blank k) = []
  ofStatement : ∀ k s source, list (ofStatement k s source) =
    clauseParts (fun ts => (splitOutside separator false 0 ts).filter (!·.isEmpty)) (s.body? kind)

theorem listsParts_where : ListsParts whereConditions .whereRows andSeparator :=
  ⟨settles_and, fun _ => rfl, fun _ _ _ => rfl⟩

theorem listsParts_having : ListsParts havingConditions .having andSeparator :=
  ⟨settles_and, fun _ => rfl, fun _ _ _ => rfl⟩

theorem listsParts_groupBy : ListsParts groupByColumns .groupBy commaSeparator :=
  ⟨settles_comma, fun _ => rfl, fun _ _ _ => rfl⟩

variable {list : Query → List String}

theorem ListsParts.exists_parts (h : ListsParts list kind separator) (s : String) :
    ∃ parts, Rejoinable separator parts ∧ list (ofText s) = parts.map fragment := by
  have hnil : Rejoinable separator [] := ⟨nofun, nofun, nofun, nofun, nofun, nofun⟩
  rw [ofText, ofTokens]
  split
  · rw [h.ofStatement]
    cases hb : (Statement.ofTokens (tokenize s.toList)).body? kind with
    | none => exact ⟨[], hnil, rfl⟩
    | some body =>
      have hl := Token.Legible.of_infix (legible_tokenize s.toList) (Statement.body?_infix hb)
      exact ⟨_, rejoinable_splitOutside h.settles hl (Statement.plain_body hb), rfl⟩
  · exact ⟨[], hnil, h.blank _⟩

theorem ListsParts.ofTokens_rejoined (h : ListsParts list kind separator)
    (hp : Rejoinable separator parts) (ha : Spells a [u]) (hu : u.Neutral)
    (hsep : separator false u = (true, false)) (ho : Opens kind ks)
    (hk : kind ≠ .select ∧ kind ≠ .fromTables) (hc : Closed front)
    (ht : tokenize front = tableTokens ++ ks) :
    list (ofTokens (tokenize (front ++ ' ' :: (a ++ [' ']).intercalate (parts.map join)))) =
      parts.map fragment := by
  have hn : tokenize front ≠ [] := by
    rw [ht]
    exact List.cons_ne_nil _ _
  have hr := hp.respaced h.settles.toSeesBare
  have hstatement := Statement.ofTokens_tableTokens ho (hr.plain_intercalate hu)
  have hbody : (tableStatement ⟨kind, ks, [u].intercalate (parts.map (respaced true))⟩).body? kind =
      some ([u].intercalate (parts.map (respaced true))) := by
    simp [tableStatement, Statement.body?, hk.1.symm, hk.2.symm]
  have hsplit := filter_splitOutside_intercalate hsep
    (fun p hm => ⟨hr.ne_nil p hm, hr.whole p hm⟩) hr.settled
  rw [hp.tokenize_append ha hc hn, ht, List.append_assoc, ofTokens, hstatement]
  change list (Query.ofStatement _ _ [⟨.word, ['t'], true⟩]) = _
  rw [h.ofStatement, hbody, clauseParts, Option.getD_some, hsplit, List.map_map]
  apply List.map_congr_left
  intro p _
  rw [Function.comp_apply, fragment, join_respaced, fragment]

theorem ListsParts.ofText_rejoined (h : ListsParts list kind separator) {opening between : String}
    (ha : Spells a [u]) (hu : u.Neutral) (hsep : separator false u = (true, false))
    (ho : Opens kind ks) (hk : kind ≠ .select ∧ kind ≠ .fromTables) (hc : Closed front)
    (ht : tokenize front = tableTokens ++ ks) (hopening : opening.toList = front ++ [' '])
    (hbetween : between.toList = a ++ [' ']) (s : String) :
    list (ofText (opening ++ between.intercalate (list (ofText s)))) = list (ofText s) := by
  obtain ⟨parts, hp, hlist⟩ := h.exists_parts s
  have htext : (opening ++ between.intercalate (parts.map fragment)).toList =
      front ++ ' ' :: (a ++ [' ']).intercalate (parts.map join) := by
    have hmap : (parts.map fragment).map String.toList = parts.map join := by
      simp [fragment]
    rw [String.toList_append, String.toList_intercalate, hopening, hbetween, hmap,
      List.append_assoc, List.singleton_append]
  rw [hlist, ofText, htext]
  exact h.ofTokens_rejoined hp ha hu hsep ho hk hc ht

/-- The lists of any query, put together with ANDs or commas, are read as the same lists. -/
theorem lists_rejoined (s : String) :
    let q : Query := ofText s
    (ofText ("SELECT * FROM t WHERE " ++ " AND ".intercalate q.whereConditions)).whereConditions =
        q.whereConditions ∧
      (ofText ("SELECT * FROM t HAVING " ++
        " AND ".intercalate q.havingConditions)).havingConditions = q.havingConditions ∧
      (ofText ("SELECT * FROM t GROUP BY " ++
        ", ".intercalate q.groupByColumns)).groupByColumns = q.groupByColumns := by
  have hand : Spells (' ' :: Keyword.and.spelling.toList) [Keyword.and.token true] := .keyword .and
  have hneutral : (Keyword.and.token true).Neutral :=
    .of_keyword? (Keyword.keyword?_token true .and) (by decide)
  have hcomma : commaToken.Neutral := .of_not_keyword rfl rfl rfl
  have hwhere : tokenize "SELECT * FROM t WHERE".toList =
      tableTokens ++ [Keyword.whereRows.token true] := by decide
  have hhaving : tokenize "SELECT * FROM t HAVING".toList =
      tableTokens ++ [Keyword.having.token true] := by decide
  have hgroup : tokenize "SELECT * FROM t GROUP BY".toList =
      tableTokens ++ [Keyword.group.token true, Keyword.byColumns.token true] := by decide
  refine ⟨?_, ?_, ?_⟩
  · have ho : Opens .whereRows [Keyword.whereRows.token true] :=
      .word (Keyword.keyword?_token true .whereRows) rfl
    exact listsParts_where.ofText_rejoined hand hneutral (by decide) ho (by decide) (by decide)
      hwhere rfl rfl s
  · have ho : Opens .having [Keyword.having.token true] :=
      .word (Keyword.keyword?_token true .having) rfl
    exact listsParts_having.ofText_rejoined hand hneutral (by decide) ho (by decide) (by decide)
      hhaving rfl rfl s
  · have ho : Opens .groupBy [Keyword.group.token true, Keyword.byColumns.token true] :=
      .groupBy (Keyword.keyword?_token true .group) (Keyword.keyword?_token true .byColumns)
    exact listsParts_groupBy.ofText_rejoined .comma hcomma (by decide) ho (by decide) (by decide)
      hgroup rfl rfl s

-- An empty part is left out, the AND of a BETWEEN kept, and the last part breaks off anywhere.
example : (ofText
    "SELECT a FROM t WHERE AND a BETWEEN 1 AND (2) AND'x'=b AND (c = 'AND").whereConditions =
      ["a BETWEEN 1 AND (2)", "'x'=b", "(c = 'AND"] := by
  decide +kernel

end Query
end SqlWalk
