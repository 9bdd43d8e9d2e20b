import SqlWalk.Catalog
import SqlWalk.Proofs.Highlight.Chain
import SqlWalk.Query.Analysis

namespace SqlWalk

open Token

variable {p t w dot : Token} {ts us vs before name after parts : List Token}
  {first second : Option Token} {m : Mention} {fragment : String} {q : Query}

theorem exists_append_of_nameParts (h : continuesName us = true)
    (hp : t :: nameParts us = parts ++ [p, w]) :
    ∃ xs dot, t :: us = xs ++ [p, dot, w] ∧ dot.isSymbol '.' = true := by
  fun_induction continuesName us generalizing t parts with
  | case1 =>
    have hlength := congrArg List.length hp
    simp [nameParts] at hlength
  | case2 => cases h
  | case3 dot u us ih =>
    obtain ⟨hd, hus⟩ := Bool.and_eq_true_iff.1 h
    obtain ⟨hdot, hu⟩ := Bool.and_eq_true_iff.1 hd
    rw [nameParts_continue hdot hu] at hp
    cases parts with
    | nil =>
      simp only [List.nil_append, List.cons.injEq] at hp
      obtain ⟨rfl, rfl, hnil⟩ := hp
      have hlength := length_of_continuesName hus
      rw [hnil] at hlength
      obtain rfl := List.eq_nil_of_length_eq_zero hlength
      exact ⟨[], dot, rfl, hdot⟩
    | cons t' parts =>
      obtain ⟨rfl, htail⟩ := List.cons.inj hp
      obtain ⟨xs, dot', hxs, hdot'⟩ := ih hus htail
      exact ⟨t :: dot :: xs, dot', by rw [hxs]; rfl, hdot'⟩

theorem mem_mentionsFrom_cons (h : m ∈ mentionsFrom first (some t) ts) :
    m ∈ mentionsFrom second first (t :: ts) := by
  simp only [mentionsFrom]
  split
  · exact List.mem_cons_of_mem _ h
  · exact h

theorem mem_mentionsFrom_of_dotted (hs : (p :: dot :: w :: vs) <:+ ts)
    (hdot : dot.isSymbol '.' = true) (hw : w.kind = .word)
    (hvs : ∀ t ∈ vs.head?, t.isSymbol '.' = false) :
    ⟨some p.name, w.text⟩ ∈ mentionsFrom second first ts := by
  induction ts generalizing second first with
  | nil => cases List.suffix_nil.1 hs
  | cons t ts ih =>
    rcases List.suffix_cons_iff.1 hs with heq | hs
    · cases heq
      -- Behind `p` and the dot, these are the two tokens that the scan remembers at `w`.
      apply mem_mentionsFrom_cons
      apply mem_mentionsFrom_cons
      have hend : vs.head?.any (·.isSymbol '.') = false := by
        cases vs with
        | nil => rfl
        | cons v vs => exact hvs v rfl
      simp [mentionsFrom, hdot, hw, hend]
    · exact mem_mentionsFrom_cons (ih hs)

/-- Of a dotted name the catalog sees the last part, qualified by the part before it alone. -/
theorem mem_mentionsOf_of_name (hts : tokenize fragment.toList = before ++ name ++ after)
    (hname : isDottedName name = true) (hparts : nameParts name = parts ++ [p, w])
    (hdot : ∀ t ∈ after.head?, t.isSymbol '.' = false) (hw : w.kind = .word) :
    ⟨some p.name, w.text⟩ ∈ mentionsOf fragment := by
  obtain ⟨t, us, rfl, ht, hus⟩ := exists_cons_of_isDottedName hname
  rw [nameParts_cons_of_isName ht] at hparts
  obtain ⟨xs, dot, heq, hd⟩ := exists_append_of_nameParts hus hparts
  have hsuffix : (p :: dot :: w :: after) <:+ tokenize fragment.toList :=
    ⟨before ++ xs, by rw [hts, heq]; simp⟩
  exact mem_mentionsFrom_of_dotted hsuffix hd hw hdot

/-- Says that the catalog lists a column for the table that a qualifier means. -/
def Catalog.Lists (c : Catalog) (q : Query) (qualifier : String) (w : Token) : Prop :=
  ∀ r ∈ q.tableRefs, q.resolve? qualifier = some r.key → ∀ s, c.table? r.name = some s →
    ∀ col ∈ s.columns, sameLetters w.text col.toList = true →
      ∃ res ∈ c.resolve q, res.reference = r.key ∧ col ∈ res.columns

theorem qualifierText_pair (p w : Token) : qualifierText [p, w] = p.name := by
  simp [qualifierText, name]

namespace Catalog

theorem lists_of_mention {qualifier : String} (c : Catalog)
    (hm : ⟨some qualifier, w.text⟩ ∈ q.mentions) : c.Lists q qualifier w := by
  intro r hr hq s hs col hcol hw
  have hres : c.resolution q r = ⟨r.key, some s.name,
      s.columns.filter fun col => q.mentions.any (c.counts q r col)⟩ := by
    rw [resolution, hs]
  refine ⟨c.resolution q r, List.mem_map_of_mem hr, by rw [hres], ?_⟩
  rw [hres, List.mem_filter, List.any_eq_true]
  refine ⟨hcol, _, hm, ?_⟩
  simp [counts, hw, hq]

/-- The last part of a dotted name is listed for the table that the part before it means, which for a
single one is the table that the highlighter finds, unless a stray dot stands behind the name. -/
theorem lists_chain (c : Catalog) (sql : String) (hf : fragment ∈ (Query.ofText sql).fragments)
    (hts : tokenize fragment.toList = before ++ name ++ after) (hm : MaximalName before name after)
    (hparts : nameParts name = parts ++ [p, w])
    (hdot : ∀ t ∈ after.head?, t.isSymbol '.' = false) (hw : w.kind = .word) :
    c.Lists (Query.ofText sql) p.name w ∧
      (parts = [] → c.Lists (Query.ofText sql) (qualifierText (parts ++ [p, w])) w) := by
  have hmention := mem_mentionsOf_of_name hts hm.dotted hparts hdot hw
  have hlists : c.Lists (Query.ofText sql) p.name w :=
    lists_of_mention c (List.mem_flatMap_of_mem hf hmention)
  refine ⟨hlists, ?_⟩
  rintro rfl
  rw [List.nil_append, qualifierText_pair]
  exact hlists

theorem lists_chain_alias :
    let sql := "SELECT COUNT(*) FROM users U JOIN orders o ON o.user_id = U.id WHERE U.Name > .5"
    let p : Token := ⟨.word, ['U'], false⟩
    let w : Token := ⟨.word, "Name".toList, false⟩
    let name : List Token := [p, ⟨.symbol, ['.'], false⟩, w]
    let after : List Token :=
      [⟨.operator, ['>'], true⟩, ⟨.symbol, ['.'], true⟩, ⟨.number, ['5'], false⟩]
    "U.Name > .5" ∈ (Query.ofText sql).fragments ∧
      tokenize "U.Name > .5".toList = [] ++ name ++ after ∧ MaximalName [] name after ∧
      nameParts name = [] ++ [p, w] ∧ (∀ t ∈ after.head?, t.isSymbol '.' = false) ∧
      w.kind = .word ∧ demo.Lists (Query.ofText sql) (qualifierText ([] ++ [p, w])) w ∧
      ∃ res ∈ demo.resolve (Query.ofText sql), res.reference = "U" ∧ "name" ∈ res.columns := by
  intro sql p w name after
  have hf : "U.Name > .5" ∈ (Query.ofText sql).fragments := by decide +kernel
  have hts : tokenize "U.Name > .5".toList = [] ++ name ++ after := by decide
  have hm : MaximalName [] name after := .of_endsName (by decide) (endsName_cons (by decide) _)
  have hparts : nameParts name = [] ++ [p, w] := by decide
  have hdot : ∀ t ∈ after.head?, t.isSymbol '.' = false := by rintro t ⟨⟩; decide
  obtain ⟨hlists, hpair⟩ := lists_chain demo sql hf hts hm hparts hdot rfl
  have hr : ⟨"users", some "U", .source⟩ ∈ (Query.ofText sql).tableRefs := by decide +kernel
  have hq : (Query.ofText sql).resolve? p.name = some "U" := by decide +kernel
  have hs : demo.table? "users" = some ⟨"users", ["id", "name", "email", "created_at"]⟩ := by
    decide
  exact ⟨hf, hts, hm, hparts, hdot, rfl, hpair rfl,
    hlists _ hr hq _ hs "name" (by decide) (by decide)⟩

/-- With a schema in front of the table the catalog does not list what the highlighter finds. -/
theorem not_lists_schema :
    ¬∀ (tables : List TableSchema) (c : Catalog), ofTables tables = .ok c →
      ∀ sql : String, ∀ fragment ∈ (Query.ofText sql).fragments,
        ∀ (parts : List Token) (w : Token), parts ++ [w] ∈ chains (tokenize fragment.toList) →
          parts ≠ [] → (∀ t ∈ parts ++ [w], t.kind = .word) →
            c.Lists (Query.ofText sql) (qualifierText (parts ++ [w])) w := by
  intro h
  let sql := "SELECT public.users.name FROM public.users"
  let parts : List Token := [⟨.word, "public".toList, false⟩, ⟨.word, "users".toList, false⟩]
  let w : Token := ⟨.word, "name".toList, false⟩
  let r : TableRef := ⟨"public.users", none, .source⟩
  have hf : "public.users.name" ∈ (Query.ofText sql).fragments := by decide +kernel
  have hchain : parts ++ [w] ∈ chains (tokenize "public.users.name".toList) := by decide
  have hlists := h demo.tables demo rfl sql _ hf parts w hchain (List.cons_ne_nil _ _) (by decide)
  have hr : r ∈ (Query.ofText sql).tableRefs := by decide +kernel
  have hq : (Query.ofText sql).resolve? (qualifierText (parts ++ [w])) = some r.key := by
    decide +kernel
  have hs : demo.table? r.name = some ⟨"users", ["id", "name", "email", "created_at"]⟩ := by
    decide +kernel
  obtain ⟨res, hres, -, hcol⟩ := hlists r hr hq _ hs "name" (by decide) (by decide)
  have hnone : ∀ res ∈ demo.resolve (Query.ofText sql), res.columns = [] := by decide +kernel
  rw [hnone res hres] at hcol
  cases hcol

end Catalog
end SqlWalk
