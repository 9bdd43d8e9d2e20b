import Mathlib.Data.List.Pairwise
import SqlWalk.Proofs.Catalog.Attribution

namespace SqlWalk

variable {t u : TableSchema} {tables tables' seen : List TableSchema} {c c' : Catalog}
  {s n : List Char} {name : String} {first last : Char}

/-- The names of two tables differ in more than the case of letters. -/
def TableSchema.Distinct (t u : TableSchema) : Prop :=
  t.hasName u.name.toList = false

instance : Std.Symm TableSchema.Distinct where
  symm t u h := by
    rw [TableSchema.Distinct, Bool.eq_false_iff] at h ⊢
    exact fun hut => h (sameLetters_symm hut)

def DistinctNames (tables : List TableSchema) : Prop :=
  tables.Pairwise TableSchema.Distinct

theorem DistinctNames.perm (h : DistinctNames tables) (hp : tables.Perm tables') :
    DistinctNames tables' :=
  (hp.pairwise_iff symm).1 h

theorem DistinctNames.eq_of_hasName (h : DistinctNames tables) (ht : t ∈ tables) (hu : u ∈ tables)
    (hn : t.hasName u.name.toList = true) : t = u := by
  by_contra hne
  have hd : t.hasName u.name.toList = false := h.forall ht hu hne
  rw [hn] at hd
  cases hd

theorem duplicateName?_eq_none_iff : duplicateName? seen tables = none ↔
    DistinctNames tables ∧ ∀ t ∈ seen, ∀ u ∈ tables, t.Distinct u := by
  induction tables generalizing seen with
  | nil => simp [duplicateName?, DistinctNames]
  | cons u tables ih =>
    rw [duplicateName?, DistinctNames, List.pairwise_cons]
    split
    · next hany =>
      obtain ⟨t, ht, htu⟩ := List.any_eq_true.1 hany
      refine iff_of_false (Option.some_ne_none _) fun h => Bool.false_ne_true ?_
      exact (h.2 t ht u List.mem_cons_self).symm.trans htu
    · next hany =>
      have hu : ∀ t ∈ seen, t.Distinct u := by
        simpa [TableSchema.Distinct] using hany
      rw [ih]
      constructor
      · rintro ⟨hd, hs⟩
        refine ⟨⟨fun t ht => hs u (by simp) t ht, hd⟩, ?_⟩
        intro t ht v hv
        rcases List.mem_cons.1 hv with rfl | hv
        · exact hu t ht
        · exact hs t (List.mem_append_left _ ht) v hv
      · rintro ⟨⟨hu', hd⟩, hs⟩
        refine ⟨hd, ?_⟩
        intro t ht v hv
        rcases List.mem_append.1 ht with ht | ht
        · exact hs t ht v (List.mem_cons_of_mem _ hv)
        · rw [List.mem_singleton.1 ht]
          exact hu' v hv

namespace Catalog

/-- A catalog takes just the tables with distinct names, and keeps their order. -/
theorem ofTables_eq_ok_iff : ofTables tables = .ok c ↔ DistinctNames tables ∧ c = ⟨tables⟩ := by
  have hd : duplicateName? [] tables = none ↔ DistinctNames tables := by
    simp [duplicateName?_eq_none_iff]
  rw [ofTables]
  cases h : duplicateName? [] tables with
  | none => simp [← hd, h, eq_comm]
  | some name => simp [← hd, h]

theorem exists_ofTables_iff : (∃ c, ofTables tables = .ok c) ↔ DistinctNames tables := by
  simp [ofTables_eq_ok_iff]

theorem table?_eq_some_iff (h : DistinctNames c.tables) :
    c.table? name = some t ↔ t ∈ c.tables ∧ t.hasName (bareName name.toList) = true := by
  rw [table?]
  constructor
  · intro hf
    have hn := List.find?_some hf
    exact ⟨List.mem_of_find?_eq_some hf, hn⟩
  · rintro ⟨ht, hn⟩
    have hsome : (c.tables.find? (·.hasName (bareName name.toList))).isSome = true := by
      rw [List.find?_isSome]
      exact ⟨t, ht, hn⟩
    obtain ⟨u, hu⟩ := Option.isSome_iff_exists.1 hsome
    have hun := List.find?_some hu
    have hut : u.hasName t.name.toList = true := sameLetters_trans hun (sameLetters_symm hn)
    rw [hu, h.eq_of_hasName (List.mem_of_find?_eq_some hu) ht hut]

theorem resolve_congr (h : ∀ name, c.table? name = c'.table? name) (q : Query) :
    c.resolve q = c'.resolve q := by
  have ha : c.isAmbiguous q = c'.isAmbiguous q := by
    funext column
    simp only [isAmbiguous, h]
  have hc : c.counts q = c'.counts q := by
    funext r column m
    simp only [counts, ha]
  have hr : c.resolution q = c'.resolution q := by
    funext r
    simp only [resolution, h, hc]
  rw [resolve, resolve, hr]

/-- The order of the tables matters neither for what a catalog takes nor for what it says. -/
theorem resolve_perm (hp : tables.Perm tables') :
    ((∃ c, ofTables tables = .ok c) ↔ ∃ c, ofTables tables' = .ok c) ∧
      ∀ c c', ofTables tables = .ok c → ofTables tables' = .ok c' →
        (∀ name, c.table? name = c'.table? name) ∧ ∀ q, c.resolve q = c'.resolve q := by
  constructor
  · rw [exists_ofTables_iff, exists_ofTables_iff]
    exact ⟨fun h => h.perm hp, fun h => h.perm hp.symm⟩
  · intro c c' hc hc'
    obtain ⟨hd, rfl⟩ := ofTables_eq_ok_iff.1 hc
    obtain ⟨hd', rfl⟩ := ofTables_eq_ok_iff.1 hc'
    have htable (name : String) : table? ⟨tables⟩ name = table? ⟨tables'⟩ name := by
      apply Option.ext
      intro t
      rw [table?_eq_some_iff hd, table?_eq_some_iff hd', hp.mem_iff]
    exact ⟨htable, resolve_congr htable⟩

theorem resolve_perm_demo :
    let tables := [demo.tables[2], demo.tables[0], demo.tables[1]]
    let q := Query.ofText "SELECT u.name, price FROM Users u JOIN public.products ON true"
    tables.Perm demo.tables ∧ (⟨tables⟩ : Catalog).resolve q = demo.resolve q ∧
      demo.resolve q = [⟨"u", some "users", ["name"]⟩,
        ⟨"public.products", some "products", ["price"]⟩] := by
  intro tables q
  have hp : tables.Perm demo.tables := by decide
  obtain ⟨-, h⟩ := resolve_perm hp
  exact ⟨hp, (h ⟨tables⟩ demo (by decide) (by decide)).2 q, by decide +kernel⟩

end Catalog

theorem caseBlind_isIdentifierQuote : CaseBlind isIdentifierQuote :=
  ((CaseBlind.or (.beq rfl) (.beq rfl)).or (.beq rfl)).or (.beq rfl)

theorem afterLastDot_of_notMem (h : '.' ∉ s) : afterLastDot s = s := by
  rw [afterLastDot, List.takeWhile_eq_self_iff.2, List.reverse_reverse]
  intro c hc
  rw [decide_eq_true_eq]
  rintro rfl
  exact h (List.mem_reverse.1 hc)

theorem dot_notMem_afterLastDot (s : List Char) : '.' ∉ afterLastDot s := by
  intro h
  rw [afterLastDot, List.mem_reverse] at h
  simpa using List.mem_takeWhile_imp h

theorem dot_notMem_bareName (s : List Char) : '.' ∉ bareName s := by
  intro h
  rw [bareName, List.mem_reverse] at h
  have h' := List.mem_reverse.1 ((List.dropWhile_suffix _).mem h)
  exact dot_notMem_afterLastDot s ((List.dropWhile_suffix _).mem h')

theorem dropWhile_isIdentifierQuote (h : ∀ c ∈ s, isIdentifierQuote c = false) :
    s.dropWhile isIdentifierQuote = s := by
  cases s with
  | nil => rfl
  | cons c s => exact List.dropWhile_cons_of_neg (by simp [h c List.mem_cons_self])

theorem bareName_of_plain (hdot : '.' ∉ s) (h : ∀ c ∈ s, isIdentifierQuote c = false) :
    bareName s = s := by
  have hr : ∀ c ∈ s.reverse, isIdentifierQuote c = false := fun c hc => h c (List.mem_reverse.1 hc)
  rw [bareName, afterLastDot_of_notMem hdot, dropWhile_isIdentifierQuote h,
    dropWhile_isIdentifierQuote hr, List.reverse_reverse]

theorem bareName_quoted (hdot : '.' ∉ s) (h : ∀ c ∈ s, isIdentifierQuote c = false)
    (hfirst : isIdentifierQuote first = true) (hlast : isIdentifierQuote last = true) :
    bareName (first :: s ++ [last]) = s := by
  have hne {c : Char} (hc : isIdentifierQuote c = true) : '.' ≠ c := by
    rintro rfl
    cases hc
  have hdot' : '.' ∉ first :: s ++ [last] := by simp [hdot, hne hfirst, hne hlast]
  have hr : ∀ c ∈ s.reverse, isIdentifierQuote c = false := fun c hc => h c (List.mem_reverse.1 hc)
  rw [bareName, afterLastDot_of_notMem hdot', List.cons_append, List.dropWhile_cons_of_pos hfirst]
  cases s with
  | nil => simp [hlast]
  | cons c s =>
    have hc : ¬isIdentifierQuote c = true := by simp [h c List.mem_cons_self]
    rw [List.cons_append, List.dropWhile_cons_of_neg hc, ← List.cons_append, List.reverse_concat,
      List.dropWhile_cons_of_pos hlast, dropWhile_isIdentifierQuote hr, List.reverse_reverse]

theorem forall_of_sameLetters {p : Char → Bool} (hp : CaseBlind p) (hn : sameLetters n s = true)
    (h : ∀ c ∈ s, p c = false) : ∀ c ∈ n, p c = false := by
  have hall : n.all (!p ·) = s.all (!p ·) := by
    have hp' : CaseBlind (!p ·) := fun c => congrArg (!·) (hp c)
    rw [← all_capitals hp' n, ← all_capitals hp' s, sameLetters_iff.1 hn]
  have hs : n.all (!p ·) = true := hall.trans (List.all_eq_true.2 fun c hc => by simp [h c hc])
  intro c hc
  simpa using List.all_eq_true.1 hs c hc

namespace Catalog

/-- A name without quotes finds its table, in letters of any case, just if it has no dot. -/
theorem table?_own_name (hc : ofTables tables = .ok c) (ht : t ∈ c.tables)
    (hq : ∀ ch ∈ t.name.toList, isIdentifierQuote ch = false)
    (hn : sameLetters n t.name.toList = true) :
    (c.table? (String.ofList n) = some t ↔ '.' ∉ t.name.toList) ∧
      ('.' ∉ t.name.toList → ∀ first last, isIdentifierQuote first = true →
        isIdentifierQuote last = true →
          c.table? (String.ofList (first :: n ++ [last])) = some t) := by
  obtain ⟨hd, rfl⟩ := ofTables_eq_ok_iff.1 hc
  have hqn : ∀ ch ∈ n, isIdentifierQuote ch = false :=
    forall_of_sameLetters caseBlind_isIdentifierQuote hn hq
  have hdotn (hdot : '.' ∉ t.name.toList) : '.' ∉ n := by
    have hne : ∀ ch ∈ n, (ch == '.') = false := by
      refine forall_of_sameLetters (CaseBlind.beq rfl) hn fun ch hch => ?_
      exact beq_false_of_ne fun heq => hdot (heq ▸ hch)
    exact fun hmem => by cases hne '.' hmem
  simp only [table?_eq_some_iff hd, String.toList_ofList, ht, true_and]
  refine ⟨⟨fun h hdot => ?_, fun hdot => ?_⟩, fun hdot first last hfirst hlast => ?_⟩
  · have hbare : ∀ ch ∈ bareName n, (ch == '.') = false := fun ch hch =>
      beq_false_of_ne fun heq => dot_notMem_bareName n (heq ▸ hch)
    cases forall_of_sameLetters (CaseBlind.beq rfl) h hbare '.' hdot
  · rw [bareName_of_plain (hdotn hdot) hqn]
    exact sameLetters_symm hn
  · rw [bareName_quoted (hdotn hdot) hqn hfirst hlast]
    exact sameLetters_symm hn

theorem table?_own_name_items :
    let t : TableSchema := ⟨"Order_Items", ["id"]⟩
    let c : Catalog := ⟨demo.tables ++ [t]⟩
    ofTables c.tables = .ok c ∧ t ∈ c.tables ∧
      (∀ ch ∈ t.name.toList, isIdentifierQuote ch = false) ∧
      sameLetters "ORDER_items".toList t.name.toList = true ∧
      c.table? "ORDER_items" = some t ∧ c.table? "[ORDER_items]" = some t := by
  intro t c
  have hc : ofTables c.tables = .ok c := by decide +kernel
  have ht : t ∈ c.tables := by decide
  have hq : ∀ ch ∈ t.name.toList, isIdentifierQuote ch = false := by
    simp [t, isIdentifierQuote]
  have hn : sameLetters "ORDER_items".toList t.name.toList = true := by decide +kernel
  have hdot : '.' ∉ t.name.toList := by decide
  obtain ⟨hplain, hquoted⟩ := table?_own_name hc ht hq hn
  exact ⟨hc, ht, hq, hn, hplain.2 hdot, hquoted hdot '[' ']' rfl rfl⟩

/-- What stands before the dot in the name of a table is taken for a schema. -/
theorem not_table?_dotted :
    ¬∀ (tables : List TableSchema) (c : Catalog), ofTables tables = .ok c →
      ∀ t ∈ c.tables, t.name ≠ "" → (∀ ch ∈ t.name.toList, isIdentifierQuote ch = false) →
        ∀ n, sameLetters n t.name.toList = true → c.table? (String.ofList n) = some t ∧
          ∀ q ∈ [('\x22', '\x22'), ('\x60', '\x60'), ('[', ']')],
            c.table? (String.ofList (q.1 :: n ++ [q.2])) = some t := by
  intro h
  let t : TableSchema := ⟨"a.b", ["x"]⟩
  have hq : ∀ ch ∈ t.name.toList, isIdentifierQuote ch = false := by
    simp [t, isIdentifierQuote]
  obtain ⟨hfound, -⟩ := h [t] ⟨[t]⟩ rfl t (by decide) (by decide) hq t.name.toList (by decide)
  have hnone : (⟨[t]⟩ : Catalog).table? (String.ofList t.name.toList) = none := by decide
  rw [hnone] at hfound
  cases hfound

end Catalog
end SqlWalk
