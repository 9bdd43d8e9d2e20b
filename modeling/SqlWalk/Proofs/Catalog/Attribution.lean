import SqlWalk.Proofs.Catalog.Mention
import SqlWalk.Proofs.Lexing.Capitals
import SqlWalk.Proofs.Query.Consistency

namespace SqlWalk

open Token

variable {t : Token} {ts before passed : List Token} {m : Mention} {col col' : String}
  {qualifier : Option String} {c : Catalog} {q : Query} {r r' : TableRef}

theorem sameLetters_refl (a : List Char) : sameLetters a a = true :=
  sameLetters_iff.2 rfl

theorem sameLetters_symm {a b : List Char} (h : sameLetters a b = true) : sameLetters b a = true :=
  sameLetters_iff.2 (sameLetters_iff.1 h).symm

theorem sameLetters_trans {a b c : List Char} (h : sameLetters a b = true)
    (h' : sameLetters b c = true) : sameLetters a c = true :=
  sameLetters_iff.2 ((sameLetters_iff.1 h).trans (sameLetters_iff.1 h'))

/-- A word that reads as a column, up to the case of letters, with no dot behind it. -/
def NamesColumn (w : Token) (after : List Token) (col : List Char) : Prop :=
  w.kind = .word ∧ (∀ t ∈ after.head?, t.isSymbol '.' = false) ∧ sameLetters w.text col = true

/-- A column is mentioned, qualified by what stands before the dot in front of it, or bare. -/
inductive Mentioned (ts : List Token) (col : List Char) : Option String → Prop where
  | qualified {before after : List Token} {p dot w : Token}
      (append : ts = before ++ p :: dot :: w :: after) (isDot : dot.isSymbol '.' = true)
      (names : NamesColumn w after col) : Mentioned ts col (some p.name)
  | bare {before after : List Token} {w : Token} (append : ts = before ++ w :: after)
      (noDot : ∀ pre p dot, before = pre ++ [p, dot] → dot.isSymbol '.' = false)
      (names : NamesColumn w after col) : Mentioned ts col none

/-- The qualifier of the next token behind those passed, the last of which is at the front. -/
def passedQualifier (passed : List Token) : Option String :=
  if passed[0]?.any (·.isSymbol '.') then passed[1]?.map (·.name) else none

theorem mem_mentionsFrom_cons_iff : m ∈ mentionsFrom passed[1]? passed[0]? (t :: ts) ↔
    (t.kind = .word ∧ (∀ u ∈ ts.head?, u.isSymbol '.' = false) ∧
      m = ⟨passedQualifier passed, t.text⟩) ∨
    m ∈ mentionsFrom (t :: passed)[1]? (t :: passed)[0]? ts := by
  have hcond : (t.kind = .word && !ts.head?.any (·.isSymbol '.')) = true ↔
      t.kind = .word ∧ ∀ u ∈ ts.head?, u.isSymbol '.' = false := by
    simp [Option.any_eq_false]
  change m ∈ (if _ then _ else _) ↔ _
  split
  · next h => rw [List.mem_cons, ← and_assoc, and_iff_right (hcond.1 h)]; rfl
  · next h => rw [← and_assoc, ← hcond, iff_false_intro h, false_and, false_or]; rfl

theorem mem_mentionsFrom_iff : m ∈ mentionsFrom passed[1]? passed[0]? ts ↔
    ∃ before w after, ts = before ++ w :: after ∧ w.kind = .word ∧
      (∀ u ∈ after.head?, u.isSymbol '.' = false) ∧
        m = ⟨passedQualifier (before.reverse ++ passed), w.text⟩ := by
  induction ts generalizing passed with
  | nil => simp [mentionsFrom]
  | cons t ts ih =>
    rw [mem_mentionsFrom_cons_iff, ih]
    constructor
    · rintro (⟨hw, hend, hm⟩ | ⟨before, w, after, rfl, hw, hend, hm⟩)
      · exact ⟨[], t, ts, rfl, hw, hend, hm⟩
      · exact ⟨t :: before, w, after, rfl, hw, hend, by simpa using hm⟩
    · rintro ⟨before, w, after, hts, hw, hend, hm⟩
      cases before with
      | nil =>
        cases hts
        exact .inl ⟨hw, hend, hm⟩
      | cons u before =>
        cases hts
        exact .inr ⟨before, w, after, rfl, hw, hend, by simpa using hm⟩

theorem passedQualifier_eq_some {name : String} : passedQualifier passed = some name ↔
    ∃ dot p rest, passed = dot :: p :: rest ∧ dot.isSymbol '.' = true ∧ p.name = name := by
  match passed with
  | [] => simp [passedQualifier]
  | [_] => simp [passedQualifier]
  | dot :: p :: rest => simp [passedQualifier]

theorem passedQualifier_reverse_eq_some {name : String} :
    passedQualifier before.reverse = some name ↔
      ∃ pre p dot, before = pre ++ [p, dot] ∧ dot.isSymbol '.' = true ∧ p.name = name := by
  rw [passedQualifier_eq_some]
  constructor
  · rintro ⟨dot, p, rest, hrest, hdot⟩
    exact ⟨rest.reverse, p, dot, by simpa using congrArg List.reverse hrest, hdot⟩
  · rintro ⟨pre, p, dot, rfl, hdot⟩
    exact ⟨dot, p, pre.reverse, by simp, hdot⟩

theorem passedQualifier_reverse_eq_none : passedQualifier before.reverse = none ↔
    ∀ pre p dot, before = pre ++ [p, dot] → dot.isSymbol '.' = false := by
  rw [Option.eq_none_iff_forall_ne_some]
  constructor
  · intro h pre p dot hbefore
    rw [Bool.eq_false_iff]
    intro hdot
    exact h p.name (passedQualifier_reverse_eq_some.2 ⟨pre, p, dot, hbefore, hdot, rfl⟩)
  · intro h name hname
    obtain ⟨pre, p, dot, hbefore, hdot, -⟩ := passedQualifier_reverse_eq_some.1 hname
    exact Bool.false_ne_true ((h pre p dot hbefore).symm.trans hdot)

theorem mentioned_iff {col : List Char} : Mentioned ts col qualifier ↔
    ∃ m ∈ mentionsFrom none none ts, m.qualifier = qualifier ∧ sameLetters m.column col = true := by
  have hscan (m : Mention) : m ∈ mentionsFrom none none ts ↔
      ∃ before w after, ts = before ++ w :: after ∧ w.kind = .word ∧
        (∀ u ∈ after.head?, u.isSymbol '.' = false) ∧
          m = ⟨passedQualifier before.reverse, w.text⟩ := by
    change m ∈ mentionsFrom ([] : List Token)[1]? ([] : List Token)[0]? ts ↔ _
    simp only [mem_mentionsFrom_iff, List.append_nil]
  simp only [hscan]
  constructor
  · rintro (⟨rfl, hdot, hw, hend, hcol⟩ | ⟨rfl, hnodot, hw, hend, hcol⟩)
    · next before after p dot w =>
      have hq : passedQualifier (before ++ [p, dot]).reverse = some p.name :=
        passedQualifier_reverse_eq_some.2 ⟨before, p, dot, rfl, hdot, rfl⟩
      exact ⟨_, ⟨before ++ [p, dot], w, after, by simp, hw, hend, rfl⟩, hq, hcol⟩
    · next before after w =>
      exact ⟨_, ⟨before, w, after, rfl, hw, hend, rfl⟩, passedQualifier_reverse_eq_none.2 hnodot,
        hcol⟩
  · rintro ⟨_, ⟨before, w, after, rfl, hw, hend, rfl⟩, rfl, hcol⟩
    -- What the scan has passed tells the two forms apart.
    cases hq : passedQualifier before.reverse with
    | none => exact .bare rfl (passedQualifier_reverse_eq_none.1 hq) ⟨hw, hend, hcol⟩
    | some name =>
      obtain ⟨pre, p, dot, rfl, hdot, rfl⟩ := passedQualifier_reverse_eq_some.1 hq
      have happend : pre ++ [p, dot] ++ w :: after = pre ++ p :: dot :: w :: after := by simp
      exact .qualified happend hdot ⟨hw, hend, hcol⟩

namespace Query

/-- A query mentions a column in the text of one of its clauses. -/
def Mentions (q : Query) (col : String) (qualifier : Option String) : Prop :=
  ∃ fragment ∈ q.fragments, Mentioned (tokenize fragment.toList) col.toList qualifier

theorem mentions_iff : q.Mentions col qualifier ↔
    ∃ m ∈ q.mentions, m.qualifier = qualifier ∧ sameLetters m.column col.toList = true := by
  simp only [Mentions, mentioned_iff, mentions, List.mem_flatMap, mentionsOf]
  constructor
  · rintro ⟨fragment, hf, m, hm, h⟩
    exact ⟨m, ⟨fragment, hf, hm⟩, h⟩
  · rintro ⟨m, ⟨fragment, hf, hm⟩, h⟩
    exact ⟨fragment, hf, m, hm, h⟩

theorem forall_mentions_iff {p : Option String → Prop} : (∀ o, q.Mentions col o → p o) ↔
    ∀ m ∈ q.mentions, sameLetters m.column col.toList = true → p m.qualifier := by
  simp only [mentions_iff]
  constructor
  · exact fun h m hm hcol => h _ ⟨m, hm, rfl, hcol⟩
  · rintro h _ ⟨m, hm, rfl, hcol⟩
    exact h m hm hcol

theorem Mentions.exists_word (h : q.Mentions col qualifier) : ∃ fragment ∈ q.fragments,
    ∃ w ∈ tokenize fragment.toList, w.kind = .word ∧ sameLetters w.text col.toList = true := by
  obtain ⟨fragment, hf, hm⟩ := h
  refine ⟨fragment, hf, ?_⟩
  cases hm with
  | qualified append isDot names => exact ⟨_, by rw [append]; simp, names.1, names.2.2⟩
  | bare append noDot names => exact ⟨_, by rw [append]; simp, names.1, names.2.2⟩

theorem Mentions.congr (h : q.Mentions col qualifier)
    (hcol : sameLetters col.toList col'.toList = true) : q.Mentions col' qualifier := by
  obtain ⟨m, hm, hq, hsame⟩ := mentions_iff.1 h
  exact mentions_iff.2 ⟨m, hm, hq, sameLetters_trans hsame hcol⟩

end Query

/-- A resolution reports a column, which the catalog may write in other letters. -/
def Resolution.Reports (res : Resolution) (col : String) : Prop :=
  ∃ col' ∈ res.columns, sameLetters col'.toList col.toList = true

instance (res : Resolution) (col : String) : Decidable (res.Reports col) :=
  inferInstanceAs (Decidable (∃ col' ∈ _, _))

namespace Catalog

/-- The table that a reference names has a column. -/
def Has (c : Catalog) (r : TableRef) (col : String) : Prop :=
  ∃ s, c.table? r.name = some s ∧ s.hasColumn col = true

theorem has_of_mem {s : TableSchema} (hs : c.table? r.name = some s) (h : col' ∈ s.columns)
    (hcol : sameLetters col'.toList col.toList = true) : c.Has r col :=
  ⟨s, hs, List.any_eq_true.2 ⟨col', h, hcol⟩⟩

def has (c : Catalog) (col : String) (r : TableRef) : Bool :=
  ((c.table? r.name).map (·.hasColumn col)).getD false

theorem has_iff : c.has col r = true ↔ c.Has r col := by
  rw [Has, has]
  cases c.table? r.name <;> simp

theorem isAmbiguous_iff (hq : q.Consistent) (hr : r ∈ q.tableRefs) (hown : c.Has r col) :
    c.isAmbiguous q col = true ↔ ∃ r' ∈ q.tableRefs, r' ≠ r ∧ c.Has r' col := by
  have hmem (r' : TableRef) : r' ∈ q.tableRefs.erase r ↔ r' ≠ r ∧ r' ∈ q.tableRefs :=
    (hq.nodup_keys.of_map _).mem_erase_iff
  -- The reference itself is counted, so there are several exactly if there is one among the others.
  have hcount : (q.tableRefs.filterMap fun r => c.table? r.name).countP (·.hasColumn col) =
      (q.tableRefs.erase r).countP (c.has col) + 1 := by
    rw [List.countP_filterMap]
    exact ((List.perm_cons_erase hr).countP_eq _).trans (List.countP_cons_of_pos (has_iff.2 hown))
  rw [isAmbiguous, decide_eq_true_eq, hcount, Nat.lt_add_left_iff_pos, List.countP_pos_iff]
  simp only [hmem, has_iff]
  constructor
  · rintro ⟨r', ⟨hne, hr'⟩, hother⟩
    exact ⟨r', hr', hne, hother⟩
  · rintro ⟨r', hr', hne, hother⟩
    exact ⟨r', ⟨hne, hr'⟩, hother⟩

theorem counts_bare_iff (hq : q.Consistent) (hr : r ∈ q.tableRefs) (hown : c.Has r col) :
    (q.tables.length = 1 ∨ c.isAmbiguous q col = false) ↔
      ∀ r' ∈ q.tableRefs, r' ≠ r → ¬c.Has r' col := by
  rw [← Bool.not_eq_true, isAmbiguous_iff hq hr hown]
  constructor
  · rintro (hone | hclear) r' hr' hne hother
    · rw [hq.tables_eq, List.length_map, List.length_eq_one_iff] at hone
      obtain ⟨r₀, hrefs⟩ := hone
      rw [hrefs, List.mem_singleton] at hr hr'
      exact hne (hr'.trans hr.symm)
    · exact hclear ⟨r', hr', hne, hother⟩
  · rintro h
    refine .inr ?_
    rintro ⟨r', hr', hne, hother⟩
    exact h r' hr' hne hother

/-- A qualifier of the column means the reference, or the column is mentioned without one and no
other reference has it. -/
def Meant (c : Catalog) (q : Query) (r : TableRef) (col : String) : Prop :=
  (∃ qualifier, q.Mentions col (some qualifier) ∧ q.resolve? qualifier = some r.key) ∨
    q.Mentions col none ∧ ∀ r' ∈ q.tableRefs, r' ≠ r → ¬c.Has r' col

theorem mem_columns_iff (hq : q.Consistent) (hr : r ∈ q.tableRefs) :
    col ∈ (c.resolution q r).columns ↔
      ∃ s, c.table? r.name = some s ∧ col ∈ s.columns ∧ c.Meant q r col := by
  rw [resolution]
  cases hs : c.table? r.name with
  | none => simp
  | some s =>
    simp only [List.mem_filter, List.any_eq_true, counts, Bool.and_eq_true, Option.some.injEq,
      exists_eq_left', Meant, Query.mentions_iff]
    refine and_congr_right fun hcol => ?_
    have hown : c.Has r col := has_of_mem hs hcol (sameLetters_refl _)
    rw [← counts_bare_iff hq hr hown]
    constructor
    · rintro ⟨m, hm, hsame, hcounts⟩
      cases hqualifier : m.qualifier with
      | some qualifier =>
        rw [hqualifier] at hcounts
        exact .inl ⟨qualifier, ⟨m, hm, hqualifier, hsame⟩, eq_of_beq hcounts⟩
      | none =>
        rw [hqualifier] at hcounts
        exact .inr ⟨⟨m, hm, hqualifier, hsame⟩, by simpa using hcounts⟩
    · rintro (⟨qualifier, ⟨m, hm, hqualifier, hsame⟩, hmeans⟩ | ⟨⟨m, hm, hqualifier, hsame⟩, hbare⟩)
      · exact ⟨m, hm, hsame, by rw [hqualifier]; exact beq_iff_eq.2 hmeans⟩
      · exact ⟨m, hm, hsame, by rw [hqualifier]; simpa using hbare⟩

/-- What a catalog says of a reference: its table, and the columns of it that are meant. -/
structure Fits (c : Catalog) (q : Query) (r : TableRef) (res : Resolution) : Prop where
  reference : res.reference = r.key
  schemaTable : res.schemaTable = (c.table? r.name).map (·.name)
  columns : res.columns.Sublist (((c.table? r.name).map (·.columns)).getD [])
  words : ∀ col ∈ res.columns, ∃ fragment ∈ q.fragments, ∃ w ∈ tokenize fragment.toList,
    w.kind = .word ∧ sameLetters w.text col.toList = true
  complete : ∀ s, c.table? r.name = some s → ∀ col ∈ s.columns, c.Meant q r col →
    col ∈ res.columns

theorem reference_resolution : (c.resolution q r).reference = r.key := by
  rw [resolution]
  split <;> rfl

theorem fits_resolution (c : Catalog) (hq : q.Consistent) (hr : r ∈ q.tableRefs) :
    c.Fits q r (c.resolution q r) where
  reference := reference_resolution
  schemaTable := by
    rw [resolution]
    cases c.table? r.name <;> rfl
  columns := by
    rw [resolution]
    cases c.table? r.name with
    | none => exact List.Sublist.refl []
    | some s => exact List.filter_sublist
  words := by
    intro col hcol
    obtain ⟨s, -, -, ⟨qualifier, hm, -⟩ | ⟨hm, -⟩⟩ := (mem_columns_iff hq hr).1 hcol
    · exact hm.exists_word
    · exact hm.exists_word
  complete := fun s hs _ hcol hreason => (mem_columns_iff hq hr).2 ⟨s, hs, hcol, hreason⟩

theorem eq_of_reports (hq : q.Consistent)
    (hbare : ∀ qualifier, q.Mentions col qualifier → qualifier = none)
    (hr : r ∈ q.tableRefs) (hr' : r' ∈ q.tableRefs) (h : (c.resolution q r).Reports col)
    (h' : (c.resolution q r').Reports col) : r = r' := by
  obtain ⟨col₁, hcol₁, hsame₁⟩ := h
  obtain ⟨col₂, hcol₂, hsame₂⟩ := h'
  obtain ⟨s, hs, hmem, ⟨qualifier, hm, -⟩ | ⟨-, hnone⟩⟩ := (mem_columns_iff hq hr).1 hcol₁
  · cases hbare _ (hm.congr hsame₁)
  · obtain ⟨s', hs', hmem', -⟩ := (mem_columns_iff hq hr').1 hcol₂
    have hsame : sameLetters col₂.toList col₁.toList = true :=
      sameLetters_trans hsame₂ (sameLetters_symm hsame₁)
    by_contra hne
    exact hnone r' hr' (Ne.symm hne) (has_of_mem hs' hmem' hsame)

theorem exists_qualifier_of_reports (hq : q.Consistent) (hr : r ∈ q.tableRefs)
    (hqualified : ∀ qualifier, q.Mentions col qualifier → qualifier ≠ none)
    (h : (c.resolution q r).Reports col) :
    ∃ qualifier, q.Mentions col (some qualifier) ∧ q.resolve? qualifier = some r.key := by
  obtain ⟨col', hcol', hsame⟩ := h
  obtain ⟨s, -, -, ⟨qualifier, hm, hmeans⟩ | ⟨hm, -⟩⟩ :=
    (mem_columns_iff hq hr).1 hcol'
  · exact ⟨qualifier, hm.congr hsame, hmeans⟩
  · exact (hqualified none (hm.congr hsame) rfl).elim

/-- Each table of a query has one resolution, with the columns of its table that are meant. A column
that is never qualified is listed once at most, and one that always is as its qualifiers say. -/
theorem resolve_sound (c : Catalog) (sql : String) :
    let q := Query.ofText sql
    (q.tables.Nodup ∧ (c.resolve q).map (·.reference) = q.tables) ∧
      List.Forall₂ (c.Fits q) q.tableRefs (c.resolve q) ∧
      ∀ col : String,
        ((∀ qualifier, q.Mentions col qualifier → qualifier = none) →
          ∀ a ∈ c.resolve q, ∀ b ∈ c.resolve q, a.Reports col → b.Reports col → a = b) ∧
        ((∀ qualifier, q.Mentions col qualifier → qualifier ≠ none) →
          ∀ res ∈ c.resolve q, res.Reports col → ∃ qualifier,
            q.Mentions col (some qualifier) ∧ q.resolve? qualifier = some res.reference) := by
  intro q
  have hq : q.Consistent := Query.consistent_ofTokens (visible_tokenize sql.toList)
  refine ⟨⟨hq.nodup, ?_⟩, ?_, fun col => ⟨?_, ?_⟩⟩
  · rw [resolve, List.map_map, hq.tables_eq]
    exact List.map_congr_left fun r _ => reference_resolution
  · rw [resolve, List.forall₂_map_right_iff, List.forall₂_same]
    exact fun r hr => c.fits_resolution hq hr
  · intro hbare a ha b hb hcol hcol'
    obtain ⟨r, hr, rfl⟩ := List.mem_map.1 ha
    obtain ⟨r', hr', rfl⟩ := List.mem_map.1 hb
    rw [eq_of_reports hq hbare hr hr' hcol hcol']
  · intro hqualified res hres hcol
    obtain ⟨r, hr, rfl⟩ := List.mem_map.1 hres
    rw [reference_resolution]
    exact exists_qualifier_of_reports hq hr hqualified hcol

theorem resolve_sound_demo :
    let q := Query.ofText "SELECT U.ID, quantity FROM users U, orders"
    (∀ qualifier, q.Mentions "quantity" qualifier → qualifier = none) ∧
      (∀ qualifier, q.Mentions "id" qualifier → qualifier ≠ none) ∧
      (∀ res ∈ demo.resolve q, res.Reports "quantity" →
        res = ⟨"orders", some "orders", ["quantity"]⟩) ∧
      ∀ res ∈ demo.resolve q, res.Reports "id" → ∃ qualifier,
        q.Mentions "id" (some qualifier) ∧ q.resolve? qualifier = some res.reference := by
  intro q
  have hbare : ∀ qualifier, q.Mentions "quantity" qualifier → qualifier = none :=
    Query.forall_mentions_iff.2 (by decide +kernel)
  have hqualified : ∀ qualifier, q.Mentions "id" qualifier → qualifier ≠ none :=
    Query.forall_mentions_iff.2 (by decide +kernel)
  obtain ⟨-, -, hcolumns⟩ := demo.resolve_sound "SELECT U.ID, quantity FROM users U, orders"
  obtain ⟨hone, -⟩ := hcolumns "quantity"
  obtain ⟨-, hmeant⟩ := hcolumns "id"
  have horders : ⟨"orders", some "orders", ["quantity"]⟩ ∈ demo.resolve q := by decide +kernel
  refine ⟨hbare, hqualified, ?_, hmeant hqualified⟩
  intro res hres hreports
  exact hone hbare res hres _ horders hreports (by decide)

end Catalog
end SqlWalk
