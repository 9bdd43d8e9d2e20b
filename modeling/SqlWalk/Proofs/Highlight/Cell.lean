import SqlWalk.Proofs.Highlight.Marks
import SqlWalk.Proofs.Lexing.Locality
import SqlWalk.Proofs.Query.Equation

namespace SqlWalk

open Token

variable {r : List Char} {ns : List (List Char)} {c : Cell} {gap : Bool}

theorem exists_equals {blanks : List Char} (hb : ∀ d ∈ blanks, isBlank d = true) (r : List Char) :
    ∃ t ts, ofLexemes false (scan (blanks ++ '=' :: r)) = t :: ts ∧ t.kind = .operator := by
  have hequals (gap : Bool) : ∃ t ts, ofLexemes gap (scan ('=' :: r)) = t :: ts ∧
      t.kind = .operator := by
    rw [scan_cons]
    exact ⟨⟨.operator, '=' :: (cutRun isOperatorChar r).1, gap⟩, _, rfl, rfl⟩
  cases blanks with
  | nil => exact hequals false
  | cons d blanks =>
    obtain ⟨hd, hb⟩ := List.forall_mem_cons.1 hb
    rw [List.cons_append, ofLexemes_scan_blank hd, ofLexemes_scan_blanks hb]
    exact hequals _

theorem ofLexemes_scan_column (hns : ns ≠ []) (h : ∀ n ∈ ns, isIdentifier n = true)
    (hr : ∀ d ∈ r.head?, isWordPart d = false) : ofLexemes gap (scan (['.'].intercalate ns ++ r)) =
      columnTokens gap ns ++ ofLexemes false (scan r) := by
  fun_induction columnTokens gap ns with
  | case1 => exact absurd rfl hns
  | case2 gap n =>
    have hname : (nameToken gap n).LexesBefore r :=
      lexesBefore_nameToken (h n List.mem_cons_self) hr
    rw [List.intercalate_singleton]
    exact congrArg (ofLexemes gap) hname.scan_append
  | case3 gap n m ns ih =>
    obtain ⟨hn, hns⟩ := List.forall_mem_cons.1 h
    have hrest := ih (List.cons_ne_nil m ns) hns
    rw [List.intercalate_cons_cons, List.append_assoc, List.append_assoc]
    have hname : (nameToken gap n).LexesBefore (['.'] ++ (['.'].intercalate (m :: ns) ++ r)) := by
      apply lexesBefore_nameToken hn
      rintro d ⟨⟩
      decide
    have hscan : scan (n ++ (['.'] ++ (['.'].intercalate (m :: ns) ++ r))) =
        ⟨.token .word, n⟩ :: ⟨.token .symbol, ['.']⟩ :: scan (['.'].intercalate (m :: ns) ++ r) :=
      hname.scan_append.trans (congrArg _ (lexesBefore_dotToken _).scan_append)
    rw [hscan, ofLexemes, ofLexemes, hrest]
    rfl

theorem isDottedName_columnTokens (hns : ns ≠ []) : isDottedName (columnTokens gap ns) = true := by
  fun_induction columnTokens gap ns with
  | case1 => exact absurd rfl hns
  | case2 => rfl
  | case3 gap n m ns ih =>
    have hn : isDottedName [nameToken gap n] = true := rfl
    exact (isDottedName_append hn _).trans
      (continuesName_cons rfl (ih (List.cons_ne_nil m ns)))

theorem map_text_nameParts (gap : Bool) (ns : List (List Char)) :
    (nameParts (columnTokens gap ns)).map (·.text) = ns := by
  fun_induction columnTokens gap ns with
  | case1 => rfl
  | case2 => rfl
  | case3 gap n m ns ih => exact congrArg (n :: ·) ih

theorem respaced_columnTokens : respaced gap (columnTokens gap ns) = columnTokens gap ns := by
  fun_cases columnTokens gap ns <;> rfl

theorem exists_tokenize_column (hns : ns ≠ []) (h : ∀ n ∈ ns, isIdentifier n = true)
    {blanks : List Char} (hb : ∀ d ∈ blanks, isBlank d = true) (r : List Char) :
    ∃ t ts, tokenize (['.'].intercalate ns ++ (blanks ++ '=' :: r)) =
      columnTokens false ns ++ t :: ts ∧ t.kind = .operator := by
  obtain ⟨t, ts, hts, ht⟩ := exists_equals hb r
  have hr : ∀ d ∈ (blanks ++ '=' :: r).head?, isWordPart d = false := by
    cases blanks with
    | nil =>
      rintro d ⟨⟩
      decide
    | cons d blanks =>
      rintro _ ⟨⟩
      exact isWordPart_of_isBlank (hb d List.mem_cons_self)
  have hne : columnTokens false ns ≠ [] := by
    obtain ⟨u, us, hu, -⟩ := exists_cons_of_isDottedName (isDottedName_columnTokens hns)
    rw [hu]
    exact List.cons_ne_nil u us
  refine ⟨t, ts, ?_, ht⟩
  rw [tokenize_eq false, ofLexemes_scan_column hns h hr, hts, respaced_append hne,
    respaced_columnTokens]

theorem Cell.mem_qualifiers {fragment qualifier : String} (h : ofString? fragment = some c)
    (hq : c.qualifier? = some qualifier) : qualifier ∈ qualifiers fragment := by
  obtain ⟨hcolumn, blanks, r, hf, hb, -⟩ := exists_of_ofChars? h
  obtain ⟨ns, n, hns, hsplit, rfl⟩ := exists_of_qualifier? hq
  have hne := splitDots_ne_nil c.column.toList
  obtain ⟨t, ts, htokens, ht⟩ := exists_tokenize_column hne (List.all_eq_true.1 hcolumn) hb r
  rw [intercalate_splitDots, ← hf] at htokens
  -- Behind the column there is an operator, so no name goes on there.
  have hend : EndsName (t :: ts) := endsName_cons (by simp [isSymbol, ht]) ts
  have hparts := map_text_nameParts false (splitDots c.column.toList)
  refine mem_qualifiers_iff.2 ⟨[], _, t :: ts, htokens, .of_endsName ?_ hend, ?_, ?_⟩
  · exact isDottedName_columnTokens hne
  · have hlength := congrArg List.length hparts
    rw [List.length_map] at hlength
    rw [hlength, hsplit, List.length_append]
    exact Nat.lt_add_of_pos_left (List.length_pos_iff.2 hns)
  · rw [qualifierText, List.map_dropLast, hparts, hsplit, List.dropLast_concat]

namespace Highlights

/-- A cell has its qualifier from a dotted name of its condition, so its table is lit up. -/
theorem whereCells_ofText (s : String) :
    let q : Query := .ofText s
    q.whereCells = q.whereConditions.filterMap Cell.ofString? ∧
      ∀ condition ∈ q.whereConditions, ∀ c ∈ Cell.ofString? condition, ∀ qualifier ∈ c.qualifier?,
        qualifier ∈ qualifiers condition ∧
          ∀ key ∈ q.resolve? qualifier, key ∈ (ofStep .whereRows q).activeTables := by
  intro q
  have h : q.Consistent := Query.consistent_ofTokens (visible_tokenize s.toList)
  refine ⟨h.cells, ?_⟩
  intro condition hcondition c hc qualifier hq
  have hmem := Cell.mem_qualifiers hc hq
  refine ⟨hmem, ?_⟩
  intro key hkey
  have hrefers : q.RefersTo condition key :=
    h.mem_referredTables.1 (List.mem_filterMap.2 ⟨qualifier, hmem, hkey⟩)
  apply (mem_activeTables_ofStep h .whereRows).2
  exact ⟨h.resolve?_mem hkey, .inl ⟨condition, hcondition, hrefers⟩⟩

theorem whereCells_ofText_schema :
    let q := Query.ofText "SELECT * FROM app.users, logs WHERE app.users.id = 1"
    let c : Cell := ⟨"app.users.id", "1"⟩
    q.whereConditions = ["app.users.id = 1"] ∧ Cell.ofString? "app.users.id = 1" = some c ∧
      c.qualifier? = some "app.users" ∧ q.resolve? "app.users" = some "app.users" ∧
      "app.users" ∈ qualifiers "app.users.id = 1" ∧
      "app.users" ∈ (ofStep .whereRows q).activeTables := by
  intro q c
  have hconditions : q.whereConditions = ["app.users.id = 1"] := by decide +kernel
  have hcell : Cell.ofString? "app.users.id = 1" = some c := by decide
  have hqualifier : c.qualifier? = some "app.users" := by decide
  have hkey : q.resolve? "app.users" = some "app.users" := by decide +kernel
  obtain ⟨-, h⟩ := whereCells_ofText "SELECT * FROM app.users, logs WHERE app.users.id = 1"
  have hmem : "app.users.id = 1" ∈ q.whereConditions := by rw [hconditions]; decide
  obtain ⟨hq, hactive⟩ := h _ hmem c hcell _ hqualifier
  exact ⟨hconditions, hcell, hqualifier, hkey, hq, hactive _ hkey⟩

end Highlights
end SqlWalk
