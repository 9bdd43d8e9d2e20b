import SqlWalk.Proofs.Lexing.Capitals
import SqlWalk.Proofs.Query.Outline
import SqlWalk.Proofs.Query.Reading
import SqlWalk.Proofs.Query.Relabel
import SqlWalk.Proofs.Query.Stretch

namespace SqlWalk

open Token

variable {s : List Char}

theorem Keyword.ofText?_capitals (w : List Char) : ofText? (capitals w) = ofText? w := by
  have hw : (capitals w).map Char.toUpper = w.map Char.toUpper := capitals_capitals w
  rw [ofText?, hw, ofText?]

@[simp] theorem Token.keyword?_capitalized (t : Token) : t.capitalized.keyword? = t.keyword? := by
  simp only [keyword?, capitalized, Keyword.ofText?_capitals]

theorem relabels_capitalized (s : List Char) : Relabels Token.capitalized (tokenize s) := by
  intro t ht
  have hl : t.toLexeme ∈ scan s := by
    have hm := List.mem_map_of_mem (f := toLexeme) ht
    rw [map_toLexeme_tokenize] at hm
    exact List.mem_of_mem_filter hm
  have hk := t.keyword?_capitalized
  obtain ⟨kind, text, spaced⟩ := t
  cases kind with
  | word =>
    rw [capitalized] at hk
    rw [capitalized, bare, bare, hk]
  | symbol =>
    have hc : capitals text = text := congrArg Lexeme.text (Lexeme.capitalized_of_symbol hl rfl)
    rw [capitalized, hc]
  | _ => rfl

theorem Token.spacedText_capitalized (t : Token) :
    t.capitalized.spacedText = capitals t.spacedText := by
  obtain ⟨kind, text, spaced⟩ := t
  cases spaced <;> rfl

theorem Token.join_capitalized (ts : List Token) :
    join (ts.map capitalized) = capitals (join ts) := by
  cases ts with
  | nil => rfl
  | cons t ts =>
    rw [List.map_cons, join, join, capitals_append, List.flatMap_map]
    simp only [spacedText_capitalized]
    rw [capitals, capitals, List.map_flatMap]
    rfl

theorem Token.toList_fragment_capitalized (ts : List Token) :
    (fragment (ts.map capitalized)).toList = capitals (fragment ts).toList := by
  rw [fragment, fragment, String.toList_ofList, String.toList_ofList, join_capitalized]

theorem caseBlind_isColumnChar : CaseBlind isColumnChar :=
  (caseBlind_isAlphanum.or (.beq rfl)).or (.beq rfl)

theorem caseBlind_isBareChar : CaseBlind isBareChar := by
  have hmem : CaseBlind ['\x27', '\x22', '=', '<', '>', '!'].contains := by
    apply CaseBlind.contains
    simp
  intro c
  rw [isBareChar, isBareChar, caseBlind_isBlank c, hmem c]

theorem splitDots_capitals (s : List Char) :
    splitDots (capitals s) = (splitDots s).map capitals := by
  induction s with
  | nil => rfl
  | cons c s ih =>
    have hdot : c.toUpper = '.' ↔ c = '.' := toUpper_eq_iff rfl
    rw [capitals_cons, splitDots, splitDots, ih]
    simp only [hdot]
    split
    · rfl
    · cases splitDots s <;> rfl

theorem isIdentifier_capitals (s : List Char) : isIdentifier (capitals s) = isIdentifier s := by
  cases s with
  | nil => rfl
  | cons c s =>
    have hfirst : (c.toUpper.isAlpha || c.toUpper == '_') = (c.isAlpha || c == '_') :=
      caseBlind_isAlpha.or (.beq rfl) c
    have hrest : CaseBlind fun d => d.isAlphanum || d == '_' := caseBlind_isAlphanum.or (.beq rfl)
    rw [capitals_cons, isIdentifier, isIdentifier, hfirst, all_capitals hrest]

theorem isColumn_capitals (s : List Char) : isColumn (capitals s) = isColumn s := by
  rw [isColumn, isColumn, splitDots_capitals, List.all_map]
  congr 1
  funext p
  exact isIdentifier_capitals p

theorem map_capitals_map_cons (c : Char) (o : Option (List Char)) :
    (o.map capitals).map (c.toUpper :: ·) = (o.map (c :: ·)).map capitals := by
  cases o <;> rfl

theorem unquote_capitals (s : List Char) : unquote (capitals s) = (unquote s).map capitals := by
  have hquote (c : Char) : c.toUpper = '\x27' ↔ c = '\x27' := toUpper_eq_iff rfl
  fun_induction unquote s with
  | case1 => rfl
  | case2 => rfl
  | case3 r ih =>
    rw [capitals_cons, capitals_cons, (hquote '\x27').2 rfl, unquote_escaped, ih]
    exact map_capitals_map_cons '\x27' (unquote r)
  | case4 r hend hesc =>
    -- The quote is neither the last character nor doubled.
    cases r with
    | nil => exact (hend rfl rfl).elim
    | cons d r =>
      have hd : d ≠ '\x27' := by
        rintro rfl
        exact hesc r rfl rfl
      exact unquote_closed (mt (hquote d).1 hd) (capitals r)
  | case5 c r hend hesc hc ih =>
    rw [capitals_cons, unquote_cons (mt (hquote c).1 hc), ih]
    exact map_capitals_map_cons c (unquote r)

theorem undoubled_capitals (s : List Char) :
    undoubled (capitals s) = (undoubled s).map capitals := by
  have hquote (c : Char) : c.toUpper = '\x22' ↔ c = '\x22' := toUpper_eq_iff rfl
  fun_induction undoubled s with
  | case1 => rfl
  | case2 => rfl
  | case3 r hend =>
    rw [capitals_cons, (hquote '\x22').2 rfl, undoubled_closed]
    · rfl
    · simpa [capitals] using hend
  | case4 c r hend hc ih =>
    rw [capitals_cons, undoubled_cons (mt (hquote c).1 hc), ih]
    exact map_capitals_map_cons c (undoubled r)

theorem literal?_capitals (s : List Char) : literal? (capitals s) = (literal? s).map capitals := by
  cases s with
  | nil => rfl
  | cons c r =>
    have hquote : c.toUpper = '\x27' ↔ c = '\x27' := toUpper_eq_iff rfl
    have hdouble : c.toUpper = '\x22' ↔ c = '\x22' := toUpper_eq_iff rfl
    rw [capitals_cons, literal?_cons, literal?_cons, ← capitals_cons,
      all_capitals caseBlind_isBareChar, unquote_capitals, undoubled_capitals]
    simp only [hquote, hdouble]
    split
    · rfl
    · split
      · rfl
      · split
        · rfl
        · rfl

def Cell.capitalized (c : Cell) : Cell :=
  ⟨.ofList (capitals c.column.toList), .ofList (capitals c.value.toList)⟩

theorem Cell.ofChars?_capitals (s : List Char) :
    ofChars? (capitals s) = (ofChars? s).map capitalized := by
  have hequals (c : Char) : c.toUpper = '=' ↔ c = '=' := toUpper_eq_iff rfl
  have hdrop (n : Nat) : (capitals s).drop n = capitals (s.drop n) := List.map_drop.symm
  simp only [ofChars?, takeWhile_capitals caseBlind_isColumnChar, isColumn_capitals,
    length_capitals, hdrop, dropWhile_capitals caseBlind_isBlank]
  split
  · cases (s.drop (s.takeWhile isColumnChar).length).dropWhile isBlank with
    | nil => rfl
    | cons c r =>
      by_cases hc : c = '='
      · subst hc
        simp [(hequals '=').2 rfl, dropWhile_capitals caseBlind_isBlank, literal?_capitals,
          capitalized, Function.comp_def]
      · simp [hc, mt (hequals c).1 hc]
  · rfl

theorem map_kind_tokenize_capitals (s : List Char) :
    (tokenize (capitals s)).map (·.kind) = (tokenize s).map (·.kind) := by
  rw [tokenize_capitals, List.map_map]
  rfl

theorem Statement.ofTokens_capitals (s : List Char) :
    ofTokens (tokenize (capitals s)) = (ofTokens (tokenize s)).map capitalized := by
  rw [tokenize_capitals, ofTokens_map (relabels_capitalized s)]

theorem Statement.kinds_capitals (s : List Char) :
    (ofTokens (tokenize (capitals s))).clauses.map (·.kind) =
      (ofTokens (tokenize s)).clauses.map (·.kind) := by
  rw [ofTokens_capitals, kinds_map]

theorem Statement.bodyRanges_capitals (s : List Char) :
    (ofTokens (tokenize (capitals s))).bodyRanges = (ofTokens (tokenize s)).bodyRanges := by
  rw [ofTokens_capitals, bodyRanges_map]

namespace Query

theorem outline_capitals (s : List Char) :
    (ofTokens (tokenize (capitals s))).outline = (ofTokens (tokenize s)).outline := by
  rw [← outline_skeleton, tokenize_capitals, skeleton_map (relabels_capitalized s),
    outline_skeleton]

theorem filterMap_conditions_capitalized {body : Option (List Token)}
    (hb : body.getD [] <:+: tokenize s) :
    (clauseParts conjuncts (body.map (List.map Token.capitalized))).filterMap Cell.ofString? =
      ((clauseParts conjuncts body).filterMap Cell.ofString?).map Cell.capitalized := by
  have hcell (p : List Token) : Cell.ofString? (fragment (p.map Token.capitalized)) =
      (Cell.ofString? (fragment p)).map Cell.capitalized := by
    rw [Cell.ofString?, toList_fragment_capitalized, Cell.ofChars?_capitals, Cell.ofString?]
  cases body with
  | none => rfl
  | some body =>
    have hmap : conjuncts (body.map Token.capitalized) = _ :=
      conjuncts_map ((relabels_capitalized s).of_subset hb.subset)
    simp only [clauseParts, Option.map_some, Option.getD_some, hmap, List.filterMap_map,
      List.map_filterMap, Function.comp_def, hcell]

theorem whereCells_capitals (s : List Char) :
    (ofTokens (tokenize (capitals s))).whereCells =
      (ofTokens (tokenize s)).whereCells.map Cell.capitalized := by
  simp only [ofTokens, Statement.ofTokens_capitals, Statement.body?_map]
  cases (Statement.ofTokens (tokenize s)).body? .fromTables with
  | none => rfl
  | some source =>
    simp only [Option.map_some, ofStatement, Statement.body?_map]
    exact filterMap_conditions_capitalized (Statement.getD_body?_infix _ .whereRows)

/-- Texts that differ in the case of letters only have the same structure. -/
theorem ofText_sameLetters (s s' : String) (h : sameLetters s.toList s'.toList = true) :
    (tokenize s.toList).map (·.kind) = (tokenize s'.toList).map (·.kind) ∧
      tokenSpans s.toList = tokenSpans s'.toList ∧
      (Statement.ofTokens (tokenize s.toList)).clauses.map (·.kind) =
        (Statement.ofTokens (tokenize s'.toList)).clauses.map (·.kind) ∧
      (Statement.ofTokens (tokenize s.toList)).bodyRanges =
        (Statement.ofTokens (tokenize s'.toList)).bodyRanges ∧
      (ofText s).outline = (ofText s').outline ∧
      (ofText s).whereCells.length = (ofText s').whereCells.length := by
  have hcapitals := sameLetters_iff.1 h
  refine ⟨?_, ?_, ?_, ?_, ?_, ?_⟩
  · rw [← map_kind_tokenize_capitals s.toList, hcapitals, map_kind_tokenize_capitals]
  · rw [← tokenSpans_capitals s.toList, hcapitals, tokenSpans_capitals]
  · rw [← Statement.kinds_capitals s.toList, hcapitals, Statement.kinds_capitals]
  · rw [← Statement.bodyRanges_capitals s.toList, hcapitals, Statement.bodyRanges_capitals]
  · rw [ofText, ofText, ← outline_capitals s.toList, hcapitals, outline_capitals]
  · have hcells := congrArg (fun s => (ofTokens (tokenize s)).whereCells.length) hcapitals
    simp only [whereCells_capitals, List.length_map] at hcells
    exact hcells

theorem ofText_sameLetters_mixed :
    let s := "select Sum(x) from t left Join u on a = b where c = 'It' and d between 1 and 2"
    let s' := "SELECT SUM(X) FROM T LEFT JOIN U ON A = B WHERE C = 'it' AND D BETWEEN 1 AND 2"
    sameLetters s.toList s'.toList = true ∧
      (tokenize s.toList).map (·.kind) = (tokenize s'.toList).map (·.kind) ∧
      tokenSpans s.toList = tokenSpans s'.toList ∧
      (Statement.ofTokens (tokenize s.toList)).clauses.map (·.kind) =
        (Statement.ofTokens (tokenize s'.toList)).clauses.map (·.kind) ∧
      (Statement.ofTokens (tokenize s.toList)).bodyRanges =
        (Statement.ofTokens (tokenize s'.toList)).bodyRanges ∧
      (ofText s).outline = (ofText s').outline ∧
      (ofText s).whereCells.length = (ofText s').whereCells.length := by
  intro s s'
  have h : sameLetters s.toList s'.toList = true := by decide +kernel
  exact ⟨h, ofText_sameLetters s s' h⟩

end Query
end SqlWalk
