import SqlWalk.Proofs.Query.Invariance
import SqlWalk.Proofs.Query.Reading
import SqlWalk.Proofs.Query.RoundTrip

namespace SqlWalk

open Token

variable {s r n : List Char} {ns : List (List Char)} {t : Token} {ts : List Token} {gap : Bool}
  {c : Cell} {x : String}

/-- The keywords that may not be names in a condition. -/
def Keyword.dividing : List Keyword :=
  .and :: .between :: breaking

/-- A chain of names, none of which divides a query or its conditions. -/
def PlainColumn (s : List Char) : Prop :=
  ∀ n ∈ splitDots s, isIdentifier n = true ∧ ∀ k ∈ Keyword.ofText? n, k ∉ Keyword.dividing

instance (s : List Char) : Decidable (PlainColumn s) :=
  inferInstanceAs (Decidable (∀ n ∈ splitDots s, _))

def Cell.print (c : Cell) : String :=
  c.column ++ " = " ++ literal c.value

def nameToken (gap : Bool) (n : List Char) : Token :=
  ⟨.word, n, gap⟩

def dotToken : Token :=
  ⟨.symbol, ['.'], false⟩

def columnTokens (gap : Bool) : List (List Char) → List Token
  | [] => []
  | [n] => [nameToken gap n]
  | n :: m :: ns => nameToken gap n :: dotToken :: columnTokens false (m :: ns)

def equationTokens (column : List Char) (value : Token) : List Token :=
  columnTokens true (splitDots column) ++ [⟨.operator, ['='], true⟩, value]

/-- Tokens of this kind start with the quote and end with the next one that is not doubled. -/
structure Encloses (q : Char) (kind : TokenKind) : Prop where
  ofHead : ∀ r, LexemeKind.ofHead q r = .token kind
  cut : ∀ r, (LexemeKind.token kind).cut q r = cutQuoted q r

def enclosed (q : Char) (s : List Char) : List Char :=
  q :: (doubled q s ++ [q])

theorem isWordPart_of_isIdentifier (h : isIdentifier n = true) : ∀ c ∈ n, isWordPart c = true := by
  intro c hc
  rcases Bool.or_eq_true_iff.1 (forall_mem_of_isIdentifier h c hc) with hc | hc
  · exact isWordPart_of_isAlphanum hc
  · simp [isWordPart, hc]

theorem lexesBefore_nameToken (hn : isIdentifier n = true)
    (hr : ∀ d ∈ r.head?, isWordPart d = false) : (nameToken gap n).LexesBefore r := by
  cases n with
  | nil => cases hn
  | cons c b =>
    obtain ⟨hc, hb⟩ := Bool.and_eq_true_iff.1 hn
    obtain ⟨-, hb⟩ := List.forall_mem_cons.1 (isWordPart_of_isIdentifier hn)
    refine ⟨c, b, rfl, ?_, cutRun_fst_eq_iff.2 ⟨hb, hr⟩⟩
    rcases Bool.or_eq_true_iff.1 hc with hc | hc
    · exact LexemeKind.ofHead_of_isAlpha hc _
    · rw [eq_of_beq hc]
      rfl

theorem lexesBefore_dotToken (r : List Char) : dotToken.LexesBefore r :=
  ⟨'.', [], rfl, rfl, rfl⟩

theorem flatMap_columnTokens (hns : ns ≠ []) : (columnTokens gap ns).flatMap spacedText =
    (if gap then [' '] else []) ++ ['.'].intercalate ns := by
  fun_induction columnTokens gap ns with
  | case1 => exact absurd rfl hns
  | case2 gap n => cases gap <;> simp [nameToken, spacedText]
  | case3 gap n m ns ih =>
    rw [List.flatMap_cons, List.flatMap_cons, ih (List.cons_ne_nil m ns),
      List.intercalate_cons_cons]
    cases gap <;> simp [nameToken, dotToken, spacedText]

theorem legible_columnTokens (h : ∀ n ∈ ns, isIdentifier n = true) :
    Legible (columnTokens gap ns) := by
  fun_induction columnTokens gap ns with
  | case1 => trivial
  | case2 gap n => exact ⟨lexesBefore_nameToken (h n List.mem_cons_self) nofun, trivial⟩
  | case3 gap n m ns ih =>
    obtain ⟨hn, hns⟩ := List.forall_mem_cons.1 h
    refine ⟨lexesBefore_nameToken hn ?_, lexesBefore_dotToken _, ih hns⟩
    rintro d ⟨⟩
    decide

theorem exists_columnTokens_cons (gap : Bool) (n : List Char) (ns : List (List Char)) :
    ∃ ts, columnTokens gap (n :: ns) = nameToken gap n :: ts := by
  cases ns with
  | nil => exact ⟨[], rfl⟩
  | cons m ns => exact ⟨_, rfl⟩

theorem getLast?_columnTokens (h : ∀ n ∈ ns, isIdentifier n = true) :
    ∀ t ∈ (columnTokens gap ns).getLast?, t.LexesBefore [' '] := by
  fun_induction columnTokens gap ns with
  | case1 => exact nofun
  | case2 gap n =>
    rintro t ⟨⟩
    apply lexesBefore_nameToken (h n List.mem_cons_self)
    rintro d ⟨⟩
    decide
  | case3 gap n m ns ih =>
    obtain ⟨-, hns⟩ := List.forall_mem_cons.1 h
    have hlast := ih hns
    obtain ⟨us, hu⟩ := exists_columnTokens_cons false m ns
    rw [hu] at hlast ⊢
    exact hlast

-- A dot may belong to a number and so is not inert: a column is spelled as a whole.
theorem spells_columnTokens (hns : ns ≠ []) (h : ∀ n ∈ ns, isIdentifier n = true) :
    Spells (' ' :: ['.'].intercalate ns) (columnTokens true ns) where
  text := flatMap_columnTokens hns
  legible := legible_columnTokens h
  closed := getLast?_columnTokens h
  inert := by
    rintro c ⟨⟩
    exact isInert_space

theorem spells_equals : Spells [' ', '='] [⟨.operator, ['='], true⟩] :=
  .of_closed (s := ['=']) (by decide) (by decide) (by decide)

theorem encloses_str : Encloses '\x27' .str :=
  ⟨fun _ => rfl, fun _ => rfl⟩

section
variable {q : Char} {kind : TokenKind}

theorem Encloses.lexesBefore (hq : Encloses q kind) (v : List Char) (gap : Bool)
    (hr : r.head? ≠ some q) : LexesBefore ⟨kind, enclosed q v, gap⟩ r := by
  refine ⟨q, doubled q v ++ [q], rfl, hq.ofHead _, ?_⟩
  rw [hq.cut, List.append_assoc]
  exact congrArg Prod.fst (cutQuoted_doubled q v hr)

theorem Encloses.not_blank (hq : Encloses q kind) : isBlank q = false :=
  LexemeKind.isBlank_of_ofHead_token (hq.ofHead [])

theorem Encloses.spells (hq : Encloses q kind) (v : List Char) :
    Spells (' ' :: enclosed q v) [⟨kind, enclosed q v, true⟩] where
  text := List.append_nil _
  legible := ⟨hq.lexesBefore v true nofun, trivial⟩
  closed := by
    rintro t ⟨⟩
    apply hq.lexesBefore v true
    rintro ⟨⟩
    cases hq.not_blank
  inert := by
    rintro c ⟨⟩
    exact isInert_space

theorem Encloses.ofChars?_equation (hq : Encloses q kind) (hs : isColumn s = true) (v : List Char) :
    Cell.ofChars? (s ++ [' ', '=', ' '] ++ enclosed q v) =
      (literal? (enclosed q v)).map fun value => ⟨.ofList s, .ofList value⟩ := by
  have hblank : ∀ d ∈ [' '], isBlank d = true := List.forall_mem_singleton.2 rfl
  have hquote : ∀ d ∈ (enclosed q v).head?, isBlank d = false := by
    rintro d ⟨⟩
    exact hq.not_blank
  rw [List.append_assoc]
  exact Cell.ofChars?_equation hs hblank hblank hquote

end

theorem PlainColumn.isIdentifier (h : PlainColumn s) : ∀ n ∈ splitDots s, isIdentifier n = true :=
  fun n hn => (h n hn).1

theorem PlainColumn.isColumn (h : PlainColumn s) : isColumn s = true :=
  List.all_eq_true.2 h.isIdentifier

theorem spells_equation (h : PlainColumn s) (ht : Spells (' ' :: r) [t]) :
    Spells (' ' :: (s ++ [' ', '=', ' '] ++ r)) (equationTokens s t) := by
  have hcolumn := spells_columnTokens (splitDots_ne_nil s) h.isIdentifier
  rw [intercalate_splitDots] at hcolumn
  have hs := hcolumn.append (spells_equals.append ht)
  simpa [equationTokens] using hs

namespace Cell

theorem toList_print (c : Cell) :
    c.print.toList = c.column.toList ++ [' ', '=', ' '] ++ quoted c.value.toList := by
  simp [print, literal]

theorem ofString?_print (h : PlainColumn c.column.toList) : ofString? c.print = some c := by
  have hread := encloses_str.ofChars?_equation h.isColumn c.value.toList
  have hliteral : literal? (enclosed '\x27' c.value.toList) = some c.value.toList :=
    unquote_doubled _
  rw [hliteral, Option.map_some, String.ofList_toList, String.ofList_toList] at hread
  rw [ofString?, toList_print]
  exact hread

end Cell

-- A name may still be GROUP, ORDER or a word that modifies joins: what follows it is no keyword.
theorem unbroken_nameToken (h : ∀ k ∈ Keyword.ofText? n, k ∉ Keyword.dividing) :
    Unbroken [nameToken gap n] where
  plain := by
    refine ⟨fun _ => ⟨rfl, ?_, fun _ => rfl⟩, trivial⟩
    intro k hk hm
    exact h k hk (List.mem_cons_of_mem _ (List.mem_cons_of_mem _ hm))
  balanced := rfl

theorem unbroken_columnTokens (h : ∀ n ∈ ns, ∀ k ∈ Keyword.ofText? n, k ∉ Keyword.dividing) :
    Unbroken (columnTokens gap ns) := by
  fun_induction columnTokens gap ns with
  | case1 => exact .nil
  | case2 gap n => exact unbroken_nameToken (h n List.mem_cons_self)
  | case3 gap n m ns ih =>
    obtain ⟨hn, hns⟩ := List.forall_mem_cons.1 h
    have hdot : dotToken.Neutral := .of_not_keyword rfl rfl rfl
    exact (unbroken_nameToken hn).append (.cons hdot (ih hns)) rfl

theorem keyword?_columnTokens (h : ∀ n ∈ ns, ∀ k ∈ Keyword.ofText? n, k ∉ Keyword.dividing) :
    ∀ t ∈ columnTokens gap ns, ∀ k ∈ t.keyword?, k ∉ Keyword.dividing := by
  fun_induction columnTokens gap ns with
  | case1 => exact nofun
  | case2 gap n => exact List.forall_mem_singleton.2 (h n List.mem_cons_self)
  | case3 gap n m ns ih =>
    obtain ⟨hn, hns⟩ := List.forall_mem_cons.1 h
    exact List.forall_mem_cons.2 ⟨hn, List.forall_mem_cons.2 ⟨nofun, ih hns⟩⟩

theorem closesBetween_of_forall {d : Nat} (h : ∀ t ∈ ts, ∀ k ∈ t.keyword?, k ∉ Keyword.dividing) :
    closesBetween false d ts = true := by
  induction ts generalizing d with
  | nil => rfl
  | cons t ts ih =>
    obtain ⟨ht, hts⟩ := List.forall_mem_cons.1 h
    rw [closesBetween]
    split
    · split
      · next hk => exact absurd (by decide) (ht _ hk)
      · next hk => exact absurd (by decide) (ht _ hk)
      · exact ih hts
    · exact ih hts

theorem exists_respaced_equation (s : List Char) (t : Token) :
    ∃ u us, equationTokens s t = respaced true (u :: us) := by
  obtain ⟨n, ns, hn⟩ := List.exists_cons_of_ne_nil (splitDots_ne_nil s)
  obtain ⟨ts, hts⟩ := exists_columnTokens_cons true n ns
  rw [equationTokens, hn, hts]
  exact ⟨nameToken true n, _, rfl⟩

theorem isCondition_equation (h : PlainColumn s) (ht : Spells (' ' :: r) [t]) (hn : t.Neutral)
    (hk : t.keyword? = none) : IsCondition (.ofList (s ++ [' ', '=', ' '] ++ r)) := by
  have hequals : Neutral ⟨.operator, ['='], true⟩ := .of_not_keyword rfl rfl rfl
  have hcolumn : Unbroken (columnTokens true (splitDots s)) :=
    unbroken_columnTokens fun n hn => (h n hn).2
  have hunbroken : Unbroken (equationTokens s t) :=
    hcolumn.append (.cons hequals (.cons hn .nil)) rfl
  have hspells := spells_equation h ht
  obtain ⟨u, us, hus⟩ := exists_respaced_equation s t
  rw [hus, ← String.toList_ofList (l := s ++ [' ', '=', ' '] ++ r)] at hspells
  obtain ⟨hpart, htokens⟩ := IsPart.of_spells hspells (hus ▸ hunbroken)
  refine ⟨hpart, ?_⟩
  rw [htokens, ← hus]
  apply closesBetween_of_forall
  rw [equationTokens, List.forall_mem_append]
  refine ⟨keyword?_columnTokens fun n hn => (h n hn).2, ?_⟩
  refine List.forall_mem_cons.2 ⟨nofun, List.forall_mem_singleton.2 ?_⟩
  rw [hk]
  exact nofun

theorem Cell.isCondition_print (h : PlainColumn c.column.toList) : IsCondition c.print := by
  rw [← String.ofList_toList (s := c.print), toList_print]
  exact isCondition_equation h (encloses_str.spells c.value.toList) (.of_not_keyword rfl rfl rfl) rfl

/-- The query for the rows of a table in which some cells have the given values. -/
def SelectText.ofCells (cells : List Cell) : SelectText where
  distinct := false
  columns := ["*"]
  sources := [⟨"t", none, false⟩]
  joins := []
  conditions := cells.map Cell.print
  groups := []
  having := []
  orderBy? := none
  limit? := none

def SelectText.ofConditions (conditions : List String) : SelectText :=
  { ofCells [] with conditions }

namespace SelectText

variable {cells : List Cell} {conditions : List String}

theorem wellFormed_ofConditions (h : ∀ x ∈ conditions, IsCondition x) :
    (ofConditions conditions).WellFormed where
  columns_ne_nil := List.cons_ne_nil _ _
  columns := by
    change ∀ c ∈ ["*"], IsItem c
    decide
  flag := by
    intro _
    change ∀ c ∈ some "*", ∀ t ∈ (partTokens c).head?, _
    decide
  sources_ne_nil := List.cons_ne_nil _ _
  sources := by
    change ∀ t ∈ [TableText.mk "t" none false], t.WellFormed
    decide
  joins := nofun
  joinsApart := by
    cases conditions <;>
      simp [ofConditions, ofCells, clauses, partsClause, fromClause, Clause.JoinsApart,
        Clause.isJoin]
  conditions := h
  groups := nofun
  having := nofun
  orderBy := nofun
  limit := nofun
  keys := by
    change ["t"].Nodup
    decide

theorem print_ofConditions (hne : conditions ≠ []) : (ofConditions conditions).print =
    "SELECT * FROM t WHERE " ++ " AND ".intercalate conditions := by
  have hfront : "SELECT * FROM " ++ TableText.print ⟨"t", none, false⟩ ++ " WHERE " =
      "SELECT * FROM t WHERE " := by decide
  rw [← hfront]
  simp [print, ofConditions, ofCells, printParts, hne, String.append_assoc]

theorem wellFormed_ofCells (h : ∀ c ∈ cells, PlainColumn c.column.toList) :
    (ofCells cells).WellFormed := by
  apply wellFormed_ofConditions
  intro x hx
  obtain ⟨c, hc, rfl⟩ := List.mem_map.1 hx
  exact Cell.isCondition_print (h c hc)

theorem print_ofCells (hne : cells ≠ []) : (ofCells cells).print =
    "SELECT * FROM t WHERE " ++ " AND ".intercalate (cells.map Cell.print) :=
  print_ofConditions (mt List.map_eq_nil_iff.1 hne)

theorem WellFormed.ofText_print_eq {p : SelectText} (h : p.WellFormed) : Query.ofText p.print =
    .ofStatement (Query.kindOf (tokenize p.print.toList)) p.statement p.fromClause.body := by
  rw [Query.ofText, Query.ofTokens, h.ofTokens_tokenize_print, body?_from]

end SelectText

namespace Query

/-- Columns compared with quoted values give one condition and one cell each. -/
theorem ofText_equations (cells : List Cell) (h : ∀ c ∈ cells, PlainColumn c.column.toList) :
    let q := ofText ("SELECT * FROM t WHERE " ++ " AND ".intercalate (cells.map Cell.print))
    q.whereCells = cells ∧ q.whereConditions = cells.map Cell.print ∧ q.tables = ["t"] := by
  by_cases hne : cells = []
  · subst hne
    decide
  intro q
  have hw := SelectText.wellFormed_ofCells h
  have hq := hw.ofText_print_eq
  rw [SelectText.print_ofCells hne] at hq
  change q = _ at hq
  have hconditions : q.whereConditions = cells.map Cell.print := by
    rw [hq, ofStatement, SelectText.body?_where]
    exact clauseParts_conditions hw.conditions
  have htables : q.tables = ["t"] := by
    rw [hq, ofStatement, hw.filterMap_listItems, hw.joins_statement, hw.foldl_addRef_refs]
    rfl
  have hcells : q.whereCells = q.whereConditions.filterMap Cell.ofString? := by
    rw [hq, ofStatement]
  refine ⟨?_, hconditions, htables⟩
  have hread : (cells.map Cell.print).filterMap Cell.ofString? = cells.map id := by
    rw [List.filterMap_map]
    exact filterMap_of_eq_some fun c hc => Cell.ofString?_print (h c hc)
  rw [hcells, hconditions, hread, List.map_id]

theorem ofText_equations_hostile :
    let cells : List Cell :=
      [⟨"u.name", "\x27 OR (1 = 1 -- \x27\x27"⟩, ⟨"_Group", "; SELECT /*\n AND \x27"⟩]
    (∀ c ∈ cells, PlainColumn c.column.toList) ∧
      (let q := ofText ("SELECT * FROM t WHERE " ++ " AND ".intercalate (cells.map Cell.print))
      q.whereCells = cells ∧ q.whereConditions = cells.map Cell.print ∧ q.tables = ["t"]) := by
  intro cells
  have h : ∀ c ∈ cells, PlainColumn c.column.toList := by decide
  exact ⟨h, ofText_equations cells h⟩

end Query
end SqlWalk
