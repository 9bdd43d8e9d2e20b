import SqlWalk.Proofs.Query.Reading

namespace SqlWalk

variable {n s v : List Char} {ns : List (List Char)}

/-- A name of letters, digits and underscores of ASCII, the first of which is no digit. -/
def IsColumnName (n : List Char) : Prop :=
  n ≠ [] ∧ (∀ c ∈ n, c.isAlphanum = true ∨ c = '_') ∧ ∀ c ∈ n.head?, c.isDigit = false

instance (n : List Char) : Decidable (IsColumnName n) :=
  decidable_of_iff (n ≠ [] ∧ n.all (fun c => c.isAlphanum || c == '_') = true ∧
    n.head?.all (!·.isDigit) = true) (by cases n <;> simp [IsColumnName])

inductive Literal where
  | quoted (value : List Char)
  | doubleQuoted (value : List Char) (free : '\x22' ∉ value)
  | bare (value : List Char) (ne_nil : value ≠ [])
      (free : ∀ c ∈ value, isBlank c = false ∧ c ∉ ['\x27', '\x22', '=', '<', '>', '!'])

namespace Literal

def value : Literal → List Char
  | quoted v | doubleQuoted v _ | bare v _ _ => v

def text : Literal → List Char
  | quoted v => '\x27' :: (doubled '\x27' v ++ ['\x27'])
  | doubleQuoted v _ => '\x22' :: (v ++ ['\x22'])
  | bare v _ _ => v

end Literal

/-- A condition that gives a column a value, in its parts. -/
structure CellText where
  /-- The parts of the column between its dots. -/
  names : List (List Char)
  before : List Char
  after : List Char
  literal : Literal
  names_ne_nil : names ≠ []
  isName : ∀ n ∈ names, IsColumnName n
  blank_before : ∀ c ∈ before, isBlank c = true
  blank_after : ∀ c ∈ after, isBlank c = true

namespace CellText

def column (t : CellText) : List Char :=
  ['.'].intercalate t.names

def text (t : CellText) : List Char :=
  t.column ++ (t.before ++ '=' :: (t.after ++ t.literal.text))

def cell (t : CellText) : Cell :=
  ⟨.ofList t.column, .ofList t.literal.value⟩

end CellText

theorem isIdentifier_iff : isIdentifier n = true ↔ IsColumnName n := by
  constructor
  · intro h
    have hall := forall_mem_of_isIdentifier h
    refine ⟨?_, fun c hc => by simpa using hall c hc, ?_⟩
    · rintro rfl
      cases h
    · cases n with
      | nil => cases h
      | cons c n =>
        rintro _ ⟨⟩
        rcases Bool.or_eq_true_iff.1 (Bool.and_eq_true_iff.1 h).1 with hc | hc
        · exact isDigit_of_isAlpha hc
        · rw [eq_of_beq hc]
          decide
  · rintro ⟨hne, hall, hfirst⟩
    obtain ⟨c, n, rfl⟩ := List.exists_cons_of_ne_nil hne
    obtain ⟨hc, hn⟩ := List.forall_mem_cons.1 hall
    rw [isIdentifier, Bool.and_eq_true]
    constructor
    · rcases hc with hc | rfl
      · rw [Char.isAlphanum, hfirst c rfl, Bool.or_false] at hc
        rw [hc, Bool.true_or]
      · rfl
    · rw [List.all_eq_true]
      intro d hd
      simpa using hn d hd

theorem IsColumnName.dot_notMem (h : IsColumnName n) : '.' ∉ n := by
  intro hdot
  rcases h.2.1 '.' hdot with hd | hd
  · exact absurd hd (by decide)
  · exact absurd hd (by decide)

theorem splitDots_intercalate (hne : ns ≠ []) (h : ∀ n ∈ ns, '.' ∉ n) :
    splitDots (['.'].intercalate ns) = ns := by
  induction ns with
  | nil => exact absurd rfl hne
  | cons n ns ih =>
    obtain ⟨hn, hns⟩ := List.forall_mem_cons.1 h
    cases ns with
    | nil => rw [List.intercalate_singleton, splitDots_of_notMem hn]
    | cons m ns =>
      have hrest := ih (List.cons_ne_nil m ns) hns
      rw [List.intercalate_cons_cons, List.append_assoc, List.singleton_append, splitDots_append,
        splitDots_of_notMem hn, hrest]
      rfl

theorem isBareChar_iff {c : Char} : isBareChar c = true ↔
    isBlank c = false ∧ c ∉ ['\x27', '\x22', '=', '<', '>', '!'] := by
  simp only [isBareChar, Bool.not_eq_true', Bool.or_eq_false_iff, List.contains_eq_mem,
    decide_eq_false_iff_not]

namespace Literal

theorem exists_of_literal? (h : literal? s = some v) : ∃ l : Literal, l.text = s ∧ l.value = v := by
  cases s with
  | nil => cases h
  | cons c r =>
    rw [literal?_cons] at h
    split at h
    · next hc => exact ⟨.quoted v, by rw [hc, eq_of_unquote h]; rfl, rfl⟩
    split at h
    · next hc =>
      obtain ⟨hr, hfree⟩ := eq_of_undoubled h
      exact ⟨.doubleQuoted v hfree, by rw [hc, hr]; rfl, rfl⟩
    split at h
    · next hall =>
      cases h
      have hfree : ∀ d ∈ c :: r, _ := fun d hd => isBareChar_iff.1 (List.all_eq_true.1 hall d hd)
      exact ⟨.bare (c :: r) (List.cons_ne_nil c r) hfree, rfl, rfl⟩
    · cases h

theorem literal?_text (l : Literal) : literal? l.text = some l.value := by
  cases l with
  | quoted v => exact unquote_doubled v
  | doubleQuoted v hfree => exact undoubled_append hfree
  | bare v hne hfree =>
    obtain ⟨c, r, rfl⟩ := List.exists_cons_of_ne_nil hne
    have hc := (hfree c List.mem_cons_self).2
    have hall : (c :: r).all isBareChar = true :=
      List.all_eq_true.2 fun d hd => isBareChar_iff.2 (hfree d hd)
    simp only [List.mem_cons, not_or] at hc
    rw [text, literal?_cons, if_neg hc.1, if_neg hc.2.1, if_pos hall]
    rfl

theorem isBlank_head (l : Literal) : ∀ d ∈ l.text.head?, isBlank d = false := by
  cases l with
  | quoted v | doubleQuoted v hfree =>
    rintro d ⟨⟩
    decide
  | bare v hne hfree => exact fun d hd => (hfree d (List.mem_of_mem_head? hd)).1

theorem text_injective {l l' : Literal} (h : l.text = l'.text) : l = l' := by
  have hvalue : l.value = l'.value := by
    have hread := l.literal?_text
    rw [h, l'.literal?_text] at hread
    exact (Option.some.inj hread).symm
  have hbare {v w : List Char} {q : Char}
      (hfree : ∀ c ∈ v, isBlank c = false ∧ c ∉ ['\x27', '\x22', '=', '<', '>', '!'])
      (hq : q ∈ ['\x27', '\x22']) (hv : v = q :: w) : False := by
    have hq' := (hfree q (hv ▸ List.mem_cons_self)).2
    simp only [List.mem_cons, not_or, List.not_mem_nil, or_false] at hq hq'
    rcases hq with hq | hq
    · exact hq'.1 hq
    · exact hq'.2.1 hq
  cases l with
  | quoted v =>
    cases l' with
    | quoted w => exact congrArg quoted hvalue
    | doubleQuoted w => cases h
    | bare w hne hfree => exact (hbare hfree (by decide) h.symm).elim
  | doubleQuoted v =>
    cases l' with
    | quoted w => cases h
    | doubleQuoted w =>
      cases hvalue
      rfl
    | bare w hne hfree => exact (hbare hfree (by decide) h.symm).elim
  | bare v hne hfree =>
    cases l' with
    | quoted w => exact (hbare hfree (by decide) h).elim
    | doubleQuoted w => exact (hbare hfree (by decide) h).elim
    | bare w =>
      cases hvalue
      rfl

end Literal

namespace CellText

variable {t t' : CellText}

theorem splitDots_column (t : CellText) : splitDots t.column = t.names :=
  splitDots_intercalate t.names_ne_nil fun n hn => (t.isName n hn).dot_notMem

theorem isColumn_column (t : CellText) : isColumn t.column = true := by
  rw [isColumn, splitDots_column, List.all_eq_true]
  exact fun n hn => isIdentifier_iff.2 (t.isName n hn)

theorem ofChars?_text (t : CellText) : Cell.ofChars? t.text = some t.cell := by
  have hread := Cell.ofChars?_equation t.isColumn_column t.blank_before t.blank_after
    t.literal.isBlank_head
  rw [t.literal.literal?_text] at hread
  exact hread

theorem exists_of_ofChars? {cell : Cell} (h : Cell.ofChars? s = some cell) :
    ∃ t : CellText, t.text = s ∧ t.cell = cell := by
  obtain ⟨hcolumn, blanks, r, rfl, hb, hliteral⟩ := Cell.exists_of_ofChars? h
  obtain ⟨l, htext, hvalue⟩ := Literal.exists_of_literal? hliteral
  let t : CellText :=
    { names := splitDots cell.column.toList
      before := blanks
      after := r.takeWhile isBlank
      literal := l
      names_ne_nil := splitDots_ne_nil _
      isName := fun n hn => isIdentifier_iff.1 (List.all_eq_true.1 hcolumn n hn)
      blank_before := hb
      blank_after := fun c hc => List.all_eq_true.1 List.all_takeWhile c hc }
  have hcol : t.column = cell.column.toList := intercalate_splitDots _
  refine ⟨t, ?_, ?_⟩
  · rw [text, hcol, htext, List.takeWhile_append_dropWhile]
  · rw [CellText.cell, hcol, hvalue, String.ofList_toList, String.ofList_toList]

theorem append_inj_of_head? {p : Char → Bool} {a a' x x' : List Char} (ha : ∀ c ∈ a, p c = true)
    (ha' : ∀ c ∈ a', p c = true) (hx : ∀ d ∈ x.head?, p d = false)
    (hx' : ∀ d ∈ x'.head?, p d = false) (h : a ++ x = a' ++ x') : a = a' ∧ x = x' := by
  have hcut : (cutRun p (a ++ x)).1 = a := cutRun_fst_eq_iff.2 ⟨ha, hx⟩
  have hcut' : (cutRun p (a' ++ x')).1 = a' := cutRun_fst_eq_iff.2 ⟨ha', hx'⟩
  rw [h, hcut'] at hcut
  subst hcut
  exact ⟨rfl, List.append_cancel_left h⟩

theorem text_injective (h : t.text = t'.text) : t = t' := by
  have hblank (r : List Char) : ∀ d ∈ ('=' :: r).head?, isBlank d = false := by
    rintro d ⟨⟩
    decide
  obtain ⟨hcolumn, hrest⟩ := append_inj_of_head? (isColumnChar_of_isColumn t.isColumn_column)
    (isColumnChar_of_isColumn t'.isColumn_column) (isColumnChar_of_head? t.blank_before _)
    (isColumnChar_of_head? t'.blank_before _) h
  obtain ⟨hbefore, hequals⟩ := append_inj_of_head? t.blank_before t'.blank_before (hblank _)
    (hblank _) hrest
  obtain ⟨hafter, hliteral⟩ := append_inj_of_head? t.blank_after t'.blank_after
    t.literal.isBlank_head t'.literal.isBlank_head (List.cons.inj hequals).2
  have hnames := congrArg splitDots hcolumn
  rw [splitDots_column, splitDots_column] at hnames
  have hl := Literal.text_injective hliteral
  cases t
  cases t'
  cases hnames
  cases hbefore
  cases hafter
  cases hl
  rfl

end CellText

namespace Cell

/-- A condition is read as a cell exactly if it is written as one, which it is in one way. -/
theorem ofString?_cellText (s : String) :
    (∀ c : Cell, ofString? s = some c ↔ ∃ t : CellText, t.text = s.toList ∧ t.cell = c) ∧
      (∀ t t' : CellText, t.text = s.toList → t'.text = s.toList → t = t') ∧
      (ofString? s = none ↔ ∀ t : CellText, t.text ≠ s.toList) := by
  have hread (c : Cell) : ofString? s = some c ↔ ∃ t : CellText, t.text = s.toList ∧ t.cell = c := by
    constructor
    · exact CellText.exists_of_ofChars?
    · rintro ⟨t, ht, rfl⟩
      rw [ofString?, ← ht, t.ofChars?_text]
  refine ⟨hread, ?_, ?_⟩
  · intro t t' ht ht'
    exact CellText.text_injective (ht.trans ht'.symm)
  · rw [Option.eq_none_iff_forall_ne_some]
    constructor
    · intro h t ht
      exact h t.cell ((hread _).2 ⟨t, ht, rfl⟩)
    · intro h c hc
      obtain ⟨t, ht, -⟩ := (hread c).1 hc
      exact h t ht

theorem ofString?_cellText_quotes :
    let s := "app.u_1\u00a0=\n\x27\x27\x27O\x27\x27Brien\x22\x27"
    let t : CellText :=
      { names := ["app".toList, "u_1".toList]
        before := ['\u00a0']
        after := ['\n']
        literal := .quoted "\x27O\x27Brien\x22".toList
        names_ne_nil := List.cons_ne_nil _ _
        isName := List.forall_mem_cons.2 ⟨by decide, List.forall_mem_singleton.2 (by decide)⟩
        blank_before := List.forall_mem_singleton.2 rfl
        blank_after := List.forall_mem_singleton.2 rfl }
    t.text = s.toList ∧ ofString? s = some ⟨"app.u_1", "\x27O\x27Brien\x22"⟩ ∧
      ∀ t' : CellText, t'.text = s.toList → t' = t := by
  intro s t
  have ht : t.text = s.toList := by decide
  obtain ⟨hread, hunique, -⟩ := ofString?_cellText s
  exact ⟨ht, (hread _).2 ⟨t, ht, rfl⟩, fun t' ht' => hunique t' t ht' ht⟩

end Cell
end SqlWalk
