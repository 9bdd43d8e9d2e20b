import SqlWalk.Token

namespace SqlWalk

variable {c q x : Char} {b r r' : List Char} {l : Lexeme} {t : Token}

/-- A character that continues no token and opens no comment with the one before it. -/
def isInert (c : Char) : Bool :=
  !(isWordPart c || isNumberPart c || isParamPart c || isOperatorChar c ||
    ['\x27', '\x22', '\x60', '*'].contains c)

theorem isInert_space : isInert ' ' = true := by decide

/-- What ends where `r` starts also ends where `r'` starts: they start alike, or `r` has a first
character and that of `r'`, if any, is inert. -/
def Delimits (r r' : List Char) : Prop :=
  r'.head? = r.head? ∨ r ≠ [] ∧ ∀ c ∈ r'.head?, isInert c = true

theorem Delimits.of_append (x y : List Char) : Delimits (x ++ y) x := by
  cases x with
  | nil =>
    cases y with
    | nil => exact .inl rfl
    | cons c y => exact .inr ⟨List.cons_ne_nil _ _, by simp⟩
  | cons c x => exact .inl rfl

theorem Delimits.append_of_ne_nil (hr : r ≠ []) (y : List Char) : Delimits r (r ++ y) := by
  cases r with
  | nil => exact absurd rfl hr
  | cons c r => exact .inl rfl

theorem Delimits.eq_nil (hr : Delimits r r') (hn : r = []) : r' = [] := by
  rcases hr with he | ⟨hne, _⟩
  · rw [hn] at he
    exact List.head?_eq_none_iff.1 he
  · exact absurd hn hne

theorem Delimits.head?_ne (hr : Delimits r r') (hq : isInert q = false) :
    r'.head? = r.head? ∨ r ≠ [] ∧ r'.head? ≠ some q := by
  refine hr.imp_right fun ⟨hn, hi⟩ => ⟨hn, ?_⟩
  intro hh
  rw [hi q hh] at hq
  cases hq

theorem cutRun_fst_eq_iff {p : Char → Bool} :
    (cutRun p (b ++ r)).1 = b ↔ (∀ c ∈ b, p c = true) ∧ ∀ c ∈ r.head?, p c = false := by
  induction b with
  | nil => cases r <;> simp [cutRun, List.takeWhile_cons]
  | cons c b ih =>
    have ih' := ih
    simp only [cutRun] at ih' ⊢
    by_cases hc : p c = true
    · simp only [List.cons_append, List.takeWhile_cons_of_pos hc, List.cons.injEq, true_and, ih',
        List.forall_mem_cons, hc]
    · simp [List.takeWhile_cons_of_neg hc, hc]

theorem cutRun_of_stop {p : Char → Bool} (h : (cutRun p (b ++ r)).1 = b)
    (hr : ∀ c ∈ r'.head?, p c = false) : (cutRun p (b ++ r')).1 = b :=
  cutRun_fst_eq_iff.2 ⟨(cutRun_fst_eq_iff.1 h).1, hr⟩

theorem cutRun_delimits {p : Char → Bool} (hp : ∀ c, isInert c = true → p c = false)
    (h : (cutRun p (b ++ r)).1 = b) (hr : Delimits r r') : (cutRun p (b ++ r')).1 = b := by
  apply cutRun_of_stop h
  rcases hr with he | ⟨_, hi⟩
  · rw [he]
    exact (cutRun_fst_eq_iff.1 h).2
  · exact fun c hc => hp c (hi c hc)

theorem cutAfter_fst_ne_nil (hs : r ≠ []) : (cutAfter x r).1 ≠ [] := by
  cases r with
  | nil => exact absurd rfl hs
  | cons c r =>
    rw [cutAfter]
    split <;> simp

theorem cutAfter_delimits (h : (cutAfter x (b ++ r)).1 = b) (hr : r = [] → r' = []) :
    (cutAfter x (b ++ r')).1 = b := by
  induction b with
  | nil =>
    by_cases hn : r = []
    · rw [hr hn]
      rfl
    · exact absurd h (cutAfter_fst_ne_nil hn)
  | cons c b ih =>
    simp only [List.cons_append, cutAfter] at h ⊢
    split at h
    · next hc =>
      simp only [List.cons.injEq, true_and] at h
      simp [hc, ← h]
    · next hc =>
      simp only [List.cons.injEq, true_and] at h
      simp [hc, ih h]

theorem cutQuoted_fst_ne_nil (hs : r ≠ []) : (cutQuoted q r).1 ≠ [] := by
  fun_cases cutQuoted q r with
  | case1 => exact absurd rfl hs
  | case2 => simp
  | case3 => simp
  | case4 => simp
  | case5 => simp

theorem cutQuoted_fst_eq_singleton_iff :
    (cutQuoted q (c :: r)).1 = [c] ↔ r = [] ∨ c = q ∧ r.head? ≠ some q := by
  cases r with
  | nil => simp [cutQuoted]
  | cons d r =>
    by_cases hc : c = q
    · by_cases hd : d = q <;> simp [cutQuoted, hc, hd]
    · simp [cutQuoted, hc, cutQuoted_fst_ne_nil]

theorem cutQuoted_delimits (h : (cutQuoted q (b ++ r)).1 = b)
    (hr : r'.head? = r.head? ∨ r ≠ [] ∧ r'.head? ≠ some q) : (cutQuoted q (b ++ r')).1 = b := by
  fun_induction cutQuoted q b with
  | case1 =>
    have hn : r = [] := Decidable.not_not.1 fun hn => cutQuoted_fst_ne_nil hn h
    rcases hr with he | ⟨hne, _⟩
    · rw [hn] at he
      rw [List.head?_eq_none_iff.1 he]
      rfl
    · exact absurd hn hne
  | case2 c =>
    rw [List.singleton_append, cutQuoted_fst_eq_singleton_iff] at h ⊢
    rcases hr with he | ⟨hne, hq⟩
    · rwa [← List.head?_eq_none_iff, he, List.head?_eq_none_iff]
    · exact .inr ⟨(h.resolve_left hne).1, hq⟩
  | case3 c d b hc ih =>
    simp only [List.cons_append, cutQuoted, hc, if_true, not_false_eq_true, ne_eq,
      List.cons.injEq, true_and] at h ⊢
    exact ih h
  | case4 c b hc ih =>
    simp only [List.cons_append, cutQuoted, hc, if_false, if_true, List.cons.injEq,
      true_and] at h ⊢
    exact ih h
  | case5 c d b hc hd =>
    simp [cutQuoted, hc, hd] at h

theorem isInert_iff : isInert c = true ↔ isWordPart c = false ∧ isNumberPart c = false ∧
    isParamPart c = false ∧ isOperatorChar c = false ∧ c ≠ '\x27' ∧ c ≠ '\x22' ∧ c ≠ '\x60' ∧
    c ≠ '*' := by
  simp [isInert, and_assoc]

theorem isBlank_of_isAlpha (h : c.isAlpha = true) : isBlank c = false := by
  have hn := toNat_of_isAlpha h
  rw [Bool.eq_false_iff]
  simp only [isBlank, ne_eq, Bool.or_eq_true, Bool.and_eq_true, decide_eq_true_eq, beq_iff_eq]
  omega

theorem isInert_of_mem_quotes (h : q ∈ ['\x27', '\x22', '\x60']) : isInert q = false := by
  simp only [List.mem_cons, List.not_mem_nil, or_false] at h
  rcases h with rfl | rfl | rfl
  · decide
  · decide
  · decide

/-- The characters that continue a token of a kind, if it ends where the first other one stands. -/
def TokenKind.runPart? : TokenKind → Option (Char → Bool)
  | .word => some isWordPart
  | .number => some isNumberPart
  | .param => some isParamPart
  | .operator => some isOperatorChar
  | .str | .quotedIdent | .symbol => none

theorem TokenKind.runPart?_eq_false {k : TokenKind} {p : Char → Bool} (hp : p ∈ k.runPart?)
    (hword : isWordPart c = false) (hnumber : isNumberPart c = false)
    (hparam : isParamPart c = false) (hoperator : k = .operator → isOperatorChar c = false) :
    p c = false := by
  cases k with
  | word =>
    cases hp
    exact hword
  | number =>
    cases hp
    exact hnumber
  | param =>
    cases hp
    exact hparam
  | operator =>
    cases hp
    exact hoperator rfl
  | str => cases hp
  | quotedIdent => cases hp
  | symbol => cases hp

theorem TokenKind.runPart?_inert {k : TokenKind} {p : Char → Bool} (hp : p ∈ k.runPart?)
    (hc : isInert c = true) : p c = false := by
  obtain ⟨hword, hnumber, hparam, hoperator, -⟩ := isInert_iff.1 hc
  exact runPart?_eq_false hp hword hnumber hparam fun _ => hoperator

namespace LexemeKind

theorem ofHead_congr (h : r'.head? = r.head?) : ofHead c r' = ofHead c r := by
  simp only [ofHead, h]

theorem isBlank_of_ofHead_token {k : TokenKind} (h : ofHead c r = .token k) :
    isBlank c = false := by
  by_cases hb : isBlank c = true
  · simp [ofHead, hb] at h
  · simpa using hb

theorem ofHead_of_isAlpha (h : c.isAlpha = true) (r : List Char) :
    ofHead c r = .token .word := by
  have hne (x : Char) (hx : x.isAlpha = false) : (c == x) = false := by
    rw [beq_eq_false_iff_ne]
    rintro rfl
    rw [hx] at h
    cases h
  simp [ofHead, isBlank_of_isAlpha h, isWordStart, isLetter_of_isAlpha h, hne '-' rfl, hne '/' rfl,
    hne '\x27' rfl, hne '\x22' rfl, hne '\x60' rfl, hne '[' rfl]

theorem eq_quote_of_ofHead (h : ofHead c r = .token .str) : c = '\x27' := by
  grind [ofHead]

theorem eq_of_ofHead_quotedIdent (h : ofHead c r = .token .quotedIdent) :
    c = '\x22' ∨ c = '\x60' ∨ c = '[' := by
  grind [ofHead]

theorem ofHead_sigil (hc : isParamSigil c = true) (hr : r.head?.any isParamPart = true) :
    ofHead c r = .token .param := by
  simp only [isParamSigil, Bool.or_eq_true, beq_iff_eq] at hc
  rcases hc with (rfl | rfl) | rfl <;> (rw [ofHead, hr]; rfl)

theorem not_sigil_of_cut_eq_nil {k : TokenKind} (h : ofHead c r = .token k)
    (hcut : ((LexemeKind.token k).cut c r).1 = []) :
    (isParamSigil c && r.head?.any isParamPart) = false := by
  rw [Bool.eq_false_iff]
  intro hs
  obtain ⟨hc, hp⟩ := Bool.and_eq_true_iff.1 hs
  rw [ofHead_sigil hc hp, LexemeKind.token.injEq] at h
  subst h
  have hq : c ≠ '?' := by
    rintro rfl
    cases hc
  rw [cut, if_neg hq] at hcut
  cases r with
  | nil => cases hp
  | cons d r =>
    have hstop := (cutRun_fst_eq_iff (b := [])).1 hcut
    rw [List.head?_cons, Option.any_some, hstop.2 d rfl] at hp
    cases hp

theorem ofHead_inert {k : TokenKind} (h : ofHead c r = .token k)
    (hcut : ((LexemeKind.token k).cut c r).1 = []) (hi : ∀ c ∈ r'.head?, isInert c = true) :
    ofHead c r' = .token k := by
  have hne (d : Char) (hd : isInert d = false) : (r'.head? == some d) = false := by
    rw [beq_eq_false_iff_ne]
    intro he
    rw [hi d he] at hd
    cases hd
  have hparam : r'.head?.any isParamPart = false := by
    cases hd : r'.head? with
    | none => rfl
    | some d => exact (isInert_iff.1 (hi _ hd)).2.2.1
  have hb := isBlank_of_ofHead_token h
  have hline : (c == '-' && r.head? == some '-') = false := by
    rw [Bool.eq_false_iff]
    intro hl
    simp [ofHead, hb, hl] at h
  have hblock : (c == '/' && r.head? == some '*') = false := by
    rw [Bool.eq_false_iff]
    intro hl
    simp [ofHead, hb, hline, hl] at h
  simpa only [ofHead, hne '-' (by decide), hne '*' (by decide), hparam, hline, hblock,
    not_sigil_of_cut_eq_nil h hcut, Bool.and_false] using h

theorem ofHead_delimits {k : TokenKind} (h : ofHead c (b ++ r) = .token k)
    (hcut : ((LexemeKind.token k).cut c (b ++ r)).1 = b) (hr : Delimits r r') :
    ofHead c (b ++ r') = .token k := by
  cases b with
  | cons d b => exact (ofHead_congr rfl).trans h
  | nil =>
    rcases hr with he | ⟨_, hi⟩
    · exact (ofHead_congr he).trans h
    · exact ofHead_inert h hcut hi

/-- A token that ends where `r` starts ends where `r'` starts too, provided that the run of
characters or the quoted text that it consists of does. -/
theorem cut_token_of {k : TokenKind} (hk : ofHead c (b ++ r) = .token k)
    (h : ((LexemeKind.token k).cut c (b ++ r)).1 = b) (hnil : r = [] → r' = [])
    (hrun : ∀ p ∈ k.runPart?, (cutRun p (b ++ r)).1 = b → (cutRun p (b ++ r')).1 = b)
    (hquoted : c ∈ ['\x27', '\x22', '\x60'] → (cutQuoted c (b ++ r)).1 = b →
      (cutQuoted c (b ++ r')).1 = b) : ((LexemeKind.token k).cut c (b ++ r')).1 = b := by
  cases k with
  | word => exact hrun isWordPart rfl h
  | number => exact hrun isNumberPart rfl h
  | operator => exact hrun isOperatorChar rfl h
  | symbol => exact h
  | str =>
    obtain rfl := eq_quote_of_ofHead hk
    exact hquoted (by decide) h
  | quotedIdent =>
    simp only [cut] at h ⊢
    split at h
    · next hc =>
      rw [if_pos hc]
      exact cutAfter_delimits h hnil
    · next hc =>
      rw [if_neg hc]
      refine hquoted ?_ h
      rcases eq_of_ofHead_quotedIdent hk with rfl | rfl | rfl
      · decide
      · decide
      · exact absurd rfl hc
  | param =>
    simp only [cut] at h ⊢
    split at h
    · next hc => rw [if_pos hc, ← h]
    · next hc =>
      rw [if_neg hc]
      exact hrun isParamPart rfl h

theorem cut_delimits {k : TokenKind} (hk : ofHead c (b ++ r) = .token k)
    (h : ((LexemeKind.token k).cut c (b ++ r)).1 = b) (hr : Delimits r r') :
    ((LexemeKind.token k).cut c (b ++ r')).1 = b := by
  apply cut_token_of hk h hr.eq_nil
  · intro p hp hrun
    exact cutRun_delimits (fun _ => TokenKind.runPart?_inert hp) hrun hr
  · intro hc hquoted
    exact cutQuoted_delimits hquoted (hr.head?_ne (isInert_of_mem_quotes hc))

end LexemeKind

/-- Read in front of `r`, the text of the lexeme is the first lexeme, whole and of its kind. -/
def Lexeme.CutBefore (l : Lexeme) (r : List Char) : Prop :=
  ∃ c b, l.text = c :: b ∧ LexemeKind.ofHead c (b ++ r) = l.kind ∧
    (l.kind.cut c (b ++ r)).1 = b

theorem Lexeme.CutBefore.scan_append (h : l.CutBefore r) : scan (l.text ++ r) = l :: scan r := by
  obtain ⟨c, b, ht, hk, hcut⟩ := h
  have happ := l.kind.cut_append c (b ++ r)
  rw [hcut, List.append_cancel_left_eq] at happ
  rw [ht, List.cons_append, scan_cons, hk, hcut, happ, ← ht]

theorem Lexeme.CutBefore.text_ne_nil (h : l.CutBefore r) : l.text ≠ [] := by
  obtain ⟨c, b, ht, -⟩ := h
  rw [ht]
  exact List.cons_ne_nil _ _

theorem cutBefore_induction {P : List Char → Prop} (nil : P [])
    (cons : ∀ l r, Lexeme.CutBefore l r → P r → P (l.text ++ r)) (s : List Char) : P s := by
  induction s using scan_induction with
  | nil => exact nil
  | cons c r ih =>
    have happ := (LexemeKind.ofHead c r).cut_append c r
    have hl : Lexeme.CutBefore ⟨.ofHead c r, c :: ((LexemeKind.ofHead c r).cut c r).1⟩
        ((LexemeKind.ofHead c r).cut c r).2 := ⟨c, _, rfl, by rw [happ], by rw [happ]⟩
    have hp := cons _ _ hl ih
    rwa [List.cons_append, happ] at hp

def Token.LexesBefore (t : Token) (r : List Char) : Prop :=
  ∃ c b, t.text = c :: b ∧ LexemeKind.ofHead c (b ++ r) = .token t.kind ∧
    ((LexemeKind.token t.kind).cut c (b ++ r)).1 = b

namespace Token.LexesBefore

theorem of_delimits (h : t.LexesBefore r) (hr : Delimits r r') : t.LexesBefore r' := by
  obtain ⟨c, b, ht, hk, hcut⟩ := h
  exact ⟨c, b, ht, LexemeKind.ofHead_delimits hk hcut hr, LexemeKind.cut_delimits hk hcut hr⟩

theorem cutBefore (h : t.LexesBefore r) : Lexeme.CutBefore ⟨.token t.kind, t.text⟩ r :=
  h

theorem text_ne_nil (h : t.LexesBefore r) : t.text ≠ [] :=
  h.cutBefore.text_ne_nil

theorem scan_append (h : t.LexesBefore r) :
    scan (t.text ++ r) = ⟨.token t.kind, t.text⟩ :: scan r :=
  h.cutBefore.scan_append

theorem scan_space_append (h : t.LexesBefore r) :
    scan (' ' :: (t.text ++ r)) = ⟨.blank, [' ']⟩ :: scan (t.text ++ r) := by
  obtain ⟨c, b, ht, hk, _⟩ := h
  have hb := LexemeKind.isBlank_of_ofHead_token hk
  have hblank : LexemeKind.ofHead ' ' (t.text ++ r) = .blank := rfl
  rw [scan_cons, hblank]
  simp [LexemeKind.cut, cutRun, ht, hb]

end Token.LexesBefore
end SqlWalk
