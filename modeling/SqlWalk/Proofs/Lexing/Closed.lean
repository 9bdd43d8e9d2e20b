import SqlWalk.Proofs.Lexing.Spelling

namespace SqlWalk

variable {c q x : Char} {b r r' s : List Char} {l : Lexeme} {ls : List Lexeme}

theorem cutComment_fst_ne_nil (hs : r ≠ []) : (cutComment r).1 ≠ [] := by
  fun_cases cutComment r with
  | case1 => exact absurd rfl hs
  | case2 => simp
  | case3 => simp
  | case4 => simp

theorem cutComment_delimits (h : (cutComment (b ++ r)).1 = b) (hr : r = [] → r' = []) :
    (cutComment (b ++ r')).1 = b := by
  fun_induction cutComment b with
  | case1 =>
    by_cases hn : r = []
    · rw [hr hn]
      rfl
    · exact absurd h (cutComment_fst_ne_nil hn)
  | case2 c =>
    by_cases hn : r = []
    · rw [hr hn]
      rfl
    · obtain ⟨d, r, rfl⟩ := List.exists_cons_of_ne_nil hn
      simp only [List.singleton_append, cutComment] at h
      split at h
      · simp at h
      · exact absurd (List.cons.inj h).2 (cutComment_fst_ne_nil hn)
  | case3 c d b hc =>
    simp only [List.cons_append, cutComment, if_pos hc] at h ⊢
    exact h
  | case4 c d b hc ih =>
    simp only [List.cons_append, cutComment, if_neg hc, List.cons.injEq, true_and] at h ⊢
    exact ih h

theorem cutAfter_append_of_snd (h : (cutAfter x b).2 = []) (hr : x ∉ r) :
    (cutAfter x (b ++ r)).1 = b ∨ (cutAfter x (b ++ r)).2 = [] := by
  fun_induction cutAfter x b with
  | case1 =>
    right
    induction r with
    | nil => rfl
    | cons c r ih =>
      rw [List.mem_cons, not_or] at hr
      simp only [List.nil_append, cutAfter, if_neg (Ne.symm hr.1)]
      exact ih hr.2
  | case2 b => simp_all [cutAfter]
  | case3 c b hc ih =>
    simp only [List.cons_append, cutAfter, if_neg hc, List.cons.injEq, true_and]
    exact ih h

theorem cutComment_append_word (h : (cutComment b).2 = []) :
    (cutComment (b ++ [' ', 'x'])).1 = b ∨ (cutComment (b ++ [' ', 'x'])).2 = [] := by
  fun_induction cutComment b with
  | case1 => exact .inr rfl
  | case2 c => exact .inr (by simp [cutComment])
  | case3 c d b hc => simp_all [cutComment]
  | case4 c d b hc ih =>
    simp only [List.cons_append, cutComment, if_neg hc, List.cons.injEq, true_and]
    exact ih h

theorem getLast?_of_cutQuoted (h : (cutQuoted q (b ++ r)).1 = b) (hr : r ≠ []) :
    b.getLast? = some q := by
  fun_induction cutQuoted q b with
  | case1 => exact absurd h (cutQuoted_fst_ne_nil hr)
  | case2 c =>
    rw [List.singleton_append, cutQuoted_fst_eq_singleton_iff] at h
    rw [(h.resolve_left hr).1]
    rfl
  | case3 c d b hc ih =>
    simp only [List.cons_append, cutQuoted, if_pos hc, List.cons.injEq, true_and] at h
    rw [List.getLast?_cons_cons]
    exact ih h
  | case4 c b hc ih =>
    simp only [List.cons_append, cutQuoted, hc, if_false, if_true, List.cons.injEq,
      true_and] at h
    rw [List.getLast?_cons_cons, List.getLast?_cons, ih h]
    rfl
  | case5 c d b hc hd => simp [cutQuoted, hc, hd] at h

namespace LexemeKind

theorem ofHead_eq_blank_iff : ofHead c r = .blank ↔ isBlank c = true := by
  grind [ofHead]

theorem head?_of_ofHead_lineComment (h : ofHead c r = .lineComment) : r.head? = some '-' := by
  grind [ofHead]

theorem head?_of_ofHead_blockComment (h : ofHead c r = .blockComment) : r.head? = some '*' := by
  grind [ofHead]

/-- The class of a lexeme is settled by its own text, unless what follows makes the first character
open a comment or name a parameter. -/
theorem ofHead_append {d : Char} (hstar : d ≠ '*') (hparam : isParamPart d = false)
    (hdash : c = '-' → b = [] → d ≠ '-') : ofHead c (b ++ d :: r) = ofHead c b := by
  cases b with
  | cons e b => exact ofHead_congr rfl
  | nil =>
    by_cases hc : c = '-'
    · subst hc
      simp [ofHead, hdash rfl rfl, hparam]
    · simp [ofHead, hstar, hc, hparam]

theorem ofHead_append_word : ofHead c (b ++ [' ', 'x']) = ofHead c b :=
  ofHead_append (by decide) (by decide) fun _ _ => by decide

theorem cut_blockComment_delimits (h : (blockComment.cut c (b ++ r)).1 = b)
    (hr : r = [] → r' = []) : (blockComment.cut c (b ++ r')).1 = b := by
  cases b with
  | nil =>
    cases r with
    | nil =>
      rw [hr rfl]
      rfl
    | cons d r => simp [cut] at h
  | cons d b =>
    simp only [cut, List.cons_append, List.take_succ_cons, List.take_zero, List.drop_succ_cons,
      List.drop_zero, List.nil_append, List.cons.injEq, true_and] at h ⊢
    exact cutComment_delimits h hr

theorem cut_comment_append_word {k : LexemeKind} (hk : k = .lineComment ∨ k = .blockComment)
    (h : (k.cut c b).2 = []) :
    (k.cut c (b ++ [' ', 'x'])).1 = b ∨ (k.cut c (b ++ [' ', 'x'])).2 = [] := by
  rcases hk with rfl | rfl
  · exact cutAfter_append_of_snd h (by decide)
  · cases b with
    | nil => exact .inr rfl
    | cons d b =>
      simp only [cut, List.cons_append, List.take_succ_cons, List.take_zero, List.drop_succ_cons,
        List.drop_zero, List.nil_append, List.cons.injEq, true_and] at h ⊢
      exact cutComment_append_word h

end LexemeKind

namespace Lexeme.CutBefore

theorem not_blank (h : l.CutBefore r) (hk : l.kind = .blank) : ∀ d ∈ r.head?, isBlank d = false := by
  obtain ⟨c, b, -, -, hcut⟩ := h
  rw [hk] at hcut
  exact (cutRun_fst_eq_iff.1 hcut).2

theorem of_blank (h : l.CutBefore r) (hk : l.kind = .blank)
    (hr : ∀ d ∈ r'.head?, isBlank d = false) : l.CutBefore r' := by
  obtain ⟨c, b, ht, hc, hcut⟩ := h
  rw [hk] at hc hcut
  refine ⟨c, b, ht, ?_, ?_⟩
  · rw [hk]
    exact LexemeKind.ofHead_eq_blank_iff.2 (LexemeKind.ofHead_eq_blank_iff.1 hc)
  · rw [hk]
    exact cutRun_fst_eq_iff.2 ⟨(cutRun_fst_eq_iff.1 hcut).1, hr⟩

theorem of_delimits (h : l.CutBefore r) (hr : Delimits r r')
    (hb : l.kind = .blank → ∀ d ∈ r'.head?, isBlank d = false) : l.CutBefore r' := by
  by_cases hblank : l.kind = .blank
  · exact h.of_blank hblank (hb hblank)
  obtain ⟨c, b, ht, hk, hcut⟩ := h
  obtain ⟨kind, text⟩ := l
  refine ⟨c, b, ht, ?_⟩
  simp only at hk hcut ⊢
  cases kind with
  | token kind => exact ⟨LexemeKind.ofHead_delimits hk hcut hr, LexemeKind.cut_delimits hk hcut hr⟩
  | blank => exact absurd rfl hblank
  | lineComment =>
    cases b with
    | nil =>
      have hd := LexemeKind.head?_of_ofHead_lineComment hk
      have hn : r ≠ [] := by
        rintro rfl
        cases hd
      exact absurd hcut (cutAfter_fst_ne_nil hn)
    | cons d b =>
      exact ⟨(LexemeKind.ofHead_congr rfl).trans hk, cutAfter_delimits hcut hr.eq_nil⟩
  | blockComment =>
    refine ⟨?_, LexemeKind.cut_blockComment_delimits hcut hr.eq_nil⟩
    cases b with
    | nil =>
      have hd := LexemeKind.head?_of_ofHead_blockComment hk
      cases r with
      | nil => cases hd
      | cons d r => simp [LexemeKind.cut] at hcut
    | cons d b => exact (LexemeKind.ofHead_congr rfl).trans hk

/-- A character that continues no word, number or parameter ends what a space ends, unless it goes on
with a run of operators or doubles the quote before it. -/
theorem before (h : l.CutBefore [' ', 'x']) {d : Char} (hb : isBlank d = false)
    (hw : isWordPart d = false) (hn : isNumberPart d = false) (hp : isParamPart d = false)
    (hstar : d ≠ '*') (ho : l.kind = .token .operator → isOperatorChar d = false)
    (hq : d ∈ ['\x27', '\x22', '\x60'] → l.text.getLast? ≠ some d) (r : List Char) :
    l.CutBefore (d :: r) := by
  obtain ⟨c, b, ht, hk, hcut⟩ := h
  obtain ⟨kind, text⟩ := l
  simp only at hk hcut ht ho hq
  subst ht
  have hne : [' ', 'x'] ≠ ([] : List Char) := List.cons_ne_nil _ _
  have hnil : [' ', 'x'] = ([] : List Char) → d :: r = [] := fun h => absurd h hne
  have hkind : LexemeKind.ofHead c (b ++ d :: r) = kind := by
    rw [LexemeKind.ofHead_append_word] at hk
    rw [LexemeKind.ofHead_append hstar hp, hk]
    rintro rfl rfl rfl
    -- Only a dash that is an operator by itself opens a comment with another one.
    exact absurd (ho (hk.symm.trans rfl)) (by decide)
  refine ⟨c, b, rfl, hkind, ?_⟩
  cases kind with
  | blank =>
    apply cutRun_of_stop hcut
    rintro e ⟨⟩
    exact hb
  | lineComment => exact cutAfter_delimits hcut hnil
  | blockComment => exact LexemeKind.cut_blockComment_delimits hcut hnil
  | token kind =>
    apply LexemeKind.cut_token_of hk hcut hnil
    · intro p hrun hcut
      apply cutRun_of_stop hcut
      rintro e ⟨⟩
      exact TokenKind.runPart?_eq_false hrun hw hn hp fun hk => ho (congrArg LexemeKind.token hk)
    · intro hc hcut
      refine cutQuoted_delimits hcut (.inr ⟨hne, ?_⟩)
      rintro ⟨⟩
      apply hq hc
      rw [List.getLast?_cons, getLast?_of_cutQuoted hcut hne]
      rfl

theorem quote (h : l.CutBefore [' ', 'x']) (hq : l.text.getLast? ≠ some '\x27') (r : List Char) :
    l.CutBefore ('\x27' :: r) :=
  h.before (by decide) (by decide) (by decide) (by decide) (by decide) (fun _ => by decide)
    (fun _ => hq) r

end Lexeme.CutBefore

/-- The lexemes of a text and of any longer one that starts with it, but for the last of them. -/
theorem exists_scan_append (hs : s ≠ []) : ∃ ls l, scan s = ls ++ [l] ∧ l.CutBefore [] ∧
    s = ls.flatMap Lexeme.text ++ l.text ∧ ∀ r, scan (s ++ r) = ls ++ scan (l.text ++ r) := by
  induction s using cutBefore_induction with
  | nil => exact absurd rfl hs
  | cons l t hl ih =>
    have hscan := hl.scan_append
    by_cases ht : t = []
    · subst ht
      rw [List.append_nil] at hscan ⊢
      exact ⟨[], l, by rw [hscan, scan_nil]; rfl, hl, rfl, fun r => rfl⟩
    · obtain ⟨ls, m, hls, hm, ht', happ⟩ := ih ht
      refine ⟨l :: ls, m, by rw [hscan, hls]; rfl, hm, ?_, ?_⟩
      · rw [List.flatMap_cons, List.append_assoc, ← ht']
      · intro r
        have hr : l.CutBefore (t ++ r) := by
          apply hl.of_delimits (.append_of_ne_nil ht r)
          intro hblank d hd
          obtain ⟨e, t, rfl⟩ := List.exists_cons_of_ne_nil ht
          exact hl.not_blank hblank d hd
        rw [List.append_assoc, hr.scan_append, happ]
        rfl

theorem map_toLexeme_ofLexemes (gap : Bool) (ls : List Lexeme) :
    (Token.ofLexemes gap ls).map Token.toLexeme = ls.filter (!·.isGap) := by
  induction ls using lexemes_induction generalizing gap with
  | nil => rfl
  | gap l ls hl ih =>
    rw [Token.ofLexemes_cons_gap hl, List.filter_cons_of_neg (by simp [hl])]
    exact ih true
  | token kind text ls ih =>
    have hi := ih false
    simpa [Token.ofLexemes, Token.toLexeme, Lexeme.isGap] using hi

theorem map_toLexeme_tokenize (s : List Char) :
    (tokenize s).map Token.toLexeme = (scan s).filter (!·.isGap) := by
  rw [tokenize_eq false, map_toLexeme_respaced, map_toLexeme_ofLexemes]

theorem Closed.cutBefore (h : Closed s) (hs : scan s = ls ++ [l]) (hl : l.CutBefore [])
    (happ : ∀ r, scan (s ++ r) = ls ++ scan (l.text ++ r)) :
    l.kind = .blank ∨ l.CutBefore [' ', 'x'] := by
  obtain ⟨gap, hx⟩ := h
  have hf := congrArg (List.map Token.toLexeme) hx
  rw [List.map_append, map_toLexeme_tokenize, map_toLexeme_tokenize, happ, hs, List.filter_append,
    List.filter_append, List.append_assoc, List.append_cancel_left_eq] at hf
  obtain ⟨c, b, ht, hk, hcut⟩ := hl
  obtain ⟨kind, text⟩ := l
  simp only [List.append_nil] at hk hcut ht hf
  subst ht
  rw [List.cons_append, scan_cons, LexemeKind.ofHead_append_word, hk] at hf
  have hend : (kind.cut c b).2 = [] := by
    have ha := kind.cut_append c b
    rw [hcut] at ha
    exact List.append_right_eq_self.1 ha
  have hhead : LexemeKind.ofHead c (b ++ [' ', 'x']) = kind :=
    LexemeKind.ofHead_append_word.trans hk
  have hcomment (hk : kind = .lineComment ∨ kind = .blockComment) :
      (kind.cut c (b ++ [' ', 'x'])).1 = b := by
    rcases LexemeKind.cut_comment_append_word hk hend with hc | hc
    · exact hc
    · rcases hk with rfl | rfl <;> simp [hc, Lexeme.isGap] at hf
  cases kind with
  | blank => exact .inl rfl
  | lineComment => exact .inr ⟨c, b, rfl, hhead, hcomment (.inl rfl)⟩
  | blockComment => exact .inr ⟨c, b, rfl, hhead, hcomment (.inr rfl)⟩
  | token kind =>
    refine .inr ⟨c, b, rfl, hhead, ?_⟩
    have hfirst := congrArg List.head? hf
    simpa [Lexeme.isGap] using hfirst

theorem Closed.scan_append_of_cutBefore (h : Closed s) (hb : ∀ d ∈ r.head?, isBlank d = false)
    (hr : ∀ l ∈ (scan s).getLast?, l.text.getLast? = s.getLast? → l.CutBefore [' ', 'x'] →
      l.CutBefore r) : scan (s ++ r) = scan s ++ scan r := by
  by_cases hs : s = []
  · rw [hs]
    rfl
  obtain ⟨ls, l, hls, hl, ht, happ⟩ := exists_scan_append hs
  have hlast : l.text.getLast? = s.getLast? := by
    obtain ⟨c, b, hc, -⟩ := hl
    rw [ht, List.getLast?_append, hc, List.getLast?_cons]
    rfl
  have hcut : l.CutBefore r := by
    rcases h.cutBefore hls hl happ with hk | hc
    · exact hl.of_blank hk hb
    · exact hr l (by rw [hls, List.getLast?_concat]; rfl) hlast hc
  rw [happ, hcut.scan_append, hls, List.append_assoc]
  rfl

/-- Text whose first character ends what stands before it is read by itself. -/
theorem Closed.scan_append (h : Closed s)
    (hr : ∀ d ∈ r.head?, isInert d = true ∧ isBlank d = false) :
    scan (s ++ r) = scan s ++ scan r := by
  have hb : ∀ d ∈ r.head?, isBlank d = false := fun d hd => (hr d hd).2
  apply h.scan_append_of_cutBefore hb
  intro l _ _ hl
  exact hl.of_delimits (.inr ⟨List.cons_ne_nil _ _, fun d hd => (hr d hd).1⟩) fun _ => hb

theorem Closed.scan_append_quote (h : Closed s) (hq : s.getLast? ≠ some '\x27') (r : List Char) :
    scan (s ++ '\x27' :: r) = scan s ++ scan ('\x27' :: r) := by
  apply h.scan_append_of_cutBefore
  · rintro d ⟨⟩
    decide
  · intro l _ hlast hl
    exact hl.quote (hlast ▸ hq) r

def doubled (q : Char) (s : List Char) : List Char :=
  s.flatMap fun c => if c = q then [q, q] else [c]

theorem cutQuoted_cons_of_ne (hc : c ≠ q) (r : List Char) :
    cutQuoted q (c :: r) = (c :: (cutQuoted q r).1, (cutQuoted q r).2) := by
  cases r with
  | nil => rfl
  | cons d r => rw [cutQuoted, if_pos hc]

theorem cutQuoted_doubled (q : Char) (s : List Char) (hr : r.head? ≠ some q) :
    cutQuoted q (doubled q s ++ q :: r) = (doubled q s ++ [q], r) := by
  induction s with
  | nil =>
    cases r with
    | nil => rfl
    | cons d r =>
      have hd : d ≠ q := fun h => hr (congrArg some h)
      simp [doubled, cutQuoted, hd]
  | cons c s ih =>
    by_cases hc : c = q
    · subst hc
      have hd : doubled c (c :: s) = c :: c :: doubled c s := by simp [doubled]
      simp [hd, cutQuoted, ih]
    · have hd : doubled q (c :: s) = c :: doubled q s := by simp [doubled, hc]
      rw [hd, List.cons_append, cutQuoted_cons_of_ne hc, ih]
      rfl

/-- A text as a literal: between quotes, with the quotes in it doubled. -/
def quoted (s : List Char) : List Char :=
  '\x27' :: (doubled '\x27' s ++ ['\x27'])

theorem scan_quoted_append (s : List Char) (hr : r.head? ≠ some '\x27') :
    scan (quoted s ++ r) = ⟨.token .str, quoted s⟩ :: scan r := by
  have hk (r : List Char) : LexemeKind.ofHead '\x27' r = .token .str := rfl
  have hcut := cutQuoted_doubled '\x27' s hr
  rw [quoted, List.cons_append, List.append_assoc, List.singleton_append, scan_cons, hk]
  simp only [LexemeKind.cut, hcut]

end SqlWalk
