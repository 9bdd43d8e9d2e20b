import SqlWalk.Proofs.Lexing.Closed

namespace SqlWalk

open Token

variable {c : Char} {b r s : List Char} {gap : Bool}

theorem exists_ofLexemes_append (gap : Bool) (ls ms : List Lexeme) :
    ∃ gap', ofLexemes gap (ls ++ ms) = ofLexemes gap ls ++ ofLexemes gap' ms := by
  induction ls using lexemes_induction generalizing gap with
  | nil => exact ⟨gap, rfl⟩
  | gap l ls hl ih =>
    rw [List.cons_append, ofLexemes_cons_gap hl, ofLexemes_cons_gap hl]
    exact ih true
  | token kind text ls ih =>
    obtain ⟨gap', h⟩ := ih false
    refine ⟨gap', ?_⟩
    rw [List.cons_append, ofLexemes, ofLexemes, h, List.cons_append]

theorem respaced_append {ts : List Token} (hts : ts ≠ []) (us : List Token) :
    respaced gap (ts ++ us) = respaced gap ts ++ us := by
  cases ts with
  | nil => exact absurd rfl hts
  | cons t ts => rfl

theorem isWordPart_of_isBlank (h : isBlank c = true) : isWordPart c = false := by
  have hall : ∀ n ∈ List.range' 9 5 ++ List.range' 0x2000 11 ++
      [0x20, 0x85, 0xA0, 0x1680, 0x2028, 0x2029, 0x202F, 0x205F, 0x3000],
      isWordPart (Char.ofNat n) = false := by
    decide +kernel
  rw [← Char.ofNat_toNat c]
  apply hall
  simp only [isBlank, Bool.or_eq_true, Bool.and_eq_true, decide_eq_true_eq, beq_iff_eq] at h
  simp only [List.mem_append, List.mem_range'_1, List.mem_cons, List.not_mem_nil]
  omega

theorem scan_blank_cons (hc : isBlank c = true) (r : List Char) :
    scan (c :: r) = ⟨.blank, c :: r.takeWhile isBlank⟩ :: scan (r.dropWhile isBlank) := by
  rw [scan_cons, LexemeKind.ofHead_eq_blank_iff.2 hc]
  rfl

theorem ofLexemes_scan_dropWhile (r : List Char) :
    ofLexemes true (scan (r.dropWhile isBlank)) = ofLexemes true (scan r) := by
  cases r with
  | nil => rfl
  | cons c r =>
    by_cases hc : isBlank c = true
    · rw [List.dropWhile_cons_of_pos hc, scan_blank_cons hc]
      rfl
    · rw [List.dropWhile_cons_of_neg hc]

theorem ofLexemes_scan_blank (hc : isBlank c = true) (gap : Bool) (r : List Char) :
    ofLexemes gap (scan (c :: r)) = ofLexemes true (scan r) := by
  rw [scan_blank_cons hc, ← ofLexemes_scan_dropWhile r]
  rfl

theorem ofLexemes_scan_blanks (hb : ∀ c ∈ b, isBlank c = true) (gap : Bool) (r : List Char) :
    ofLexemes gap (scan (b ++ r)) = ofLexemes (gap || !b.isEmpty) (scan r) := by
  induction b generalizing gap with
  | nil => rw [List.nil_append, List.isEmpty_nil, Bool.not_true, Bool.or_false]
  | cons c b ih =>
    obtain ⟨hc, hb⟩ := List.forall_mem_cons.1 hb
    rw [List.cons_append, ofLexemes_scan_blank hc, ih hb, List.isEmpty_cons, Bool.not_false,
      Bool.or_true, Bool.true_or]

theorem Lexeme.CutBefore.isBlank_of_mem {l : Lexeme} (h : l.CutBefore r) (hk : l.kind = .blank) :
    ∀ c ∈ l.text, isBlank c = true := by
  obtain ⟨c, b, ht, hc, hcut⟩ := h
  rw [hk] at hc hcut
  rw [ht, List.forall_mem_cons]
  exact ⟨LexemeKind.ofHead_eq_blank_iff.1 hc, (cutRun_fst_eq_iff.1 hcut).1⟩

theorem Closed.exists_scan_space_append (h : Closed s) (r : List Char) :
    ∃ ls b, (∀ c ∈ b, isBlank c = true) ∧ s = ls.flatMap Lexeme.text ++ b ∧
      scan s = ls ++ scan b ∧ scan (s ++ ' ' :: r) = ls ++ scan (b ++ ' ' :: r) := by
  by_cases hs : s = []
  · subst hs
    exact ⟨[], [], nofun, rfl, rfl, rfl⟩
  obtain ⟨ls, l, hls, hl, ht, happ⟩ := exists_scan_append hs
  rcases h.cutBefore hls hl happ with hk | hcut
  · have hscan := hl.scan_append
    rw [List.append_nil, scan_nil] at hscan
    exact ⟨ls, l.text, hl.isBlank_of_mem hk, ht, by rw [hls, hscan], happ (' ' :: r)⟩
  · have hnext : l.CutBefore (' ' :: r) := by
      have hd : Delimits [' ', 'x'] (' ' :: r) := .inl rfl
      apply hcut.of_delimits hd
      intro hk
      have hn : isBlank ' ' = false := hcut.not_blank hk ' ' rfl
      cases hn
    refine ⟨scan s, [], nofun, ?_, (List.append_nil _).symm, ?_⟩
    · rw [flatMap_text_scan, List.append_nil]
    · rw [happ, hnext.scan_append, hls, List.append_assoc]
      rfl

theorem Closed.ofLexemes_space_append (h : Closed s) (gap : Bool) (r : List Char) :
    ofLexemes gap (scan (s ++ ' ' :: r)) = ofLexemes gap (scan s) ++ ofLexemes true (scan r) := by
  obtain ⟨ls, b, hb, -, hs, happ⟩ := h.exists_scan_space_append r
  obtain ⟨gap₁, h₁⟩ := exists_ofLexemes_append gap ls (scan (b ++ ' ' :: r))
  obtain ⟨gap₂, h₂⟩ := exists_ofLexemes_append gap ls (scan b)
  have hspace : isBlank ' ' = true := by decide
  have hempty : ofLexemes gap₂ (scan b) = [] := by
    have hblanks := ofLexemes_scan_blanks hb gap₂ []
    rwa [List.append_nil, scan_nil] at hblanks
  rw [happ, hs, h₁, h₂, hempty, List.append_nil, ofLexemes_scan_blanks hb,
    ofLexemes_scan_blank hspace]

theorem ofLexemes_ne_nil (hn : tokenize s ≠ []) : ofLexemes false (scan s) ≠ [] := by
  intro he
  rw [tokenize_eq false, he] at hn
  exact hn rfl

theorem Closed.tokenize_space_append (h : Closed s) (hn : tokenize s ≠ []) (r : List Char) :
    tokenize (s ++ ' ' :: r) = tokenize s ++ ofLexemes true (scan r) := by
  rw [tokenize_eq false, tokenize_eq false, h.ofLexemes_space_append,
    respaced_append (ofLexemes_ne_nil hn)]

theorem Closed.exists_tokenize_append (h : Closed s) (hn : tokenize s ≠ [])
    (hr : ∀ d ∈ r.head?, isInert d = true ∧ isBlank d = false) :
    ∃ gap, tokenize (s ++ r) = tokenize s ++ ofLexemes gap (scan r) := by
  obtain ⟨gap, hgap⟩ := exists_ofLexemes_append false (scan s) (scan r)
  refine ⟨gap, ?_⟩
  rw [tokenize_eq false, tokenize_eq false, h.scan_append hr, hgap,
    respaced_append (ofLexemes_ne_nil hn)]

end SqlWalk
