import SqlWalk.Proofs.Lexing.Delimiter

namespace SqlWalk

variable {s : List Char} {t u : Token} {ts us : List Token} {ls : List Lexeme} {gap : Bool}

namespace Token

/-- The tokens, the first of them behind a gap or not. -/
def respaced (gap : Bool) : List Token → List Token
  | [] => []
  | t :: ts => { t with spaced := gap } :: ts

def Legible : List Token → Prop
  | [] => True
  | t :: ts => t.LexesBefore (ts.flatMap spacedText) ∧ Legible ts

theorem respaced_respaced (gap gap' : Bool) (ts : List Token) :
    respaced gap (respaced gap' ts) = respaced gap ts := by
  cases ts <;> rfl

theorem legible_respaced : Legible (respaced gap ts) ↔ Legible ts := by
  cases ts <;> rfl

theorem join_respaced (gap : Bool) (ts : List Token) : join (respaced gap ts) = join ts := by
  cases ts <;> rfl

theorem join_eq_flatMap (ts : List Token) : join ts = (respaced false ts).flatMap spacedText := by
  cases ts <;> rfl

theorem Legible.of_append (h : Legible (ts ++ us)) : Legible ts ∧ Legible us := by
  induction ts with
  | nil => exact ⟨trivial, h⟩
  | cons t ts ih =>
    obtain ⟨ht, hts⟩ := h
    obtain ⟨hl, hr⟩ := ih hts
    change t.LexesBefore ((ts ++ us).flatMap spacedText) at ht
    rw [List.flatMap_append] at ht
    exact ⟨⟨ht.of_delimits (.of_append _ _), hl⟩, hr⟩

theorem Legible.flatMap_ne_nil (h : Legible ts) (hts : ts ≠ []) : ts.flatMap spacedText ≠ [] := by
  cases ts with
  | nil => exact absurd rfl hts
  | cons t ts =>
    have ht := h.1.text_ne_nil
    cases hs : t.spaced <;> simp [spacedText, hs, ht]

theorem Legible.append (ht : Legible ts) (hu : Legible us)
    (hc : ∀ t ∈ ts.getLast?, t.LexesBefore [' '])
    (hi : ∀ c ∈ (us.flatMap spacedText).head?, isInert c = true) : Legible (ts ++ us) := by
  induction ts with
  | nil => exact hu
  | cons t ts ih =>
    obtain ⟨hl, hts⟩ := ht
    cases ts with
    | nil =>
      have hd : Delimits [' '] (us.flatMap spacedText) := .inr ⟨List.cons_ne_nil _ _, hi⟩
      exact ⟨(hc t rfl).of_delimits hd, hu⟩
    | cons u ts =>
      have hne := hts.flatMap_ne_nil (List.cons_ne_nil _ _)
      refine ⟨?_, ih hts hc⟩
      change t.LexesBefore ((u :: ts ++ us).flatMap spacedText)
      rw [List.flatMap_append]
      exact hl.of_delimits (.append_of_ne_nil hne _)

theorem Legible.drop (h : Legible ts) (i : Nat) : Legible (ts.drop i) := by
  rw [← List.take_append_drop i ts] at h
  exact h.of_append.2

theorem Legible.take (h : Legible ts) (n : Nat) : Legible (ts.take n) := by
  rw [← List.take_append_drop n ts] at h
  exact h.of_append.1

theorem Legible.of_infix {p : List Token} (h : Legible ts) (hp : p <:+: ts) : Legible p := by
  obtain ⟨us, vs, rfl⟩ := hp
  exact h.of_append.1.of_append.2

theorem Legible.ofLexemes_scan (h : Legible ts) :
    ofLexemes false (scan (ts.flatMap spacedText)) = ts := by
  induction ts with
  | nil => rfl
  | cons t ts ih =>
    obtain ⟨ht, hts⟩ := h
    obtain ⟨kind, text, spaced⟩ := t
    have hs := ht.scan_append
    cases spaced with
    | false =>
      simp only [List.flatMap_cons, spacedText, Bool.false_eq_true, if_false] at hs ⊢
      rw [hs, ofLexemes, ih hts]
    | true =>
      simp only [List.flatMap_cons, spacedText, if_true, List.cons_append] at hs ⊢
      rw [ht.scan_space_append, hs]
      change ⟨kind, text, true⟩ :: ofLexemes false _ = _
      rw [ih hts]

theorem ofLexemes_dropWhile (gap : Bool) (ls : List Lexeme) :
    ofLexemes false (ls.dropWhile Lexeme.isGap) = respaced false (ofLexemes gap ls) := by
  induction ls using lexemes_induction generalizing gap with
  | nil => rfl
  | gap l ls hl ih =>
    rw [List.dropWhile_cons_of_pos hl, ofLexemes_cons_gap hl]
    exact ih true
  | token kind text ls ih => rfl

theorem head?_ofLexemes (ls : List Lexeme) :
    ∀ c ∈ ((ofLexemes true ls).flatMap spacedText).head?, c = ' ' := by
  induction ls using lexemes_induction with
  | nil => exact nofun
  | gap l ls hl ih => rwa [ofLexemes_cons_gap hl]
  | token kind text ls ih => simp [ofLexemes, spacedText]

theorem delimits_ofLexemes (s : List Char) :
    Delimits s ((ofLexemes false (scan s)).flatMap spacedText) := by
  cases s with
  | nil => exact .inl rfl
  | cons c r =>
    rw [scan_cons]
    have hgap (ls : List Lexeme) : Delimits (c :: r) ((ofLexemes true ls).flatMap spacedText) := by
      refine .inr ⟨List.cons_ne_nil _ _, ?_⟩
      intro d hd
      rw [head?_ofLexemes ls d hd]
      exact isInert_space
    cases LexemeKind.ofHead c r with
    | token kind => exact .inl rfl
    | blank => exact hgap _
    | lineComment => exact hgap _
    | blockComment => exact hgap _

theorem legible_ofLexemes (gap : Bool) (s : List Char) : Legible (ofLexemes gap (scan s)) := by
  induction s using cutBefore_induction generalizing gap with
  | nil => trivial
  | cons l r hl ih =>
    rw [hl.scan_append]
    obtain ⟨kind, text⟩ := l
    cases kind with
    | token kind =>
      have ht : LexesBefore ⟨kind, text, gap⟩ r := hl
      exact ⟨ht.of_delimits (delimits_ofLexemes r), ih false⟩
    | blank => exact ih true
    | lineComment => exact ih true
    | blockComment => exact ih true

end Token

open Token

theorem tokenize_eq (gap : Bool) (s : List Char) :
    tokenize s = respaced false (ofLexemes gap (scan s)) :=
  ofLexemes_dropWhile gap (scan s)

theorem respaced_tokenize (s : List Char) : respaced false (tokenize s) = tokenize s := by
  rw [tokenize_eq false, respaced_respaced]

theorem legible_tokenize (s : List Char) : Legible (tokenize s) := by
  rw [tokenize_eq false]
  exact legible_respaced.2 (legible_ofLexemes false s)

theorem tokenize_join (h : Legible ts) : tokenize (join ts) = respaced false ts := by
  rw [join_eq_flatMap, tokenize_eq false, (legible_respaced.2 h).ofLexemes_scan,
    respaced_respaced]

end SqlWalk
