import SqlWalk.Proofs.Lexing.Locality

namespace SqlWalk

open Token

variable {c : Char} {b s : List Char}

theorem spansFrom_append (start : Nat) (ls ms : List Lexeme) :
    spansFrom start (ls ++ ms) =
      spansFrom start ls ++ spansFrom (start + byteSize (ls.flatMap Lexeme.text)) ms := by
  induction ls generalizing start with
  | nil => rfl
  | cons l ls ih =>
    rw [List.cons_append, spansFrom, spansFrom, ih, List.flatMap_cons, byteSize_append,
      Nat.add_assoc]
    split
    · rfl
    · rfl

theorem spansFrom_add (start n : Nat) (ls : List Lexeme) :
    spansFrom (start + n) ls = (spansFrom start ls).map (Prod.map (· + n) (· + n)) := by
  induction ls generalizing start with
  | nil => rfl
  | cons l ls ih =>
    have hstop : start + n + byteSize l.text = start + byteSize l.text + n := by omega
    rw [spansFrom, spansFrom, hstop, ih]
    split
    · rfl
    · rfl

theorem spansFrom_scan_dropWhile (start : Nat) (r : List Char) :
    spansFrom (start + byteSize (r.takeWhile isBlank)) (scan (r.dropWhile isBlank)) =
      spansFrom start (scan r) := by
  cases r with
  | nil => rfl
  | cons c r =>
    by_cases hc : isBlank c = true
    · rw [List.takeWhile_cons_of_pos hc, List.dropWhile_cons_of_pos hc, scan_blank_cons hc]
      rfl
    · rw [List.takeWhile_cons_of_neg hc, List.dropWhile_cons_of_neg hc]
      rfl

theorem spansFrom_scan_blank (hc : isBlank c = true) (start : Nat) (r : List Char) :
    spansFrom start (scan (c :: r)) = spansFrom (start + c.utf8Size) (scan r) := by
  rw [scan_blank_cons hc, ← spansFrom_scan_dropWhile (start + c.utf8Size) r, Nat.add_assoc]
  rfl

theorem spansFrom_scan_blanks (hb : ∀ c ∈ b, isBlank c = true) (start : Nat) (r : List Char) :
    spansFrom start (scan (b ++ r)) = spansFrom (start + byteSize b) (scan r) := by
  induction b generalizing start with
  | nil => rfl
  | cons c b ih =>
    obtain ⟨hc, hb⟩ := List.forall_mem_cons.1 hb
    rw [List.cons_append, spansFrom_scan_blank hc, ih hb, byteSize, Nat.add_assoc]

theorem Closed.tokenSpans_space_append (h : Closed s) (r : List Char) :
    tokenSpans (s ++ ' ' :: r) =
      tokenSpans s ++
        (tokenSpans r).map (Prod.map (· + (byteSize s + 1)) (· + (byteSize s + 1))) := by
  obtain ⟨ls, b, hb, hs, hscan, happ⟩ := h.exists_scan_space_append r
  have hspace : isBlank ' ' = true := by decide
  have hempty : ∀ start, spansFrom start (scan b) = [] := by
    intro start
    have hblanks := spansFrom_scan_blanks hb start []
    rwa [List.append_nil] at hblanks
  have hstart : 0 + byteSize (ls.flatMap Lexeme.text) + byteSize b + ' '.utf8Size =
      0 + (byteSize s + 1) := by
    rw [hs, byteSize_append, Nat.zero_add, Nat.zero_add]
    rfl
  rw [tokenSpans, tokenSpans, tokenSpans, happ, hscan, spansFrom_append, spansFrom_append, hempty,
    List.append_nil, spansFrom_scan_blanks hb, spansFrom_scan_blank hspace, hstart, spansFrom_add]

theorem ofLexemes_true_scan (s : List Char) :
    ofLexemes true (scan s) = respaced true (tokenize s) := by
  have hgap (ls : List Lexeme) : respaced true (ofLexemes true ls) = ofLexemes true ls := by
    induction ls using lexemes_induction with
    | nil => rfl
    | gap l ls hl ih => rwa [ofLexemes_cons_gap hl]
    | token kind text ls ih => rfl
  rw [tokenize_eq true, respaced_respaced, hgap]

theorem Closed.tokenize_space_append_eq (h : Closed s) (r : List Char) :
    tokenize (s ++ ' ' :: r) = tokenize s ++ respaced (!(tokenize s).isEmpty) (tokenize r) := by
  rw [tokenize_eq false (s ++ _), tokenize_eq false s, h.ofLexemes_space_append,
    ofLexemes_true_scan]
  cases ofLexemes false (scan s) with
  | nil => exact respaced_respaced false true (tokenize r)
  | cons t ts => rfl

/-- A text has ended exactly if every text behind it and a space has the tokens that it has by
itself, moved by the bytes in front of them. -/
theorem closed_iff_forall_space_append (s : List Char) :
    Closed s ↔ ∀ r,
      tokenize (s ++ ' ' :: r) = tokenize s ++ respaced (!(tokenize s).isEmpty) (tokenize r) ∧
      tokenSpans (s ++ ' ' :: r) = tokenSpans s ++
        (tokenSpans r).map (Prod.map (· + (byteSize s + 1)) (· + (byteSize s + 1))) := by
  constructor
  · intro h r
    exact ⟨h.tokenize_space_append_eq r, h.tokenSpans_space_append r⟩
  · intro h
    have hx : tokenize ['x'] = [⟨.word, ['x'], false⟩] := by decide
    obtain ⟨htokens, -⟩ := h ['x']
    rw [hx] at htokens
    exact ⟨_, htokens⟩

end SqlWalk
