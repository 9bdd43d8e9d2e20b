import SqlWalk.Proofs.Lexing.Legible

namespace SqlWalk

variable {s : List Char} {ls : List Lexeme} {start stop : Nat}

def Token.toLexeme (t : Token) : Lexeme :=
  ⟨.token t.kind, t.text⟩

/-- Says for each token but the last whether the next one starts where it ends. -/
def touching (s : List Char) : List Bool :=
  List.zipWith (fun a b => decide (a.2 = b.1)) (tokenSpans s) (tokenSpans s).tail

theorem byteSize_pos {text : List Char} (h : text ≠ []) : 0 < byteSize text := by
  cases text with
  | nil => exact absurd rfl h
  | cons c text =>
    have hc := c.utf8Size_pos
    rw [byteSize]
    omega

theorem byteSize_append (s t : List Char) : byteSize (s ++ t) = byteSize s + byteSize t := by
  induction s with
  | nil => rw [List.nil_append, byteSize, Nat.zero_add]
  | cons c s ih => rw [List.cons_append, byteSize, byteSize, ih, Nat.add_assoc]

open Token

theorem zipWith_spansFrom (first : Nat) (hls : ∀ l ∈ ls, l.text ≠ []) (hs : stop ≤ start) :
    List.zipWith (fun a b => decide (a.2 = b.1)) ((first, stop) :: spansFrom start ls)
      (spansFrom start ls) = (ofLexemes (decide (stop < start)) ls).map (!·.spaced) := by
  induction ls using lexemes_induction generalizing start first stop with
  | nil => rfl
  | gap l ls hg ih =>
    obtain ⟨hl, hr⟩ := List.forall_mem_cons.1 hls
    have hpos : 0 < byteSize l.text := byteSize_pos hl
    have hi := ih first hr (Nat.le_trans hs (Nat.le_add_right start (byteSize l.text)))
    rw [decide_eq_true (by omega)] at hi
    rw [spansFrom_cons_gap hg, ofLexemes_cons_gap hg]
    exact hi
  | token kind text ls ih =>
    obtain ⟨-, hr⟩ := List.forall_mem_cons.1 hls
    have hi := ih start hr (Nat.le_refl (start + byteSize text))
    rw [decide_eq_false (Nat.lt_irrefl _)] at hi
    have ht : decide (stop = start) = !decide (stop < start) := by
      rw [← decide_not, decide_eq_decide]
      omega
    simp only [spansFrom, Lexeme.isGap, Bool.false_eq_true, if_false, List.zipWith_cons_cons,
      ofLexemes, List.map_cons, ht, hi]

theorem zipWith_tail_spansFrom (gap : Bool) (hls : ∀ l ∈ ls, l.text ≠ []) :
    List.zipWith (fun a b => decide (a.2 = b.1)) (spansFrom start ls) (spansFrom start ls).tail =
      (ofLexemes gap ls).tail.map (!·.spaced) := by
  induction ls using lexemes_induction generalizing start gap with
  | nil => rfl
  | gap l ls hg ih =>
    obtain ⟨-, hr⟩ := List.forall_mem_cons.1 hls
    rw [spansFrom_cons_gap hg, ofLexemes_cons_gap hg]
    exact ih true hr
  | token kind text ls ih =>
    obtain ⟨-, hr⟩ := List.forall_mem_cons.1 hls
    have hz := zipWith_spansFrom start hr (Nat.le_refl (start + byteSize text))
    rw [decide_eq_false (Nat.lt_irrefl _)] at hz
    exact hz

theorem touching_eq (s : List Char) : touching s = (tokenize s).tail.map (!·.spaced) := by
  have ht : (tokenize s).tail = (ofLexemes false (scan s)).tail := by
    rw [tokenize_eq false]
    cases ofLexemes false (scan s) <;> rfl
  rw [ht]
  exact zipWith_tail_spansFrom false fun l hl => text_ne_nil_of_mem_scan hl

theorem map_toLexeme_respaced (gap : Bool) (ts : List Token) :
    (respaced gap ts).map toLexeme = ts.map toLexeme := by
  cases ts <;> rfl

theorem tail_respaced (gap : Bool) (ts : List Token) : (respaced gap ts).tail = ts.tail := by
  cases ts <;> rfl

theorem eq_of_map_toLexeme {ts us : List Token} (hl : ts.map toLexeme = us.map toLexeme)
    (hs : ts.map (!·.spaced) = us.map (!·.spaced)) : ts = us := by
  induction ts generalizing us with
  | nil => exact (List.map_eq_nil_iff.1 hl.symm).symm
  | cons t ts ih =>
    cases us with
    | nil => cases hl
    | cons u us =>
      obtain ⟨kind, text, spaced⟩ := t
      obtain ⟨kind', text', spaced'⟩ := u
      simp only [List.map_cons, toLexeme, List.cons.injEq, Lexeme.mk.injEq,
        LexemeKind.token.injEq] at hl hs
      obtain ⟨⟨rfl, rfl⟩, hl⟩ := hl
      obtain ⟨hspaced, hs⟩ := hs
      obtain rfl := Bool.not_inj hspaced
      rw [ih hl hs]

theorem tokenize_congr {s' : List Char}
    (hl : (tokenize s).map toLexeme = (tokenize s').map toLexeme)
    (ht : touching s = touching s') : tokenize s = tokenize s' := by
  rw [touching_eq, touching_eq] at ht
  rw [← respaced_tokenize s, ← respaced_tokenize s']
  cases hs : tokenize s with
  | nil =>
    rw [hs] at hl
    rw [List.map_eq_nil_iff.1 hl.symm]
  | cons t ts =>
    cases hs' : tokenize s' with
    | nil =>
      rw [hs, hs'] at hl
      cases hl
    | cons u us =>
      rw [hs, hs'] at hl ht
      apply eq_of_map_toLexeme
      · exact hl
      · exact congrArg (true :: ·) ht

/-- Any stretch of the tokens of a text, written out, is read as the same tokens again. -/
theorem tokenize_join_slice (s : List Char) (i n : Nat) :
    (tokenize (join (((tokenize s).drop i).take n))).map toLexeme =
        (((tokenize s).drop i).take n).map toLexeme ∧
      touching (join (((tokenize s).drop i).take n)) = ((touching s).drop i).take (n - 1) ∧
      join (tokenize (join (tokenize s))) = join (tokenize s) := by
  have hs := tokenize_join (((legible_tokenize s).drop i).take n)
  have hall := tokenize_join (legible_tokenize s)
  refine ⟨?_, ?_, ?_⟩
  · rw [hs, map_toLexeme_respaced]
  · rw [touching_eq, touching_eq, hs, tail_respaced]
    simp only [← List.drop_one, List.drop_take, List.drop_drop, List.map_take, List.map_drop,
      Nat.add_comm]
  · rw [hall, join_respaced]

end SqlWalk
