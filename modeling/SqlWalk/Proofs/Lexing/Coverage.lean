import Mathlib.Data.List.Forall2
import Mathlib.Data.List.TakeWhile
import SqlWalk.Proofs.Lexing.Comment

namespace SqlWalk

open Token

variable {c x : Char} {r s t : List Char} {k : LexemeKind} {ls : List Lexeme}
  {spans : List (Nat × Nat)} {start : Nat}

/-- A comment that the end of the text cuts off. -/
inductive OpenComment : List Char → Prop where
  | line {b : List Char} : '\n' ∉ b → OpenComment ('-' :: '-' :: b)
  | block {b : List Char} : ¬['*', '/'] <:+: b → OpenComment ('/' :: '*' :: b)

/-- Text without a token, in front of `rest`. -/
inductive GapBefore (rest : List Char) : List Char → Prop where
  | nil : GapBefore rest []
  | blank {c : Char} {s : List Char} : isBlank c = true → GapBefore rest s → GapBefore rest (c :: s)
  | comment {c s : List Char} : Comment c → GapBefore rest s → GapBefore rest (c ++ s)
  | unclosed {c : List Char} : rest = [] → OpenComment c → GapBefore rest c

theorem GapBefore.blanks_append {rest : List Char} (ht : ∀ c ∈ t, isBlank c = true)
    (hs : GapBefore rest s) : GapBefore rest (t ++ s) := by
  induction t with
  | nil => exact hs
  | cons c t ih =>
    obtain ⟨hc, ht⟩ := List.forall_mem_cons.1 ht
    exact .blank hc (ih ht)

theorem cutAfter_of_notMem (h : x ∉ s) : cutAfter x s = (s, []) := by
  induction s with
  | nil => rfl
  | cons c s ih =>
    rw [List.mem_cons, not_or] at h
    rw [cutAfter, if_neg (Ne.symm h.1), ih h.2]

theorem cutComment_of_not_infix (h : ¬['*', '/'] <:+: s) : cutComment s = (s, []) := by
  fun_induction cutComment s with
  | case1 => rfl
  | case2 => rfl
  | case3 c d r hc =>
    obtain ⟨rfl, rfl⟩ := hc
    exact absurd ⟨[], r, rfl⟩ h
  | case4 c d r hc ih => rw [ih fun hr => h (List.infix_cons hr)]

theorem exists_first_close (h : ['*', '/'] <:+: s) :
    ∃ b r, ¬['*', '/'] <:+: b ∧ s = b ++ '*' :: '/' :: r := by
  induction s with
  | nil => simp at h
  | cons c s ih =>
    by_cases hp : ['*', '/'] <+: c :: s
    · obtain ⟨r, hr⟩ := hp
      exact ⟨[], r, by simp, hr.symm⟩
    · obtain ⟨b, r, hb, rfl⟩ := ih ((List.infix_cons_iff.1 h).resolve_left hp)
      refine ⟨c :: b, r, ?_, rfl⟩
      rw [List.infix_cons_iff, not_or]
      exact ⟨fun hc => hp (hc.trans (List.prefix_append (c :: b) _)), hb⟩

theorem comment_of_ofHead (h : LexemeKind.ofHead c r = k) (hk : k = .lineComment ∨ k = .blockComment) :
    Comment (c :: (k.cut c r).1) ∨ (k.cut c r).2 = [] ∧ OpenComment (c :: (k.cut c r).1) := by
  rcases hk with rfl | rfl
  · obtain rfl : c = '-' := by grind [LexemeKind.ofHead]
    obtain ⟨r, rfl⟩ := List.head?_eq_some_iff.1 (LexemeKind.head?_of_ofHead_lineComment h)
    by_cases hr : '\n' ∈ r
    · obtain ⟨b, r, rfl, hb⟩ := List.eq_append_cons_of_mem hr
      have hcut : cutAfter '\n' ('-' :: b ++ '\n' :: r) = ('-' :: b ++ ['\n'], r) :=
        cutAfter_append_cons (by simpa using hb) r
      rw [List.cons_append] at hcut
      rw [LexemeKind.cut, hcut]
      exact .inl (.line hb)
    · have hcut : cutAfter '\n' ('-' :: r) = ('-' :: r, []) :=
        cutAfter_of_notMem (by simpa using hr)
      rw [LexemeKind.cut, hcut]
      exact .inr ⟨rfl, .line hr⟩
  · obtain rfl : c = '/' := by grind [LexemeKind.ofHead]
    obtain ⟨r, rfl⟩ := List.head?_eq_some_iff.1 (LexemeKind.head?_of_ofHead_blockComment h)
    by_cases hr : ['*', '/'] <:+: r
    · obtain ⟨b, r, hb, rfl⟩ := exists_first_close hr
      have hcut := cutComment_append_close hb r
      left
      simpa [LexemeKind.cut, hcut] using Comment.block hb
    · have hcut := cutComment_of_not_infix hr
      right
      simpa [LexemeKind.cut, hcut] using OpenComment.block hr

theorem Lexeme.CutBefore.gap_cases {l : Lexeme} (h : l.CutBefore r) (hgap : l.isGap = true) :
    (∀ c ∈ l.text, isBlank c = true) ∨ Comment l.text ∨ r = [] ∧ OpenComment l.text := by
  have hcomment (hk : l.kind = .lineComment ∨ l.kind = .blockComment) :
      Comment l.text ∨ r = [] ∧ OpenComment l.text := by
    obtain ⟨c, b, ht, hc, hcut⟩ := h
    have happ := l.kind.cut_append c (b ++ r)
    rw [hcut, List.append_cancel_left_eq] at happ
    have hcases := comment_of_ofHead hc hk
    rwa [hcut, happ, ← ht] at hcases
  obtain ⟨kind, text⟩ := l
  cases kind with
  | token kind => cases hgap
  | blank => exact .inl (h.isBlank_of_mem rfl)
  | lineComment => exact .inr (hcomment (.inl rfl))
  | blockComment => exact .inr (hcomment (.inr rfl))

/-- Says that `t` stands in `s` from byte to byte of a span, with `rest` behind it. -/
def StandsAt (s : List Char) (span : Nat × Nat) (t rest : List Char) : Prop :=
  ∃ pre, s = pre ++ t ++ rest ∧ byteSize pre = span.1 ∧ byteSize (pre ++ t) = span.2

/-- Where the stretches outside the spans lie, from byte `start` on. -/
def gapSpansFrom (start stop : Nat) : List (Nat × Nat) → List (Nat × Nat)
  | [] => [(start, stop)]
  | span :: spans => (start, span.1) :: gapSpansFrom span.2 stop spans

/-- A text from byte `start` on, with the tokens in it and their spans. -/
inductive Covered : Nat → List Char → List Lexeme → List (Nat × Nat) → Prop where
  | last {start : Nat} {gap : List Char} : GapBefore [] gap → Covered start gap [] []
  | token {start first stop : Nat} {gap s : List Char} {l : Lexeme} {ls : List Lexeme}
      {spans : List (Nat × Nat)} : GapBefore (l.text ++ s) gap → l.text ≠ [] →
      first = start + byteSize gap → stop = first + byteSize l.text → Covered stop s ls spans →
      Covered start (gap ++ (l.text ++ s)) (l :: ls) ((first, stop) :: spans)

namespace Covered

theorem append (ht : ∀ rest s, GapBefore rest s → GapBefore rest (t ++ s))
    (h : Covered (start + byteSize t) s ls spans) : Covered start (t ++ s) ls spans := by
  cases h with
  | last hg => exact .last (ht _ _ hg)
  | token hg hl hfirst hstop hs =>
    rw [← List.append_assoc]
    refine .token (ht _ _ hg) hl ?_ hstop hs
    rw [hfirst, byteSize_append, Nat.add_assoc]

theorem stands (h : Covered start s ls spans) (pre : List Char) (hpre : byteSize pre = start) :
    List.Forall₂ (fun l span => span.1 < span.2 ∧ ∃ rest, StandsAt (pre ++ s) span l.text rest)
      ls spans := by
  induction h generalizing pre with
  | last => exact .nil
  | @token start first stop gap s l ls spans _ hl hfirst hstop _ ih =>
    have hsize : byteSize (pre ++ gap) = first := by rw [byteSize_append, hpre, hfirst]
    have hnext : byteSize (pre ++ gap ++ l.text) = stop := by rw [byteSize_append, hsize, hstop]
    have hi := ih _ hnext
    simp only [List.append_assoc] at hi
    refine .cons ⟨?_, s, pre ++ gap, by simp, hsize, hnext⟩ hi
    have hpos := byteSize_pos hl
    simp only
    omega

theorem ordered (h : Covered start s ls spans) :
    (∀ span ∈ spans, start ≤ span.1) ∧ spans.Pairwise fun a b => a.1 < b.1 ∧ a.2 ≤ b.1 := by
  induction h with
  | last => exact ⟨nofun, .nil⟩
  | token _ hl hfirst hstop _ ih =>
    obtain ⟨hle, hpair⟩ := ih
    have hpos := byteSize_pos hl
    refine ⟨?_, List.pairwise_cons.2 ⟨?_, hpair⟩⟩
    · rintro span hspan
      rcases List.mem_cons.1 hspan with rfl | hspan
      · simp only
        omega
      · have hs := hle span hspan
        omega
    · intro span hspan
      have hs := hle span hspan
      simp only
      omega

theorem gaps (h : Covered start s ls spans) (pre : List Char) (hpre : byteSize pre = start) :
    ∀ span ∈ gapSpansFrom start (byteSize (pre ++ s)) spans,
      ∃ gap rest, StandsAt (pre ++ s) span gap rest ∧ GapBefore rest gap := by
  induction h generalizing pre with
  | @last start gap hg =>
    intro span hspan
    rw [gapSpansFrom, List.mem_singleton] at hspan
    subst hspan
    exact ⟨gap, [], ⟨pre, by simp, hpre, rfl⟩, hg⟩
  | @token start first stop gap s l ls spans hg _ hfirst hstop _ ih =>
    have hsize : byteSize (pre ++ gap) = first := by rw [byteSize_append, hpre, hfirst]
    have hnext : byteSize (pre ++ gap ++ l.text) = stop := by rw [byteSize_append, hsize, hstop]
    have hi := ih _ hnext
    simp only [List.append_assoc] at hi
    intro span hspan
    rw [gapSpansFrom] at hspan
    rcases List.mem_cons.1 hspan with rfl | hspan
    · exact ⟨gap, l.text ++ s, ⟨pre, by simp, hpre, hsize⟩, hg⟩
    · exact hi span hspan

end Covered

theorem covered_scan (s : List Char) (start : Nat) :
    Covered start s ((scan s).filter (!·.isGap)) (spansFrom start (scan s)) := by
  induction s using cutBefore_induction generalizing start with
  | nil => exact .last .nil
  | cons l r hl ih =>
    have hnext := ih (start + byteSize l.text)
    rw [hl.scan_append]
    cases hgap : l.isGap with
    | true =>
      rw [spansFrom_cons_gap hgap, List.filter_cons_of_neg (by simp [hgap])]
      rcases hl.gap_cases hgap with hblank | hcomment | ⟨rfl, hopen⟩
      · exact hnext.append fun _ _ hs => .blanks_append hblank hs
      · exact hnext.append fun _ _ hs => .comment hcomment hs
      · rw [List.append_nil, scan_nil]
        exact .last (.unclosed rfl hopen)
    | false =>
      rw [spansFrom, List.filter_cons_of_pos (by simp [hgap]), hgap, if_neg Bool.false_ne_true]
      have hfirst : start = start + byteSize [] := rfl
      exact .token .nil hl.text_ne_nil hfirst rfl hnext

/-- The tokens of a text stand at their spans, in order, none of them empty, and outside the spans
there is nothing but white space and comments. -/
theorem tokenSpans_cover (s : List Char) :
    List.Forall₂ (fun t span => span.1 < span.2 ∧ ∃ rest, StandsAt s span t.text rest) (tokenize s)
        (tokenSpans s) ∧
      ((tokenSpans s).Pairwise fun a b => a.1 < b.1 ∧ a.2 ≤ b.1) ∧
      ∀ span ∈ gapSpansFrom 0 (byteSize s) (tokenSpans s),
        ∃ gap rest, StandsAt s span gap rest ∧ GapBefore rest gap := by
  have h := covered_scan s 0
  have hstands := h.stands [] rfl
  rw [← map_toLexeme_tokenize, List.forall₂_map_left_iff] at hstands
  exact ⟨hstands, h.ordered.2, h.gaps [] rfl⟩

end SqlWalk
