import SqlWalk.Proofs.Lexing.Locality

namespace SqlWalk

open Token

variable {b c p r s : List Char} {x : Char}

/-- A whole comment: two dashes and the rest of the line, or all up to the first `*/` behind `/*`. -/
inductive Comment : List Char → Prop where
  | line {b : List Char} : '\n' ∉ b → Comment ('-' :: '-' :: (b ++ ['\n']))
  | block {b : List Char} : ¬['*', '/'] <:+: b → Comment ('/' :: '*' :: (b ++ ['*', '/']))

theorem cutAfter_append_cons (hb : x ∉ b) (r : List Char) :
    cutAfter x (b ++ x :: r) = (b ++ [x], r) := by
  induction b with
  | nil => simp [cutAfter]
  | cons c b ih =>
    rw [List.mem_cons, not_or] at hb
    rw [List.cons_append, cutAfter, if_neg (Ne.symm hb.1), ih hb.2]
    rfl

theorem cutComment_append_close (hb : ¬['*', '/'] <:+: b) (r : List Char) :
    cutComment (b ++ '*' :: '/' :: r) = (b ++ ['*', '/'], r) := by
  induction b with
  | nil => simp [cutComment]
  | cons c b ih =>
    have hi := ih fun h => hb (List.infix_cons h)
    cases b with
    | nil =>
      rw [List.nil_append] at hi
      simp [cutComment]
    | cons d b =>
      have hne : ¬(c = '*' ∧ d = '/') := by
        rintro ⟨rfl, rfl⟩
        exact hb ⟨[], b, rfl⟩
      rw [List.cons_append, List.cons_append, cutComment, if_neg hne, ← List.cons_append, hi]
      rfl

theorem Comment.exists_scan_append (hc : Comment c) (s : List Char) :
    ∃ k, scan (c ++ s) = ⟨k, c⟩ :: scan s ∧ Lexeme.isGap ⟨k, c⟩ = true := by
  cases hc with
  | @line b hb =>
    have hcut : cutAfter '\n' ('-' :: b ++ '\n' :: s) = ('-' :: b ++ ['\n'], s) :=
      cutAfter_append_cons (by simpa using hb) s
    have hk : LexemeKind.ofHead '-' ('-' :: (b ++ '\n' :: s)) = .lineComment := rfl
    refine ⟨.lineComment, ?_, rfl⟩
    simp only [List.cons_append, List.append_assoc, List.nil_append] at hcut ⊢
    rw [scan_cons, hk, LexemeKind.cut, hcut]
  | @block b hb =>
    have hcut := cutComment_append_close hb s
    have hk : LexemeKind.ofHead '/' ('*' :: (b ++ '*' :: '/' :: s)) = .blockComment := rfl
    refine ⟨.blockComment, ?_, rfl⟩
    simp only [List.cons_append, List.append_assoc, List.nil_append]
    rw [scan_cons, hk]
    simp [LexemeKind.cut, hcut]

theorem Comment.exists_cons (hc : Comment c) : ∃ d b, c = d :: b ∧ (d = '-' ∨ d = '/') := by
  cases hc with
  | line hb => exact ⟨_, _, rfl, .inl rfl⟩
  | block hb => exact ⟨_, _, rfl, .inr rfl⟩

/-- Says that nothing stands between the end of a text and the operator that it ends in. -/
def EndsInOperator (s : List Char) : Prop :=
  ∃ l ∈ (scan s).getLast?, l.kind = .token .operator

instance (s : List Char) : Decidable (EndsInOperator s) :=
  decidable_of_iff ((scan s).getLast?.any fun l => l.kind = .token .operator) <| by
    cases h : (scan s).getLast? <;> simp [EndsInOperator, h]

theorem Closed.scan_append_comment (hp : Closed p) (ho : ¬EndsInOperator p) (hc : Comment c)
    (s : List Char) : scan (p ++ (c ++ s)) = scan p ++ scan (c ++ s) := by
  obtain ⟨d, b, rfl, hd⟩ := hc.exists_cons
  have hblank : isBlank d = false := by rcases hd with rfl | rfl <;> decide
  apply hp.scan_append_of_cutBefore
  · rintro e ⟨⟩
    exact hblank
  · intro l hl _ hcut
    have hop : l.kind ≠ .token .operator := fun hk => ho ⟨l, hl, hk⟩
    rcases hd with rfl | rfl
    · exact hcut.before hblank (by decide) (by decide) (by decide) (by decide) (absurd · hop)
        (absurd · (by decide)) _
    · exact hcut.before hblank (by decide) (by decide) (by decide) (by decide) (absurd · hop)
        (absurd · (by decide)) _

theorem Closed.map_toLexeme_space_append (hp : Closed p) (s : List Char) :
    (tokenize (p ++ ' ' :: s)).map toLexeme =
      (scan p).filter (!·.isGap) ++ (scan s).filter (!·.isGap) := by
  rw [tokenize_eq false, map_toLexeme_respaced, hp.ofLexemes_space_append, List.map_append,
    map_toLexeme_ofLexemes, map_toLexeme_ofLexemes]

/-- Behind an operator a comment lengthens the operator, or makes it part of the comment. -/
theorem filter_scan_operator_append {o : Lexeme} (ho : o.CutBefore [])
    (hk : o.kind = .token .operator) (hc : Comment c) (s : List Char) :
    (scan (o.text ++ (c ++ s))).filter (!·.isGap) ≠ o :: (scan s).filter (!·.isGap) := by
  obtain ⟨e, b, ht, he, -⟩ := ho
  rw [hk, List.append_nil] at he
  obtain ⟨d, c', hd, hdash⟩ := hc.exists_cons
  by_cases hline : e = '-' ∧ b = [] ∧ d = '-'
  · obtain ⟨rfl, rfl, rfl⟩ := hline
    -- A third dash in front of a line comment belongs to that comment.
    have hcomment : Comment (o.text ++ c) := by
      rw [ht]
      cases hc with
      | @line b hb => exact .line (b := '-' :: b) (by simpa using hb)
      | block hb => cases hd
    obtain ⟨k, hscan, hgap⟩ := hcomment.exists_scan_append s
    rw [← List.append_assoc, hscan, List.filter_cons_of_neg (by simp [hgap])]
    intro heq
    have hlength := congrArg List.length heq
    simp at hlength
  · have hstar : d ≠ '*' := by rcases hdash with rfl | rfl <;> decide
    have hparam : isParamPart d = false := by rcases hdash with rfl | rfl <;> decide
    have hop : isOperatorChar d = true := by rcases hdash with rfl | rfl <;> decide
    have hhead : LexemeKind.ofHead e (b ++ d :: (c' ++ s)) = .token .operator := by
      rw [LexemeKind.ofHead_append hstar hparam, he]
      exact fun h₁ h₂ h₃ => hline ⟨h₁, h₂, h₃⟩
    rw [hd, ht, List.cons_append, List.cons_append, scan_cons, hhead]
    intro heq
    have hfirst : (cutRun isOperatorChar (b ++ d :: (c' ++ s))).1 = b := by
      have h := congrArg (fun ls : List Lexeme => ls.head?.map Lexeme.text) heq
      simpa [Lexeme.isGap, LexemeKind.cut, ht] using h
    have hstop := (cutRun_fst_eq_iff.1 hfirst).2 d rfl
    rw [hop] at hstop
    cases hstop

/-- Behind a closed text a comment is worth a space exactly if the text ends in no operator. -/
theorem tokenize_comment_iff (hp : Closed p) (hc : Comment c) (s : List Char) :
    (tokenize (p ++ c ++ s)).map toLexeme = (tokenize (p ++ ' ' :: s)).map toLexeme ↔
      ¬EndsInOperator p := by
  rw [hp.map_toLexeme_space_append, map_toLexeme_tokenize, List.append_assoc]
  constructor
  · rintro heq ⟨o, ho, hk⟩
    have hne : p ≠ [] := by
      rintro rfl
      cases ho
    obtain ⟨ls, l, hls, hl, -, happ⟩ := exists_scan_append hne
    rw [hls, List.getLast?_concat] at ho
    cases ho
    apply filter_scan_operator_append hl hk hc s
    have hgap : o.isGap = false := by simp [Lexeme.isGap, hk]
    rw [happ, hls, List.filter_append, List.filter_append, List.append_assoc,
      List.append_cancel_left_eq, List.filter_cons_of_pos (by simp [hgap])] at heq
    exact heq
  · intro ho
    obtain ⟨k, hscan, hgap⟩ := hc.exists_scan_append s
    rw [hp.scan_append_comment ho hc, hscan, List.filter_append,
      List.filter_cons_of_neg (by simp [hgap])]

theorem tokenize_comment_behind_comment :
    let p := "a || 'it''s' /* x */".toList
    let c := '-' :: '-' :: ("*/ '".toList ++ ['\n'])
    Closed p ∧ Comment c ∧ ¬EndsInOperator p ∧
      (tokenize (p ++ c ++ ['b'])).map toLexeme = (tokenize (p ++ ' ' :: ['b'])).map toLexeme := by
  intro p c
  have hp : Closed p := by decide
  have hc : Comment c := .line (by decide)
  have ho : ¬EndsInOperator p := by decide
  exact ⟨hp, hc, ho, (tokenize_comment_iff hp hc ['b']).2 ho⟩

/-- Behind an equals sign the dashes of a comment are operator, and its words are words. -/
theorem not_tokenize_comment_behind_operator :
    ¬∀ p c s : List Char, Closed p → p.getLast? ≠ some '-' → p.getLast? ≠ some '/' → Comment c →
      (tokenize (p ++ c ++ s)).map toLexeme = (tokenize (p ++ ' ' :: s)).map toLexeme := by
  intro h
  have hc : Comment ('-' :: '-' :: (" c".toList ++ ['\n'])) := .line (by decide)
  have heq := h "a =".toList _ ['1'] (by decide) (by decide) (by decide) hc
  exact absurd heq (by decide)

end SqlWalk
