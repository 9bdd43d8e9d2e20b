import SqlWalk.Proofs.Lexing.Locality
import SqlWalk.Query.Analysis
import SqlWalk.Proofs.Query.Head

namespace SqlWalk

open Token

variable {d : Nat} {u : Token} {ts us : List Token} {k : Keyword}

/-- The tokens of a list up to the first one outside parentheses that ends the statement. -/
def firstStatement : (depth : Nat) → List Token → List Token
  | _, [] => []
  | d, t :: ts =>
    if d = 0 ∧ endsStatement t then [] else t :: firstStatement (t.depthAfter d) ts

theorem exists_firstStatement_append (d : Nat) (ts : List Token) :
    ∃ us, ts = firstStatement d ts ++ us ∧ (∀ u ∈ us.head?, endsStatement u = true) ∧
      (us = [] ∨ depthFrom d (firstStatement d ts) = 0) := by
  induction ts generalizing d with
  | nil => exact ⟨[], rfl, nofun, .inl rfl⟩
  | cons t ts ih =>
    rw [firstStatement]
    split
    · next h =>
      refine ⟨t :: ts, rfl, ?_, .inr h.1⟩
      rintro u ⟨⟩
      exact h.2
    · obtain ⟨us, hts, hu, hd⟩ := ih (t.depthAfter d)
      exact ⟨us, congrArg (t :: ·) hts, hu, hd⟩

theorem depthFrom_firstStatement (h : depthFrom d ts = 0) :
    depthFrom d (firstStatement d ts) = 0 := by
  obtain ⟨us, hts, -, hus | hd⟩ := exists_firstStatement_append d ts
  · rwa [hts, hus, List.append_nil] at h
  · exact hd

theorem firstStatement_append (hd : depthFrom d (firstStatement d ts) = 0)
    (hu : endsStatement u = true) (us : List Token) :
    firstStatement d (ts ++ u :: us) = firstStatement d ts := by
  induction ts generalizing d with
  | nil => exact if_pos ⟨hd, hu⟩
  | cons t ts ih =>
    rw [firstStatement] at hd
    rw [List.cons_append, firstStatement, firstStatement]
    split at hd
    · next h => rw [if_pos h, if_pos h]
    · next h => rw [if_neg h, if_neg h, ih hd]

theorem joinHead?_append_of_ends (hu : ∀ u ∈ us.head?, endsStatement u = true) (ts : List Token) :
    joinHead? (ts ++ us) = joinHead? ts := by
  obtain ⟨ms, vs, rfl, hm, hv⟩ := exists_modifiers ts
  have hjoin : (vs ++ us).head?.any (·.isKeyword .join) = vs.head?.any (·.isKeyword .join) := by
    cases vs with
    | cons v vs => rfl
    | nil =>
      cases us with
      | nil => rfl
      | cons u us => exact isKeyword_of_endsStatement (hu u rfl) (by decide)
  rw [List.append_assoc, joinHead?_append_of_modifiers hm, joinHead?_append_of_modifiers hm hv,
    hjoin]
  intro v h
  cases vs with
  | cons w vs => exact hv v h
  | nil => exact isJoinModifier_of_endsStatement (hu v h)

theorem clauseHead?_append_of_ends (hu : ∀ u ∈ us.head?, endsStatement u = true) (hts : ts ≠ []) :
    clauseHead? (ts ++ us) = clauseHead? ts := by
  obtain ⟨t, ts, rfl⟩ := List.exists_cons_of_ne_nil hts
  have hby : (ts ++ us).head?.any (·.isKeyword .byColumns) =
      ts.head?.any (·.isKeyword .byColumns) := by
    cases ts with
    | cons v vs => rfl
    | nil =>
      cases us with
      | nil => rfl
      | cons u us => exact isKeyword_of_endsStatement (hu u rfl) (by decide)
  have hjoin := joinHead?_append_of_ends hu (t :: ts)
  rw [List.cons_append] at hjoin
  simp only [List.cons_append, clauseHead?, hby, hjoin]

namespace Statement

theorem scanFrom_append_of_ends (hu : ∀ u ∈ us.head?, endsStatement u = true) (d : Nat)
    (ts : List Token) (hd : us = [] ∨ depthFrom d ts = 0) :
    scanFrom 0 d (ts ++ us) =
      { scanFrom 0 d ts with rest := (scanFrom 0 d ts).rest ++ us } := by
  induction d, ts using scanFrom_induction with
  | nil d =>
    cases us with
    | nil => rfl
    | cons u us =>
      obtain rfl : d = 0 := by simpa using hd
      exact scanFrom_ended (hu u rfl) us
  | ended t ts he =>
    rw [List.cons_append, scanFrom_ended he, scanFrom_ended he]
    rfl
  | opened kind ks ts hc ih =>
    have hne : ks ++ ts ≠ [] := by
      intro he
      rw [he] at hc
      cases hc
    have hopen := hc
    rw [← clauseHead?_append_of_ends hu hne, List.append_assoc] at hopen
    rw [depthFrom_append, depthFrom_keywords (keyword?_of_head hc)] at hd
    rw [List.append_assoc, scanFrom_opened hopen, scanFrom_opened hc, ih hd]
    rfl
  | other d t ts hc ih =>
    rw [List.cons_append, scanFrom_other hc, scanFrom_other, ih hd]
    · rfl
    · intro h0
      obtain ⟨he, hn⟩ := hc h0
      exact ⟨he, (clauseHead?_append_of_ends hu (List.cons_ne_nil t ts)).trans hn⟩

theorem clauses_firstStatement (ts : List Token) :
    (ofTokens (firstStatement 0 ts)).clauses = (ofTokens ts).clauses := by
  obtain ⟨us, hts, hu, hd⟩ := exists_firstStatement_append 0 ts
  have hs := scanFrom_append_of_ends hu 0 (firstStatement 0 ts) hd
  rw [← hts] at hs
  rw [ofTokens, ofTokens, hs]

theorem clauses_append (hd : depthFrom 0 (firstStatement 0 ts) = 0) (hu : endsStatement u = true)
    (us : List Token) : (ofTokens (ts ++ u :: us)).clauses = (ofTokens ts).clauses := by
  rw [← clauses_firstStatement, firstStatement_append hd hu, clauses_firstStatement]

end Statement

namespace Query

theorem ofStatement_congr {s s' : Statement} (h : s.clauses = s'.clauses) (kind : StatementKind)
    (source : List Token) : ofStatement kind s source = ofStatement kind s' source := by
  simp only [ofStatement, Statement.joins, Statement.body?, h]

theorem ofTokens_congr (hk : kindOf ts = kindOf us)
    (hc : (Statement.ofTokens ts).clauses = (Statement.ofTokens us).clauses) :
    ofTokens ts = ofTokens us := by
  simp only [ofTokens, Statement.body?, hk, hc, ofStatement_congr hc]

theorem ofTokens_append (hne : ts ≠ []) (hd : depthFrom 0 (firstStatement 0 ts) = 0)
    (hu : endsStatement u = true) (us : List Token) : ofTokens (ts ++ u :: us) = ofTokens ts := by
  obtain ⟨t, ts, rfl⟩ := List.exists_cons_of_ne_nil hne
  exact ofTokens_congr rfl (Statement.clauses_append hd hu us)

/-- A text with a token, at whose end no literal or comment is open, and whose first statement ends
outside parentheses. -/
structure Terminable (s : List Char) : Prop where
  closed : Closed s
  tokens_ne_nil : tokenize s ≠ []
  balanced : depthFrom 0 (firstStatement 0 (tokenize s)) = 0

theorem Terminable.ofTokens_semicolon {s : List Char} (h : Terminable s) (r : List Char) :
    ofTokens (tokenize (s ++ ';' :: r)) = ofTokens (tokenize s) := by
  have hinert : ∀ d ∈ (';' :: r).head?, isInert d = true ∧ isBlank d = false := by
    rintro d ⟨⟩
    decide
  obtain ⟨gap, ht⟩ := h.closed.exists_tokenize_append h.tokens_ne_nil hinert
  have hs : scan (';' :: r) = ⟨.token .symbol, [';']⟩ :: scan r := scan_cons ';' r
  rw [ht, hs]
  exact ofTokens_append h.tokens_ne_nil h.balanced rfl _

theorem Terminable.ofTokens_setOperation {s : List Char} (h : Terminable s)
    (hk : endsStatement (k.token true) = true) (r : List Char) :
    ofTokens (tokenize (s ++ ' ' :: (k.spelling.toList ++ ' ' :: r))) = ofTokens (tokenize s) := by
  have hword : (k.token true).LexesBefore (' ' :: r) := by
    have hd : Delimits [' '] (' ' :: r) := .inl rfl
    exact ((Spells.keyword k).closed _ rfl).of_delimits hd
  have hs : scan (k.spelling.toList ++ ' ' :: r) =
      ⟨.token .word, k.spelling.toList⟩ :: scan (' ' :: r) := hword.scan_append
  rw [h.closed.tokenize_space_append h.tokens_ne_nil, hs]
  exact ofTokens_append h.tokens_ne_nil h.balanced hk _

/-- Only the first statement of a text counts. -/
theorem ofText_first {s₁ : String} (h : Terminable s₁.toList) (s₂ : String) :
    ofText (s₁ ++ ";" ++ s₂) = ofText s₁ ∧ ofText (s₁ ++ " UNION " ++ s₂) = ofText s₁ ∧
      ofText (s₁ ++ " INTERSECT " ++ s₂) = ofText s₁ ∧
      ofText (s₁ ++ " EXCEPT " ++ s₂) = ofText s₁ := by
  have hsemicolon : (s₁ ++ ";" ++ s₂).toList = s₁.toList ++ ';' :: s₂.toList := by simp
  have hunion : (s₁ ++ " UNION " ++ s₂).toList =
      s₁.toList ++ ' ' :: (Keyword.union.spelling.toList ++ ' ' :: s₂.toList) := by
    simp [Keyword.spelling]
  have hintersect : (s₁ ++ " INTERSECT " ++ s₂).toList =
      s₁.toList ++ ' ' :: (Keyword.intersect.spelling.toList ++ ' ' :: s₂.toList) := by
    simp [Keyword.spelling]
  have hexcept : (s₁ ++ " EXCEPT " ++ s₂).toList =
      s₁.toList ++ ' ' :: (Keyword.except.spelling.toList ++ ' ' :: s₂.toList) := by
    simp [Keyword.spelling]
  simp only [ofText, hsemicolon, hunion, hintersect, hexcept]
  exact ⟨h.ofTokens_semicolon _, h.ofTokens_setOperation (by decide) _,
    h.ofTokens_setOperation (by decide) _, h.ofTokens_setOperation (by decide) _⟩

theorem ofText_first_dangling :
    let s₁ := "SELECT a FROM t WHERE b IN (c, d) LEFT -- outer\n"
    let s₂ := "JOIN u ON ('"
    Terminable s₁.toList ∧ ofText (s₁ ++ ";" ++ s₂) = ofText s₁ ∧
      ofText (s₁ ++ " UNION " ++ s₂) = ofText s₁ := by
  intro s₁ s₂
  have h : Terminable s₁.toList :=
    ⟨by decide, by decide, depthFrom_firstStatement (by decide)⟩
  obtain ⟨hsemicolon, hunion, -⟩ := ofText_first h s₂
  exact ⟨h, hsemicolon, hunion⟩

end Query
end SqlWalk
