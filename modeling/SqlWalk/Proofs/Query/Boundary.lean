import SqlWalk.Proofs.Query.Head

namespace SqlWalk

variable {t : Token} {ts us rest : List Token} {k : Keyword} {d : Nat} {c : Clause}
  {cs : List Clause}

/-- The keywords that open a clause or end the statement whatever follows them. -/
def Keyword.breaking : List Keyword :=
  [.select, .fromTables, .join, .whereRows, .having, .limit, .offset, .union, .intersect, .except]

/-- Says of a token and those behind it that the statement goes on with no new clause. -/
def Token.Plain (t : Token) (us : List Token) : Prop :=
  t.isSymbol ';' = false ∧ (∀ k ∈ t.keyword?, k ∉ Keyword.breaking) ∧
    ((t.isKeyword .group || t.isKeyword .order) = true →
      us.head?.any (·.isKeyword .byColumns) = false)

instance (t : Token) (us : List Token) : Decidable (t.Plain us) :=
  inferInstanceAs (Decidable (_ ∧ _))

structure Unbroken (ts : List Token) : Prop where
  plain : Outside Token.Plain 0 ts
  balanced : depthFrom 0 ts = 0

instance (ts : List Token) : Decidable (Unbroken ts) :=
  decidable_of_iff (Outside Token.Plain 0 ts ∧ depthFrom 0 ts = 0)
    ⟨fun h => ⟨h.1, h.2⟩, fun h => ⟨h.plain, h.balanced⟩⟩

namespace Token.Plain

theorem endsStatement_eq (h : t.Plain us) : endsStatement t = false := by
  obtain ⟨hs, hk, _⟩ := h
  simp only [endsStatement, hs, Bool.false_or]
  split
  · next hu => exact absurd (by decide) (hk _ hu)
  · next hu => exact absurd (by decide) (hk _ hu)
  · next hu => exact absurd (by decide) (hk _ hu)
  · rfl

theorem clauseHead?_eq (h : t.Plain us) (hj : joinHead? (t :: us) = none) :
    clauseHead? (t :: us) = none := by
  obtain ⟨_, hk, hb⟩ := h
  simp only [clauseHead?]
  split
  case h_7 hg =>
    rw [hb (by simp [isKeyword, hg])]
    rfl
  case h_8 ho =>
    rw [hb (by simp [isKeyword, ho])]
    rfl
  case h_9 => exact hj
  all_goals
    next hu => exact absurd (by decide) (hk _ hu)

theorem isKeyword_join (h : t.Plain us) : t.isKeyword .join = false := by
  cases hj : t.isKeyword .join with
  | false => rfl
  | true => exact absurd (by decide) (h.2.1 _ (isKeyword_iff.1 hj))

theorem append (h : t.Plain us) (hr : rest.head?.any (·.isKeyword .byColumns) = false) :
    t.Plain (us ++ rest) := by
  refine ⟨h.1, h.2.1, ?_⟩
  intro hg
  cases us with
  | nil => exact hr
  | cons u us => exact h.2.2 hg

theorem of_prefix (h : t.Plain ts) (hp : us <+: ts) : t.Plain us := by
  obtain ⟨hs, hk, hb⟩ := h
  refine ⟨hs, hk, ?_⟩
  intro hg
  obtain ⟨vs, rfl⟩ := hp
  cases us with
  | nil => rfl
  | cons u us => exact hb hg

theorem of_clauseHead? (he : endsStatement t = false) (hc : clauseHead? (t :: ts) = none) :
    t.Plain ts := by
  refine ⟨?_, ?_, ?_⟩
  · simp only [endsStatement, Bool.or_eq_false_iff] at he
    exact he.1
  · intro k hk hm
    rw [Option.mem_def] at hk
    cases k with
    | join => simp [clauseHead?, joinHead?, isJoinModifier, isKeyword, hk] at hc
    | union | intersect | except => simp [endsStatement, hk] at he
    | select | fromTables | whereRows | having | limit | offset => simp [clauseHead?, hk] at hc
    | _ => exact absurd hm (by decide)
  · intro hg
    simp only [isKeyword, Bool.or_eq_true, beq_iff_eq] at hg
    rw [Bool.eq_false_iff]
    intro hb
    obtain hk | hk := hg
    · simp [clauseHead?, hk, hb] at hc
    · simp [clauseHead?, hk, hb] at hc

end Token.Plain

/-- A token that leaves an unbroken list unbroken wherever it stands. -/
structure Token.Neutral (t : Token) : Prop where
  plain : ∀ us, t.Plain us
  depth : t.depthAfter 0 = 0
  isKeyword_by : t.isKeyword .byColumns = false

theorem Token.Neutral.of_keyword? (hk : t.keyword? = some k)
    (h : k ∉ .group :: .order :: .byColumns :: Keyword.breaking) : t.Neutral where
  plain := by
    intro us
    refine ⟨isSymbol_of_keyword? hk ';', ?_, ?_⟩
    · intro j hj
      rw [hk] at hj
      cases hj
      simp only [List.mem_cons, not_or] at h
      exact h.2.2.2
    · intro hg
      simp only [isKeyword, hk, Bool.or_eq_true, beq_iff_eq, Option.some.injEq] at hg
      obtain rfl | rfl := hg
      · exact absurd (by decide) h
      · exact absurd (by decide) h
  depth := depthAfter_of_keyword? hk 0
  isKeyword_by := by
    simp only [List.mem_cons, not_or] at h
    simp [isKeyword, hk, h.2.2.1]

theorem Token.Neutral.of_not_keyword (hk : t.keyword? = none) (hs : t.isSymbol ';' = false)
    (hd : t.depthAfter 0 = 0) : t.Neutral where
  plain := by
    intro us
    refine ⟨hs, ?_, ?_⟩
    · rw [hk]
      exact nofun
    · simp [isKeyword, hk]
  depth := hd
  isKeyword_by := by simp [isKeyword, hk]

/-- A run of modifiers at the end of an unbroken list might belong to a join behind it; any other
run is no join. -/
theorem joinHead?_append (h : Outside Token.Plain 0 (t :: ts))
    (hr : joinHead? rest = none ∨ ∀ u ∈ (t :: ts).getLast?, isJoinModifier u = false) :
    joinHead? (t :: ts ++ rest) = none := by
  induction ts generalizing t with
  | nil =>
    cases hm : isJoinModifier t with
    | false => exact joinHead?_of_not_modifier hm (h.1 rfl).isKeyword_join
    | true =>
      obtain hr | hr := hr
      · exact (joinHead?_of_modifier hm).2 hr
      · rw [hr t rfl] at hm
        cases hm
  | cons u ts ih =>
    cases hm : isJoinModifier t with
    | false => exact joinHead?_of_not_modifier hm (h.1 rfl).isKeyword_join
    | true =>
      obtain ⟨_, h⟩ := h
      rw [depthAfter_of_isJoinModifier hm] at h
      exact (joinHead?_of_modifier hm).2 (ih h hr)

namespace Unbroken

theorem nil : Unbroken [] :=
  ⟨trivial, rfl⟩

theorem cons (ht : t.Neutral) (h : Unbroken ts) : Unbroken (t :: ts) where
  plain := ⟨fun _ => ht.plain ts, ht.depth.symm ▸ h.plain⟩
  balanced := by rw [depthFrom_cons, ht.depth, h.balanced]

theorem append (h : Unbroken ts) (hu : Unbroken us)
    (hb : us.head?.any (·.isKeyword .byColumns) = false) : Unbroken (ts ++ us) where
  plain := by
    rw [outside_append, h.balanced]
    exact ⟨h.plain.imp fun t rest ht => ht.append hb, hu.plain⟩
  balanced := by rw [depthFrom_append, h.balanced, hu.balanced]

theorem intercalate {α : Type} {f : α → List Token} {xs : List α} (ht : t.Neutral)
    (h : ∀ x ∈ xs, Unbroken (f x)) : Unbroken ([t].intercalate (xs.map f)) := by
  induction xs with
  | nil => exact nil
  | cons x xs ih =>
    obtain ⟨hx, hxs⟩ := List.forall_mem_cons.1 h
    cases xs with
    | nil =>
      rw [List.map_singleton, List.intercalate_singleton]
      exact hx
    | cons y ys =>
      rw [List.map_cons, List.map_cons, List.intercalate_cons_cons, List.append_assoc]
      exact hx.append (cons ht (ih hxs)) ht.isKeyword_by

end Unbroken

namespace Clause

def tokens (c : Clause) : List Token :=
  c.keywords ++ c.body

def isJoin (c : Clause) : Bool :=
  match c.kind with
  | .join _ => true
  | _ => false

/-- A clause whose keywords open just this clause, with an unbroken body. -/
structure WellCut (c : Clause) : Prop where
  opens : ∀ rest, clauseHead? (c.keywords ++ rest) = some (c.kind, c.keywords.length)
  body : Unbroken c.body

/-- No clause in front of a join ends in a word that modifies joins. -/
def JoinsApart : List Clause → Prop
  | [] => True
  | c :: cs =>
    (cs.head?.any isJoin = true → ∀ t ∈ c.body.getLast?, isJoinModifier t = false) ∧ JoinsApart cs

instance JoinsApart.decidable : (cs : List Clause) → Decidable (JoinsApart cs)
  | [] => inferInstanceAs (Decidable True)
  | _ :: cs =>
    have := JoinsApart.decidable cs
    inferInstanceAs (Decidable (_ ∧ _))

theorem WellCut.exists_cons (h : c.WellCut) :
    ∃ t ts, c.keywords = t :: ts ∧ t.isKeyword .byColumns = false := by
  have hh := h.opens []
  rw [List.append_nil] at hh
  cases hc : c.keywords with
  | nil =>
    rw [hc] at hh
    cases hh
  | cons t ts =>
    rw [hc] at hh
    obtain ⟨k, hk, ht⟩ := opening_of_clauseHead? hh
    have hne : ∀ k ∈ Keyword.opening, (some k == some Keyword.byColumns) = false := by decide
    exact ⟨t, ts, rfl, by rw [Token.isKeyword, ht, hne k hk]⟩

theorem head?_flatMap_tokens (h : ∀ c ∈ cs, c.WellCut) :
    (cs.flatMap tokens).head?.any (·.isKeyword .byColumns) = false := by
  cases cs with
  | nil => rfl
  | cons c cs =>
    obtain ⟨t, ts, hk, hb⟩ := (h c List.mem_cons_self).exists_cons
    simp [tokens, hk, hb]

theorem joinHead?_flatMap_tokens (h : ∀ c ∈ cs, c.WellCut) (hj : cs.head?.any isJoin = false) :
    joinHead? (cs.flatMap tokens) = none := by
  cases cs with
  | nil => rfl
  | cons c cs =>
    have hc := (h c List.mem_cons_self).opens (c.body ++ cs.flatMap tokens)
    rw [List.flatMap_cons, tokens, List.append_assoc]
    apply joinHead?_of_clauseHead? hc
    intro j hk
    simp [isJoin, hk] at hj

end Clause

namespace Statement

theorem scanFrom_append
    (h : Outside (fun t us => endsStatement t = false ∧ clauseHead? (t :: (us ++ rest)) = none)
      d ts) :
    scanFrom 0 d (ts ++ rest) =
      { scanFrom 0 (depthFrom d ts) rest with
        lead := ts ++ (scanFrom 0 (depthFrom d ts) rest).lead } := by
  induction ts generalizing d with
  | nil => rfl
  | cons t ts ih =>
    obtain ⟨ht, hts⟩ := h
    rw [List.cons_append, scanFrom_other ht, depthFrom_cons, ih hts]
    rfl

theorem outside_of_plain (h : Outside Token.Plain 0 ts)
    (hb : rest.head?.any (·.isKeyword .byColumns) = false)
    (hj : joinHead? rest = none ∨ ∀ t ∈ ts.getLast?, isJoinModifier t = false) : Outside
      (fun t us => endsStatement t = false ∧ clauseHead? (t :: (us ++ rest)) = none) 0 ts := by
  refine h.of_suffix ?_
  intro t us hp hsuf
  have ht := hp.1 rfl
  refine ⟨ht.endsStatement_eq, (ht.append hb).clauseHead?_eq ?_⟩
  apply joinHead?_append hp
  obtain hj | hj := hj
  · exact .inl hj
  · obtain ⟨v, rfl⟩ := hsuf
    rw [List.getLast?_append, List.getLast?_cons, Option.some_or] at hj
    rw [List.getLast?_cons]
    exact .inr hj

theorem scanFrom_unbroken (h : Unbroken ts)
    (hb : rest.head?.any (·.isKeyword .byColumns) = false)
    (hj : joinHead? rest = none ∨ ∀ t ∈ ts.getLast?, isJoinModifier t = false) :
    scanFrom 0 0 (ts ++ rest) =
      { scanFrom 0 0 rest with lead := ts ++ (scanFrom 0 0 rest).lead } := by
  have hs := scanFrom_append (outside_of_plain h.plain hb hj)
  rw [h.balanced] at hs
  exact hs

theorem scanFrom_plain (h : Outside Token.Plain 0 ts) : scanFrom 0 0 ts = ⟨ts, [], []⟩ := by
  have ho : Outside
      (fun t us => endsStatement t = false ∧ clauseHead? (t :: (us ++ [])) = none) 0 ts :=
    outside_of_plain h rfl (.inl rfl)
  have hs := scanFrom_append ho
  rw [List.append_nil] at hs
  rw [hs, scanFrom, List.append_nil]

/-- The clauses are found again, and nothing before or behind them. -/
theorem ofTokens_flatMap_tokens (h : ∀ c ∈ cs, c.WellCut) (hj : Clause.JoinsApart cs) :
    ofTokens (cs.flatMap Clause.tokens) = ⟨[], cs, []⟩ := by
  induction cs with
  | nil => rfl
  | cons c cs ih =>
    obtain ⟨hc, hcs⟩ := List.forall_mem_cons.1 h
    obtain ⟨hlast, hj⟩ := hj
    have hrest : scanFrom 0 0 (cs.flatMap Clause.tokens) = ⟨[], cs, []⟩ := ih hcs hj
    have hbody : scanFrom 0 0 (c.body ++ cs.flatMap Clause.tokens) = ⟨c.body, cs, []⟩ := by
      rw [scanFrom_unbroken hc.body (Clause.head?_flatMap_tokens hcs), hrest, List.append_nil]
      cases hjoin : cs.head?.any Clause.isJoin with
      | true => exact .inr (hlast hjoin)
      | false => exact .inl (Clause.joinHead?_flatMap_tokens hcs hjoin)
    rw [List.flatMap_cons, Clause.tokens, List.append_assoc, ofTokens,
      scanFrom_opened (hc.opens _), hbody]
    rfl

end Statement
end SqlWalk
