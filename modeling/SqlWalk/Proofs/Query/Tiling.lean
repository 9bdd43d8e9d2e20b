import SqlWalk.Proofs.Query.Boundary
import SqlWalk.Proofs.Query.FirstStatement

namespace SqlWalk

open Token

variable {d i e first start : Nat} {t : Token} {ts ks : List Token} {kind : ClauseKind}
  {cs : List Clause} {ranges : List (Nat × Nat)}

/-- The first statement ends before token `e`, the first outside parentheses that ends one, or there
are `e` tokens and none of them does. -/
structure EndsAt (ts : List Token) (e : Nat) : Prop where
  le : e ≤ ts.length
  ends : ∀ t ∈ ts[e]?, depthFrom 0 (ts.take e) = 0 ∧ endsStatement t = true
  first : ∀ i < e, depthFrom 0 (ts.take i) = 0 → ∀ t ∈ ts[i]?, endsStatement t = false

theorem endsStatement_of_firstStatement (h : t ∈ (firstStatement d ts)[i]?)
    (hd : depthFrom d (ts.take i) = 0) : endsStatement t = false := by
  induction ts generalizing d i with
  | nil => cases h
  | cons u ts ih =>
    rw [firstStatement] at h
    split at h
    · cases h
    · next hu =>
      cases i with
      | zero =>
        cases h
        exact Bool.eq_false_iff.2 fun he => hu ⟨hd, he⟩
      | succ i => exact ih h hd

theorem endsAt_firstStatement (ts : List Token) : EndsAt ts (firstStatement 0 ts).length := by
  obtain ⟨us, hts, hu, hd⟩ := exists_firstStatement_append 0 ts
  have hfirst : ∀ i t, t ∈ (firstStatement 0 ts)[i]? → depthFrom 0 (ts.take i) = 0 →
      endsStatement t = false := fun _ _ => endsStatement_of_firstStatement
  generalize firstStatement 0 ts = fs at hts hd hfirst ⊢
  subst hts
  refine ⟨by simp, ?_, ?_⟩
  · intro t ht
    rw [List.getElem?_append_right (Nat.le_refl _), Nat.sub_self, ← List.head?_eq_getElem?] at ht
    rw [List.take_left]
    refine ⟨hd.resolve_left ?_, hu t ht⟩
    rintro rfl
    cases ht
  · intro i hi hdepth t ht
    rw [List.getElem?_append_left hi] at ht
    exact hfirst i t ht hdepth

theorem firstStatement_keywords (hk : ∀ t ∈ ks, t.keyword?.isSome = true)
    (he : ∀ t ∈ ks, endsStatement t = false) (ts : List Token) :
    firstStatement 0 (ks ++ ts) = ks ++ firstStatement 0 ts := by
  induction ks with
  | nil => rfl
  | cons k ks ih =>
    obtain ⟨hk, hks⟩ := List.forall_mem_cons.1 hk
    obtain ⟨he, hes⟩ := List.forall_mem_cons.1 he
    obtain ⟨w, hw⟩ := Option.isSome_iff_exists.1 hk
    rw [List.cons_append, firstStatement, if_neg (by simp [he]), depthAfter_of_keyword? hw,
      ih hks hes, List.cons_append]

/-- Says that at none of the tokens from `a` up to `b` a clause opens outside parentheses. -/
def NoneOpens (ts : List Token) (a b : Nat) : Prop :=
  ∀ i, a ≤ i → i < b → depthFrom 0 (ts.take i) = 0 →
    ∀ kind ks, ks <+: ts.drop i → ¬Opens kind ks

/-- Clauses, with the ranges of their bodies, that make up the tokens up to `e`. -/
inductive Tiles (ts : List Token) (e : Nat) : Nat → List Clause → List (Nat × Nat) → Prop where
  | nil : Tiles ts e e [] []
  | cons {first a b : Nat} {c : Clause} {cs : List Clause} {ranges : List (Nat × Nat)} :
      Opens c.kind c.keywords → c.tokens <+: ts.drop first → a = first + c.keywords.length →
      b = a + c.body.length → NoneOpens ts a b → Tiles ts e b cs ranges →
      Tiles ts e first (c :: cs) ((a, b) :: ranges)

theorem Tiles.ordered (h : Tiles ts e first cs ranges) :
    first ≤ e ∧ (∀ r ∈ ranges, first < r.1 ∧ r.1 ≤ r.2 ∧ r.2 ≤ e) ∧
      ranges.Pairwise fun r s => r.2 < s.1 := by
  induction h with
  | nil => exact ⟨Nat.le_refl e, nofun, .nil⟩
  | @cons first a b c cs ranges ho _ ha hb _ _ ih =>
    obtain ⟨hle, hin, hpair⟩ := ih
    obtain ⟨k, ks, hk, -⟩ := ho.exists_cons
    have hpos : 0 < c.keywords.length := by simp [hk]
    refine ⟨by omega, List.forall_mem_cons.2 ⟨by simp only; omega, ?_⟩,
      List.pairwise_cons.2 ⟨?_, hpair⟩⟩
    · intro r hr
      obtain ⟨hfirst, hrest⟩ := hin r hr
      exact ⟨by omega, hrest⟩
    · intro r hr
      exact (hin r hr).1

structure Tiled (ts : List Token) (start e : Nat) (s : Statement) : Prop where
  lead : NoneOpens ts start (start + s.lead.length)
  clauses : Tiles ts e (start + s.lead.length) s.clauses
    (Statement.bodyRangesFrom (start + s.lead.length) s.clauses)

theorem tiled_nil (ts : List Token) (start : Nat) (rest : List Token) :
    Tiled ts start start ⟨[], [], rest⟩ where
  lead _ hi hlt := absurd hlt (Nat.not_lt.2 hi)
  clauses := .nil

theorem Tiled.cons {s : Statement} (h : Tiled ts (start + 1) e s)
    (hn : depthFrom 0 (ts.take start) = 0 → ∀ kind ks, ks <+: ts.drop start → ¬Opens kind ks) :
    Tiled ts start e (s.cons t) where
  lead := by
    intro i hi hlt
    rw [Statement.cons, List.length_cons] at hlt
    by_cases hs : i = start
    · subst hs
      exact hn
    · exact h.lead i (by omega) (by omega)
  clauses := by
    have hl : start + (s.cons t).lead.length = start + 1 + s.lead.length := by
      rw [Statement.cons, List.length_cons]
      omega
    rw [hl]
    exact h.clauses

theorem Tiled.opened {s : Statement} (h : Tiled ts (start + ks.length) e s) (ho : Opens kind ks)
    (hp : ks ++ s.lead <+: ts.drop start) : Tiled ts start e (s.opened kind ks) where
  lead _ hi hlt := absurd hlt (Nat.not_lt.2 hi)
  clauses := .cons ho hp rfl rfl h.lead h.clauses

theorem tiled_scanFrom (d : Nat) (ts : List Token) : ∀ pre, depthFrom 0 pre = d →
    Tiled (pre ++ ts) pre.length (pre.length + (firstStatement d ts).length)
      (Statement.scanFrom 0 d ts) := by
  induction d, ts using Statement.scanFrom_induction with
  | nil d => exact fun pre _ => tiled_nil _ _ []
  | ended t ts he =>
    intro pre _
    rw [Statement.scanFrom_ended he, firstStatement, if_pos ⟨rfl, he⟩]
    exact tiled_nil _ _ (t :: ts)
  | opened kind ks ts hc ih =>
    intro pre hd
    have ho := opens_of_head hc
    have hdepth : depthFrom 0 (pre ++ ks) = 0 := by
      rw [depthFrom_append, hd, depthFrom_keywords ho.keyword?]
    have hi := ih (pre ++ ks) hdepth
    rw [List.append_assoc, List.length_append] at hi
    rw [Statement.scanFrom_opened hc, firstStatement_keywords ho.keyword? ho.endsStatement_eq,
      List.length_append, ← Nat.add_assoc]
    refine hi.opened ho ?_
    have htokens : (Statement.scanFrom 0 0 ts).tokens = ts := Statement.tokens_scanFrom 0 ts
    rw [List.drop_left, List.prefix_append_right_inj]
    conv => rhs; rw [← htokens, Statement.tokens, List.append_assoc]
    exact List.prefix_append _ _
  | other d t ts hc ih =>
    intro pre hd
    have hdepth : depthFrom 0 (pre ++ [t]) = t.depthAfter d := by
      rw [depthFrom_append, hd]
      rfl
    have hi := ih (pre ++ [t]) hdepth
    have hfirst : firstStatement d (t :: ts) = t :: firstStatement (t.depthAfter d) ts := by
      rw [firstStatement, if_neg]
      rintro ⟨h0, he⟩
      rw [(hc h0).1] at he
      cases he
    rw [List.append_assoc, List.length_append, List.singleton_append, List.length_singleton] at hi
    rw [Statement.scanFrom_other hc, hfirst, List.length_cons,
      Nat.add_comm (firstStatement (t.depthAfter d) ts).length, ← Nat.add_assoc]
    refine hi.cons ?_
    rw [List.take_left, List.drop_left, hd]
    exact fun h0 => clauseHead?_eq_none_iff.1 (hc h0).2

/-- The clauses tile the first statement. Each has its body right behind the words that open it and
up to the next clause, and no clause opens in a body or in front of the first one. -/
theorem Statement.tiles_ofTokens (ts : List Token) :
    let s := ofTokens ts
    let e := (firstStatement 0 ts).length
    EndsAt ts e ∧ NoneOpens ts 0 s.lead.length ∧ Tiles ts e s.lead.length s.clauses s.bodyRanges ∧
      (∀ r ∈ s.bodyRanges, r.1 ≤ r.2 ∧ r.2 ≤ e) ∧ s.bodyRanges.Pairwise fun r r' => r.2 < r'.1 := by
  intro s e
  have h := tiled_scanFrom 0 ts [] rfl
  simp only [List.nil_append, List.length_nil, Nat.zero_add] at h
  have hclauses : Tiles ts e s.lead.length s.clauses s.bodyRanges := by
    have hc := h.clauses
    rwa [Nat.zero_add] at hc
  obtain ⟨-, hin, hpair⟩ := hclauses.ordered
  refine ⟨endsAt_firstStatement ts, ?_, hclauses, fun r hr => (hin r hr).2, hpair⟩
  have hlead := h.lead
  rwa [Nat.zero_add] at hlead

end SqlWalk
