import SqlWalk.Highlight
import SqlWalk.Proofs.Query.Reference

namespace SqlWalk

open Token

variable {t u : Token} {a b ts us vs pre name ps : List Token}

/-- Says whether tokens are dots, each with a name or a star behind it. -/
def continuesName : List Token → Bool
  | [] => true
  | [_] => false
  | dot :: t :: ts => dot.isSymbol '.' && (t.isName || t.isSymbol '*') && continuesName ts

def isDottedName : List Token → Bool
  | [] => false
  | t :: ts => t.isName && continuesName ts

def nameParts (name : List Token) : List Token :=
  name.filter (!·.isSymbol '.')

/-- A dotted name, with the tokens before and after it, that is part of no longer one. -/
structure MaximalName (before name after : List Token) : Prop where
  dotted : isDottedName name = true
  maximal : ∀ x y, x <:+ before → y <+: after → isDottedName (x ++ name ++ y) = true →
    x = [] ∧ y = []

theorem isSymbol_dot_of_part (h : (t.isName || t.isSymbol '*') = true) :
    t.isSymbol '.' = false := by
  rcases Bool.or_eq_true_iff.1 h with h | h
  · exact isSymbol_of_isName h '.'
  · exact isSymbol_ne h (by decide)

theorem nameParts_continue (hdot : t.isSymbol '.' = true)
    (hu : (u.isName || u.isSymbol '*') = true) : nameParts (t :: u :: us) = u :: nameParts us := by
  rw [nameParts, List.filter_cons_of_neg (by simp [hdot]),
    List.filter_cons_of_pos (by simp [isSymbol_dot_of_part hu]), nameParts]

theorem nameParts_cons_of_isName (h : t.isName = true) : nameParts (t :: us) = t :: nameParts us :=
  List.filter_cons_of_pos (by simp [isSymbol_of_isName h])

theorem length_of_continuesName (h : continuesName us = true) :
    us.length = 2 * (nameParts us).length := by
  fun_induction continuesName us with
  | case1 => rfl
  | case2 => cases h
  | case3 dot t ts ih =>
    obtain ⟨hd, hts⟩ := Bool.and_eq_true_iff.1 h
    obtain ⟨hdot, ht⟩ := Bool.and_eq_true_iff.1 hd
    rw [nameParts_continue hdot ht, List.length_cons, List.length_cons, List.length_cons, ih hts]
    omega

theorem exists_cons_of_isDottedName (h : isDottedName name = true) :
    ∃ t ts, name = t :: ts ∧ t.isName = true ∧ continuesName ts = true := by
  cases name with
  | nil => cases h
  | cons t ts => exact ⟨t, ts, rfl, Bool.and_eq_true_iff.1 h⟩

theorem continuesName_cons (ht : t.isSymbol '.' = true) (hn : isDottedName name = true) :
    continuesName (t :: name) = true := by
  obtain ⟨u, us, rfl, hu, hus⟩ := exists_cons_of_isDottedName hn
  simp [continuesName, ht, hu, hus]

theorem continuesName_append (h : continuesName a = true) (b : List Token) :
    continuesName (a ++ b) = continuesName b := by
  fun_induction continuesName a with
  | case1 => rfl
  | case2 => cases h
  | case3 dot t ts ih =>
    obtain ⟨hd, hts⟩ := Bool.and_eq_true_iff.1 h
    rw [List.cons_append, List.cons_append, continuesName, hd, ih hts, Bool.true_and]

theorem isDottedName_append (h : isDottedName name = true) (b : List Token) :
    isDottedName (name ++ b) = continuesName b := by
  obtain ⟨t, ts, rfl, ht, hts⟩ := exists_cons_of_isDottedName h
  rw [List.cons_append, isDottedName, ht, continuesName_append hts, Bool.true_and]

theorem continuesName_replace (h : continuesName (a ++ u :: b) = true) (hu : u.isName = true)
    (hn : isDottedName name = true) : continuesName (a ++ name) = true := by
  fun_induction continuesName a with
  | case1 =>
    cases b with
    | nil => cases h
    | cons v b =>
      simp [continuesName, isSymbol_of_isName hu] at h
  | case2 dot =>
    simp only [List.cons_append, List.nil_append, continuesName, Bool.and_eq_true] at h
    exact continuesName_cons h.1.1 hn
  | case3 dot t ts ih =>
    simp only [List.cons_append, continuesName, Bool.and_eq_true] at h ⊢
    exact ⟨h.1, ih h.2⟩

/-- From any of its names on, a dotted name can be continued by another one instead. -/
theorem isDottedName_replace (h : isDottedName (a ++ u :: b) = true) (hu : u.isName = true)
    (hn : isDottedName name = true) : isDottedName (a ++ name) = true := by
  cases a with
  | nil => exact hn
  | cons t a =>
    obtain ⟨ht, ha⟩ := Bool.and_eq_true_iff.1 h
    exact Bool.and_eq_true_iff.2 ⟨ht, continuesName_replace ha hu hn⟩

/-- Nothing at the front of the tokens continues a name. -/
def EndsName (ts : List Token) : Prop :=
  ∀ us, continuesName us = true → us <+: ts → us = []

theorem endsName_of_front (h : ∀ t u us, ts = t :: u :: us →
    (t.isSymbol '.' && (u.isName || u.isSymbol '*')) = false) : EndsName ts := by
  intro us hus hp
  match us with
  | [] => rfl
  | [_] => cases hus
  | t :: u :: us =>
    obtain ⟨vs, rfl⟩ := hp
    rw [continuesName, h t u (us ++ vs) rfl] at hus
    cases hus

theorem endsName_cons (h : t.isSymbol '.' = false) (ts : List Token) : EndsName (t :: ts) := by
  apply endsName_of_front
  rintro _ _ _ ⟨⟩
  rw [h]
  rfl

theorem MaximalName.endsName {before after : List Token} (h : MaximalName before name after) :
    EndsName after := by
  intro b hb hp
  have hd : isDottedName ([] ++ name ++ b) = true := (isDottedName_append h.dotted b).trans hb
  exact (h.maximal [] b List.nil_suffix hp hd).2

theorem MaximalName.of_endsName (hn : isDottedName name = true) (hend : EndsName ts) :
    MaximalName [] name ts where
  dotted := hn
  maximal := by
    intro x y hx hy hd
    obtain rfl := List.suffix_nil.1 hx
    rw [List.nil_append, isDottedName_append hn] at hd
    exact ⟨rfl, hend y hd hy⟩

theorem eq_of_endsName {name' : List Token} (hn : isDottedName name = true) (ha : EndsName a)
    (hn' : isDottedName name' = true) (hb : EndsName b) (h : name ++ a = name' ++ b) :
    name = name' := by
  obtain ⟨us, rfl, rfl⟩ | ⟨us, rfl, rfl⟩ := List.append_eq_append_iff.1 h
  · rw [isDottedName_append hn] at hn'
    rw [ha us hn' (List.prefix_append us b), List.append_nil]
  · rw [isDottedName_append hn'] at hn
    rw [hb us hn (List.prefix_append us a), List.append_nil]

theorem exists_of_chainTail (ts : List Token) : ∃ us, ts = us ++ (chainTail ts).2 ∧
    continuesName us = true ∧ nameParts us = (chainTail ts).1 ∧ EndsName (chainTail ts).2 := by
  fun_induction chainTail ts with
  | case1 dot t ts hd ih =>
    obtain ⟨us, hts, hc, hparts, hend⟩ := ih
    obtain ⟨hdot, ht⟩ := Bool.and_eq_true_iff.1 hd
    refine ⟨dot :: t :: us, by rw [List.cons_append, List.cons_append, ← hts], ?_, ?_, hend⟩
    · exact Bool.and_eq_true_iff.2 ⟨hd, hc⟩
    · rw [nameParts_continue hdot ht, hparts]
  | case2 dot t ts hd =>
    refine ⟨[], rfl, rfl, rfl, endsName_of_front ?_⟩
    rintro _ _ _ ⟨⟩
    exact Bool.eq_false_iff.2 hd
  | case3 ts hts =>
    refine ⟨[], rfl, rfl, rfl, endsName_of_front ?_⟩
    intro t u us hus
    exact (hts t u us hus).elim

theorem chainsFrom_eq (skip : Nat) (ts : List Token) : chainsFrom skip ts = chains (ts.drop skip) := by
  induction ts generalizing skip with
  | nil => simp [chains, chainsFrom]
  | cons t ts ih =>
    cases skip with
    | zero => rfl
    | succ skip => rw [chainsFrom, ih, List.drop_succ_cons]

theorem chains_cons_of_not_isName (h : t.isName = false) (ts : List Token) :
    chains (t :: ts) = chains ts := by
  rw [chains, chainsFrom, if_neg (by simp [h]), chains]

theorem exists_chains_cons (h : t.isName = true) (ts : List Token) : ∃ us vs, ts = us ++ vs ∧
    isDottedName (t :: us) = true ∧ chains (t :: ts) = nameParts (t :: us) :: chains vs ∧
      EndsName vs := by
  obtain ⟨us, hts, hc, hparts, hend⟩ := exists_of_chainTail ts
  refine ⟨us, (chainTail ts).2, hts, Bool.and_eq_true_iff.2 ⟨h, hc⟩, ?_, hend⟩
  have hdrop : ts.drop (2 * (chainTail ts).1.length) = (chainTail ts).2 := by
    rw [← hparts, ← length_of_continuesName hc]
    conv => lhs; rw [hts]
    exact List.drop_left
  rw [chains, chainsFrom, if_pos h, nameParts_cons_of_isName h, hparts]
  simp only [chainsFrom_eq, hdrop]

/-- No dotted name starts in the first list and goes on in the second. -/
def Uncrossed (pre ts : List Token) : Prop :=
  ∀ x y, x <:+ pre → y <+: ts → isDottedName (x ++ y) = true → x = [] ∨ y = []

theorem Uncrossed.skip (h : Uncrossed pre (t :: ts)) (ht : t.isName = false) :
    Uncrossed (pre ++ [t]) ts := by
  intro x y hx hy hd
  obtain rfl | ⟨w, rfl, hw⟩ := List.suffix_concat_iff.1 hx
  · exact .inl rfl
  · rw [List.append_assoc] at hd
    obtain rfl | hn := h w (t :: y) hw (List.cons_prefix_cons.2 ⟨rfl, hy⟩) hd
    · simp [isDottedName, ht] at hd
    · cases hn

theorem Uncrossed.eq_nil {x y : List Token} (h : Uncrossed pre (name ++ vs))
    (hn : isDottedName name = true) (hx : x <:+ pre) (hy : y <+: vs)
    (hd : isDottedName (x ++ (name ++ y)) = true) : x = [] := by
  refine (h x (name ++ y) hx ((List.prefix_append_right_inj name).2 hy) hd).resolve_right ?_
  intro hnil
  rw [(List.append_eq_nil_iff.1 hnil).1] at hn
  cases hn

theorem Uncrossed.behind (h : Uncrossed pre (name ++ vs)) (hn : isDottedName name = true)
    (hend : EndsName vs) : Uncrossed (pre ++ name) vs := by
  intro x y hx hy hd
  obtain ⟨z, hz⟩ := hx
  obtain ⟨w, rfl, rfl⟩ | ⟨w, rfl, rfl⟩ := List.append_eq_append_iff.1 hz
  · rw [List.append_assoc] at hd
    obtain rfl := h.eq_nil hn (List.suffix_append z w) hy hd
    rw [List.nil_append, isDottedName_append hn] at hd
    exact .inr (hend y hd hy)
  · cases x with
    | nil => exact .inl rfl
    | cons u x =>
      have hu : u.isName = true := (Bool.and_eq_true_iff.1 hd).1
      have hlonger := isDottedName_replace hn hu hd
      rw [← List.append_assoc, isDottedName_append hn] at hlonger
      exact .inr (hend y hlonger hy)

/-- Behind some tokens, others have a dotted name with these parts that is part of no longer one. -/
def NamedBehind (pre ts ps : List Token) : Prop :=
  ∃ before name after, ts = before ++ name ++ after ∧
    MaximalName (pre ++ before) name after ∧ nameParts name = ps

theorem not_namedBehind_nil : ¬NamedBehind pre [] ps := by
  rintro ⟨before, name, after, hnil, hm, -⟩
  obtain ⟨t, ts, rfl, -⟩ := exists_cons_of_isDottedName hm.dotted
  simp at hnil

theorem NamedBehind.append (h : NamedBehind (pre ++ a) b ps) : NamedBehind pre (a ++ b) ps := by
  obtain ⟨before, name, after, rfl, hm, hps⟩ := h
  exact ⟨a ++ before, name, after, by simp, by rwa [← List.append_assoc], hps⟩

theorem namedBehind_cons (h : t.isName = false) :
    NamedBehind pre (t :: ts) ps ↔ NamedBehind (pre ++ [t]) ts ps := by
  refine ⟨?_, fun h => h.append⟩
  rintro ⟨before, name, after, hts, hm, hps⟩
  cases before with
  | nil =>
    obtain ⟨u, us, rfl, hu, -⟩ := exists_cons_of_isDottedName hm.dotted
    cases hts
    rw [h] at hu
    cases hu
  | cons u before =>
    cases hts
    exact ⟨before, name, after, rfl, by rwa [List.append_assoc], hps⟩

-- A name starts in the first one or behind it. It starts at no other place of the first one, since
-- it could be continued to the front there.
theorem namedBehind_append (h : Uncrossed pre (name ++ vs)) (hn : isDottedName name = true)
    (hend : EndsName vs) :
    NamedBehind pre (name ++ vs) ps ↔ nameParts name = ps ∨ NamedBehind (pre ++ name) vs ps := by
  constructor
  · rintro ⟨before, name', after, hts, hm, rfl⟩
    rw [List.append_assoc] at hts
    obtain ⟨as, rfl, rfl⟩ | ⟨bs, hname, hbs⟩ := List.append_eq_append_iff.1 hts
    · refine .inr ⟨as, name', after, (List.append_assoc ..).symm, ?_, rfl⟩
      rwa [List.append_assoc]
    · cases bs with
      | nil =>
        rw [List.append_nil] at hname
        subst hname
        exact .inr ⟨[], name', after, hbs.symm, by rwa [List.append_nil], rfl⟩
      | cons u bs =>
        have hu : u.isName = true := by
          obtain ⟨v, us, rfl, hv, -⟩ := exists_cons_of_isDottedName hm.dotted
          rwa [← (List.cons.inj hbs).1]
        have hlonger := isDottedName_replace (hname ▸ hn) hu hm.dotted
        obtain ⟨rfl, -⟩ := hm.maximal before [] (List.suffix_append pre before)
          List.nil_prefix (by rwa [List.append_nil])
        exact .inl (congrArg nameParts (eq_of_endsName hn hend hm.dotted hm.endsName hts))
  · rintro (rfl | hvs)
    · refine ⟨[], name, vs, rfl, ⟨hn, ?_⟩, rfl⟩
      intro x y hx hy hd
      rw [List.append_nil] at hx
      rw [List.append_assoc] at hd
      obtain rfl := h.eq_nil hn hx hy hd
      rw [List.nil_append, isDottedName_append hn] at hd
      exact ⟨rfl, hend y hd hy⟩
    · exact hvs.append

theorem mem_chains_iff_namedBehind (h : Uncrossed pre ts) :
    ps ∈ chains ts ↔ NamedBehind pre ts ps := by
  induction hl : ts.length using Nat.strongRecOn generalizing pre ts with
  | _ n ih =>
  subst hl
  cases ts with
  | nil => exact ⟨nofun, fun h => (not_namedBehind_nil h).elim⟩
  | cons t ts =>
    cases ht : t.isName with
    | false =>
      rw [chains_cons_of_not_isName ht, namedBehind_cons ht]
      exact ih ts.length (Nat.lt_succ_self _) (h.skip ht) rfl
    | true =>
      obtain ⟨us, vs, rfl, hn, hc, hend⟩ := exists_chains_cons ht ts
      have hlt : vs.length < (t :: (us ++ vs)).length := by
        rw [List.length_cons, List.length_append]
        omega
      rw [hc, List.mem_cons, ih vs.length hlt (h.behind hn hend) rfl, eq_comm]
      exact (namedBehind_append h hn hend).symm

/-- The chains among tokens are the dotted names that are as long as they can be. -/
theorem mem_chains_iff : ps ∈ chains ts ↔ ∃ before name after, ts = before ++ name ++ after ∧
    MaximalName before name after ∧ nameParts name = ps := by
  have h : Uncrossed [] ts := fun x y hx _ _ => .inl (List.suffix_nil.1 hx)
  exact mem_chains_iff_namedBehind h

end SqlWalk
