import SqlWalk.Query.Analysis
import SqlWalk.Proofs.Query.Depth

namespace SqlWalk

open Token

variable {t u : Token} {ts us rest name : List Token} {d : Nat} {origin : Origin}
  {r : TableRef}

def isDotted : List Token → Bool
  | [] => true
  | [_] => false
  | dot :: t :: ts => dot.isSymbol '.' && t.isName && isDotted ts

/-- The name of a table: a dotted name, or a subquery whose parenthesis closes at its end. -/
def NamesTable : List Token → Prop
  | [] => False
  | t :: ts =>
    t.isName = true ∧ isDotted ts = true ∨
      t.isSymbol '(' = true ∧ Outside (fun _ _ => False) 1 ts ∧ depthFrom 1 ts = 0

instance : (ts : List Token) → Decidable (NamesTable ts)
  | [] => inferInstanceAs (Decidable False)
  | _ :: _ => inferInstanceAs (Decidable (_ ∨ _))

theorem Token.isSymbol_of_isName (h : t.isName = true) (c : Char) : t.isSymbol c = false := by
  cases hk : t.kind <;> simp_all [isName, isSymbol]

theorem Token.depthAfter_of_isName (h : t.isName = true) (d : Nat) : t.depthAfter d = d := by
  rw [depthAfter, isSymbol_of_isName h, isSymbol_of_isName h]
  rfl

theorem Token.isSymbol_of_depthAfter (h : t.depthAfter (d + 1) = 0) : t.isSymbol ')' = true := by
  simp only [depthAfter] at h
  split at h
  · cases h
  · split at h
    · assumption
    · cases h

theorem cutGroup_append (h : Outside (fun _ _ => False) (d + 1) ts)
    (hb : depthFrom (d + 1) ts = 0) : cutGroup (d + 1) (ts ++ rest) = some (ts, rest) := by
  induction ts generalizing d with
  | nil => cases hb
  | cons t ts ih =>
    obtain ⟨_, hts⟩ := h
    rw [depthFrom_cons] at hb
    rw [List.cons_append, cutGroup]
    cases hd : t.depthAfter (d + 1) with
    | zero =>
      rw [hd] at hts
      cases ts with
      | nil =>
        rw [isSymbol_of_depthAfter hd]
        rfl
      | cons u us => exact (hts.1 rfl).elim
    | succ e =>
      rw [hd] at hts hb
      simp [ih hts hb]

theorem cutDotted_append (h : isDotted ts = true) (hr : cutDotted rest = ([], rest)) :
    cutDotted (ts ++ rest) = (ts, rest) := by
  fun_induction isDotted ts with
  | case1 => exact hr
  | case2 => cases h
  | case3 dot t ts ih =>
    obtain ⟨hd, hts⟩ := Bool.and_eq_true_iff.1 h
    rw [List.cons_append, List.cons_append, cutDotted, if_pos hd, ih hts]

theorem cutTable_append (h : NamesTable name) (hr : cutDotted rest = ([], rest)) :
    cutTable (name ++ rest) = some (name, rest) := by
  cases name with
  | nil => exact h.elim
  | cons t ts =>
    rw [List.cons_append, cutTable]
    obtain ⟨hn, hd⟩ | ⟨hs, hts, hb⟩ := h
    · rw [isSymbol_of_isName hn, hn, cutDotted_append hd hr]
      rfl
    · have ht : t.depthAfter 0 = 1 := by simp [depthAfter, hs]
      rw [if_pos hs, cutGroup, ht, cutGroup_append hts hb]
      simp

theorem cutDotted_of_head (h : ∀ t ∈ ts.head?, t.isSymbol '.' = false) :
    cutDotted ts = ([], ts) := by
  cases ts with
  | nil => rfl
  | cons t ts =>
    cases ts with
    | nil => rfl
    | cons u us =>
      rw [cutDotted, h t rfl]
      rfl

theorem append_cutDotted (ts : List Token) : (cutDotted ts).1 ++ (cutDotted ts).2 = ts := by
  fun_induction cutDotted ts with
  | case1 dot t ts h ih => rw [List.cons_append, List.cons_append, ih]
  | case2 => rfl
  | case3 => rfl

theorem append_of_cutGroup (h : cutGroup d ts = some (name, rest)) : name ++ rest = ts := by
  induction ts generalizing d name with
  | nil => cases h
  | cons t ts ih =>
    rw [cutGroup] at h
    split at h
    · cases h
      rfl
    · obtain ⟨⟨group, rest'⟩, hg, he⟩ := Option.map_eq_some_iff.1 h
      cases he
      rw [List.cons_append, ih hg]

theorem append_of_cutTable (h : cutTable ts = some (name, rest)) : name ++ rest = ts := by
  cases ts with
  | nil => cases h
  | cons t ts =>
    rw [cutTable] at h
    split at h
    · exact append_of_cutGroup h
    split at h
    · cases h
      rw [List.cons_append, append_cutDotted]
    · cases h

theorem append_cutCondition (d : Nat) (ts : List Token) :
    (cutCondition d ts).1 ++ (cutCondition d ts).2 = ts := by
  induction ts generalizing d with
  | nil => rfl
  | cons t ts ih =>
    rw [cutCondition]
    split
    · rfl
    · exact congrArg (t :: ·) (ih _)

theorem TableRef.name_of_ofTokens? (h : ofTokens? origin ts = some r) :
    ∃ name, name <:+: ts ∧ r.name = fragment name := by
  obtain ⟨⟨name, rest⟩, hcut, rfl⟩ := Option.map_eq_some_iff.1 h
  rw [← append_of_cutTable hcut]
  exact ⟨name, (List.prefix_append name rest).isInfix, rfl⟩

theorem TableRef.ofTokens?_append (h : NamesTable name)
    (hr : ∀ t ∈ rest.head?, t.isSymbol '.' = false) :
    ofTokens? origin (name ++ rest) = some ⟨fragment name, aliasOf? rest, origin⟩ := by
  rw [ofTokens?, cutTable_append h (cutDotted_of_head hr)]
  rfl

theorem filter_alias (hn : t.isName = true) (he : endsTable t = false) :
    (some t).filter (fun t => t.isName && !endsTable t) = some t := by
  rw [Option.filter_some, hn, he]
  rfl

theorem aliasOf?_as (ht : t.keyword? = some .as) (hn : u.isName = true) (he : endsTable u = false) :
    aliasOf? [t, u] = some u.name := by
  simp only [aliasOf?, List.head?_cons, Option.any_some, isKeyword_iff.2 ht, if_true,
    List.drop_succ_cons, List.drop_zero, filter_alias hn he, Option.map_some]

theorem aliasOf?_bare (ht : t.isKeyword .as = false) (hn : t.isName = true)
    (he : endsTable t = false) : aliasOf? [t] = some t.name := by
  simp only [aliasOf?, List.head?_cons, Option.any_some, ht, Bool.false_eq_true, if_false,
    filter_alias hn he, Option.map_some]

def Unconditional (ts : List Token) : Prop :=
  Outside (fun t _ => t.isKeyword .on = false ∧ t.isKeyword .usingColumns = false) 0 ts

instance (ts : List Token) : Decidable (Unconditional ts) :=
  inferInstanceAs (Decidable (Outside _ 0 ts))

theorem cutCondition_append
    (h : Outside (fun t _ => t.isKeyword .on = false ∧ t.isKeyword .usingColumns = false) d ts)
    (rest : List Token) : cutCondition d (ts ++ rest) =
      (ts ++ (cutCondition (depthFrom d ts) rest).1, (cutCondition (depthFrom d ts) rest).2) := by
  induction ts generalizing d with
  | nil => rfl
  | cons t ts ih =>
    obtain ⟨ht, hts⟩ := h
    have hc : ¬(decide (t.depthAfter d = 0) && (t.isKeyword .on || t.isKeyword .usingColumns)) =
        true := by
      intro hc
      obtain ⟨hd, hk⟩ := Bool.and_eq_true_iff.1 hc
      obtain hk | hk := Bool.or_eq_true_iff.1 hk
      · rw [depthAfter_of_keyword? (isKeyword_iff.1 hk)] at hd
        rw [(ht (of_decide_eq_true hd)).1] at hk
        cases hk
      · rw [depthAfter_of_keyword? (isKeyword_iff.1 hk)] at hd
        rw [(ht (of_decide_eq_true hd)).2] at hk
        cases hk
    rw [List.cons_append, cutCondition, if_neg hc, ih hts]
    rfl

theorem Join.ofTokens?_bare (kind : JoinKind) (h : Unconditional ts) (hb : depthFrom 0 ts = 0)
    (hr : TableRef.ofTokens? .join ts = some r) :
    ofTokens? kind ts = some (r, ⟨r.key, "", kind⟩) := by
  have hc := cutCondition_append h []
  rw [List.append_nil, hb] at hc
  rw [ofTokens?, hc]
  simp [cutCondition, hr, conditionText]

theorem Join.ofTokens?_on (kind : JoinKind) (h : Unconditional ts) (hb : depthFrom 0 ts = 0)
    (hr : TableRef.ofTokens? .join ts = some r) (ht : t.keyword? = some .on)
    (us : List Token) : ofTokens? kind (ts ++ t :: us) = some (r, ⟨r.key, fragment us, kind⟩) := by
  have ho : t.isKeyword .on = true := isKeyword_iff.2 ht
  have hc : cutCondition 0 (t :: us) = ([], t :: us) := by
    simp [cutCondition, depthAfter_of_keyword? ht, ho]
  rw [ofTokens?, cutCondition_append h _, hb, hc]
  simp [hr, conditionText, ho]

theorem Join.name_of_ofTokens? {kind : JoinKind} {j : Join} (h : ofTokens? kind ts = some (r, j)) :
    ∃ name, name <:+: ts ∧ r.name = fragment name := by
  obtain ⟨r', hr, he⟩ := Option.map_eq_some_iff.1 h
  cases he
  obtain ⟨name, hname, hr⟩ := TableRef.name_of_ofTokens? hr
  refine ⟨name, hname.trans ?_, hr⟩
  have htable : (cutCondition 0 ts).1 <+: (cutCondition 0 ts).1 ++ (cutCondition 0 ts).2 :=
    List.prefix_append _ _
  rw [append_cutCondition] at htable
  exact htable.isInfix

end SqlWalk
