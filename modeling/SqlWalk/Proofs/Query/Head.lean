import Mathlib.Data.List.TakeWhile
import SqlWalk.Clause
import SqlWalk.Proofs.Query.Depth

namespace SqlWalk

open Token

variable {d n : Nat} {t u : Token} {ts us ks : List Token} {k : Keyword} {kind : ClauseKind}

theorem keyword?_of_isJoinModifier (h : isJoinModifier t = true) : t.keyword?.isSome = true := by
  cases hk : t.keyword? with
  | none => simp [isJoinModifier, hk] at h
  | some k => rfl

theorem depthAfter_of_isJoinModifier (h : isJoinModifier t = true) (d : Nat) :
    t.depthAfter d = d := by
  obtain ⟨k, hk⟩ := Option.isSome_iff_exists.1 (keyword?_of_isJoinModifier h)
  exact depthAfter_of_keyword? hk d

theorem joinHead?_of_modifier (h : isJoinModifier t = true) :
    joinHead? (t :: ts) = none ↔ joinHead? ts = none := by
  simp only [joinHead?, List.takeWhile_cons, h, if_true, List.length_cons, List.drop_succ_cons]
  split
  · split <;> simp
  · simp

theorem joinHead?_of_not_modifier (h : isJoinModifier t = false) (hj : t.isKeyword .join = false) :
    joinHead? (t :: ts) = none := by
  simp [joinHead?, h, hj]

theorem joinHead?_append_of_modifiers (ht : ∀ t ∈ ts, isJoinModifier t = true)
    (hu : ∀ u ∈ us.head?, isJoinModifier u = false) : joinHead? (ts ++ us) =
      if us.head?.any (·.isKeyword .join) then some (.join (.ofModifiers ts), ts.length + 1)
      else none := by
  have htake : (ts ++ us).takeWhile isJoinModifier = ts := by
    rw [List.takeWhile_append_of_pos ht]
    cases us with
    | nil => exact List.append_nil ts
    | cons u us => simp [hu u rfl]
  rw [joinHead?, htake, List.drop_left]
  cases us with
  | nil => rfl
  | cons u us => rfl

theorem exists_modifiers (ts : List Token) : ∃ ms us, ts = ms ++ us ∧
    (∀ t ∈ ms, isJoinModifier t = true) ∧ ∀ u ∈ us.head?, isJoinModifier u = false := by
  refine ⟨ts.takeWhile isJoinModifier, ts.dropWhile isJoinModifier,
    List.takeWhile_append_dropWhile.symm, fun t ht => List.mem_takeWhile_imp ht, ?_⟩
  intro u hu
  have hd := List.head?_dropWhile_not isJoinModifier ts
  rw [hu] at hd
  simpa using hd

def Keyword.clause? : Keyword → Option ClauseKind
  | .select => some .select
  | .fromTables => some .fromTables
  | .whereRows => some .whereRows
  | .having => some .having
  | .limit => some .limit
  | .offset => some .offset
  | _ => none

/-- The words that open a clause. -/
inductive Opens : ClauseKind → List Token → Prop where
  | word {t : Token} {k : Keyword} {kind : ClauseKind} : t.keyword? = some k →
      k.clause? = some kind → Opens kind [t]
  | groupBy {t u : Token} : t.keyword? = some .group → u.keyword? = some .byColumns →
      Opens .groupBy [t, u]
  | orderBy {t u : Token} : t.keyword? = some .order → u.keyword? = some .byColumns →
      Opens .orderBy [t, u]
  | join {ms : List Token} {t : Token} : (∀ m ∈ ms, isJoinModifier m = true) →
      t.keyword? = some .join → Opens (.join (.ofModifiers ms)) (ms ++ [t])

theorem clauseHead?_of_isJoinModifier (h : isJoinModifier t = true) :
    clauseHead? (t :: ts) = joinHead? (t :: ts) := by
  simp only [isJoinModifier] at h
  split at h
  case h_8 => cases h
  all_goals
    next hu => simp only [clauseHead?, hu]

theorem Opens.clauseHead?_append (h : Opens kind ks) (us : List Token) :
    clauseHead? (ks ++ us) = some (kind, ks.length) := by
  cases h with
  | @word t k _ ht hk =>
    simp only [List.singleton_append, clauseHead?, ht]
    cases k <;> cases hk <;> rfl
  | groupBy ht hu => simp [clauseHead?, ht, isKeyword, hu]
  | orderBy ht hu => simp [clauseHead?, ht, isKeyword, hu]
  | @join ms t hm ht =>
    have hjoin : joinHead? (ms ++ ([t] ++ us)) =
        some (.join (.ofModifiers ms), ms.length + 1) := by
      rw [joinHead?_append_of_modifiers hm]
      · simp [isKeyword, ht]
      · rintro u ⟨⟩
        simp [isJoinModifier, ht]
    rw [List.append_assoc, List.length_append, List.length_singleton, ← hjoin]
    cases ms with
    | nil => simp only [List.nil_append, List.singleton_append, clauseHead?, ht]
    | cons m ms => exact clauseHead?_of_isJoinModifier (hm m List.mem_cons_self)

theorem exists_opens_of_joinHead? (h : joinHead? ts = some (kind, n)) :
    ∃ ks us, ts = ks ++ us ∧ ks.length = n ∧ Opens kind ks := by
  obtain ⟨ms, us, rfl, hm, hu⟩ := exists_modifiers ts
  rw [joinHead?_append_of_modifiers hm hu] at h
  split at h
  · next hj =>
    cases us with
    | nil => cases hj
    | cons u us =>
      cases h
      exact ⟨ms ++ [u], us, by simp, by simp, .join hm (isKeyword_iff.1 hj)⟩
  · cases h

theorem exists_opens_of_clauseHead? (h : clauseHead? ts = some (kind, n)) :
    ∃ ks us, ts = ks ++ us ∧ ks.length = n ∧ Opens kind ks := by
  cases ts with
  | nil => cases h
  | cons t ts =>
    have two {w : Keyword} {c : ClauseKind}
        (ho : ∀ u : Token, u.keyword? = some w → Opens c [t, u])
        (h : (if ts.head?.any (·.isKeyword w) then some (c, 2) else none) = some (kind, n)) :
        ∃ ks us, t :: ts = ks ++ us ∧ ks.length = n ∧ Opens kind ks := by
      cases ts with
      | nil => cases h
      | cons u us =>
        split at h
        · next hu =>
          cases h
          exact ⟨[t, u], us, rfl, rfl, ho u (isKeyword_iff.1 hu)⟩
        · cases h
    simp only [clauseHead?] at h
    split at h
    case h_7 ht => exact two (fun _ hu => .groupBy ht hu) h
    case h_8 ht => exact two (fun _ hu => .orderBy ht hu) h
    case h_9 => exact exists_opens_of_joinHead? h
    all_goals
      next ht =>
        cases h
        exact ⟨[t], ts, rfl, rfl, .word ht rfl⟩

theorem clauseHead?_eq_none_iff :
    clauseHead? ts = none ↔ ∀ kind ks, ks <+: ts → ¬Opens kind ks := by
  constructor
  · rintro h kind ks ⟨us, rfl⟩ ho
    rw [ho.clauseHead?_append us] at h
    cases h
  · intro h
    cases hc : clauseHead? ts with
    | none => rfl
    | some head =>
      obtain ⟨ks, us, rfl, -, ho⟩ := exists_opens_of_clauseHead? hc
      exact absurd ho (h _ ks (List.prefix_append ks us))

theorem opens_of_head (h : clauseHead? (ks ++ ts) = some (kind, ks.length)) : Opens kind ks := by
  obtain ⟨ks', us, hks, hlength, ho⟩ := exists_opens_of_clauseHead? h
  rwa [(List.append_inj hks hlength.symm).1]

def Keyword.opening : List Keyword :=
  [.select, .fromTables, .whereRows, .group, .having, .order, .limit, .offset, .join, .inner, .left,
    .right, .full, .outer, .cross, .natural]

theorem Keyword.mem_opening_of_clause? (h : k.clause? = some kind) : k ∈ opening := by
  cases k <;> first | decide | cases h

theorem opening_of_isJoinModifier (h : isJoinModifier t = true) :
    ∃ k ∈ Keyword.opening, t.keyword? = some k := by
  simp only [isJoinModifier] at h
  split at h
  case h_8 => cases h
  all_goals
    next hu => exact ⟨_, by decide, hu⟩

theorem Opens.exists_keyword (h : Opens kind ks) :
    ∀ t ∈ ks, ∃ k ∈ Keyword.byColumns :: Keyword.opening, t.keyword? = some k := by
  intro u hu
  cases h with
  | word ht hk =>
    rw [List.mem_singleton.1 hu]
    exact ⟨_, List.mem_cons_of_mem _ (Keyword.mem_opening_of_clause? hk), ht⟩
  | groupBy ht hb | orderBy ht hb =>
    cases hu with
    | head => exact ⟨_, by decide, ht⟩
    | tail _ hu =>
      rw [List.mem_singleton.1 hu]
      exact ⟨_, by decide, hb⟩
  | join hm ht =>
    rcases List.mem_append.1 hu with hu | hu
    · obtain ⟨k, hk, hkey⟩ := opening_of_isJoinModifier (hm u hu)
      exact ⟨k, List.mem_cons_of_mem _ hk, hkey⟩
    · rw [List.mem_singleton.1 hu]
      exact ⟨_, by decide, ht⟩

theorem Opens.keyword? (h : Opens kind ks) : ∀ t ∈ ks, t.keyword?.isSome = true := by
  intro t ht
  obtain ⟨k, -, hk⟩ := h.exists_keyword t ht
  rw [hk]
  rfl

theorem keyword?_of_head (h : clauseHead? (ks ++ ts) = some (kind, ks.length)) :
    ∀ t ∈ ks, t.keyword?.isSome = true :=
  (opens_of_head h).keyword?

theorem Opens.exists_cons (h : Opens kind ks) :
    ∃ t ts, ks = t :: ts ∧ ∃ k ∈ Keyword.opening, t.keyword? = some k := by
  cases h with
  | word ht hk => exact ⟨_, _, rfl, _, Keyword.mem_opening_of_clause? hk, ht⟩
  | groupBy ht => exact ⟨_, _, rfl, _, by decide, ht⟩
  | orderBy ht => exact ⟨_, _, rfl, _, by decide, ht⟩
  | @join ms t hm ht =>
    cases ms with
    | nil => exact ⟨_, _, rfl, _, by decide, ht⟩
    | cons m ms => exact ⟨_, _, rfl, opening_of_isJoinModifier (hm m List.mem_cons_self)⟩

theorem opening_of_clauseHead? (h : clauseHead? (t :: ts) = some (kind, n)) :
    ∃ k ∈ Keyword.opening, t.keyword? = some k := by
  obtain ⟨ks, us, hks, -, ho⟩ := exists_opens_of_clauseHead? h
  obtain ⟨u, vs, rfl, hk⟩ := ho.exists_cons
  cases hks
  exact hk

theorem joinHead?_of_clauseHead? (h : clauseHead? ts = some (kind, n)) (hk : ∀ j, kind ≠ .join j) :
    joinHead? ts = none := by
  cases ts with
  | nil => rfl
  | cons t ts =>
    simp only [clauseHead?] at h
    split at h
    case h_9 =>
      simp only [joinHead?] at h
      split at h
      · split at h
        · cases h
          exact absurd rfl (hk _)
        · cases h
      · cases h
    all_goals
      next hu =>
        exact joinHead?_of_not_modifier (by simp [isJoinModifier, hu])
          (by simp [Token.isKeyword, hu])

theorem keyword?_of_clauseHead?_fromTables (h : clauseHead? (t :: ts) = some (.fromTables, n)) :
    t.keyword? = some .fromTables := by
  obtain ⟨ks, us, hks, -, ho⟩ := exists_opens_of_clauseHead? h
  cases ho with
  | @word u k _ hu hk =>
    cases hks
    cases k <;> cases hk
    exact hu

theorem keyword?_of_endsStatement (h : endsStatement u = true) :
    ∀ k ∈ u.keyword?, k ∈ [Keyword.union, .intersect, .except] := by
  intro k hk
  simp only [endsStatement, isSymbol_of_keyword? hk, Bool.false_or] at h
  split at h
  case h_4 => cases h
  all_goals
    next hu =>
      cases hu.symm.trans hk
      decide

theorem isKeyword_of_endsStatement (h : endsStatement u = true)
    (hk : k ∉ [Keyword.union, .intersect, .except]) : u.isKeyword k = false := by
  cases hu : u.isKeyword k with
  | false => rfl
  | true => exact absurd (keyword?_of_endsStatement h k (isKeyword_iff.1 hu)) hk

theorem Opens.endsStatement_eq (h : Opens kind ks) : ∀ t ∈ ks, endsStatement t = false := by
  intro t ht
  obtain ⟨k, hk, hkey⟩ := h.exists_keyword t ht
  have hne : ∀ k ∈ Keyword.byColumns :: Keyword.opening,
      k ∉ [Keyword.union, .intersect, .except] := by decide
  exact Bool.eq_false_iff.2 fun he => hne k hk (keyword?_of_endsStatement he k hkey)

theorem isJoinModifier_of_endsStatement (h : endsStatement u = true) :
    isJoinModifier u = false := by
  simp only [isJoinModifier]
  split
  case h_8 => rfl
  all_goals
    next hu => exact absurd (keyword?_of_endsStatement h _ hu) (by decide)

namespace Statement

theorem scanFrom_ended (h : endsStatement t = true) (ts : List Token) :
    scanFrom 0 0 (t :: ts) = ⟨[], [], t :: ts⟩ := by
  rw [scanFrom, if_pos rfl, if_pos h]

theorem scanFrom_opened (h : clauseHead? (ks ++ ts) = some (kind, ks.length)) :
    scanFrom 0 0 (ks ++ ts) = (scanFrom 0 0 ts).opened kind ks := by
  cases ks with
  | nil => exact absurd (clauseHead?_bounds h).1 (by simp)
  | cons k ks =>
    have hend := (opens_of_head h).endsStatement_eq k List.mem_cons_self
    have hskip : scanFrom ks.length 0 (ks ++ ts) = scanFrom 0 0 ts := by
      rw [scanFrom_eq, List.drop_left]
    rw [List.cons_append] at h ⊢
    rw [scanFrom, if_pos rfl, hend, h]
    simp only [Bool.false_eq_true, if_false, List.length_cons, Nat.add_sub_cancel, hskip,
      List.take_succ_cons, List.take_left]

theorem scanFrom_other
    (h : d = 0 → endsStatement t = false ∧ clauseHead? (t :: ts) = none) :
    scanFrom 0 d (t :: ts) = (scanFrom 0 (t.depthAfter d) ts).cons t := by
  rw [scanFrom]
  split
  · next hd =>
    obtain ⟨he, hc⟩ := h hd
    rw [he, hc, hd]
    rfl
  · rfl

/-- Induction along the cut of a token list: it ends, a clause opens, or it goes on for a token. -/
theorem scanFrom_induction {P : Nat → List Token → Prop} (nil : ∀ d, P d [])
    (ended : ∀ t ts, endsStatement t = true → P 0 (t :: ts))
    (opened : ∀ kind ks ts, clauseHead? (ks ++ ts) = some (kind, ks.length) → P 0 ts →
      P 0 (ks ++ ts))
    (other : ∀ d t ts, (d = 0 → endsStatement t = false ∧ clauseHead? (t :: ts) = none) →
      P (t.depthAfter d) ts → P d (t :: ts)) (d : Nat) (ts : List Token) : P d ts := by
  induction h : ts.length using Nat.strongRecOn generalizing d ts with
  | _ n ih =>
    cases ts with
    | nil => exact nil d
    | cons t ts =>
      rw [List.length_cons] at h
      have hother (hc : d = 0 → endsStatement t = false ∧ clauseHead? (t :: ts) = none) :=
        other d t ts hc (ih _ (by omega) _ _ rfl)
      by_cases hd : d = 0
      · subst hd
        cases he : endsStatement t with
        | true => exact ended t ts he
        | false =>
          cases hc : clauseHead? (t :: ts) with
          | none => exact hother fun _ => ⟨he, hc⟩
          | some head =>
            obtain ⟨kind, n⟩ := head
            have hb := clauseHead?_bounds hc
            have hlen : ((t :: ts).take n).length = n := List.length_take_of_le hb.2
            have hcut := List.take_append_drop n (t :: ts)
            rw [← hcut]
            apply opened kind
            · rw [hcut, hc, hlen]
            · apply ih _ _ _ _ rfl
              rw [List.length_drop, List.length_cons]
              omega
      · exact hother fun h0 => absurd h0 hd

end Statement
end SqlWalk
