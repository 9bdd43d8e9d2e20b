import SqlWalk.Plan
import SqlWalk.Query.Analysis
import SqlWalk.Proofs.Query.Head

namespace SqlWalk

variable {d : Nat} {t : Token} {ts us : List Token}
  {separator : Bool → Token → Bool × Bool} {noted : Bool}

theorem Keyword.ofText?_spelling (k : Keyword) : ofText? k.spelling.toList = some k := by
  cases k <;> decide

namespace Token

/-- A token with no more than what it can do to the structure of a query. -/
def bare (t : Token) : Token where
  kind := t.kind
  text :=
    match t.kind with
    | .word => (t.keyword?.map (·.spelling.toList)).getD []
    | .symbol => t.text
    | _ => []
  spaced := false

@[simp] theorem kind_bare (t : Token) : t.bare.kind = t.kind :=
  rfl

@[simp] theorem keyword?_bare (t : Token) : t.bare.keyword? = t.keyword? := by
  by_cases hk : t.kind = .word
  · have ht : t.bare.keyword? =
        Keyword.ofText? ((t.keyword?.map (·.spelling.toList)).getD []) := by
      simp [keyword?, bare, hk]
    rw [ht]
    cases t.keyword? with
    | none => decide
    | some k => exact k.ofText?_spelling
  · simp [keyword?, hk]

@[simp] theorem isKeyword_bare (t : Token) (k : Keyword) : t.bare.isKeyword k = t.isKeyword k := by
  simp [isKeyword]

@[simp] theorem isSymbol_bare (t : Token) (c : Char) : t.bare.isSymbol c = t.isSymbol c := by
  by_cases hk : t.kind = .symbol
  · simp [isSymbol, bare, hk]
  · have hs : (t.kind == .symbol) = false := by simpa using hk
    simp [isSymbol, hs]

@[simp] theorem isName_bare (t : Token) : t.bare.isName = t.isName :=
  rfl

@[simp] theorem depthAfter_bare (t : Token) (d : Nat) : t.bare.depthAfter d = t.depthAfter d := by
  simp [depthAfter]

/-- Says whether a token stands inside parentheses and does not close the outermost of them. -/
def isNested (t : Token) (depth : Nat) : Prop :=
  depth ≠ 0 ∧ t.depthAfter depth ≠ 0

instance (t : Token) (depth : Nat) : Decidable (t.isNested depth) :=
  inferInstanceAs (Decidable (_ ∧ _))

end Token

open Token

/-- The bare tokens that are not nested, where some parentheses are open before the first. -/
def skeleton : (depth : Nat) → List Token → List Token
  | _, [] => []
  | d, t :: ts =>
    if t.isNested d then skeleton (t.depthAfter d) ts else t.bare :: skeleton (t.depthAfter d) ts

theorem skeleton_zero_cons (t : Token) (ts : List Token) :
    skeleton 0 (t :: ts) = t.bare :: skeleton (t.depthAfter 0) ts :=
  if_neg fun h => h.1 rfl

theorem skeleton_nested (h : t.isNested d) : skeleton d (t :: ts) = skeleton (t.depthAfter d) ts :=
  if_pos h

theorem skeleton_not_nested (h : ¬t.isNested d) :
    skeleton d (t :: ts) = t.bare :: skeleton (t.depthAfter d) ts :=
  if_neg h

theorem skeleton_append (d : Nat) (ts us : List Token) :
    skeleton d (ts ++ us) = skeleton d ts ++ skeleton (depthFrom d ts) us := by
  induction ts generalizing d with
  | nil => rfl
  | cons t ts ih =>
    rw [List.cons_append, skeleton, skeleton, ih, depthFrom_cons]
    split
    · rfl
    · rfl

@[simp] theorem isEmpty_skeleton_zero (ts : List Token) : (skeleton 0 ts).isEmpty = ts.isEmpty := by
  cases ts with
  | nil => rfl
  | cons t ts =>
    rw [skeleton_zero_cons]
    rfl

@[simp] theorem head?_skeleton_zero (ts : List Token) :
    (skeleton 0 ts).head? = ts.head?.map bare := by
  cases ts with
  | nil => rfl
  | cons t ts =>
    rw [skeleton_zero_cons]
    rfl

theorem min_depthAfter_of_nested (h : t.isNested d) : min (t.depthAfter d) 1 = min d 1 := by
  obtain ⟨hd, ht⟩ := h
  omega

theorem depthAfter_min_of_not_nested (h : ¬t.isNested d) :
    t.depthAfter (min d 1) = min (t.depthAfter d) 1 := by
  simp only [isNested, depthAfter] at h ⊢
  grind

theorem skeleton_keywords (h : ∀ t ∈ ts, t.keyword?.isSome = true) (us : List Token) :
    skeleton 0 (ts ++ us) = ts.map bare ++ skeleton 0 us := by
  induction ts with
  | nil => rfl
  | cons t ts ih =>
    obtain ⟨ht, hts⟩ := List.forall_mem_cons.1 h
    obtain ⟨k, hk⟩ := Option.isSome_iff_exists.1 ht
    rw [List.cons_append, skeleton_zero_cons, depthAfter_of_keyword? hk, ih hts]
    rfl

/-- The parts of a split token list, the first of which starts at a parenthesis depth. -/
def skeletons (depth : Nat) : List (List Token) → List (List Token)
  | [] => []
  | p :: ps => skeleton depth p :: ps.map (skeleton 0)

theorem skeletons_zero (ps : List (List Token)) : skeletons 0 ps = ps.map (skeleton 0) := by
  cases ps <;> rfl

theorem splitOutside_ne_nil (separator : Bool → Token → Bool × Bool) (noted : Bool) (d : Nat)
    (ts : List Token) : splitOutside separator noted d ts ≠ [] := by
  have hpush (t : Token) (ps : List (List Token)) : pushToken t ps ≠ [] := by
    cases ps <;> simp [pushToken]
  fun_cases splitOutside separator noted d ts <;> simp [hpush]

theorem skeletons_pushToken {ps : List (List Token)} (hp : ps ≠ []) :
    skeletons d (pushToken t ps) =
      if t.isNested d then skeletons (t.depthAfter d) ps
      else pushToken t.bare (skeletons (t.depthAfter d) ps) := by
  obtain ⟨p, ps, rfl⟩ := List.exists_cons_of_ne_nil hp
  simp only [pushToken, skeletons, skeleton]
  split
  · rfl
  · rfl

/-- A separator that sees only the bare token, and is no parenthesis. -/
structure SeesBare (separator : Bool → Token → Bool × Bool) : Prop where
  bare : ∀ noted t, separator noted t.bare = separator noted t
  depth : ∀ noted t, (separator noted t).1 = true → t.depthAfter 0 = 0

theorem seesBare_comma : SeesBare commaSeparator where
  bare noted t := by simp [commaSeparator]
  depth noted t h := by
    have hc : t.isSymbol ',' = true := by simpa [commaSeparator] using h
    simp [depthAfter, isSymbol_ne hc]

theorem seesBare_and : SeesBare andSeparator where
  bare noted t := by simp [andSeparator]
  depth noted t h := by
    simp only [andSeparator] at h
    split at h
    · cases h
    · next hk => exact depthAfter_of_keyword? hk 0
    · cases h

theorem splitOutside_skeleton (hs : SeesBare separator) (noted : Bool) (d : Nat) (ts : List Token) :
    splitOutside separator noted (min d 1) (skeleton d ts) =
      skeletons d (splitOutside separator noted d ts) := by
  induction ts generalizing noted d with
  | nil => rfl
  | cons t ts ih =>
    by_cases hd : d = 0
    · subst hd
      have hdepth := depthAfter_min_of_not_nested (t := t) fun h => h.1 rfl
      rw [Nat.zero_min] at hdepth ⊢
      rw [skeleton_zero_cons, splitOutside, splitOutside, if_pos rfl, if_pos rfl, hs.bare]
      obtain ⟨⟨separates, noted'⟩, hx⟩ : ∃ x, separator noted t = x := ⟨_, rfl⟩
      rw [hx]
      cases separates with
      | true =>
        have ht : t.depthAfter 0 = 0 := hs.depth noted t (by rw [hx])
        have hi := ih noted' 0
        rw [Nat.zero_min, skeletons_zero] at hi
        simp only [ht, hi]
        rfl
      | false =>
        simp only [depthAfter_bare, skeletons_pushToken (splitOutside_ne_nil _ _ _ _)]
        rw [if_neg fun h => h.1 rfl, ← ih, ← hdepth]
    · rw [splitOutside, if_neg hd, skeletons_pushToken (splitOutside_ne_nil _ _ _ _), ← ih]
      split
      · next hn => rw [skeleton_nested hn, min_depthAfter_of_nested hn]
      · next hn =>
        have hmin : min d 1 ≠ 0 := by omega
        rw [skeleton_not_nested hn, splitOutside, if_neg hmin, depthAfter_bare,
          depthAfter_min_of_not_nested hn]

theorem filter_splitOutside_skeleton (hs : SeesBare separator) (ts : List Token) :
    (splitOutside separator false 0 (skeleton 0 ts)).filter (!·.isEmpty) =
      ((splitOutside separator false 0 ts).filter (!·.isEmpty)).map (skeleton 0) := by
  have hsplit := splitOutside_skeleton hs false 0 ts
  rw [Nat.zero_min, skeletons_zero] at hsplit
  simp only [hsplit, List.filter_map, Function.comp_def, isEmpty_skeleton_zero]

theorem listItems_skeleton (ts : List Token) :
    listItems (skeleton 0 ts) = (listItems ts).map (skeleton 0) :=
  filter_splitOutside_skeleton seesBare_comma ts

theorem conjuncts_skeleton (ts : List Token) :
    conjuncts (skeleton 0 ts) = (conjuncts ts).map (skeleton 0) :=
  filter_splitOutside_skeleton seesBare_and ts

theorem selectList_skeleton (ts : List Token) :
    selectList (skeleton 0 ts) = ((selectList ts).1, skeleton 0 (selectList ts).2) := by
  cases ts with
  | nil => rfl
  | cons t ts =>
    rw [skeleton_zero_cons]
    simp only [selectList, keyword?_bare]
    split
    · next hk => rw [depthAfter_of_keyword? hk]
    · next hk => rw [depthAfter_of_keyword? hk]
    · rw [skeleton_zero_cons]

theorem isSome_cutGroup_skeleton (d : Nat) (ts : List Token) :
    (cutGroup (min d 1) (skeleton d ts)).isSome = (cutGroup d ts).isSome := by
  induction ts generalizing d with
  | nil => rfl
  | cons t ts ih =>
    by_cases hn : t.isNested d
    · rw [skeleton_nested hn, ← min_depthAfter_of_nested hn, ih, cutGroup, if_neg (by simp [hn.2]),
        Option.isSome_map]
    · have hd := depthAfter_min_of_not_nested hn
      have hz : (min (t.depthAfter d) 1 == 0) = (t.depthAfter d == 0) := by
        rw [Bool.eq_iff_iff, beq_iff_eq, beq_iff_eq]
        omega
      rw [skeleton_not_nested hn, cutGroup, cutGroup, isSymbol_bare, depthAfter_bare, hd, hz]
      split
      · rfl
      · rw [Option.isSome_map, Option.isSome_map, ih]

theorem isSome_cutTable_skeleton (ts : List Token) :
    (cutTable (skeleton 0 ts)).isSome = (cutTable ts).isSome := by
  cases ts with
  | nil => rfl
  | cons t ts =>
    have hg := isSome_cutGroup_skeleton 0 (t :: ts)
    rw [Nat.zero_min, skeleton_zero_cons] at hg
    rw [skeleton_zero_cons, cutTable, cutTable, isSymbol_bare, isName_bare]
    split
    · exact hg
    · split
      · rfl
      · rfl

theorem fst_cutCondition_skeleton (d : Nat) (ts : List Token) :
    (cutCondition (min d 1) (skeleton d ts)).1 = skeleton d (cutCondition d ts).1 := by
  induction ts generalizing d with
  | nil => rfl
  | cons t ts ih =>
    by_cases hn : t.isNested d
    · rw [skeleton_nested hn, ← min_depthAfter_of_nested hn, ih, cutCondition,
        if_neg (by simp [hn.2])]
      exact (skeleton_nested hn).symm
    · have hd := depthAfter_min_of_not_nested hn
      have hz : decide (min (t.depthAfter d) 1 = 0) = decide (t.depthAfter d = 0) := by
        rw [decide_eq_decide]
        omega
      rw [skeleton_not_nested hn, cutCondition, cutCondition, isKeyword_bare, isKeyword_bare,
        depthAfter_bare, hd, hz]
      split
      · rfl
      · simp only [ih, skeleton_not_nested hn]

@[simp] theorem isJoinModifier_bare (t : Token) : isJoinModifier t.bare = isJoinModifier t := by
  simp [isJoinModifier]

@[simp] theorem endsStatement_bare (t : Token) : endsStatement t.bare = endsStatement t := by
  simp [endsStatement]

@[simp] theorem JoinKind.ofModifier?_bare (t : Token) : ofModifier? t.bare = ofModifier? t := by
  simp [ofModifier?]

@[simp] theorem JoinKind.ofModifiers_map_bare (ts : List Token) :
    ofModifiers (ts.map bare) = ofModifiers ts := by
  simp [ofModifiers, List.any_map, List.filterMap_map, Function.comp_def]

theorem joinHead?_skeleton (ts : List Token) : joinHead? (skeleton 0 ts) = joinHead? ts := by
  obtain ⟨ms, us, rfl, hm, hu⟩ := exists_modifiers ts
  rw [skeleton_keywords (fun t ht => keyword?_of_isJoinModifier (hm t ht)),
    joinHead?_append_of_modifiers hm hu, joinHead?_append_of_modifiers]
  · simp [Option.any_map]
  · simpa using hm
  · simpa using hu

theorem clauseHead?_skeleton (ts : List Token) : clauseHead? (skeleton 0 ts) = clauseHead? ts := by
  cases ts with
  | nil => rfl
  | cons t ts =>
    have hj := joinHead?_skeleton (t :: ts)
    rw [skeleton_zero_cons] at hj ⊢
    simp only [clauseHead?, keyword?_bare, hj]
    have hby {v : Keyword} (hk : t.keyword? = some v) :
        (skeleton (t.depthAfter 0) ts).head?.any (·.isKeyword .byColumns) =
          ts.head?.any (·.isKeyword .byColumns) := by
      simp [depthAfter_of_keyword? hk, Option.any_map]
    split
    case h_7 hk => rw [hby hk]
    case h_8 hk => rw [hby hk]
    all_goals rfl

def Clause.skeleton (c : Clause) : Clause :=
  ⟨c.kind, c.keywords.map bare, SqlWalk.skeleton 0 c.body⟩

namespace Statement

/-- A cut skeleton, where some parentheses are open before the lead. -/
def skeleton (d : Nat) (s : Statement) : Statement :=
  ⟨SqlWalk.skeleton d s.lead, s.clauses.map Clause.skeleton, SqlWalk.skeleton 0 s.rest⟩

theorem skeleton_cons (d : Nat) (t : Token) (s : Statement) :
    (s.cons t).skeleton d =
      if t.isNested d then s.skeleton (t.depthAfter d)
      else (s.skeleton (t.depthAfter d)).cons t.bare := by
  simp only [skeleton, cons, SqlWalk.skeleton]
  split
  · rfl
  · rfl

theorem skeleton_opened (kind : ClauseKind) (ks : List Token) (s : Statement) :
    (s.opened kind ks).skeleton 0 = (s.skeleton 0).opened kind (ks.map bare) :=
  rfl

theorem scanFrom_skeleton (d : Nat) (ts : List Token) :
    scanFrom 0 (min d 1) (SqlWalk.skeleton d ts) = (scanFrom 0 d ts).skeleton d := by
  induction d, ts using scanFrom_induction with
  | nil d => rfl
  | ended t ts he =>
    rw [Nat.zero_min, scanFrom_ended he, skeleton_zero_cons, scanFrom_ended, skeleton,
      skeleton_zero_cons]
    · rfl
    · rwa [endsStatement_bare]
  | opened kind ks ts hc ih =>
    have hks := keyword?_of_head hc
    have hopen := hc
    rw [← clauseHead?_skeleton, skeleton_keywords hks, ← List.length_map bare] at hopen
    rw [Nat.zero_min] at ih ⊢
    rw [scanFrom_opened hc, skeleton_opened, skeleton_keywords hks, scanFrom_opened hopen, ih]
  | other d t ts hc ih =>
    rw [scanFrom_other hc, skeleton_cons, ← ih]
    split
    · next hn => rw [skeleton_nested hn, min_depthAfter_of_nested hn]
    · next hn =>
      rw [skeleton_not_nested hn, scanFrom_other, depthAfter_bare, depthAfter_min_of_not_nested hn]
      intro hd
      obtain rfl : d = 0 := by omega
      obtain ⟨he, hn⟩ := hc rfl
      rw [← clauseHead?_skeleton, skeleton_zero_cons] at hn
      exact ⟨by rw [endsStatement_bare, he], hn⟩

theorem ofTokens_skeleton (ts : List Token) :
    ofTokens (SqlWalk.skeleton 0 ts) = (ofTokens ts).skeleton 0 :=
  scanFrom_skeleton 0 ts

theorem body?_skeleton (d : Nat) (s : Statement) (kind : ClauseKind) :
    (s.skeleton d).body? kind = (s.body? kind).map (SqlWalk.skeleton 0) := by
  simp [body?, skeleton, List.find?_map, Function.comp_def, Clause.skeleton]

end Statement

end SqlWalk
