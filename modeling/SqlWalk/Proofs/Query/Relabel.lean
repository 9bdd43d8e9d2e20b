import SqlWalk.Proofs.Query.Skeleton

namespace SqlWalk

open Token

variable {f : Token → Token} {t u : Token} {ts us : List Token} {d : Nat}
  {separator : Bool → Token → Bool × Bool} {noted : Bool}

/-- Says that the replacements of some tokens have the same bare forms. -/
def Relabels (f : Token → Token) (ts : List Token) : Prop :=
  ∀ t ∈ ts, (f t).bare = t.bare

theorem Relabels.of_subset (h : Relabels f ts) (hu : us ⊆ ts) : Relabels f us :=
  fun t ht => h t (hu ht)

theorem depthAfter_of_bare (h : u.bare = t.bare) (d : Nat) : u.depthAfter d = t.depthAfter d := by
  rw [← depthAfter_bare, h, depthAfter_bare]

theorem endsStatement_of_bare (h : u.bare = t.bare) : endsStatement u = endsStatement t := by
  rw [← endsStatement_bare, h, endsStatement_bare]

theorem SeesBare.of_bare (hs : SeesBare separator) (noted : Bool) (h : u.bare = t.bare) :
    separator noted u = separator noted t := by
  rw [← hs.bare, h, hs.bare]

theorem skeleton_map (h : Relabels f ts) (d : Nat) : skeleton d (ts.map f) = skeleton d ts := by
  induction ts generalizing d with
  | nil => rfl
  | cons t ts ih =>
    obtain ⟨ht, hts⟩ := List.forall_mem_cons.1 h
    have hnested : (f t).isNested d ↔ t.isNested d := by
      rw [isNested, isNested, depthAfter_of_bare ht]
    simp only [List.map_cons, skeleton, hnested, depthAfter_of_bare ht, ht, ih hts]

theorem clauseHead?_map (h : Relabels f ts) : clauseHead? (ts.map f) = clauseHead? ts := by
  rw [← clauseHead?_skeleton, skeleton_map h, clauseHead?_skeleton]

theorem map_pushToken (t : Token) (ps : List (List Token)) :
    (pushToken t ps).map (List.map f) = pushToken (f t) (ps.map (List.map f)) := by
  cases ps <;> rfl

theorem splitOutside_map (hs : SeesBare separator) (h : Relabels f ts) :
    splitOutside separator noted d (ts.map f) =
      (splitOutside separator noted d ts).map (List.map f) := by
  induction ts generalizing noted d with
  | nil => rfl
  | cons t ts ih =>
    obtain ⟨ht, hts⟩ := List.forall_mem_cons.1 h
    rw [List.map_cons, splitOutside, splitOutside, hs.of_bare noted ht, depthAfter_of_bare ht,
      depthAfter_of_bare ht]
    split
    · split
      · rw [List.map_cons, ih hts]
        rfl
      · rw [map_pushToken, ih hts]
    · rw [map_pushToken, ih hts]

theorem conjuncts_map (h : Relabels f ts) :
    conjuncts (ts.map f) = (conjuncts ts).map (List.map f) := by
  rw [conjuncts, splitOutside_map seesBare_and h, List.filter_map]
  simp [conjuncts, Function.comp_def]

def Clause.map (f : Token → Token) (c : Clause) : Clause :=
  ⟨c.kind, c.keywords.map f, c.body.map f⟩

namespace Statement

def map (f : Token → Token) (s : Statement) : Statement :=
  ⟨s.lead.map f, s.clauses.map (Clause.map f), s.rest.map f⟩

theorem scanFrom_map (h : Relabels f ts) :
    scanFrom 0 d (ts.map f) = (scanFrom 0 d ts).map f := by
  induction d, ts using scanFrom_induction with
  | nil d => rfl
  | ended t ts he =>
    have ht : endsStatement (f t) = true :=
      (endsStatement_of_bare (h t List.mem_cons_self)).trans he
    rw [List.map_cons, scanFrom_ended ht, scanFrom_ended he]
    rfl
  | opened kind ks ts hc ih =>
    have hopen : clauseHead? (ks.map f ++ ts.map f) = some (kind, (ks.map f).length) := by
      rw [← List.map_append, clauseHead?_map h, hc, List.length_map]
    rw [List.map_append, scanFrom_opened hopen, scanFrom_opened hc,
      ih (h.of_subset (List.subset_append_right ks ts))]
    rfl
  | other d t ts hc ih =>
    obtain ⟨ht, hts⟩ := List.forall_mem_cons.1 h
    have hother : d = 0 → endsStatement (f t) = false ∧ clauseHead? (f t :: ts.map f) = none := by
      rw [endsStatement_of_bare ht, ← List.map_cons, clauseHead?_map h]
      exact hc
    rw [List.map_cons, scanFrom_other hother, scanFrom_other hc, depthAfter_of_bare ht, ih hts]
    rfl

theorem ofTokens_map (h : Relabels f ts) : ofTokens (ts.map f) = (ofTokens ts).map f :=
  scanFrom_map h

theorem body?_map (s : Statement) (kind : ClauseKind) :
    (s.map f).body? kind = (s.body? kind).map (List.map f) := by
  simp [body?, map, List.find?_map, Function.comp_def, Clause.map]

theorem kinds_map (s : Statement) :
    (s.map f).clauses.map (·.kind) = s.clauses.map (·.kind) := by
  simp [map, Clause.map, Function.comp_def]

theorem bodyRanges_map (s : Statement) : (s.map f).bodyRanges = s.bodyRanges := by
  have hfrom (start : Nat) (cs : List Clause) :
      bodyRangesFrom start (cs.map (Clause.map f)) = bodyRangesFrom start cs := by
    induction cs generalizing start with
    | nil => rfl
    | cons c cs ih => simp only [List.map_cons, bodyRangesFrom, Clause.map, List.length_map, ih]
  rw [bodyRanges, map, hfrom, List.length_map]
  rfl

end Statement
end SqlWalk
