import SqlWalk.Proofs.Query.Parts

namespace SqlWalk

open Token

variable {d start a b : Nat} {t : Token} {ts ks body : List Token} {kind : ClauseKind} {c : Clause}
  {cs : List Clause} {separator : Bool → Token → Bool × Bool} {noted : Bool}
  {ps : List (List Token)} {leftOut : Token → Prop} {closed : Prop}

/-- The tokens of a list, each with the parenthesis depth before it. -/
def counted : (depth : Nat) → List Token → List (Token × Nat)
  | _, [] => []
  | d, t :: ts => (t, d) :: counted (t.depthAfter d) ts

@[simp] theorem counted_nil (d : Nat) : counted d [] = [] :=
  rfl

theorem counted_append (d : Nat) (ts us : List Token) :
    counted d (ts ++ us) = counted d ts ++ counted (depthFrom d ts) us := by
  induction ts generalizing d with
  | nil => rfl
  | cons t ts ih => rw [List.cons_append, counted, counted, ih, depthFrom_cons, List.cons_append]

@[simp] theorem map_fst_counted (d : Nat) (ts : List Token) : (counted d ts).map Prod.fst = ts := by
  induction ts generalizing d with
  | nil => rfl
  | cons t ts ih => rw [counted, List.map_cons, ih]

@[simp] theorem length_counted (d : Nat) (ts : List Token) : (counted d ts).length = ts.length := by
  rw [← List.length_map Prod.fst, map_fst_counted]

theorem head?_counted (d : Nat) (ts : List Token) : ∀ x ∈ (counted d ts).head?, x.2 = d := by
  cases ts with
  | nil => exact nofun
  | cons t ts =>
    rintro x ⟨⟩
    rfl

theorem getLast?_counted (d : Nat) (ts : List Token) :
    ∀ x ∈ (counted d ts).getLast?, x.1.depthAfter x.2 = depthFrom d ts := by
  induction ts generalizing d with
  | nil => exact nofun
  | cons t ts ih =>
    intro x hx
    rw [counted, List.getLast?_cons] at hx
    cases ts with
    | nil =>
      cases hx
      rfl
    | cons u us =>
      apply ih
      rw [counted, List.getLast?_cons] at hx ⊢
      exact hx

/-- The cut into clauses, and the tokens that it comes to with the depths that it counts. -/
def Statement.scanCounted : (skip depth : Nat) → List Token → Statement × List (Token × Nat)
  | _, _, [] => (⟨[], [], []⟩, [])
  | skip + 1, depth, t :: ts =>
    let (s, seen) := scanCounted skip depth ts
    (s, (t, depth) :: seen)
  | 0, depth, t :: ts =>
    if depth = 0 then
      if endsStatement t then (⟨[], [], t :: ts⟩, [])
      else
        match clauseHead? (t :: ts) with
        | some (kind, n) =>
          let (s, seen) := scanCounted (n - 1) 0 ts
          (s.opened kind ((t :: ts).take n), (t, 0) :: seen)
        | none =>
          let (s, seen) := scanCounted 0 (t.depthAfter 0) ts
          (s.cons t, (t, 0) :: seen)
    else
      let (s, seen) := scanCounted 0 (t.depthAfter depth) ts
      (s.cons t, (t, depth) :: seen)

def splitCounted (separator : Bool → Token → Bool × Bool) :
    (noted : Bool) → (depth : Nat) → List Token → List (List Token) × List (Token × Nat)
  | _, _, [] => ([[]], [])
  | noted, depth, t :: ts =>
    if depth = 0 then
      match separator noted t with
      | (true, noted) =>
        let (ps, seen) := splitCounted separator noted 0 ts
        ([] :: ps, (t, 0) :: seen)
      | (false, noted) =>
        let (ps, seen) := splitCounted separator noted (t.depthAfter 0) ts
        (pushToken t ps, (t, 0) :: seen)
    else
      let (ps, seen) := splitCounted separator noted (t.depthAfter depth) ts
      (pushToken t ps, (t, depth) :: seen)

def cutCounted (depth : Nat) : List Token → (List Token × List Token) × List (Token × Nat)
  | [] => (([], []), [])
  | t :: ts =>
    if t.depthAfter depth = 0 && (t.isKeyword .on || t.isKeyword .usingColumns) then
      (([], t :: ts), [(t, depth)])
    else
      let ((table, condition), seen) := cutCounted (t.depthAfter depth) ts
      ((t :: table, condition), (t, depth) :: seen)

theorem splitCounted_eq (hs : SeesBare separator) (noted : Bool) (d : Nat) (ts : List Token) :
    splitCounted separator noted d ts = (splitOutside separator noted d ts, counted d ts) := by
  induction ts generalizing noted d with
  | nil => rfl
  | cons t ts ih =>
    rw [splitCounted, splitOutside, counted]
    split
    · next hd =>
      subst hd
      obtain ⟨⟨separates, noted'⟩, hx⟩ : ∃ x, separator noted t = x := ⟨_, rfl⟩
      rw [hx]
      cases separates with
      | true =>
        have ht : t.depthAfter 0 = 0 := hs.depth noted t (by rw [hx])
        simp only [ih, ht]
      | false => simp only [ih]
    · rw [ih]

theorem cutCounted_eq (d : Nat) (ts : List Token) : cutCounted d ts =
    (cutCondition d ts, (counted d ts).take ((cutCondition d ts).1.length + 1)) := by
  induction ts generalizing d with
  | nil => rfl
  | cons t ts ih =>
    rw [cutCounted, cutCondition, counted]
    split
    · rfl
    · rw [ih]
      rfl

namespace Statement

theorem scanCounted_skip (ks ts : List Token) (d : Nat) : scanCounted ks.length d (ks ++ ts) =
    ((scanCounted 0 d ts).1, ks.map (·, d) ++ (scanCounted 0 d ts).2) := by
  induction ks with
  | nil => rfl
  | cons k ks ih =>
    rw [List.cons_append, List.length_cons, scanCounted, ih]
    rfl

theorem counted_keywords (h : ∀ t ∈ ks, t.keyword?.isSome = true) (d : Nat) :
    counted d ks = ks.map (·, d) := by
  induction ks with
  | nil => rfl
  | cons k ks ih =>
    obtain ⟨hk, hks⟩ := List.forall_mem_cons.1 h
    obtain ⟨w, hw⟩ := Option.isSome_iff_exists.1 hk
    rw [counted, depthAfter_of_keyword? hw, ih hks, List.map_cons]

theorem scanCounted_eq (d : Nat) (ts : List Token) : scanCounted 0 d ts =
    (scanFrom 0 d ts, counted d (scanFrom 0 d ts).lead ++
      (scanFrom 0 d ts).clauses.flatMap fun c => counted 0 c.keywords ++ counted 0 c.body) := by
  induction d, ts using scanFrom_induction with
  | nil d => rfl
  | ended t ts he =>
    rw [scanFrom_ended he, scanCounted, if_pos rfl, if_pos he]
    rfl
  | opened kind ks ts hc ih =>
    have hk := counted_keywords (keyword?_of_head hc) 0
    obtain ⟨k, ks, rfl, -⟩ := (opens_of_head hc).exists_cons
    have he := (opens_of_head hc).endsStatement_eq k List.mem_cons_self
    rw [scanFrom_opened hc]
    rw [List.cons_append] at hc ⊢
    rw [scanCounted, if_pos rfl, he, if_neg Bool.false_ne_true, hc]
    simp only [List.length_cons, Nat.add_sub_cancel, scanCounted_skip, ih, opened, counted_nil,
      hk, List.flatMap_cons, List.take_succ_cons, List.take_left, List.map_cons, List.cons_append,
      List.nil_append, List.append_assoc]
  | other d t ts hc ih =>
    rw [scanFrom_other hc, scanCounted]
    split
    · next hd =>
      subst hd
      obtain ⟨he, hn⟩ := hc rfl
      rw [he, if_neg Bool.false_ne_true, hn, ih]
      rfl
    · rw [ih]
      rfl

theorem depthFrom_scanFrom (d : Nat) (ts : List Token) :
    ((scanFrom 0 d ts).clauses ≠ [] ∨ (scanFrom 0 d ts).rest ≠ [] →
      depthFrom d (scanFrom 0 d ts).lead = 0) ∧
    ∀ before c after, (scanFrom 0 d ts).clauses = before ++ c :: after →
      after ≠ [] ∨ (scanFrom 0 d ts).rest ≠ [] → depthFrom 0 c.body = 0 := by
  induction d, ts using scanFrom_induction with
  | nil d =>
    refine ⟨?_, ?_⟩
    · rintro (h | h) <;> exact absurd rfl h
    · intro before c after h
      exact absurd h.symm (by simp [scanFrom])
  | ended t ts he =>
    rw [scanFrom_ended he]
    refine ⟨fun _ => rfl, ?_⟩
    intro before c after h
    exact absurd h.symm (by simp)
  | opened kind ks ts hc ih =>
    obtain ⟨hlead, hbody⟩ := ih
    rw [scanFrom_opened hc]
    refine ⟨fun _ => rfl, ?_⟩
    intro before c after h hend
    cases before with
    | nil =>
      obtain ⟨rfl, rfl⟩ := List.cons.inj h
      exact hlead hend
    | cons x before => exact hbody before c after (List.cons.inj h).2 hend
  | other d t ts hc ih =>
    rw [scanFrom_other hc]
    exact ih

theorem length_bodyRangesFrom (start : Nat) (cs : List Clause) :
    (bodyRangesFrom start cs).length = cs.length := by
  induction cs generalizing start with
  | nil => rfl
  | cons c cs ih => rw [bodyRangesFrom, List.length_cons, List.length_cons, ih]

theorem exists_of_zip_bodyRangesFrom {before after : List (Clause × Nat × Nat)}
    (h : cs.zip (bodyRangesFrom start cs) = before ++ (c, a, b) :: after) :
    ∃ cs', cs = cs' ++ c :: after.map Prod.fst ∧
      a = start + (cs'.flatMap Clause.tokens).length + c.keywords.length ∧
      b = a + c.body.length := by
  induction cs generalizing start before with
  | nil => exact absurd h.symm (by simp)
  | cons c' cs ih =>
    rw [bodyRangesFrom, List.zip_cons_cons] at h
    cases before with
    | nil =>
      obtain ⟨hc, rfl⟩ := List.cons.inj h
      cases hc
      refine ⟨[], ?_, rfl, rfl⟩
      rw [List.map_fst_zip (by rw [length_bodyRangesFrom])]
      rfl
    | cons x before =>
      obtain ⟨cs', rfl, rfl, rfl⟩ := ih (List.cons.inj h).2
      refine ⟨c' :: cs', rfl, ?_, rfl⟩
      rw [List.flatMap_cons, List.length_append, Clause.tokens, List.length_append]
      omega

end Statement

/-- Pieces of tokens with their depths, between which only tokens of a kind are left out. Each
starts and ends outside parentheses, but the last ends there only if `closed` holds. -/
inductive Pieces (leftOut : Token → Prop) (closed : Prop) :
    List (Token × Nat) → List (List Token) → Prop where
  | nil {rest : List (Token × Nat)} : (∀ x ∈ rest, leftOut x.1) → Pieces leftOut closed rest []
  | cons {before piece rest : List (Token × Nat)} {ps : List (List Token)} :
      (∀ x ∈ before, leftOut x.1) → (∀ x ∈ piece.head?, x.2 = 0) →
      (ps ≠ [] ∨ closed → ∀ x ∈ piece.getLast?, x.1.depthAfter x.2 = 0) →
      Pieces leftOut closed rest ps →
      Pieces leftOut closed (before ++ (piece ++ rest)) (piece.map Prod.fst :: ps)

namespace Pieces

variable {seen : List (Token × Nat)} {x : Token × Nat} {p : List Token}

theorem leave (hx : leftOut x.1) (h : Pieces leftOut closed seen ps) :
    Pieces leftOut closed (x :: seen) ps := by
  cases h with
  | nil hr => exact .nil (List.forall_mem_cons.2 ⟨hx, hr⟩)
  | cons hb hs he hr => exact .cons (List.forall_mem_cons.2 ⟨hx, hb⟩) hs he hr

theorem counted_append (hp : ps ≠ [] ∨ closed → depthFrom 0 p = 0)
    (h : Pieces leftOut closed seen ps) :
    Pieces leftOut closed (counted 0 p ++ seen) (p :: ps) := by
  have hpiece : Pieces leftOut closed ([] ++ (counted 0 p ++ seen))
      ((counted 0 p).map Prod.fst :: ps) := by
    refine .cons nofun (head?_counted 0 p) ?_ h
    intro hc x hx
    rw [getLast?_counted 0 p x hx, hp hc]
  rwa [map_fst_counted] at hpiece

theorem counted_self (hp : closed → depthFrom 0 p = 0) :
    Pieces leftOut closed (counted 0 p) [p] := by
  have hpiece : Pieces leftOut closed (counted 0 p ++ []) [p] :=
    counted_append (fun hc => hp (hc.resolve_left fun h => h rfl)) (.nil nofun)
  rwa [List.append_nil] at hpiece

end Pieces

def Separates (separator : Bool → Token → Bool × Bool) (t : Token) : Prop :=
  ∃ noted, (separator noted t).1 = true

theorem Splits.pieces (hs : SeesBare separator) (h : Splits separator noted d ts ps) (hd : d = 0)
    (hc : closed → depthFrom 0 ts = 0) :
    Pieces (Separates separator) closed (counted 0 ts) (ps.filter (!·.isEmpty)) := by
  induction h with
  | @whole noted d p hp =>
    cases p with
    | nil => exact .nil nofun
    | cons t p => exact .counted_self hc
  | @part noted before after d p us t ps hp hx _ ih =>
    subst hd
    have hdepth := depthFrom_of_passOver hp
    have ht : t.depthAfter 0 = 0 := hs.depth before t (by rw [hx])
    have hrest : Pieces (Separates separator) closed ((t, 0) :: counted 0 us)
        (ps.filter (!·.isEmpty)) := by
      apply (ih rfl _).leave ⟨before, by rw [hx]⟩
      intro h
      have hts := hc h
      rwa [depthFrom_append, hdepth, depthFrom_cons, ht] at hts
    rw [counted_append, hdepth, counted, ht]
    cases p with
    | nil => exact hrest
    | cons u p => exact hrest.counted_append fun _ => hdepth

/-- The table of a join and, if there is one, its condition, without the ON. -/
def joinParts (ts : List Token) : List (List Token) :=
  match cutCondition 0 ts with
  | (table, []) => [table]
  | (table, t :: us) => if t.isKeyword .on then [table, us] else [table, t :: us]

theorem Join.ofTokens?_joinParts (kind : JoinKind) (ts : List Token) : ofTokens? kind ts =
    (TableRef.ofTokens? .join (joinParts ts).headI).map fun r =>
      (r, ⟨r.key, fragment (joinParts ts).tail.flatten, kind⟩) := by
  obtain ⟨⟨table, condition⟩, hcut⟩ : ∃ x, cutCondition 0 ts = x := ⟨_, rfl⟩
  simp only [ofTokens?, joinParts, hcut]
  cases condition with
  | nil => rfl
  | cons t us =>
    cases ht : t.isKeyword .on with
    | true => simp [conditionText, ht]
    | false => simp [conditionText, ht]

theorem depthFrom_cutCondition (h : (cutCondition d ts).2 = t :: body) :
    depthFrom d (cutCondition d ts).1 = 0 ∧ t.keyword?.isSome = true := by
  induction ts generalizing d with
  | nil => cases h
  | cons u ts ih =>
    rw [cutCondition] at h ⊢
    split at h
    · next hu =>
      cases h
      rw [if_pos hu]
      simp only [Bool.and_eq_true, decide_eq_true_eq, Bool.or_eq_true, isKeyword_iff] at hu
      obtain ⟨hd, hk⟩ := hu
      obtain ⟨k, hk⟩ : ∃ k, t.keyword? = some k := hk.elim (⟨_, ·⟩) (⟨_, ·⟩)
      rw [depthAfter_of_keyword? hk] at hd
      exact ⟨hd, by rw [hk]; rfl⟩
    · next hu =>
      rw [if_neg hu]
      exact ih h

theorem pieces_joinParts (hc : closed → depthFrom 0 body = 0) :
    Pieces (·.isKeyword .on = true) closed (counted 0 body) (joinParts body) := by
  have happ := append_cutCondition 0 body
  have hcut : ∀ t us, (cutCondition 0 body).2 = t :: us →
      depthFrom 0 (cutCondition 0 body).1 = 0 ∧ t.keyword?.isSome = true :=
    fun _ _ => depthFrom_cutCondition
  rw [joinParts]
  generalize cutCondition 0 body = cut at happ hcut
  obtain ⟨table, condition⟩ := cut
  subst happ
  cases condition with
  | nil =>
    rw [List.append_nil] at hc ⊢
    exact .counted_self hc
  | cons t us =>
    obtain ⟨htable, hk⟩ := hcut t us rfl
    obtain ⟨k, hk⟩ := Option.isSome_iff_exists.1 hk
    have hrest : closed → depthFrom 0 us = 0 := by
      intro h
      have hbody := hc h
      rwa [depthFrom_append, htable, depthFrom_cons, depthAfter_of_keyword? hk] at hbody
    rw [counted_append, htable, counted, depthAfter_of_keyword? hk]
    simp only
    split
    · next ht => exact ((Pieces.counted_self hrest).leave ht).counted_append fun _ => htable
    · have hcondition : Pieces (·.isKeyword .on = true) closed (counted 0 (t :: us)) [t :: us] := by
        apply Pieces.counted_self
        rwa [depthFrom_cons, depthAfter_of_keyword? hk]
      rw [counted, depthAfter_of_keyword? hk] at hcondition
      exact hcondition.counted_append fun _ => htable

/-- What a split of a body counts and makes of it, beside the depths seen at its tokens. -/
structure SplitAgrees (separator : Bool → Token → Bool × Bool)
    (split : List Token → List (List Token)) (closed : Prop) (body : List Token)
    (seen : List (Token × Nat)) : Prop where
  counts : splitCounted separator false 0 body = (splitOutside separator false 0 body, seen)
  pieces : Pieces (Separates separator) closed seen (split body)

/-- The same of the cut of a join, which counts up to the token at which it cuts. -/
structure CutAgrees (closed : Prop) (body : List Token) (seen : List (Token × Nat)) : Prop where
  counts : cutCounted 0 body =
    (cutCondition 0 body, seen.take ((cutCondition 0 body).1.length + 1))
  pieces : Pieces (·.isKeyword .on = true) closed seen (joinParts body)
  reads : ∀ kind, Join.ofTokens? kind body =
    (TableRef.ofTokens? .join (joinParts body).headI).map fun r =>
      (r, ⟨r.key, fragment (joinParts body).tail.flatten, kind⟩)

theorem splitAgrees_counted (hs : SeesBare separator) (hc : closed → depthFrom 0 body = 0) :
    SplitAgrees separator (fun ts => (splitOutside separator false 0 ts).filter (!·.isEmpty)) closed
      body (counted 0 body) where
  counts := splitCounted_eq hs false 0 body
  pieces := (splits_splitOutside separator false 0 body).pieces hs rfl hc

theorem cutAgrees_counted (hc : closed → depthFrom 0 body = 0) :
    CutAgrees closed body (counted 0 body) where
  counts := cutCounted_eq 0 body
  pieces := pieces_joinParts hc
  reads kind := Join.ofTokens?_joinParts kind body

namespace Statement

theorem take_drop_seen {s : Statement} {before after : List Clause}
    (h : s.clauses = before ++ c :: after) :
    ((counted 0 s.lead ++ s.clauses.flatMap fun c => counted 0 c.keywords ++ counted 0 c.body).drop
      (s.lead.length + (before.flatMap Clause.tokens).length + c.keywords.length)).take
      c.body.length = counted 0 c.body := by
  rw [h, List.flatMap_append, List.flatMap_cons]
  generalize hfront : (before.flatMap fun c => counted 0 c.keywords ++ counted 0 c.body) = front
  generalize after.flatMap _ = rest
  have hlength : s.lead.length + (before.flatMap Clause.tokens).length + c.keywords.length =
      (counted 0 s.lead ++ front ++ counted 0 c.keywords).length := by
    rw [← hfront]
    simp [List.length_flatMap, Clause.tokens, Nat.add_assoc]
  have happ : counted 0 s.lead ++ (front ++ (counted 0 c.keywords ++ counted 0 c.body ++ rest)) =
      counted 0 s.lead ++ front ++ counted 0 c.keywords ++ (counted 0 c.body ++ rest) := by
    simp only [List.append_assoc]
  rw [hlength, happ, List.drop_left, ← length_counted 0 c.body, List.take_left]

/-- All splits of a body, each from depth zero on, have the depth that the cut into clauses has
there, and make pieces that start and end outside parentheses. Only the last piece of the last
clause may be left open. -/
theorem counts_agree (ts : List Token) :
    let s := ofTokens ts
    (scanCounted 0 0 ts).1 = s ∧
    ∀ before c a b after, s.clauses.zip s.bodyRanges = before ++ (c, a, b) :: after →
      let seen := ((scanCounted 0 0 ts).2.drop a).take (b - a)
      let closed := after ≠ [] ∨ s.rest ≠ []
      seen.map Prod.fst = c.body ∧
      SplitAgrees commaSeparator listItems closed c.body seen ∧
      SplitAgrees andSeparator conjuncts closed c.body seen ∧
      CutAgrees closed c.body seen ∧
      ∃ flag, flag ++ (selectList c.body).2 = c.body ∧
        SplitAgrees commaSeparator listItems closed (selectList c.body).2
          (seen.drop flag.length) := by
  intro s
  rw [scanCounted_eq]
  refine ⟨rfl, ?_⟩
  intro before c a b after h seen closed
  obtain ⟨cs, hcs, rfl, rfl⟩ := exists_of_zip_bodyRangesFrom h
  have hseen : seen = counted 0 c.body := by
    have htake := take_drop_seen hcs
    rwa [← Nat.add_sub_cancel_left (n := s.lead.length + _ + _) (m := c.body.length)] at htake
  have hclosed : closed → depthFrom 0 c.body = 0 := by
    intro hc
    apply (depthFrom_scanFrom 0 ts).2 cs c _ hcs
    exact hc.imp_left fun hne he => hne (List.map_eq_nil_iff.1 he)
  obtain ⟨flag, hflag, hk⟩ := exists_flag_selectList c.body
  have hdepth : depthFrom 0 flag = 0 := depthFrom_keywords hk 0
  have hcolumns : (counted 0 c.body).drop flag.length = counted 0 (selectList c.body).2 := by
    conv => lhs; rw [← hflag, counted_append, hdepth, ← length_counted 0 flag, List.drop_left]
  rw [hseen]
  refine ⟨map_fst_counted 0 c.body, splitAgrees_counted seesBare_comma hclosed,
    splitAgrees_counted seesBare_and hclosed, cutAgrees_counted hclosed, flag, hflag, ?_⟩
  rw [hcolumns]
  apply splitAgrees_counted seesBare_comma
  intro hc
  have hbody := hclosed hc
  rwa [← hflag, depthFrom_append, hdepth] at hbody

theorem counts_agree_open :
    let ts := tokenize "SELECT f(a), b) FROM t WHERE a IN (1, 2) AND (b = 3 AND c".toList
    let s := ofTokens ts
    ∃ front c, s.clauses.zip s.bodyRanges = front ++ [(c, 11, 25)] ∧ s.rest = [] ∧
      SplitAgrees andSeparator conjuncts False c.body (((scanCounted 0 0 ts).2.drop 11).take 14) ∧
      (conjuncts c.body).map (depthFrom 0) = [0, 1] := by
  intro ts s
  have hrest : s.rest = [] := by decide
  obtain ⟨c, hc, hdepths⟩ : ∃ c, s.clauses.zip s.bodyRanges =
      (s.clauses.zip s.bodyRanges).take 2 ++ [(c, 11, 25)] ∧
      (conjuncts c.body).map (depthFrom 0) = [0, 1] :=
    ⟨⟨.whereRows, _, _⟩, rfl, by decide⟩
  obtain ⟨-, -, hconditions, -⟩ := (counts_agree ts).2 _ c 11 25 [] hc
  have hclosed : (([] : List (Clause × Nat × Nat)) ≠ [] ∨ s.rest ≠ []) = False := by
    simp [hrest]
  rw [hclosed] at hconditions
  exact ⟨_, c, hc, hrest, hconditions, hdepths⟩

end Statement
end SqlWalk
