import SqlWalk.Proofs.Query.Skeleton
import SqlWalk.Proofs.Query.Split
import SqlWalk.Proofs.Query.Stretch

namespace SqlWalk

open Token

variable {separator : Bool → Token → Bool × Bool} {noted noted' : Bool} {d d' : Nat} {t : Token}
  {ts us body p : List Token} {ps : List (List Token)} {kind : ClauseKind}

theorem depthFrom_of_passOver (h : passOver separator noted d ts = some (noted', d')) :
    depthFrom d ts = d' := by
  induction ts generalizing noted d with
  | nil =>
    cases h
    rfl
  | cons t ts ih =>
    rw [passOver] at h
    split at h
    · next hd =>
      subst hd
      split at h
      · cases h
      · exact ih h
    · exact ih h

/-- Parts between tokens that separate them, with what is noted and the depth before each. -/
inductive Splits (separator : Bool → Token → Bool × Bool) :
    Bool → Nat → List Token → List (List Token) → Prop where
  | whole {noted : Bool} {d : Nat} {p : List Token} : (passOver separator noted d p).isSome = true →
      Splits separator noted d p [p]
  | part {noted before after : Bool} {d : Nat} {p us : List Token} {t : Token}
      {ps : List (List Token)} : passOver separator noted d p = some (before, 0) →
      separator before t = (true, after) → Splits separator after 0 us ps →
      Splits separator noted d (p ++ t :: us) (p :: ps)

theorem Splits.push (h : Splits separator noted' d' ts ps)
    (ht : ∀ p, passOver separator noted d (t :: p) = passOver separator noted' d' p) :
    Splits separator noted d (t :: ts) (pushToken t ps) := by
  cases h with
  | whole hp => exact .whole (by rwa [ht])
  | part hp hs h => exact .part (by rwa [ht]) hs h

theorem splits_splitOutside (separator : Bool → Token → Bool × Bool) (noted : Bool) (d : Nat)
    (ts : List Token) : Splits separator noted d ts (splitOutside separator noted d ts) := by
  induction ts generalizing noted d with
  | nil => exact .whole rfl
  | cons t ts ih =>
    rw [splitOutside]
    split
    · next hd =>
      subst hd
      split
      · next noted' hs => exact .part (p := []) rfl hs (ih noted' 0)
      · next noted' hs =>
        apply (ih noted' (t.depthAfter 0)).push
        intro p
        rw [passOver, if_pos rfl, hs]
    · next hd =>
      apply (ih noted (t.depthAfter d)).push
      intro p
      rw [passOver, if_neg hd]

/-- A separator that splits only where nothing is noted, and notes nothing there. -/
structure Settles (separator : Bool → Token → Bool × Bool) : Prop extends SeesBare separator where
  settled : ∀ p noted t noted', passOver separator false 0 p = some (noted, 0) →
    separator noted t = (true, noted') → noted = false ∧ noted' = false

theorem noted_of_passOver_comma (h : passOver commaSeparator noted d p = some (noted', d')) :
    noted' = noted := by
  induction p generalizing d with
  | nil =>
    cases h
    rfl
  | cons t p ih =>
    rw [passOver, commaSeparator] at h
    split at h
    · cases hs : t.isSymbol ',' with
      | true =>
        rw [hs] at h
        cases h
      | false =>
        rw [hs] at h
        exact ih h
    · exact ih h

theorem settles_comma : Settles commaSeparator where
  toSeesBare := seesBare_comma
  settled p noted t noted' hp hs := by
    have hnoted := noted_of_passOver_comma hp
    rw [commaSeparator, Prod.mk.injEq] at hs
    exact ⟨hnoted, hs.2.symm.trans hnoted⟩

theorem settles_and : Settles andSeparator where
  toSeesBare := seesBare_and
  settled p noted t noted' _ hs := by
    simp only [andSeparator] at hs
    split at hs
    · cases hs
    · rw [Prod.mk.injEq, Bool.not_eq_true'] at hs
      exact ⟨hs.1, hs.2.symm⟩
    · cases hs

theorem Splits.exists_of_mem (hs : Settles separator) (h : Splits separator noted d ts ps)
    (hn : noted = false) (hd : d = 0) (hp : p ∈ ps) : ∃ us vs, ts = us ++ p ++ vs ∧
      depthFrom 0 us = 0 ∧ (passOver separator false 0 p).isSome = true := by
  induction h with
  | whole hpass =>
    subst hn hd
    rw [List.mem_singleton.1 hp]
    exact ⟨[], [], by simp, rfl, hpass⟩
  | @part _ before after _ q us t ps hpass hsep _ ih =>
    subst hn hd
    obtain ⟨rfl, rfl⟩ := hs.settled q before t after hpass hsep
    rcases List.mem_cons.1 hp with rfl | hp
    · exact ⟨[], t :: us, by simp, rfl, by rw [hpass]; rfl⟩
    · obtain ⟨us', vs, rfl, hdepth, hpass'⟩ := ih rfl rfl hp
      have ht : t.depthAfter 0 = 0 := hs.depth false t (by rw [hsep])
      refine ⟨q ++ t :: us', vs, by simp, ?_, hpass'⟩
      rw [depthFrom_append, depthFrom_of_passOver hpass, depthFrom_cons, ht, hdepth]

theorem Splits.ne_nil (h : Splits separator noted d ts ps) : ps ≠ [] := by
  cases h <;> exact List.cons_ne_nil _ _

theorem Splits.exists_of_mem_dropLast (hs : Settles separator) (h : Splits separator noted d ts ps)
    (hn : noted = false) (hd : d = 0) (hp : p ∈ ps.dropLast) : ∃ us t vs, ts = us ++ p ++ t :: vs ∧
      passOver separator false 0 p = some (false, 0) := by
  induction h with
  | whole hpass => cases hp
  | @part _ before after _ q us t ps hpass hsep hps ih =>
    subst hn hd
    obtain ⟨rfl, rfl⟩ := hs.settled q before t after hpass hsep
    rw [List.dropLast_cons_of_ne_nil hps.ne_nil] at hp
    rcases List.mem_cons.1 hp with rfl | hp
    · exact ⟨[], t, us, rfl, hpass⟩
    · obtain ⟨us', t', vs, rfl, hpass'⟩ := ih rfl rfl hp
      exact ⟨q ++ t :: us', t', vs, by simp, hpass'⟩

theorem exists_of_mem_splitOutside (hs : Settles separator)
    (hp : p ∈ splitOutside separator false 0 ts) : ∃ us vs, ts = us ++ p ++ vs ∧
      depthFrom 0 us = 0 ∧ (passOver separator false 0 p).isSome = true :=
  (splits_splitOutside separator false 0 ts).exists_of_mem hs rfl rfl hp

theorem exists_of_mem_dropLast_splitOutside (hs : Settles separator)
    (hp : p ∈ (splitOutside separator false 0 ts).dropLast) : ∃ us t vs, ts = us ++ p ++ t :: vs ∧
      passOver separator false 0 p = some (false, 0) :=
  (splits_splitOutside separator false 0 ts).exists_of_mem_dropLast hs rfl rfl hp

theorem passOver_respaced (hs : SeesBare separator) (gap : Bool) :
    passOver separator noted d (respaced gap p) = passOver separator noted d p := by
  cases p with
  | nil => rfl
  | cons t p =>
    have ht : separator noted { t with spaced := gap } = separator noted t :=
      (hs.bare noted { t with spaced := gap }).symm.trans (hs.bare noted t)
    rw [respaced, passOver, passOver, ht]
    rfl

theorem Outside.of_append_prefix (h : Outside Plain 0 (us ++ p ++ ts)) (hd : depthFrom 0 us = 0) :
    Outside Plain 0 p := by
  have hp := (outside_append.1 (outside_append.1 h).1).2
  rw [hd] at hp
  exact hp.imp fun t vs ht => ht.of_prefix (List.prefix_append vs ts)

theorem Outside.respaced (h : Outside Plain d p) (gap : Bool) :
    Outside Plain d (Token.respaced gap p) := by
  cases p with
  | nil => exact h
  | cons t p => exact h

namespace Statement

theorem plain_scanFrom (d : Nat) (ts : List Token) : Outside Plain d (scanFrom 0 d ts).lead ∧
    ∀ c ∈ (scanFrom 0 d ts).clauses, Outside Plain 0 c.body := by
  induction d, ts using scanFrom_induction with
  | nil d => exact ⟨trivial, nofun⟩
  | ended t ts he =>
    rw [scanFrom_ended he]
    exact ⟨trivial, nofun⟩
  | opened kind ks ts hc ih =>
    rw [scanFrom_opened hc]
    exact ⟨trivial, List.forall_mem_cons.2 ih⟩
  | other d t ts hc ih =>
    have hlead : (scanFrom 0 (t.depthAfter d) ts).lead <+: ts := by
      conv => rhs; rw [← tokens_scanFrom (t.depthAfter d) ts, tokens, List.append_assoc]
      exact List.prefix_append _ _
    rw [scanFrom_other hc]
    refine ⟨⟨?_, ih.1⟩, ih.2⟩
    intro hd
    obtain ⟨he, hn⟩ := hc hd
    exact Plain.of_prefix (Plain.of_clauseHead? he hn) hlead

theorem plain_body (h : (ofTokens ts).body? kind = some body) : Outside Plain 0 body := by
  obtain ⟨c, hc, rfl⟩ := Option.map_eq_some_iff.1 h
  exact (plain_scanFrom 0 ts).2 c (List.mem_of_find?_eq_some hc)

end Statement
end SqlWalk
