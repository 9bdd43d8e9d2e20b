import SqlWalk.Query.Analysis
import SqlWalk.Proofs.Query.Depth

namespace SqlWalk

variable {separator : Bool → Token → Bool × Bool} {noted noted' : Bool} {d d' : Nat} {t : Token}
  {ts : List Token} {parts : List (List Token)}

/-- What is noted, and how deep it is, behind tokens none of which separates. -/
def passOver (separator : Bool → Token → Bool × Bool) :
    (noted : Bool) → (depth : Nat) → List Token → Option (Bool × Nat)
  | noted, depth, [] => some (noted, depth)
  | noted, depth, t :: ts =>
    if depth = 0 then
      match separator noted t with
      | (true, _) => none
      | (false, noted) => passOver separator noted (t.depthAfter 0) ts
    else passOver separator noted (t.depthAfter depth) ts

theorem foldr_pushToken (ts p : List Token) (ps : List (List Token)) :
    ts.foldr pushToken (p :: ps) = (ts ++ p) :: ps := by
  induction ts with
  | nil => rfl
  | cons t ts ih =>
    rw [List.foldr_cons, ih]
    rfl

theorem splitOutside_append (h : passOver separator noted d ts = some (noted', d'))
    (us : List Token) :
    splitOutside separator noted d (ts ++ us) =
      ts.foldr pushToken (splitOutside separator noted' d' us) := by
  induction ts generalizing noted d with
  | nil =>
    cases h
    rfl
  | cons t ts ih =>
    rw [passOver] at h
    rw [List.cons_append, splitOutside, List.foldr_cons]
    by_cases hd : d = 0
    · rw [if_pos hd] at h ⊢
      obtain ⟨⟨separates, noted⟩, hs⟩ : ∃ x, separator noted t = x := ⟨_, rfl⟩
      rw [hs] at h ⊢
      cases separates with
      | true => cases h
      | false => exact congrArg (pushToken t) (ih h)
    · rw [if_neg hd] at h ⊢
      exact congrArg (pushToken t) (ih h)

theorem splitOutside_separator (hs : separator noted t = (true, noted')) :
    splitOutside separator noted 0 (t :: ts) = [] :: splitOutside separator noted' 0 ts := by
  rw [splitOutside, if_pos rfl, hs]

theorem splitOutside_of_passOver {x : Bool × Nat} (h : passOver separator noted d ts = some x) :
    splitOutside separator noted d ts = [ts] := by
  have hsplit := splitOutside_append h []
  rw [List.append_nil] at hsplit
  rw [hsplit, splitOutside, foldr_pushToken, List.append_nil]

/-- Parts joined by a separator come apart again. The last one may end anywhere. -/
theorem splitOutside_intercalate (hs : separator false t = (true, false)) (hne : parts ≠ [])
    (h : ∀ p ∈ parts, (passOver separator false 0 p).isSome = true)
    (hend : ∀ p ∈ parts.dropLast, passOver separator false 0 p = some (false, 0)) :
    splitOutside separator false 0 ([t].intercalate parts) = parts := by
  induction parts with
  | nil => exact absurd rfl hne
  | cons p parts ih =>
    obtain ⟨hp, hps⟩ := List.forall_mem_cons.1 h
    cases parts with
    | nil =>
      obtain ⟨x, hx⟩ := Option.isSome_iff_exists.1 hp
      rw [List.intercalate_singleton, splitOutside_of_passOver hx]
    | cons q qs =>
      rw [List.dropLast_cons_cons] at hend
      obtain ⟨hp, hqs⟩ := List.forall_mem_cons.1 hend
      rw [List.intercalate_cons_cons, List.append_assoc, splitOutside_append hp _,
        List.singleton_append, splitOutside_separator hs, ih (List.cons_ne_nil q qs) hps hqs,
        foldr_pushToken, List.append_nil]

theorem filter_splitOutside_intercalate (hs : separator false t = (true, false))
    (h : ∀ p ∈ parts, p ≠ [] ∧ (passOver separator false 0 p).isSome = true)
    (hend : ∀ p ∈ parts.dropLast, passOver separator false 0 p = some (false, 0)) :
    (splitOutside separator false 0 ([t].intercalate parts)).filter (!·.isEmpty) = parts := by
  by_cases hne : parts = []
  · subst hne
    rfl
  · rw [splitOutside_intercalate hs hne (fun p hm => (h p hm).2) hend, List.filter_eq_self]
    intro p hm
    simp [(h p hm).1]

theorem filter_splitOutside_intercalate_of_forall (hs : separator false t = (true, false))
    (hp : ∀ p ∈ parts, p ≠ [] ∧ passOver separator false 0 p = some (false, 0)) :
    (splitOutside separator false 0 ([t].intercalate parts)).filter (!·.isEmpty) = parts := by
  apply filter_splitOutside_intercalate hs
  · intro p hm
    obtain ⟨hne, h⟩ := hp p hm
    exact ⟨hne, by rw [h]; rfl⟩
  · intro p hm
    exact (hp p (List.dropLast_subset parts hm)).2

def CommaFree (ts : List Token) : Prop :=
  Outside (fun t _ => t.isSymbol ',' = false) 0 ts

instance (ts : List Token) : Decidable (CommaFree ts) :=
  inferInstanceAs (Decidable (Outside _ 0 ts))

/-- Outside parentheses each AND closes a BETWEEN, and no BETWEEN is left without its AND. -/
def closesBetween : (pending : Bool) → (depth : Nat) → List Token → Bool
  | pending, _, [] => !pending
  | pending, depth, t :: ts =>
    if depth = 0 then
      match t.keyword? with
      | some .between => closesBetween true 0 ts
      | some .and => pending && closesBetween false 0 ts
      | _ => closesBetween pending (t.depthAfter 0) ts
    else closesBetween pending (t.depthAfter depth) ts

theorem passOver_comma (h : Outside (fun t _ => t.isSymbol ',' = false) d ts) :
    passOver commaSeparator noted d ts = some (noted, depthFrom d ts) := by
  induction ts generalizing d with
  | nil => rfl
  | cons t ts ih =>
    obtain ⟨ht, hts⟩ := h
    rw [passOver]
    split
    · next hd =>
      subst hd
      rw [commaSeparator, ht rfl]
      exact ih hts
    · exact ih hts

theorem passOver_and (h : closesBetween noted d ts = true) :
    passOver andSeparator noted d ts = some (false, depthFrom d ts) := by
  induction ts generalizing noted d with
  | nil =>
    simp only [closesBetween, Bool.not_eq_true'] at h
    rw [h]
    rfl
  | cons t ts ih =>
    rw [closesBetween] at h
    rw [passOver, depthFrom_cons]
    split at h
    · next hd =>
      subst hd
      rw [if_pos rfl]
      split at h
      · next hk =>
        have hs : andSeparator noted t = (false, true) := by rw [andSeparator, hk]
        rw [hs, Token.depthAfter_of_keyword? hk]
        exact ih h
      · next hk =>
        obtain ⟨rfl, h⟩ := Bool.and_eq_true_iff.1 h
        have hs : andSeparator true t = (false, false) := by rw [andSeparator, hk]; rfl
        rw [hs, Token.depthAfter_of_keyword? hk]
        exact ih h
      · next hb ha =>
        have hs : andSeparator noted t = (false, noted) := by
          rw [andSeparator]
          split
          · next hk => exact absurd hk hb
          · next hk => exact absurd hk ha
          · rfl
        rw [hs]
        exact ih h
    · next hd =>
      rw [if_neg hd]
      exact ih h

theorem listItems_intercalate (ht : t.isSymbol ',' = true)
    (hp : ∀ p ∈ parts, p ≠ [] ∧ depthFrom 0 p = 0 ∧ CommaFree p) :
    listItems ([t].intercalate parts) = parts := by
  apply filter_splitOutside_intercalate_of_forall
  · rw [commaSeparator, ht]
  · intro p hm
    obtain ⟨hne, hd, hc⟩ := hp p hm
    exact ⟨hne, by rw [passOver_comma hc, hd]⟩

theorem conjuncts_intercalate (ht : t.keyword? = some .and)
    (hp : ∀ p ∈ parts, p ≠ [] ∧ depthFrom 0 p = 0 ∧ closesBetween false 0 p = true) :
    conjuncts ([t].intercalate parts) = parts := by
  apply filter_splitOutside_intercalate_of_forall
  · simp [andSeparator, ht]
  · intro p hm
    obtain ⟨hne, hd, hc⟩ := hp p hm
    exact ⟨hne, by rw [passOver_and hc, hd]⟩

end SqlWalk
