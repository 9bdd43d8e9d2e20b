import Mathlib.Data.List.Nodup
import Mathlib.Data.List.Pairwise
import SqlWalk.Query.Analysis

namespace SqlWalk

variable {refs rs : List TableRef} {r : TableRef} {key : String}

theorem addRef_of_mem (h : r.key ∈ refs.map TableRef.key) : addRef refs r = refs := by
  obtain ⟨r', hm, hk⟩ := List.mem_map.1 h
  exact if_pos (List.any_eq_true.2 ⟨r', hm, by rw [hk, beq_self_eq_true]⟩)

theorem addRef_of_notMem (h : r.key ∉ refs.map TableRef.key) : addRef refs r = refs ++ [r] := by
  refine if_neg fun hany => h ?_
  obtain ⟨r', hm, hk⟩ := List.any_eq_true.1 hany
  exact List.mem_map.2 ⟨r', hm, eq_of_beq hk⟩

theorem mem_keys_addRef : key ∈ (addRef refs r).map TableRef.key ↔
    key ∈ refs.map TableRef.key ∨ key = r.key := by
  by_cases h : r.key ∈ refs.map TableRef.key
  · rw [addRef_of_mem h]
    constructor
    · exact .inl
    · rintro (hkey | rfl)
      · exact hkey
      · exact h
  · simp [addRef_of_notMem h]

theorem nodup_keys_addRef (h : (refs.map TableRef.key).Nodup) (r : TableRef) :
    ((addRef refs r).map TableRef.key).Nodup := by
  by_cases hr : r.key ∈ refs.map TableRef.key
  · rwa [addRef_of_mem hr]
  · rw [addRef_of_notMem hr, List.map_append, List.map_singleton, ← List.concat_eq_append]
    exact h.concat hr

theorem addRef_sublist (refs : List TableRef) (r : TableRef) :
    (addRef refs r).Sublist (refs ++ [r]) := by
  by_cases h : r.key ∈ refs.map TableRef.key
  · rw [addRef_of_mem h]
    exact List.sublist_append_left refs [r]
  · rw [addRef_of_notMem h]

theorem mem_keys_foldl_addRef : key ∈ (rs.foldl addRef refs).map TableRef.key ↔
    key ∈ (refs ++ rs).map TableRef.key := by
  induction rs generalizing refs with
  | nil => simp
  | cons r rs ih =>
    rw [List.foldl_cons, ih, List.map_append, List.mem_append, mem_keys_addRef]
    simp [or_assoc]

theorem isEmpty_foldl_addRef (refs rs : List TableRef) :
    (rs.foldl addRef refs).isEmpty = (refs.isEmpty && rs.isEmpty) := by
  have hkeys : (rs.foldl addRef refs).map TableRef.key = [] ↔
      (refs ++ rs).map TableRef.key = [] := by
    simp only [List.eq_nil_iff_forall_not_mem, mem_keys_foldl_addRef]
  rw [List.map_eq_nil_iff, List.map_eq_nil_iff, List.append_eq_nil_iff] at hkeys
  rw [Bool.eq_iff_iff, Bool.and_eq_true, List.isEmpty_iff, List.isEmpty_iff, List.isEmpty_iff,
    hkeys]

theorem nodup_keys_foldl_addRef (h : (refs.map TableRef.key).Nodup) (rs : List TableRef) :
    ((rs.foldl addRef refs).map TableRef.key).Nodup := by
  induction rs generalizing refs with
  | nil => exact h
  | cons r rs ih => exact ih (nodup_keys_addRef h r)

theorem foldl_addRef_sublist (refs rs : List TableRef) :
    (rs.foldl addRef refs).Sublist (refs ++ rs) := by
  induction rs generalizing refs with
  | nil => exact List.sublist_append_left refs []
  | cons r rs ih =>
    rw [List.foldl_cons, List.append_cons]
    exact (ih (addRef refs r)).trans ((addRef_sublist refs r).append_right rs)

theorem pairwise_foldl_addRef (hs : ∀ r ∈ refs, r.origin = .source)
    (hj : ∀ r ∈ rs, r.origin = .join) :
    ((refs ++ rs).foldl addRef []).Pairwise fun a b => b.origin = .source → a.origin = .source := by
  refine List.Pairwise.sublist (foldl_addRef_sublist [] (refs ++ rs)) ?_
  rw [List.nil_append, List.pairwise_append]
  refine ⟨?_, ?_, fun a ha _ _ _ => hs a ha⟩
  · exact List.pairwise_of_forall_mem_list fun a ha _ _ _ => hs a ha
  · refine List.pairwise_of_forall_mem_list fun _ _ b hb h => ?_
    rw [hj b hb] at h
    cases h

/-- References with different keys are all kept. -/
theorem foldl_addRef (h : ((refs ++ rs).map TableRef.key).Nodup) :
    rs.foldl addRef refs = refs ++ rs := by
  induction rs generalizing refs with
  | nil => simp
  | cons r rs ih =>
    have hnew : r.key ∉ refs.map TableRef.key := by
      rw [List.map_append, List.nodup_append] at h
      obtain ⟨-, -, hne⟩ := h
      exact fun hr => hne _ hr _ List.mem_cons_self rfl
    rw [List.append_cons] at h ⊢
    rw [List.foldl_cons, addRef_of_notMem hnew, ih h]

end SqlWalk
