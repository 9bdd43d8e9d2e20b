import SqlWalk.Proofs.Highlight.Marks

namespace SqlWalk

open Token

variable {t : Token} {ts us name : List Token} {parts : List (List Char)} {c : List Char}
  {fragment qualifier : String} {q : Query} {r : TableRef}

def partTexts (name : List Token) : List (List Char) :=
  (nameParts name).map (·.text)

def chainText (parts : List (List Char)) : String :=
  .ofList (List.intercalate ['.'] parts)

/-- A text that is a dotted name with these parts, whatever gaps there are around its dots. -/
def IsChain (text : String) (parts : List (List Char)) : Prop :=
  isDottedName (tokenize text.toList) = true ∧ partTexts (tokenize text.toList) = parts

instance (text : String) (parts : List (List Char)) : Decidable (IsChain text parts) :=
  inferInstanceAs (Decidable (_ ∧ _))

/-- A dotted name with these parts stands in a text and is part of no longer one. -/
def HasChain (text : String) (parts : List (List Char)) : Prop :=
  ∃ before name after, tokenize text.toList = before ++ name ++ after ∧
    MaximalName before name after ∧ partTexts name = parts

theorem hasChain_iff : HasChain fragment parts ↔
    ∃ ps ∈ chains (tokenize fragment.toList), ps.map (·.text) = parts := by
  constructor
  · rintro ⟨before, name, after, hts, hm, hparts⟩
    exact ⟨nameParts name, mem_chains_iff.2 ⟨before, name, after, hts, hm, rfl⟩, hparts⟩
  · rintro ⟨_, hps, hparts⟩
    obtain ⟨before, name, after, hts, hm, rfl⟩ := mem_chains_iff.1 hps
    exact ⟨before, name, after, hts, hm, hparts⟩

theorem qualifierText_eq (ps : List Token) :
    qualifierText ps = chainText (ps.map (·.text)).dropLast := by
  rw [qualifierText, chainText, List.map_dropLast]

theorem HasChain.mem_qualifiers (h : HasChain fragment (parts ++ [c])) (hne : parts ≠ []) :
    chainText parts ∈ qualifiers fragment := by
  obtain ⟨before, name, after, hts, hm, hparts⟩ := h
  refine mem_qualifiers_iff.2 ⟨before, name, after, hts, hm, ?_, ?_⟩
  · have hlength := congrArg List.length hparts
    have hpos := List.length_pos_iff.2 hne
    simp only [partTexts, List.length_map, List.length_append, List.length_singleton] at hlength
    omega
  · rw [qualifierText_eq]
    change chainText (partTexts name).dropLast = chainText parts
    rw [hparts, List.dropLast_concat]

theorem length_flatMap_spacedText (ts : List Token) :
    (ts.flatMap spacedText).length = (ts.flatMap (·.text)).length + ts.countP spaced := by
  induction ts with
  | nil => rfl
  | cons t ts ih =>
    rw [List.flatMap_cons, List.flatMap_cons, List.length_append, List.length_append, ih]
    cases hs : t.spaced with
    | true =>
      rw [List.countP_cons_of_pos hs, spacedText, if_pos hs, List.length_cons]
      omega
    | false =>
      have hneg : ¬t.spaced = true := by rw [hs]; exact Bool.false_ne_true
      rw [List.countP_cons_of_neg hneg, spacedText, if_neg hneg]
      omega

theorem flatMap_spacedText_eq_iff :
    ts.flatMap spacedText = ts.flatMap (·.text) ↔ ∀ t ∈ ts, t.spaced = false := by
  constructor
  · -- Equal texts are equally long, so there is no room for a space.
    intro h
    have hlength := length_flatMap_spacedText ts
    rw [h] at hlength
    have hnone : ts.countP spaced = 0 := by omega
    simpa using List.countP_eq_zero.1 hnone
  · intro h
    refine List.flatMap_congr fun t ht => ?_
    rw [spacedText, h t ht]
    rfl

theorem flatMap_text_of_continuesName (h : continuesName us = true) :
    us.flatMap (·.text) = (partTexts us).flatMap ('.' :: ·) := by
  fun_induction continuesName us with
  | case1 => rfl
  | case2 => cases h
  | case3 dot t ts ih =>
    obtain ⟨hd, hts⟩ := Bool.and_eq_true_iff.1 h
    obtain ⟨hdot, ht⟩ := Bool.and_eq_true_iff.1 hd
    have htext : dot.text = ['.'] := eq_of_beq (Bool.and_eq_true_iff.1 hdot).2
    rw [partTexts, nameParts_continue hdot ht, List.map_cons, List.flatMap_cons, List.flatMap_cons,
      List.flatMap_cons, ih hts, htext]
    rfl

theorem intercalate_cons (x : List Char) (xs : List (List Char)) :
    List.intercalate ['.'] (x :: xs) = x ++ xs.flatMap ('.' :: ·) := by
  induction xs generalizing x with
  | nil => simp
  | cons y xs ih => rw [List.intercalate_cons_cons, ih, List.flatMap_cons]; simp

/-- A dotted name reads as its parts with dots between them exactly if it has no gaps. -/
theorem fragment_eq_chainText_iff (h : isDottedName name = true) :
    Token.fragment name = chainText (partTexts name) ↔
      ∀ t ∈ respaced false name, t.spaced = false := by
  obtain ⟨t, ts, rfl, ht, hts⟩ := exists_cons_of_isDottedName h
  have hparts : partTexts (t :: ts) = t.text :: partTexts ts := by
    rw [partTexts, nameParts_cons_of_isName ht, List.map_cons, partTexts]
  rw [Token.fragment, chainText, hparts, intercalate_cons, ← flatMap_text_of_continuesName hts,
    String.ofList_inj, join, List.append_cancel_left_eq, flatMap_spacedText_eq_iff, respaced,
    List.forall_mem_cons]
  exact (and_iff_right rfl).symm

theorem isDottedName_respaced (gap : Bool) (ts : List Token) :
    isDottedName (respaced gap ts) = isDottedName ts := by
  cases ts <;> rfl

theorem partTexts_respaced (gap : Bool) (ts : List Token) :
    partTexts (respaced gap ts) = partTexts ts := by
  cases ts with
  | nil => rfl
  | cons t ts =>
    have hdot : Token.isSymbol { t with spaced := gap } '.' = t.isSymbol '.' := rfl
    rw [respaced, partTexts, partTexts, nameParts, nameParts, List.filter_cons, List.filter_cons,
      hdot]
    split <;> rfl

namespace Query

theorem Consistent.resolve?_eq_some_key_iff (h : q.Consistent) (hr : r ∈ q.tableRefs)
    (ha : r.alias? = none) : q.resolve? qualifier = some r.key ↔ r.name = qualifier := by
  have hkey : r.key = r.name := by rw [TableRef.key, ha]; rfl
  constructor
  · intro hq
    rcases h.resolve?_eq_some_iff.1 hq with ⟨-, he⟩ | ⟨-, refs, r', refs', hrefs, hname, hk, -⟩
    · rw [← hkey, he]
    · have hr' : r' ∈ q.tableRefs := by simp [hrefs]
      rwa [← h.eq_of_key_eq hr' hr hk]
  · rintro rfl
    rw [← hkey]
    exact h.resolve?_key hr

/-- A table is found by its dotted name as a qualifier exactly if that name has no gaps. -/
theorem resolve?_chain (s : String) (hr : r ∈ (ofText s).tableRefs) (ha : r.alias? = none)
    (hn : IsChain r.name parts) (hf : HasChain fragment (parts ++ [c])) :
    chainText parts ∈ qualifiers fragment ∧
      ((ofText s).resolve? (chainText parts) = some r.key ↔
        ∀ t ∈ tokenize r.name.toList, t.spaced = false) ∧
      ∃ name, name <:+: tokenize s.toList ∧ tokenize r.name.toList = respaced false name := by
  obtain ⟨name, hname, hfragment⟩ := name_of_mem_tableRefs hr
  have hlegible : Legible name := Legible.of_infix (legible_tokenize s.toList) hname
  have htokens : tokenize r.name.toList = respaced false name := by
    rw [hfragment, Token.fragment, String.toList_ofList, tokenize_join hlegible]
  obtain ⟨hd, hparts⟩ := hn
  rw [htokens, isDottedName_respaced] at hd
  rw [htokens, partTexts_respaced] at hparts
  refine ⟨hf.mem_qualifiers ?_, ?_, name, hname, htokens⟩
  · obtain ⟨t, ts, rfl, ht, -⟩ := exists_cons_of_isDottedName hd
    rw [← hparts, partTexts, nameParts_cons_of_isName ht]
    exact List.cons_ne_nil _ _
  · have hq : (ofText s).Consistent := consistent_ofTokens (visible_tokenize s.toList)
    rw [hq.resolve?_eq_some_key_iff hr ha, htokens, ← fragment_eq_chainText_iff hd, hparts,
      hfragment]

theorem resolve?_chain_quoted :
    let s := "SELECT * FROM app.\x22User s\x22, logs WHERE app\n.\x22User s\x22 . id = 1"
    let r : TableRef := ⟨"app.\x22User s\x22", none, .source⟩
    let fragment := "app .\x22User s\x22 . id = 1"
    let parts := ["app".toList, "\x22User s\x22".toList]
    r ∈ (ofText s).tableRefs ∧ IsChain r.name parts ∧ HasChain fragment (parts ++ ["id".toList]) ∧
      fragment ∈ (ofText s).whereConditions ∧ chainText parts ∈ qualifiers fragment ∧
      (ofText s).resolve? (chainText parts) = some r.key := by
  intro s r fragment parts
  have hr : r ∈ (ofText s).tableRefs := by decide +kernel
  have hn : IsChain r.name parts := by decide +kernel
  have hf : HasChain fragment (parts ++ ["id".toList]) := hasChain_iff.2 (by decide +kernel)
  obtain ⟨hmem, hfound, -⟩ := resolve?_chain s hr rfl hn hf
  exact ⟨hr, hn, hf, by decide +kernel, hmem, hfound.2 (by decide +kernel)⟩

/-- A space next to a dot in the name of a table hides it from the qualifiers that mean it. -/
theorem not_resolve?_chain :
    ¬∀ (s : String) (r : TableRef), r ∈ (ofText s).tableRefs → r.alias? = none →
      ∀ (parts : List (List Char)) (c : List Char) (fragment : String), IsChain r.name parts →
        HasChain fragment (parts ++ [c]) →
          chainText parts ∈ qualifiers fragment ∧
            (ofText s).resolve? (chainText parts) = some r.key := by
  intro h
  let s := "SELECT public.users.id FROM public . users"
  let r : TableRef := ⟨"public . users", none, .source⟩
  let parts := ["public".toList, "users".toList]
  have hr : r ∈ (ofText s).tableRefs := by decide +kernel
  have hn : IsChain r.name parts := by decide +kernel
  have hf : HasChain "public.users.id" (parts ++ ["id".toList]) :=
    hasChain_iff.2 (by decide +kernel)
  obtain ⟨-, hfound⟩ := h s r hr rfl parts _ _ hn hf
  have hnone : (ofText s).resolve? (chainText parts) = none := by decide +kernel
  rw [hnone] at hfound
  cases hfound

end Query
end SqlWalk
