import SqlWalk.Query.Analysis
import SqlWalk.Proofs.Lexing.Legible
import SqlWalk.Proofs.Query.Boundary
import SqlWalk.Proofs.Query.Keys
import SqlWalk.Proofs.Query.Reference

namespace SqlWalk

open Token

variable {separator : Bool → Token → Bool × Bool} {noted : Bool} {d : Nat} {ts body p : List Token}
  {ps : List (List Token)} {split : List Token → List (List Token)} {kind : ClauseKind} {c : Clause}

/-- Stretches of a token list, the first of them where the list starts. -/
structure PartsOf (ts : List Token) (ps : List (List Token)) : Prop where
  head : ∀ p ∈ ps.head?, p <+: ts
  infix_of_mem : ∀ p ∈ ps, p <:+: ts

theorem PartsOf.push (h : PartsOf ts ps) (t : Token) : PartsOf (t :: ts) (pushToken t ps) := by
  cases ps with
  | nil =>
    have ht : [t] <+: t :: ts := List.prefix_append [t] ts
    refine ⟨?_, List.forall_mem_singleton.2 ht.isInfix⟩
    rintro p ⟨⟩
    exact ht
  | cons q qs =>
    have hq : t :: q <+: t :: ts := List.cons_prefix_cons.2 ⟨rfl, h.head q rfl⟩
    obtain ⟨-, hqs⟩ := List.forall_mem_cons.1 h.infix_of_mem
    refine ⟨?_, List.forall_mem_cons.2 ⟨hq.isInfix, fun p hp => List.infix_cons (hqs p hp)⟩⟩
    rintro p ⟨⟩
    exact hq

theorem PartsOf.cut (h : PartsOf ts ps) (t : Token) : PartsOf (t :: ts) ([] :: ps) where
  head := by
    rintro p ⟨⟩
    exact List.nil_prefix
  infix_of_mem := List.forall_mem_cons.2
    ⟨List.nil_infix, fun p hp => List.infix_cons (h.infix_of_mem p hp)⟩

theorem partsOf_splitOutside (separator : Bool → Token → Bool × Bool) (noted : Bool) (d : Nat)
    (ts : List Token) : PartsOf ts (splitOutside separator noted d ts) := by
  induction ts generalizing noted d with
  | nil =>
    refine ⟨?_, List.forall_mem_singleton.2 List.infix_rfl⟩
    rintro p ⟨⟩
    exact List.prefix_rfl
  | cons t ts ih =>
    rw [splitOutside]
    split
    · split
      · exact (ih _ 0).cut t
      · exact (ih _ _).push t
    · exact (ih noted _).push t

theorem infix_of_mem_splitOutside (h : p ∈ splitOutside separator noted d ts) : p <:+: ts :=
  (partsOf_splitOutside separator noted d ts).infix_of_mem p h

/-- Parts of a token list that are stretches of it, none of them empty. -/
def Cuts (split : List Token → List (List Token)) : Prop :=
  ∀ ts, ∀ p ∈ split ts, p ≠ [] ∧ p <:+: ts

theorem cuts_filter_splitOutside (separator : Bool → Token → Bool × Bool) :
    Cuts fun ts => (splitOutside separator false 0 ts).filter (!·.isEmpty) := by
  intro ts p hp
  obtain ⟨hm, he⟩ := List.mem_filter.1 hp
  exact ⟨by simpa using he, infix_of_mem_splitOutside hm⟩

theorem cuts_listItems : Cuts listItems :=
  cuts_filter_splitOutside commaSeparator

theorem cuts_conjuncts : Cuts conjuncts :=
  cuts_filter_splitOutside andSeparator

theorem exists_flag_selectList (ts : List Token) : ∃ flag, flag ++ (selectList ts).2 = ts ∧
    ∀ t ∈ flag, t.keyword?.isSome = true := by
  cases ts with
  | nil => exact ⟨[], rfl, nofun⟩
  | cons t ts =>
    rw [selectList]
    split
    · next hk => exact ⟨[t], rfl, List.forall_mem_singleton.2 (by rw [hk]; rfl)⟩
    · next hk => exact ⟨[t], rfl, List.forall_mem_singleton.2 (by rw [hk]; rfl)⟩
    · exact ⟨[], rfl, nofun⟩

theorem selectList_suffix (ts : List Token) : (selectList ts).2 <:+ ts := by
  obtain ⟨flag, hflag, -⟩ := exists_flag_selectList ts
  exact ⟨flag, hflag⟩

namespace Statement

theorem body_infix (h : c ∈ (ofTokens ts).clauses) : c.body <:+: ts := by
  have hc : c.tokens <:+: (ofTokens ts).clauses.flatMap Clause.tokens :=
    List.infix_of_mem_flatten (List.mem_map_of_mem h)
  have hs : (ofTokens ts).clauses.flatMap Clause.tokens <:+: (ofTokens ts).tokens :=
    List.infix_append _ _ _
  rw [tokens_statement] at hs
  exact (List.suffix_append c.keywords c.body).isInfix.trans (hc.trans hs)

theorem body?_infix (h : (ofTokens ts).body? kind = some body) : body <:+: ts := by
  obtain ⟨c, hc, rfl⟩ := Option.map_eq_some_iff.1 h
  exact body_infix (List.mem_of_find?_eq_some hc)

theorem getD_body?_infix (ts : List Token) (kind : ClauseKind) :
    ((ofTokens ts).body? kind).getD [] <:+: ts := by
  cases h : (ofTokens ts).body? kind with
  | none => exact List.nil_infix
  | some body => exact body?_infix h

end Statement

namespace Token

def Visible (ts : List Token) : Prop :=
  ∀ t ∈ ts, t.text ≠ []

theorem Visible.of_infix (h : Visible ts) (hp : p <:+: ts) : Visible p :=
  fun t ht => h t (hp.subset ht)

theorem Visible.fragment_ne_empty (h : Visible ts) (hne : ts ≠ []) : fragment ts ≠ "" := by
  obtain ⟨t, ts, rfl⟩ := List.exists_cons_of_ne_nil hne
  have ht : t.text ≠ [] := h t List.mem_cons_self
  rw [fragment, Ne, String.ofList_eq_empty_iff, join, List.append_eq_nil_iff]
  exact fun he => ht he.1

theorem Legible.visible (h : Legible ts) : Visible ts := by
  induction ts with
  | nil => exact nofun
  | cons t ts ih => exact List.forall_mem_cons.2 ⟨h.1.text_ne_nil, ih h.2⟩

theorem Visible.clauseParts (h : Visible ts) (hs : Cuts split) {body : Option (List Token)}
    (hb : body.getD [] <:+: ts) : "" ∉ clauseParts split body := by
  intro he
  obtain ⟨p, hp, hf⟩ := List.mem_map.1 he
  obtain ⟨hne, hi⟩ := hs _ p hp
  exact (h.of_infix (hi.trans hb)).fragment_ne_empty hne hf

theorem Visible.clauseText? (h : Visible ts) {body : Option (List Token)}
    (hb : body.getD [] <:+: ts) : clauseText? body ≠ some "" := by
  intro he
  obtain ⟨p, hp, hf⟩ := Option.map_eq_some_iff.1 he
  obtain ⟨rfl, hne⟩ := Option.filter_eq_some_iff.1 hp
  exact (h.of_infix hb).fragment_ne_empty (by simpa using hne) hf

end Token

theorem visible_tokenize (s : List Char) : Visible (tokenize s) :=
  (legible_tokenize s).visible

theorem Statement.name_of_mem_joins {r : TableRef} {j : Join}
    (h : (r, j) ∈ (Statement.ofTokens ts).joins) : ∃ name, name <:+: ts ∧ r.name = fragment name := by
  obtain ⟨c, hc, hj⟩ := List.mem_filterMap.1 h
  split at hj
  · obtain ⟨name, hname, hr⟩ := Join.name_of_ofTokens? hj
    have hbody : c.body <:+: ts := body_infix hc
    exact ⟨name, hname.trans hbody, hr⟩
  · cases hj

theorem Query.name_of_mem_tableRefs {r : TableRef} (h : r ∈ (ofTokens ts).tableRefs) :
    ∃ name, name <:+: ts ∧ r.name = fragment name := by
  rw [ofTokens] at h
  split at h
  · next source hsource =>
    have hr := (foldl_addRef_sublist [] _).subset h
    rw [List.nil_append] at hr
    rcases List.mem_append.1 hr with hr | hr
    · obtain ⟨p, hp, hr⟩ := List.mem_filterMap.1 hr
      obtain ⟨name, hname, hr⟩ := TableRef.name_of_ofTokens? hr
      have hitem : p <:+: source := (cuts_listItems _ p hp).2
      exact ⟨name, hname.trans (hitem.trans (Statement.body?_infix hsource)), hr⟩
    · obtain ⟨⟨r, j⟩, hj, rfl⟩ := List.mem_map.1 hr
      exact Statement.name_of_mem_joins hj
  · cases h

end SqlWalk
