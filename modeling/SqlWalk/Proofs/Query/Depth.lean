import SqlWalk.Token

namespace SqlWalk

variable {P Q : Token → List Token → Prop} {d : Nat} {t : Token} {ts us : List Token} {k : Keyword}

def depthFrom (d : Nat) (ts : List Token) : Nat :=
  ts.foldl Token.depthAfter d

@[simp] theorem depthFrom_nil (d : Nat) : depthFrom d [] = d :=
  rfl

@[simp] theorem depthFrom_cons (d : Nat) (t : Token) (ts : List Token) :
    depthFrom d (t :: ts) = depthFrom (t.depthAfter d) ts :=
  rfl

theorem depthFrom_append (d : Nat) (ts us : List Token) :
    depthFrom d (ts ++ us) = depthFrom (depthFrom d ts) us :=
  List.foldl_append

/-- Each token outside parentheses, seen with the tokens behind it, has a property. -/
def Outside (P : Token → List Token → Prop) : (depth : Nat) → List Token → Prop
  | _, [] => True
  | d, t :: ts => (d = 0 → P t ts) ∧ Outside P (t.depthAfter d) ts

instance Outside.decidable [∀ t ts, Decidable (P t ts)] :
    (d : Nat) → (ts : List Token) → Decidable (Outside P d ts)
  | _, [] => inferInstanceAs (Decidable True)
  | d, t :: ts =>
    have := Outside.decidable (t.depthAfter d) ts
    inferInstanceAs (Decidable ((d = 0 → P t ts) ∧ Outside P (t.depthAfter d) ts))

theorem outside_append : Outside P d (ts ++ us) ↔
    Outside (fun t rest => P t (rest ++ us)) d ts ∧ Outside P (depthFrom d ts) us := by
  induction ts generalizing d with
  | nil => simp [Outside]
  | cons t ts ih =>
    simp only [List.cons_append, Outside, ih, depthFrom_cons, and_assoc]

theorem Outside.of_suffix (h : Outside P d ts)
    (hQ : ∀ t us, Outside P 0 (t :: us) → (t :: us) <:+ ts → Q t us) : Outside Q d ts := by
  induction ts generalizing d with
  | nil => trivial
  | cons t ts ih =>
    refine ⟨?_, ih h.2 fun u us hu hs => hQ u us hu (hs.trans (List.suffix_cons t ts))⟩
    intro hd
    subst hd
    exact hQ t ts h (List.suffix_refl _)

theorem Outside.imp (h : Outside P d ts) (hPQ : ∀ t us, P t us → Q t us) : Outside Q d ts :=
  h.of_suffix fun t us ht _ => hPQ t us (ht.1 rfl)

namespace Token

theorem isKeyword_iff : t.isKeyword k = true ↔ t.keyword? = some k := by
  simp [isKeyword]

theorem kind_of_keyword? (h : t.keyword? = some k) : t.kind = .word := by
  cases hk : t.kind with
  | word => rfl
  | _ => simp [keyword?, hk] at h

theorem isSymbol_ne {a b : Char} (h : t.isSymbol a = true) (hab : a ≠ b) :
    t.isSymbol b = false := by
  simp_all [isSymbol]

theorem isSymbol_of_keyword? (h : t.keyword? = some k) (c : Char) : t.isSymbol c = false := by
  simp [isSymbol, kind_of_keyword? h]

theorem depthAfter_of_keyword? (h : t.keyword? = some k) (d : Nat) : t.depthAfter d = d := by
  simp [depthAfter, isSymbol_of_keyword? h]

end Token

theorem depthFrom_keywords (h : ∀ t ∈ ts, t.keyword?.isSome = true) (d : Nat) :
    depthFrom d ts = d := by
  induction ts with
  | nil => rfl
  | cons t ts ih =>
    obtain ⟨ht, hts⟩ := List.forall_mem_cons.1 h
    obtain ⟨k, hk⟩ := Option.isSome_iff_exists.1 ht
    rw [depthFrom_cons, Token.depthAfter_of_keyword? hk, ih hts]

end SqlWalk
