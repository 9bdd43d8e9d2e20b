import SqlWalk.Proofs.Lexing.Fragment
import SqlWalk.Keyword

namespace SqlWalk

open Token

variable {a b s : List Char} {ts us : List Token} {t : Token} {gap : Bool}

def Keyword.token (gap : Bool) (k : Keyword) : Token :=
  ⟨.word, k.spelling.toList, gap⟩

def commaToken : Token :=
  ⟨.symbol, [','], false⟩

@[simp] theorem Keyword.keyword?_token (gap : Bool) (k : Keyword) :
    (k.token gap).keyword? = some k := by
  cases k <;> cases gap <;> decide

/-- Text that ends outside every literal and comment: a word behind it is read as that word. -/
def Closed (s : List Char) : Prop :=
  ∃ gap, tokenize (s ++ [' ', 'x']) = tokenize s ++ [⟨.word, ['x'], gap⟩]

instance (s : List Char) : Decidable (Closed s) :=
  inferInstanceAs (Decidable (∃ _ : Bool, _))

/-- A text that can stand between others, with its tokens. -/
structure Spells (s : List Char) (ts : List Token) : Prop where
  text : ts.flatMap spacedText = s
  legible : Legible ts
  closed : ∀ t ∈ ts.getLast?, t.LexesBefore [' ']
  inert : ∀ c ∈ s.head?, isInert c = true

theorem Closed.lexesBefore (h : Closed s) : ∀ t ∈ (tokenize s).getLast?, t.LexesBefore [' '] := by
  intro t ht
  obtain ⟨gap, hx⟩ := h
  have hl := legible_tokenize (s ++ [' ', 'x'])
  obtain ⟨ts, hts⟩ := List.getLast?_eq_some_iff.1 ht
  rw [hx, hts, List.append_assoc] at hl
  have hlast := hl.of_append.2.1
  apply hlast.of_delimits
  refine .inr ⟨?_, ?_⟩
  · cases gap <;> simp [spacedText]
  · simp [isInert_space]

theorem lexesBefore_respaced {r : List Char} (h : ∀ t ∈ ts.getLast?, t.LexesBefore r) (gap : Bool) :
    ∀ t ∈ (respaced gap ts).getLast?, t.LexesBefore r := by
  intro t ht
  cases ts with
  | nil => cases ht
  | cons u us =>
    cases us with
    | nil =>
      cases ht
      exact h u rfl
    | cons v vs => exact h t ht

namespace Spells

theorem nil : Spells [] [] :=
  ⟨rfl, trivial, nofun, nofun⟩

theorem append (ha : Spells a ts) (hb : Spells b us) : Spells (a ++ b) (ts ++ us) where
  text := by rw [List.flatMap_append, ha.text, hb.text]
  legible := ha.legible.append hb.legible ha.closed (by rw [hb.text]; exact hb.inert)
  closed := by
    intro t ht
    rw [List.getLast?_append] at ht
    cases hu : us.getLast? with
    | none =>
      rw [hu, Option.none_or] at ht
      exact ha.closed t ht
    | some u =>
      rw [hu, Option.some_or] at ht
      exact hb.closed t (hu ▸ ht)
  inert := by
    intro c hc
    cases a with
    | nil => exact hb.inert c hc
    | cons d a => exact ha.inert c hc

theorem of_closed (hs : Closed s) (hj : join (tokenize s) = s) (hn : s ≠ []) :
    Spells (' ' :: s) (respaced true (tokenize s)) where
  text := by
    cases ht : tokenize s with
    | nil =>
      rw [ht] at hj
      exact absurd hj.symm hn
    | cons t ts =>
      rw [ht] at hj
      exact congrArg (' ' :: ·) hj
  legible := legible_respaced.2 (legible_tokenize s)
  closed := lexesBefore_respaced hs.lexesBefore true
  inert := by
    intro c hc
    cases hc
    exact isInert_space

theorem comma : Spells [','] [commaToken] where
  text := rfl
  legible := ⟨⟨',', [], rfl, by decide, rfl⟩, trivial⟩
  closed := by
    intro t ht
    cases ht
    exact ⟨',', [], rfl, by decide, rfl⟩
  inert := by
    intro c hc
    cases hc
    rfl

theorem keyword (k : Keyword) : Spells (' ' :: k.spelling.toList) [k.token true] := by
  have hk : tokenize k.spelling.toList = [k.token false] := by cases k <;> decide
  have hc : Closed k.spelling.toList := by cases k <;> decide
  have hs := of_closed hc (by rw [hk]; exact List.append_nil _) (by cases k <;> decide)
  rw [hk] at hs
  exact hs

theorem tokenize_eq (h : Spells (' ' :: s) (respaced true (t :: ts))) :
    tokenize s = respaced false (t :: ts) := by
  have hj : join (t :: ts) = s := (List.cons.inj h.text).2
  rw [← hj]
  exact tokenize_join (legible_respaced.1 h.legible)

theorem closed_of_spaced (h : Spells (' ' :: s) (respaced true (t :: ts))) : Closed s := by
  have hword : Spells [' ', 'x'] [⟨.word, ['x'], true⟩] :=
    .of_closed (s := ['x']) (by decide) (by decide) (by decide)
  have happ : tokenize (s ++ [' ', 'x']) = respaced false (t :: (ts ++ [⟨.word, ['x'], true⟩])) :=
    (h.append hword).tokenize_eq
  exact ⟨true, by rw [happ, h.tokenize_eq]; rfl⟩

end Spells

end SqlWalk
