import SqlWalk.Proofs.Lexing.Closed
import SqlWalk.Proofs.Query.Outline

namespace SqlWalk

open Token

variable {d n : Nat} {t u : Token} {ts us : List Token} {s x : List Char}

/-- The parentheses match, where some are open before the first token. -/
def isBalanced : (opened : Nat) → List Token → Bool
  | n, [] => n == 0
  | n, t :: ts =>
    if t.isSymbol '(' then isBalanced (n + 1) ts
    else if t.isSymbol ')' then n != 0 && isBalanced (n - 1) ts
    else isBalanced n ts

/-- A text that can stand in parentheses. -/
structure Enclosable (s : String) : Prop where
  closed : Closed s.toList
  balanced : isBalanced 0 (tokenize s.toList) = true

instance (s : String) : Decidable (Enclosable s) :=
  decidable_of_iff (Closed s.toList ∧ isBalanced 0 (tokenize s.toList) = true)
    ⟨fun ⟨hc, hb⟩ => ⟨hc, hb⟩, fun ⟨hc, hb⟩ => ⟨hc, hb⟩⟩

def literal (s : String) : String :=
  .ofList (quoted s.toList)

def openToken : Token :=
  ⟨.symbol, ['('], false⟩

def closeToken : Token :=
  ⟨.symbol, [')'], false⟩

theorem skeleton_of_isBalanced (h : isBalanced n ts = true) (hd : d ≠ 0) (us : List Token) :
    skeleton (d + n) (ts ++ us) = skeleton d us := by
  induction ts generalizing n with
  | nil =>
    have hn : n = 0 := by simpa [isBalanced] using h
    rw [hn]
    rfl
  | cons t ts ih =>
    rw [isBalanced] at h
    have hnested (hz : t.depthAfter (d + n) ≠ 0) :
        skeleton (d + n) (t :: ts ++ us) = skeleton (t.depthAfter (d + n)) (ts ++ us) :=
      skeleton_nested ⟨by omega, hz⟩
    split at h
    · next ho =>
      have ht : t.depthAfter (d + n) = d + (n + 1) := by simp [depthAfter, ho, Nat.add_assoc]
      rw [hnested (by omega), ht, ih h]
    · next ho =>
      split at h
      · next hc =>
        simp only [Bool.and_eq_true, bne_iff_ne] at h
        have ht : t.depthAfter (d + n) = d + (n - 1) := by
          simp only [depthAfter, ho, hc, Bool.false_eq_true, if_false, if_true]
          omega
        rw [hnested (by omega), ht, ih h.2]
      · next hc =>
        have ht : t.depthAfter (d + n) = d + n := by simp [depthAfter, ho, hc]
        rw [hnested (by omega), ht, ih h]

theorem skeleton_group (ht : t.isSymbol '(' = true) (hu : u.isSymbol ')' = true)
    (h : isBalanced 0 ts = true) (d : Nat) (us : List Token) :
    skeleton d (t :: (ts ++ u :: us)) =
      (if d = 0 then [t.bare, u.bare] else []) ++ skeleton d us := by
  have hopen : t.depthAfter d = d + 1 := by simp [depthAfter, ht]
  have hclose : u.depthAfter (d + 1) = d := by
    have ho : u.isSymbol '(' = false := isSymbol_ne hu (by decide)
    simp [depthAfter, ho, hu]
  have hinner : skeleton (d + 1) (ts ++ u :: us) = skeleton (d + 1) (u :: us) :=
    skeleton_of_isBalanced h (Nat.succ_ne_zero d) (u :: us)
  by_cases hd : d = 0
  · subst hd
    have hn : ¬u.isNested 1 := fun h => h.2 hclose
    rw [skeleton_zero_cons, hopen, hinner, skeleton_not_nested hn, hclose]
    rfl
  · have ht : t.isNested d := ⟨hd, by omega⟩
    have hu : u.isNested (d + 1) := ⟨Nat.succ_ne_zero d, by omega⟩
    rw [skeleton_nested ht, hopen, hinner, skeleton_nested hu, hclose, if_neg hd]
    rfl

theorem skeleton_congr (h : ts.map toLexeme = us.map toLexeme) (d : Nat) :
    skeleton d ts = skeleton d us := by
  induction ts generalizing d us with
  | nil => rw [List.map_eq_nil_iff.1 h.symm]
  | cons t ts ih =>
    cases us with
    | nil => cases h
    | cons u us =>
      obtain ⟨kind, text, spaced⟩ := t
      obtain ⟨kind', text', spaced'⟩ := u
      simp only [List.map_cons, toLexeme, List.cons.injEq, Lexeme.mk.injEq,
        LexemeKind.token.injEq] at h
      obtain ⟨⟨rfl, rfl⟩, h⟩ := h
      rw [skeleton, skeleton, ih h]
      rfl

theorem scan_parenthesis {c : Char} (hc : c = '(' ∨ c = ')') (r : List Char) :
    scan (c :: r) = ⟨.token .symbol, [c]⟩ :: scan r := by
  rcases hc with rfl | rfl
  · exact scan_cons '(' r
  · exact scan_cons ')' r

theorem map_toLexeme_group (hs : Closed s) (hx : Closed x) (r : List Char) :
    (tokenize (s ++ '(' :: (x ++ ')' :: r))).map toLexeme =
      (tokenize s ++ openToken :: (tokenize x ++ closeToken :: tokenize r)).map toLexeme := by
  have hopen : scan (s ++ '(' :: (x ++ ')' :: r)) = scan s ++ scan ('(' :: (x ++ ')' :: r)) := by
    apply hs.scan_append
    rintro d ⟨⟩
    decide
  have hclose : scan (x ++ ')' :: r) = scan x ++ scan (')' :: r) := by
    apply hx.scan_append
    rintro d ⟨⟩
    decide
  rw [map_toLexeme_tokenize, hopen, scan_parenthesis (.inl rfl), hclose, scan_parenthesis (.inr rfl)]
  simp [map_toLexeme_tokenize, toLexeme, Lexeme.isGap, openToken, closeToken]

theorem map_toLexeme_literal (hs : Closed s) (hq : s.getLast? ≠ some '\x27') {r : List Char}
    (hr : r.head? ≠ some '\x27') (x : List Char) :
    (tokenize (s ++ (quoted x ++ r))).map toLexeme =
      (tokenize s ++ ⟨.str, quoted x, false⟩ :: tokenize r).map toLexeme := by
  have hlit : scan (s ++ (quoted x ++ r)) = scan s ++ scan (quoted x ++ r) :=
    hs.scan_append_quote hq _
  rw [map_toLexeme_tokenize, hlit, scan_quoted_append x hr]
  simp [map_toLexeme_tokenize, toLexeme, Lexeme.isGap]

theorem skeleton_tokenize_group (hs : Closed s) (hx : Closed x)
    (hb : isBalanced 0 (tokenize x) = true) (r : List Char) :
    skeleton 0 (tokenize (s ++ '(' :: (x ++ ')' :: r))) = skeleton 0 (tokenize s) ++
      ((if depthFrom 0 (tokenize s) = 0 then [openToken.bare, closeToken.bare] else []) ++
        skeleton (depthFrom 0 (tokenize s)) (tokenize r)) := by
  rw [skeleton_congr (map_toLexeme_group hs hx r), skeleton_append, skeleton_group rfl rfl hb]

theorem skeleton_tokenize_literal (hs : Closed s) (hq : s.getLast? ≠ some '\x27') {r : List Char}
    (hr : r.head? ≠ some '\x27') (x : List Char) :
    skeleton 0 (tokenize (s ++ (quoted x ++ r))) =
      skeleton 0 (tokenize s ++ ⟨.str, [], false⟩ :: tokenize r) := by
  rw [skeleton_congr (map_toLexeme_literal hs hq hr x), skeleton_append, skeleton_append]
  rfl

namespace Query

/-- White space and comments count only as far as they keep tokens from touching. -/
theorem ofText_spelling :
    (∀ s s' : String,
      (tokenize s.toList).map toLexeme = (tokenize s'.toList).map toLexeme →
      touching s.toList = touching s'.toList → ofText s = ofText s') ∧
    ∀ s : String, ofText (fragment (tokenize s.toList)) = ofText s := by
  refine ⟨?_, ?_⟩
  · intro s s' htokens htouching
    rw [ofText, ofText, tokenize_congr htokens htouching]
  · intro s
    rw [ofText, ofText, fragment, String.toList_ofList, tokenize_join (legible_tokenize _),
      respaced_tokenize]

theorem ofText_spelling_comments :
    let s := "SELECT t.a FROM t"
    let s' := "\n SELECT/* b */t.a\tFROM t "
    (tokenize s.toList).map toLexeme = (tokenize s'.toList).map toLexeme ∧
      touching s.toList = touching s'.toList ∧ ofText s = ofText s' := by
  intro s s'
  have htokens : (tokenize s.toList).map toLexeme = (tokenize s'.toList).map toLexeme := by decide
  have htouching : touching s.toList = touching s'.toList := by decide
  exact ⟨htokens, htouching, ofText_spelling.1 s s' htokens htouching⟩

theorem outline_ofText_congr {s s' : String}
    (h : skeleton 0 (tokenize s.toList) = skeleton 0 (tokenize s'.toList)) :
    (ofText s).outline = (ofText s').outline := by
  rw [ofText, ofText, ← outline_skeleton, h, outline_skeleton]

/-- The outline does not depend on what stands in a group of parentheses or in a literal. -/
theorem outline_ofText_nested (before after : String) (hs : Closed before.toList) :
    (∀ x y : String, Enclosable x → Enclosable y →
      (ofText (before ++ "(" ++ x ++ ")" ++ after)).outline =
        (ofText (before ++ "(" ++ y ++ ")" ++ after)).outline) ∧
    (before.toList.getLast? ≠ some '\x27' → after.toList.head? ≠ some '\x27' →
      ∀ x y : String, (ofText (before ++ literal x ++ after)).outline =
        (ofText (before ++ literal y ++ after)).outline) := by
  have hgroup (x : String) :
      (before ++ "(" ++ x ++ ")" ++ after).toList =
        before.toList ++ '(' :: (x.toList ++ ')' :: after.toList) := by
    simp
  have hliteral (x : String) : (before ++ literal x ++ after).toList =
      before.toList ++ (quoted x.toList ++ after.toList) := by
    simp [literal]
  refine ⟨?_, ?_⟩
  · intro x y hx hy
    apply outline_ofText_congr
    rw [hgroup, hgroup, skeleton_tokenize_group hs hx.closed hx.balanced,
      skeleton_tokenize_group hs hy.closed hy.balanced]
  · intro hlast hhead x y
    apply outline_ofText_congr
    rw [hliteral, hliteral, skeleton_tokenize_literal hs hlast hhead,
      skeleton_tokenize_literal hs hlast hhead]

theorem outline_in_subquery :
    let before := "SELECT a FROM t WHERE a IN "
    let after := " AND b ORDER BY a"
    Closed before.toList ∧ Enclosable "SELECT c FROM u, v WHERE (d) AND e; " ∧ Enclosable "1" ∧
      before.toList.getLast? ≠ some '\x27' ∧ after.toList.head? ≠ some '\x27' ∧
      (ofText (before ++ "(" ++ "SELECT c FROM u, v WHERE (d) AND e; " ++ ")" ++ after)).outline =
        (ofText (before ++ "(" ++ "1" ++ ")" ++ after)).outline ∧
      (ofText (before ++ literal "\x27) FROM u WHERE (" ++ after)).outline =
        (ofText (before ++ literal "" ++ after)).outline := by
  intro before after
  have hs : Closed before.toList := by decide
  have hx : Enclosable "SELECT c FROM u, v WHERE (d) AND e; " := by decide
  have hy : Enclosable "1" := by decide
  have hlast : before.toList.getLast? ≠ some '\x27' := by decide
  have hhead : after.toList.head? ≠ some '\x27' := by decide
  obtain ⟨hgroup, hliteral⟩ := outline_ofText_nested before after hs
  exact ⟨hs, hx, hy, hlast, hhead, hgroup _ _ hx hy, hliteral hlast hhead _ _⟩

end Query
end SqlWalk
