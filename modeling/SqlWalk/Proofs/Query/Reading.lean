import SqlWalk.Proofs.Lexing.Locality
import SqlWalk.Query.Cell

namespace SqlWalk

variable {c d : Char} {a b s r v : List Char}

theorem splitDots_ne_nil (s : List Char) : splitDots s ≠ [] := by
  fun_cases splitDots s <;> simp

theorem intercalate_splitDots (s : List Char) : ['.'].intercalate (splitDots s) = s := by
  fun_induction splitDots s with
  | case1 => rfl
  | case2 r ih =>
    obtain ⟨p, ps, hp⟩ := List.exists_cons_of_ne_nil (splitDots_ne_nil r)
    rw [hp] at ih ⊢
    rw [List.intercalate_cons_cons, ih]
    rfl
  | case3 c r h hs => exact absurd hs (splitDots_ne_nil r)
  | case4 c r h p ps hs ih =>
    rw [hs] at ih
    rw [List.intercalate_cons_cons_left, ih]

theorem splitDots_of_notMem (h : '.' ∉ s) : splitDots s = [s] := by
  induction s with
  | nil => rfl
  | cons c s ih =>
    rw [List.mem_cons, not_or] at h
    rw [splitDots, if_neg (Ne.symm h.1), ih h.2]

theorem splitDots_append (a b : List Char) :
    splitDots (a ++ '.' :: b) = splitDots a ++ splitDots b := by
  fun_induction splitDots a with
  | case1 => rfl
  | case2 r ih => rw [List.cons_append, splitDots, if_pos rfl, ih, List.cons_append]
  | case3 c r h hs => exact absurd hs (splitDots_ne_nil r)
  | case4 c r h p ps hs ih =>
    rw [List.cons_append, splitDots, if_neg h, ih, hs]
    rfl

theorem exists_of_beforeLastDot? (h : beforeLastDot? s = some a) :
    ∃ b, s = a ++ '.' :: b ∧ '.' ∉ b := by
  rw [beforeLastDot?] at h
  split at h
  · next hdot =>
    have hmem : '.' ∈ s.reverse := by simpa using hdot
    obtain ⟨x, y, hs, hx⟩ := List.eq_append_cons_of_mem hmem
    have hx' : ∀ c ∈ x, decide (c ≠ '.') = true := by
      intro c hc
      exact decide_eq_true fun he => hx (he ▸ hc)
    have hfront : s.reverse.dropWhile (· ≠ '.') = '.' :: y := by
      rw [hs, List.dropWhile_append_of_pos hx']
      rfl
    rw [hfront] at h
    cases h
    refine ⟨x.reverse, ?_, by simpa using hx⟩
    rw [← List.reverse_reverse s, hs]
    simp
  · cases h

theorem forall_mem_of_splitDots {P : Char → Prop} (hdot : P '.')
    (h : ∀ p ∈ splitDots s, ∀ c ∈ p, P c) : ∀ c ∈ s, P c := by
  fun_induction splitDots s with
  | case1 => exact nofun
  | case2 r ih =>
    obtain ⟨-, hr⟩ := List.forall_mem_cons.1 h
    exact List.forall_mem_cons.2 ⟨hdot, ih hr⟩
  | case3 c r hc hs => exact absurd hs (splitDots_ne_nil r)
  | case4 c r hc p ps hs ih =>
    rw [hs] at ih
    obtain ⟨hp, hps⟩ := List.forall_mem_cons.1 h
    obtain ⟨hc, hp⟩ := List.forall_mem_cons.1 hp
    exact List.forall_mem_cons.2 ⟨hc, ih (List.forall_mem_cons.2 ⟨hp, hps⟩)⟩

theorem forall_mem_of_isIdentifier (h : isIdentifier s = true) :
    ∀ c ∈ s, (c.isAlphanum || c == '_') = true := by
  cases s with
  | nil => exact nofun
  | cons c r =>
    obtain ⟨hc, hr⟩ := Bool.and_eq_true_iff.1 h
    refine List.forall_mem_cons.2 ⟨?_, List.all_eq_true.1 hr⟩
    rcases Bool.or_eq_true_iff.1 hc with hc | hc
    · simp [Char.isAlphanum, hc]
    · simp [hc]

theorem isColumnChar_of_isIdentifier (h : isIdentifier s = true) :
    ∀ c ∈ s, isColumnChar c = true := by
  intro c hc
  rw [isColumnChar, forall_mem_of_isIdentifier h c hc, Bool.true_or]

theorem isColumnChar_of_isColumn (h : isColumn s = true) : ∀ c ∈ s, isColumnChar c = true := by
  rw [isColumn, List.all_eq_true] at h
  exact forall_mem_of_splitDots (by decide) fun p hp => isColumnChar_of_isIdentifier (h p hp)

theorem isWordPart_of_isAlphanum (h : c.isAlphanum = true) : isWordPart c = true := by
  rcases Bool.or_eq_true_iff.1 h with h | h
  · simp [isWordPart, isAlphanumeric, isLetter_of_isAlpha h]
  · simp [isWordPart, isAlphanumeric_of_isDigit h]

theorem isColumnChar_of_isBlank (h : isBlank c = true) : isColumnChar c = false := by
  have hne (d : Char) (hd : isBlank d = false) : (c == d) = false := by
    rw [beq_eq_false_iff_ne]
    rintro rfl
    exact Bool.false_ne_true (hd.symm.trans h)
  have halpha : c.isAlphanum = false := by
    rw [Bool.eq_false_iff]
    intro hc
    exact Bool.false_ne_true ((isWordPart_of_isBlank h).symm.trans (isWordPart_of_isAlphanum hc))
  rw [isColumnChar, halpha, hne '_' (by decide), hne '.' (by decide)]
  rfl

theorem isColumnChar_of_head? (ha : ∀ d ∈ a, isBlank d = true) (r : List Char) :
    ∀ d ∈ (a ++ '=' :: r).head?, isColumnChar d = false := by
  cases a with
  | nil =>
    rintro d ⟨⟩
    decide
  | cons d a =>
    rintro _ ⟨⟩
    exact isColumnChar_of_isBlank (ha d List.mem_cons_self)

theorem unquote_cons (hc : c ≠ '\x27') (r : List Char) :
    unquote (c :: r) = (unquote r).map (c :: ·) := by
  rw [unquote, if_neg hc]
  · exact fun h _ => hc h
  · exact fun _ h _ => hc h

theorem unquote_escaped (r : List Char) :
    unquote ('\x27' :: '\x27' :: r) = (unquote r).map ('\x27' :: ·) :=
  rfl

theorem unquote_closed (hd : d ≠ '\x27') (r : List Char) : unquote ('\x27' :: d :: r) = none := by
  rw [unquote, if_pos rfl]
  · exact nofun
  · rintro r' - ⟨⟩
    exact hd rfl

theorem undoubled_cons (hc : c ≠ '\x22') (r : List Char) :
    undoubled (c :: r) = (undoubled r).map (c :: ·) := by
  rw [undoubled, if_neg hc]
  exact fun h _ => hc h

theorem undoubled_closed (hr : r ≠ []) : undoubled ('\x22' :: r) = none := by
  rw [undoubled, if_pos rfl]
  exact fun _ h => hr h

theorem literal?_cons (c : Char) (r : List Char) : literal? (c :: r) =
    if c = '\x27' then unquote r
    else if c = '\x22' then undoubled r
    else if (c :: r).all isBareChar then some (c :: r) else none := by
  split
  · next hc =>
    subst hc
    rfl
  · next hc =>
    split
    · next hd =>
      subst hd
      rfl
    · next hd => simp [literal?, hc, hd]

theorem unquote_doubled (s : List Char) : unquote (doubled '\x27' s ++ ['\x27']) = some s := by
  induction s with
  | nil => rfl
  | cons c s ih =>
    by_cases hc : c = '\x27'
    · subst hc
      have hd : doubled '\x27' ('\x27' :: s) = '\x27' :: '\x27' :: doubled '\x27' s := rfl
      rw [hd, List.cons_append, List.cons_append, unquote_escaped, ih]
      rfl
    · have hd : doubled '\x27' (c :: s) = c :: doubled '\x27' s := by simp [doubled, hc]
      rw [hd, List.cons_append, unquote_cons hc, ih]
      rfl

theorem eq_of_unquote (h : unquote s = some v) : s = doubled '\x27' v ++ ['\x27'] := by
  fun_induction unquote s generalizing v with
  | case1 => cases h
  | case2 =>
    cases h
    rfl
  | case3 r ih =>
    obtain ⟨w, hw, rfl⟩ := Option.map_eq_some_iff.1 h
    rw [ih hw]
    rfl
  | case4 => cases h
  | case5 c r _ _ hc ih =>
    obtain ⟨w, hw, rfl⟩ := Option.map_eq_some_iff.1 h
    rw [ih hw]
    simp [doubled, hc]

theorem eq_of_undoubled (h : undoubled s = some v) : s = v ++ ['\x22'] ∧ '\x22' ∉ v := by
  fun_induction undoubled s generalizing v with
  | case1 => cases h
  | case2 =>
    cases h
    exact ⟨rfl, List.not_mem_nil⟩
  | case3 => cases h
  | case4 c r _ hc ih =>
    obtain ⟨w, hw, rfl⟩ := Option.map_eq_some_iff.1 h
    obtain ⟨hr, hfree⟩ := ih hw
    refine ⟨by rw [hr]; rfl, ?_⟩
    rw [List.mem_cons, not_or]
    exact ⟨Ne.symm hc, hfree⟩

theorem undoubled_append (h : '\x22' ∉ v) : undoubled (v ++ ['\x22']) = some v := by
  induction v with
  | nil => rfl
  | cons c v ih =>
    rw [List.mem_cons, not_or] at h
    rw [List.cons_append, undoubled_cons (Ne.symm h.1), ih h.2]
    rfl

theorem Cell.ofChars?_equation (hs : isColumn s = true) (ha : ∀ d ∈ a, isBlank d = true)
    (hb : ∀ d ∈ b, isBlank d = true) (hr : ∀ d ∈ r.head?, isBlank d = false) :
    ofChars? (s ++ (a ++ '=' :: (b ++ r))) =
      (literal? r).map fun value => ⟨.ofList s, .ofList value⟩ := by
  have hcolumn : (s ++ (a ++ '=' :: (b ++ r))).takeWhile isColumnChar = s :=
    cutRun_fst_eq_iff.2 ⟨isColumnChar_of_isColumn hs, isColumnChar_of_head? ha _⟩
  have hequals : (a ++ '=' :: (b ++ r)).dropWhile isBlank = '=' :: (b ++ r) := by
    rw [List.dropWhile_append_of_pos ha]
    rfl
  have hliteral : (b ++ r).dropWhile isBlank = r := by
    rw [List.dropWhile_append_of_pos hb]
    cases r with
    | nil => rfl
    | cons d r => exact List.dropWhile_cons_of_neg (Bool.eq_false_iff.1 (hr d rfl))
  simp only [ofChars?, hcolumn, hs, if_true, List.drop_left, hequals, hliteral]

namespace Cell

variable {cell : Cell}

theorem exists_of_qualifier? {qualifier : String} (h : cell.qualifier? = some qualifier) :
    ∃ ns n, ns ≠ [] ∧ splitDots cell.column.toList = ns ++ [n] ∧
      qualifier = .ofList (['.'].intercalate ns) := by
  obtain ⟨a, ha, rfl⟩ := Option.map_eq_some_iff.1 h
  obtain ⟨b, hc, hb⟩ := exists_of_beforeLastDot? ha
  refine ⟨splitDots a, b, splitDots_ne_nil a, ?_, by rw [intercalate_splitDots]⟩
  rw [hc, splitDots_append, splitDots_of_notMem hb]

theorem exists_of_ofChars? (h : ofChars? s = some cell) : isColumn cell.column.toList = true ∧
    ∃ blanks r, s = cell.column.toList ++ (blanks ++ '=' :: r) ∧
      (∀ d ∈ blanks, isBlank d = true) ∧
      literal? (r.dropWhile isBlank) = some cell.value.toList := by
  simp only [ofChars?] at h
  split at h
  · next hcolumn =>
    split at h
    · next r hr =>
      obtain ⟨value, hvalue, rfl⟩ := Option.map_eq_some_iff.1 h
      rw [String.toList_ofList, String.toList_ofList]
      refine ⟨hcolumn, (s.drop (s.takeWhile isColumnChar).length).takeWhile isBlank, r, ?_, ?_,
        hvalue⟩
      · rw [← hr, List.takeWhile_append_dropWhile, List.prefix_iff_eq_append.1]
        exact List.takeWhile_prefix isColumnChar
      · intro d hd
        exact List.all_eq_true.1 List.all_takeWhile d hd
    · cases h
  · cases h

end Cell
end SqlWalk
