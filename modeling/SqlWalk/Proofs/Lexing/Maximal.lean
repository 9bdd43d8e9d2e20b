import SqlWalk.Proofs.Lexing.Coverage

namespace SqlWalk

variable {c q x : Char} {b r rest : List Char}

def IsWordCharacter (c : Char) : Prop :=
  isAlphanumeric c = true ∨ c = '_' ∨ c = '$'

def IsNumberCharacter (c : Char) : Prop :=
  isAlphanumeric c = true ∨ c = '.'

def IsParamCharacter (c : Char) : Prop :=
  isAlphanumeric c = true ∨ c = '_'

def operatorCharacters : List Char :=
  ['=', '<', '>', '!', '|', '+', '-', '/', '%', '&', '^', '~']

/-- Characters of a class that no further one follows. -/
structure MaximalRun (p : Char → Prop) (rest b : List Char) : Prop where
  all : ∀ c ∈ b, p c
  stop : ∀ c ∈ rest.head?, ¬p c

/-- Text from a quote to the next one that stands alone, or else to the end of all text. -/
inductive QuotedLexeme (q : Char) (rest : List Char) : List Char → Prop where
  | closed (v : List Char) : rest.head? ≠ some q → QuotedLexeme q rest (q :: doubled q v ++ [q])
  | unclosed (v : List Char) : rest = [] → QuotedLexeme q rest (q :: doubled q v)

/-- Says that no token of more than one character starts with `c`, and no parameter. -/
structure StartsNoToken (c : Char) (rest : List Char) : Prop where
  letter : ¬(isLetter c = true ∨ c = '_')
  digit : c.isDigit = false
  quote : c ∉ ['\x27', '\x22', '\x60', '[']
  param : c ≠ '?' ∧ (c ∈ [':', '@', '$'] → ∀ d ∈ rest.head?, ¬IsParamCharacter d)
  operator : c ∉ operatorCharacters

/-- The texts of the tokens of a class, in front of the rest of a text. -/
inductive MaximalLexeme (rest : List Char) : TokenKind → List Char → Prop where
  | word {c : Char} {b : List Char} : isLetter c = true ∨ c = '_' →
      MaximalRun IsWordCharacter rest b → MaximalLexeme rest .word (c :: b)
  | number {c : Char} {b : List Char} : c.isDigit = true →
      MaximalRun IsNumberCharacter rest b → MaximalLexeme rest .number (c :: b)
  | str {t : List Char} : QuotedLexeme '\x27' rest t → MaximalLexeme rest .str t
  | quotedIdent {q : Char} {t : List Char} : q ∈ ['\x22', '\x60'] → QuotedLexeme q rest t →
      MaximalLexeme rest .quotedIdent t
  | bracketed {v : List Char} : ']' ∉ v → MaximalLexeme rest .quotedIdent ('[' :: v ++ [']'])
  | unclosedBracket {v : List Char} : ']' ∉ v → rest = [] →
      MaximalLexeme rest .quotedIdent ('[' :: v)
  | questionMark : MaximalLexeme rest .param ['?']
  | param {c : Char} {b : List Char} : c ∈ [':', '@', '$'] → b ≠ [] →
      MaximalRun IsParamCharacter rest b → MaximalLexeme rest .param (c :: b)
  | operator {b : List Char} : b ≠ [] → MaximalRun (· ∈ operatorCharacters) rest b →
      MaximalLexeme rest .operator b
  | symbol {c : Char} : StartsNoToken c rest → MaximalLexeme rest .symbol [c]

theorem isWordPart_iff : isWordPart c = true ↔ IsWordCharacter c := by
  simp [isWordPart, IsWordCharacter, or_assoc]

theorem isNumberPart_iff : isNumberPart c = true ↔ IsNumberCharacter c := by
  simp [isNumberPart, IsNumberCharacter]

theorem isParamPart_iff : isParamPart c = true ↔ IsParamCharacter c := by
  simp [isParamPart, IsParamCharacter]

theorem isOperatorChar_iff : isOperatorChar c = true ↔ c ∈ operatorCharacters := by
  rw [isOperatorChar, List.contains_iff_mem]
  rfl

theorem maximalRun_of_cutRun {p : Char → Bool} {P : Char → Prop} (hp : ∀ {c}, p c = true ↔ P c)
    (h : (cutRun p (b ++ rest)).1 = b) : MaximalRun P rest b := by
  obtain ⟨hall, hstop⟩ := cutRun_fst_eq_iff.1 h
  refine ⟨fun c hc => hp.1 (hall c hc), fun c hc hpc => ?_⟩
  have hpc' := hstop c hc
  rw [hp.2 hpc] at hpc'
  cases hpc'

theorem doubled_cons_of_ne (hc : c ≠ q) (s : List Char) : doubled q (c :: s) = c :: doubled q s := by
  simp [doubled, hc]

theorem doubled_cons_self (q : Char) (s : List Char) :
    doubled q (q :: s) = q :: q :: doubled q s := by
  simp [doubled]

theorem cutQuoted_cases (q : Char) (s : List Char) :
    (∃ v, (cutQuoted q s).1 = doubled q v ++ [q] ∧ (cutQuoted q s).2.head? ≠ some q) ∨
      ∃ v, (cutQuoted q s).1 = doubled q v ∧ (cutQuoted q s).2 = [] := by
  fun_induction cutQuoted q s with
  | case1 => exact .inr ⟨[], rfl, rfl⟩
  | case2 c =>
    by_cases hc : c = q
    · exact .inl ⟨[], by rw [hc]; rfl, by simp⟩
    · exact .inr ⟨[c], (doubled_cons_of_ne hc []).symm, rfl⟩
  | case3 c d r hc ih =>
    rcases ih with ⟨v, hv, hr⟩ | ⟨v, hv, hr⟩
    · exact .inl ⟨c :: v, by rw [hv, doubled_cons_of_ne hc, List.cons_append], hr⟩
    · exact .inr ⟨c :: v, by rw [hv, doubled_cons_of_ne hc], hr⟩
  | case4 c r hc ih =>
    obtain rfl : c = q := Decidable.not_not.1 hc
    rcases ih with ⟨v, hv, hr⟩ | ⟨v, hv, hr⟩
    · exact .inl ⟨c :: v, by rw [hv, doubled_cons_self, List.cons_append, List.cons_append], hr⟩
    · exact .inr ⟨c :: v, by rw [hv, doubled_cons_self], hr⟩
  | case5 c d r hc hd =>
    obtain rfl : c = q := Decidable.not_not.1 hc
    exact .inl ⟨[], rfl, by simpa using hd⟩

theorem quotedLexeme_of_cutQuoted (h : (cutQuoted q (b ++ rest)).1 = b) :
    QuotedLexeme q rest (q :: b) := by
  have hrest : (cutQuoted q (b ++ rest)).2 = rest := by
    have happ := cutQuoted_append q (b ++ rest)
    rwa [h, List.append_cancel_left_eq] at happ
  have hcases := cutQuoted_cases q (b ++ rest)
  rw [h, hrest] at hcases
  rcases hcases with ⟨v, rfl, hr⟩ | ⟨v, rfl, hr⟩
  · exact .closed v hr
  · exact .unclosed v hr

theorem cutAfter_cases (h : (cutAfter x (b ++ rest)).1 = b) :
    (∃ v, x ∉ v ∧ b = v ++ [x]) ∨ x ∉ b ∧ rest = [] := by
  by_cases hx : x ∈ b ++ rest
  · obtain ⟨v, r, heq, hv⟩ := List.eq_append_cons_of_mem hx
    rw [heq, cutAfter_append_cons hv] at h
    exact .inl ⟨v, hv, h.symm⟩
  · rw [cutAfter_of_notMem hx, List.append_right_eq_self] at h
    exact .inr ⟨fun hb => hx (List.mem_append_left rest hb), h⟩

namespace LexemeKind

theorem isWordStart_of_ofHead (h : ofHead c r = .token .word) : isLetter c = true ∨ c = '_' := by
  have hw : isWordStart c = true := by grind [ofHead]
  simpa [isWordStart] using hw

theorem isDigit_of_ofHead (h : ofHead c r = .token .number) : c.isDigit = true := by
  grind [ofHead]

theorem mem_of_ofHead_operator (h : ofHead c r = .token .operator) : c ∈ operatorCharacters := by
  rw [← isOperatorChar_iff]
  grind [ofHead]

theorem of_ofHead_param (h : ofHead c r = .token .param) :
    c = '?' ∨ c ∈ [':', '@', '$'] ∧ ∃ d ∈ r.head?, isParamPart d = true := by
  have hp : (c == '?' || isParamSigil c && r.head?.any isParamPart) = true := by grind [ofHead]
  simpa [isParamSigil, Option.any_eq_true, or_assoc] using hp

theorem startsNoToken_of_ofHead (h : ofHead c r = .token .symbol) : StartsNoToken c r := by
  have hquote : c ∉ ['\x27', '\x22', '\x60', '['] := by grind [ofHead]
  have hword : isWordStart c = false := by grind [ofHead]
  have hdigit : c.isDigit = false := by grind [ofHead]
  have hparam : (c == '?' || isParamSigil c && r.head?.any isParamPart) = false := by
    grind [ofHead]
  have hoperator : ¬isOperatorChar c = true := by grind [ofHead]
  rw [Bool.or_eq_false_iff, beq_eq_false_iff_ne, Bool.and_eq_false_imp] at hparam
  refine ⟨?_, hdigit, hquote, ⟨hparam.1, ?_⟩, mt isOperatorChar_iff.2 hoperator⟩
  · simpa [isWordStart] using hword
  · intro hc d hd hpart
    have hsigil : isParamSigil c = true := by simpa [isParamSigil, or_assoc] using hc
    have hany := hparam.2 hsigil
    rw [Option.mem_def.1 hd, Option.any_some, isParamPart_iff.2 hpart] at hany
    cases hany

end LexemeKind

theorem Lexeme.CutBefore.maximalLexeme {t : Token} (h : t.toLexeme.CutBefore rest) :
    MaximalLexeme rest t.kind t.text := by
  obtain ⟨c, b, ht, hk, hcut⟩ := h
  obtain ⟨kind, text, spaced⟩ := t
  simp only [Token.toLexeme] at ht hk hcut ⊢
  subst ht
  cases kind with
  | word =>
    have hrun : MaximalRun IsWordCharacter rest b := maximalRun_of_cutRun isWordPart_iff hcut
    exact .word (LexemeKind.isWordStart_of_ofHead hk) hrun
  | number =>
    have hrun : MaximalRun IsNumberCharacter rest b := maximalRun_of_cutRun isNumberPart_iff hcut
    exact .number (LexemeKind.isDigit_of_ofHead hk) hrun
  | str =>
    obtain rfl := LexemeKind.eq_quote_of_ofHead hk
    exact .str (quotedLexeme_of_cutQuoted hcut)
  | quotedIdent =>
    simp only [LexemeKind.cut] at hcut
    split at hcut
    · next hc =>
      subst hc
      rcases cutAfter_cases hcut with ⟨v, hv, rfl⟩ | ⟨hb, hr⟩
      · exact .bracketed hv
      · exact .unclosedBracket hb hr
    · next hc =>
      refine .quotedIdent ?_ (quotedLexeme_of_cutQuoted hcut)
      rcases LexemeKind.eq_of_ofHead_quotedIdent hk with rfl | rfl | rfl
      · decide
      · decide
      · exact absurd rfl hc
  | param =>
    simp only [LexemeKind.cut] at hcut
    split at hcut
    · next hc =>
      subst hc
      rw [← hcut]
      exact .questionMark
    · next hc =>
      have hrun : MaximalRun IsParamCharacter rest b := maximalRun_of_cutRun isParamPart_iff hcut
      obtain ⟨hsigil, d, hd, hpart⟩ := (LexemeKind.of_ofHead_param hk).resolve_left hc
      refine .param hsigil ?_ hrun
      rintro rfl
      exact hrun.stop d hd (isParamPart_iff.1 hpart)
  | operator =>
    obtain ⟨hall, hstop⟩ : MaximalRun (· ∈ operatorCharacters) rest b :=
      maximalRun_of_cutRun isOperatorChar_iff hcut
    refine .operator (List.cons_ne_nil c b) ⟨?_, hstop⟩
    exact List.forall_mem_cons.2 ⟨LexemeKind.mem_of_ofHead_operator hk, hall⟩
  | symbol =>
    simp only [LexemeKind.cut] at hcut
    subst hcut
    exact .symbol (LexemeKind.startsNoToken_of_ofHead hk)

theorem forall₂_cutBefore (s pre : List Char) :
    List.Forall₂ (fun l span => ∃ rest, StandsAt (pre ++ s) span l.text rest ∧ l.CutBefore rest)
      ((scan s).filter (!·.isGap)) (spansFrom (byteSize pre) (scan s)) := by
  induction s using cutBefore_induction generalizing pre with
  | nil => exact .nil
  | cons l rest hl ih =>
    have hrest := ih (pre ++ l.text)
    rw [byteSize_append, List.append_assoc] at hrest
    rw [hl.scan_append]
    cases hgap : l.isGap with
    | true =>
      rw [spansFrom_cons_gap hgap, List.filter_cons_of_neg (by simp [hgap])]
      exact hrest
    | false =>
      rw [spansFrom, List.filter_cons_of_pos (by simp [hgap]), hgap, if_neg Bool.false_ne_true]
      exact .cons ⟨rest, ⟨pre, by simp, rfl, byteSize_append _ _⟩, hl⟩ hrest

/-- Each token of a text is a lexeme of its class that cannot go on in the text behind it. -/
theorem tokenSpans_maximal (s : List Char) :
    List.Forall₂
      (fun t span => ∃ rest, StandsAt s span t.text rest ∧ MaximalLexeme rest t.kind t.text)
      (tokenize s) (tokenSpans s) := by
  have h := forall₂_cutBefore s []
  rw [← map_toLexeme_tokenize, List.forall₂_map_left_iff] at h
  refine h.imp fun t span => ?_
  rintro ⟨rest, hstands, hcut⟩
  exact ⟨rest, hstands, hcut.maximalLexeme⟩

end SqlWalk
