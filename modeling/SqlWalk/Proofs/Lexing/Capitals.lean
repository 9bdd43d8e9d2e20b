import Mathlib
import SqlWalk.Catalog
import SqlWalk.Proofs.Lexing.Closed

namespace SqlWalk

variable {c q x : Char} {p : Char → Bool} {s r : List Char}

/-- A text with its letters as capitals, those of ASCII only. -/
def capitals (s : List Char) : List Char :=
  s.map Char.toUpper

@[simp] theorem capitals_nil : capitals [] = [] :=
  rfl

@[simp] theorem capitals_cons (c : Char) (s : List Char) :
    capitals (c :: s) = c.toUpper :: capitals s :=
  rfl

@[simp] theorem capitals_append (s r : List Char) : capitals (s ++ r) = capitals s ++ capitals r :=
  List.map_append

@[simp] theorem length_capitals (s : List Char) : (capitals s).length = s.length :=
  List.length_map _

theorem head?_capitals (s : List Char) : (capitals s).head? = s.head?.map Char.toUpper :=
  List.head?_map

theorem capitals_capitals (s : List Char) : capitals (capitals s) = capitals s := by
  simp [capitals, Function.comp_def]

theorem sameLetters_iff : sameLetters s r = true ↔ capitals s = capitals r :=
  beq_iff_eq

theorem toUpper_of_not_isAlpha (h : c.isAlpha = false) : c.toUpper = c := by
  apply Char.toUpper_eq_of_not_isLower
  intro hl
  simp [Char.isAlpha, hl] at h

theorem toUpper_eq_iff (hx : x.isAlpha = false) : c.toUpper = x ↔ c = x := by
  constructor
  · rintro rfl
    rw [Char.isAlpha_toUpper_eq_isAlpha] at hx
    exact (toUpper_of_not_isAlpha hx).symm
  · rintro rfl
    exact toUpper_of_not_isAlpha hx

/-- A class of characters that does not tell a small letter from a capital. -/
def CaseBlind (p : Char → Bool) : Prop :=
  ∀ c, p c.toUpper = p c

theorem CaseBlind.of_isAlpha {b : Bool} (h : ∀ c, c.isAlpha = true → p c = b) : CaseBlind p := by
  intro c
  cases hc : c.isAlpha with
  | true => rw [h c hc, h _ ((Char.isAlpha_toUpper_eq_isAlpha c).trans hc)]
  | false => rw [toUpper_of_not_isAlpha hc]

theorem CaseBlind.or {p' : Char → Bool} (h : CaseBlind p) (h' : CaseBlind p') :
    CaseBlind fun c => p c || p' c := by
  intro c
  simp only [h c, h' c]

theorem CaseBlind.beq (hx : x.isAlpha = false) : CaseBlind (· == x) := by
  intro c
  rw [Bool.eq_iff_iff, beq_iff_eq, beq_iff_eq, toUpper_eq_iff hx]

theorem CaseBlind.contains {xs : List Char} (hxs : ∀ x ∈ xs, x.isAlpha = false) :
    CaseBlind xs.contains := by
  apply CaseBlind.of_isAlpha (b := false)
  intro c hc
  rw [List.contains_eq_mem, decide_eq_false_iff_not]
  intro hm
  rw [hxs c hm] at hc
  cases hc

theorem caseBlind_isAlpha : CaseBlind Char.isAlpha :=
  Char.isAlpha_toUpper_eq_isAlpha

theorem caseBlind_isDigit : CaseBlind Char.isDigit :=
  .of_isAlpha fun _ => isDigit_of_isAlpha

theorem caseBlind_isAlphanum : CaseBlind Char.isAlphanum :=
  caseBlind_isAlpha.or caseBlind_isDigit

theorem caseBlind_isBlank : CaseBlind isBlank :=
  .of_isAlpha fun _ => isBlank_of_isAlpha

theorem caseBlind_isLetter : CaseBlind isLetter :=
  .of_isAlpha fun _ => isLetter_of_isAlpha

theorem caseBlind_isNumeral : CaseBlind isNumeral := by
  apply CaseBlind.of_isAlpha (b := false)
  intro c hc
  have hn := toNat_of_isAlpha hc
  rw [isNumeral, if_pos (by omega), isDigit_of_isAlpha hc]

theorem caseBlind_isAlphanumeric : CaseBlind isAlphanumeric :=
  caseBlind_isLetter.or caseBlind_isNumeral

theorem caseBlind_isWordStart : CaseBlind isWordStart :=
  caseBlind_isLetter.or (.beq rfl)

theorem caseBlind_isWordPart : CaseBlind isWordPart :=
  (caseBlind_isAlphanumeric.or (.beq rfl)).or (.beq rfl)

theorem caseBlind_isNumberPart : CaseBlind isNumberPart :=
  caseBlind_isAlphanumeric.or (.beq rfl)

theorem caseBlind_isParamPart : CaseBlind isParamPart :=
  caseBlind_isAlphanumeric.or (.beq rfl)

theorem caseBlind_isParamSigil : CaseBlind isParamSigil :=
  (CaseBlind.or (.beq rfl) (.beq rfl)).or (.beq rfl)

theorem caseBlind_isOperatorChar : CaseBlind isOperatorChar := by
  apply CaseBlind.contains
  simp

theorem utf8Size_toUpper (c : Char) : c.toUpper.utf8Size = c.utf8Size := by
  cases hc : c.isAlpha with
  | false => rw [toUpper_of_not_isAlpha hc]
  | true =>
    have hsize {c : Char} (h : c.isAlpha = true) : c.utf8Size = 1 := by
      have hn := toNat_of_isAlpha h
      rw [Char.utf8Size_eq_one_iff, UInt32.le_iff_toNat_le]
      change c.toNat ≤ 127
      omega
    rw [hsize hc, hsize ((caseBlind_isAlpha c).trans hc)]

theorem byteSize_capitals (s : List Char) : byteSize (capitals s) = byteSize s := by
  induction s with
  | nil => rfl
  | cons c s ih => rw [capitals_cons, byteSize, byteSize, utf8Size_toUpper, ih]

theorem all_capitals (hp : CaseBlind p) (s : List Char) : (capitals s).all p = s.all p := by
  rw [capitals, List.all_map]
  congr 1
  funext c
  exact hp c

theorem head?_capitals_beq (hx : x.isAlpha = false) (r : List Char) :
    ((capitals r).head? == some x) = (r.head? == some x) := by
  rw [head?_capitals]
  cases r with
  | nil => rfl
  | cons d r => exact CaseBlind.beq hx d

theorem takeWhile_capitals (hp : CaseBlind p) (s : List Char) :
    (capitals s).takeWhile p = capitals (s.takeWhile p) := by
  rw [capitals, List.takeWhile_map]
  congr 2
  funext c
  exact hp c

theorem dropWhile_capitals (hp : CaseBlind p) (s : List Char) :
    (capitals s).dropWhile p = capitals (s.dropWhile p) := by
  rw [capitals, List.dropWhile_map]
  congr 2
  funext c
  exact hp c

theorem cutRun_capitals (hp : CaseBlind p) (s : List Char) :
    cutRun p (capitals s) = (cutRun p s).map capitals capitals := by
  rw [cutRun, takeWhile_capitals hp, dropWhile_capitals hp]
  rfl

theorem cutAfter_capitals (hx : x.isAlpha = false) (s : List Char) :
    cutAfter x (capitals s) = (cutAfter x s).map capitals capitals := by
  induction s with
  | nil => rfl
  | cons c s ih =>
    rw [capitals_cons, cutAfter, cutAfter, ih]
    simp only [toUpper_eq_iff hx]
    split
    · next hc =>
      rw [hc, toUpper_of_not_isAlpha hx]
      simp [toUpper_of_not_isAlpha hx]
    · rfl

theorem cutComment_capitals (s : List Char) :
    cutComment (capitals s) = (cutComment s).map capitals capitals := by
  have hstar (c : Char) : c.toUpper = '*' ↔ c = '*' := toUpper_eq_iff rfl
  have hslash (c : Char) : c.toUpper = '/' ↔ c = '/' := toUpper_eq_iff rfl
  fun_induction cutComment s with
  | case1 => rfl
  | case2 c => rfl
  | case3 c d r hc =>
    obtain ⟨rfl, rfl⟩ := hc
    rfl
  | case4 c d r hc ih =>
    have hc' : ¬(c.toUpper = '*' ∧ d.toUpper = '/') := by rwa [hstar, hslash]
    rw [capitals_cons, capitals_cons, cutComment, if_neg hc', ← capitals_cons, ih]
    rfl

theorem cutQuoted_capitals (hq : q.isAlpha = false) (s : List Char) :
    cutQuoted q (capitals s) = (cutQuoted q s).map capitals capitals := by
  have hiff (c : Char) : c.toUpper = q ↔ c = q := toUpper_eq_iff hq
  fun_induction cutQuoted q s with
  | case1 => rfl
  | case2 c => rfl
  | case3 c d r hc ih =>
    have hc' : c.toUpper ≠ q := mt (hiff c).1 hc
    rw [capitals_cons, capitals_cons, cutQuoted, if_pos hc', ← capitals_cons, ih]
    rfl
  | case4 c r hc ih =>
    have hc' : ¬c.toUpper ≠ q := fun h => hc (mt (hiff c).2 h)
    rw [capitals_cons, capitals_cons, cutQuoted, if_neg hc', if_pos ((hiff q).2 rfl), ih]
    rfl
  | case5 c d r hc hd =>
    have hc' : ¬c.toUpper ≠ q := fun h => hc (mt (hiff c).2 h)
    rw [capitals_cons, capitals_cons, cutQuoted, if_neg hc', if_neg (mt (hiff d).1 hd)]
    rfl

namespace LexemeKind

theorem ofHead_capitals (c : Char) (r : List Char) :
    ofHead c.toUpper (capitals r) = ofHead c r := by
  have hbeq (x : Char) (hx : x.isAlpha = false) : (c.toUpper == x) = (c == x) := CaseBlind.beq hx c
  have hpart : (capitals r).head?.any isParamPart = r.head?.any isParamPart := by
    rw [head?_capitals, Option.any_map]
    congr 1
    funext d
    exact caseBlind_isParamPart d
  simp only [ofHead, caseBlind_isBlank c, caseBlind_isWordStart c, caseBlind_isDigit c,
    caseBlind_isParamSigil c, caseBlind_isOperatorChar c, hpart, hbeq '-' rfl, hbeq '/' rfl,
    hbeq '\x27' rfl, hbeq '\x22' rfl, hbeq '\x60' rfl, hbeq '[' rfl, hbeq '?' rfl,
    head?_capitals_beq (x := '-') rfl, head?_capitals_beq (x := '*') rfl]

theorem cut_capitals {k : LexemeKind} (hk : ofHead c r = k) :
    k.cut c.toUpper (capitals r) = (k.cut c r).map capitals capitals := by
  cases k with
  | blank => exact cutRun_capitals caseBlind_isBlank r
  | lineComment => exact cutAfter_capitals rfl r
  | blockComment =>
    have hc := cutComment_capitals (r.drop 1)
    simp only [cut, capitals, ← List.map_take, ← List.map_drop] at hc ⊢
    rw [hc]
    simp [capitals]
  | token k =>
    cases k with
    | word => exact cutRun_capitals caseBlind_isWordPart r
    | number => exact cutRun_capitals caseBlind_isNumberPart r
    | operator => exact cutRun_capitals caseBlind_isOperatorChar r
    | symbol => rfl
    | str =>
      obtain rfl := eq_quote_of_ofHead hk
      exact cutQuoted_capitals rfl r
    | quotedIdent =>
      rcases eq_of_ofHead_quotedIdent hk with rfl | rfl | rfl
      · exact cutQuoted_capitals rfl r
      · exact cutQuoted_capitals rfl r
      · exact cutAfter_capitals rfl r
    | param =>
      simp only [cut, toUpper_eq_iff (x := '?') rfl]
      split
      · rfl
      · exact cutRun_capitals caseBlind_isParamPart r

theorem isAlpha_of_ofHead_symbol (h : ofHead c r = .token .symbol) : c.isAlpha = false := by
  have hw : isWordStart c = false := by grind [ofHead]
  rw [Bool.eq_false_iff]
  intro hc
  rw [isWordStart, isLetter_of_isAlpha hc] at hw
  cases hw

end LexemeKind

def Lexeme.capitalized (l : Lexeme) : Lexeme :=
  { l with text := capitals l.text }

def Token.capitalized (t : Token) : Token :=
  { t with text := capitals t.text }

theorem scan_capitals (s : List Char) : scan (capitals s) = (scan s).map Lexeme.capitalized := by
  induction s using scan_induction with
  | nil => rfl
  | cons c r ih =>
    rw [capitals_cons, scan_cons, scan_cons, LexemeKind.ofHead_capitals,
      LexemeKind.cut_capitals rfl]
    exact congrArg (_ :: ·) ih

theorem Lexeme.capitalized_of_symbol {l : Lexeme} (h : l ∈ scan s)
    (hk : l.kind = .token .symbol) : l.capitalized = l := by
  induction s using scan_induction with
  | nil => cases h
  | cons c r ih =>
    rw [scan_cons] at h
    rcases List.mem_cons.1 h with rfl | h
    · have hc := LexemeKind.isAlpha_of_ofHead_symbol hk
      simp only at hk
      simp [Lexeme.capitalized, hk, LexemeKind.cut, toUpper_of_not_isAlpha hc]
    · exact ih h

theorem ofLexemes_capitalized (gap : Bool) (ls : List Lexeme) :
    Token.ofLexemes gap (ls.map Lexeme.capitalized) =
      (Token.ofLexemes gap ls).map Token.capitalized := by
  induction ls using lexemes_induction generalizing gap with
  | nil => rfl
  | gap l ls hl ih =>
    have hc : l.capitalized.isGap = true := hl
    rw [List.map_cons, Token.ofLexemes_cons_gap hc, Token.ofLexemes_cons_gap hl]
    exact ih true
  | token kind text ls ih => exact congrArg (_ :: ·) (ih false)

theorem tokenize_capitals (s : List Char) :
    tokenize (capitals s) = (tokenize s).map Token.capitalized := by
  have hgap : Lexeme.isGap ∘ Lexeme.capitalized = Lexeme.isGap := rfl
  rw [tokenize, scan_capitals, List.dropWhile_map, hgap, ofLexemes_capitalized]
  rfl

theorem spansFrom_capitalized (start : Nat) (ls : List Lexeme) :
    spansFrom start (ls.map Lexeme.capitalized) = spansFrom start ls := by
  induction ls generalizing start with
  | nil => rfl
  | cons l ls ih =>
    have hsize : byteSize l.capitalized.text = byteSize l.text := byteSize_capitals l.text
    rw [List.map_cons, spansFrom, spansFrom, hsize, ih]
    rfl

theorem tokenSpans_capitals (s : List Char) : tokenSpans (capitals s) = tokenSpans s := by
  rw [tokenSpans, scan_capitals, spansFrom_capitalized]
  rfl

end SqlWalk
