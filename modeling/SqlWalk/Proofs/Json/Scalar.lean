import Mathlib.Tactic.Common
import SqlWalk.Json.Parser
import SqlWalk.Json.Printer
import SqlWalk.Proofs.Number.Numeral

namespace SqlWalk.Json

variable {n : Numeral} {s r digits : List Char}

/-- Says that a text does not go on with a digit, a point or an exponent. -/
def EndsNumber (r : List Char) : Prop :=
  ∀ c ∈ r.head?, c.isDigit = false ∧ c ≠ '.' ∧ c ≠ 'e' ∧ c ≠ 'E'

theorem digits?_append (hdigit : ∀ c ∈ digits, c.isDigit = true) (hne : digits ≠ [])
    (hr : ∀ c ∈ r.head?, c.isDigit = false) : digits? (digits ++ r) = some (digits, r) := by
  have htake : (digits ++ r).takeWhile Char.isDigit = digits := by
    rw [List.takeWhile_append_of_pos hdigit]
    cases r with
    | nil => simp
    | cons c r => simp [hr c rfl]
  have hdrop : (digits ++ r).dropWhile Char.isDigit = r := by
    rw [List.dropWhile_append_of_pos hdigit]
    cases r with
    | nil => rfl
    | cons c r => simp [hr c rfl]
  simp only [digits?, htake, hdrop, List.isEmpty_iff, if_neg hne]

theorem whole?_append (hn : n.Spelled) (hr : ∀ c ∈ r.head?, c.isDigit = false) :
    whole? (n.whole ++ r) = some (n.whole, r) := by
  rcases eq_or_ne (n.whole.head?) (some '0') with hzero | hnonzero
  · rw [hn.zero hzero]
    rfl
  · rw [← digits?_append hn.isDigit_whole hn.whole_ne_nil hr]
    obtain ⟨c, cs, hwhole⟩ := List.exists_cons_of_ne_nil hn.whole_ne_nil
    rw [hwhole] at hnonzero ⊢
    rw [List.cons_append, whole?]
    rintro t ht
    cases ht
    exact hnonzero rfl

theorem fraction?_append (hdigit : ∀ c ∈ digits, c.isDigit = true)
    (hr : ∀ c ∈ r.head?, c.isDigit = false ∧ c ≠ '.') :
    fraction? ((if digits.isEmpty then [] else '.' :: digits) ++ r) = some (digits, r) := by
  rcases eq_or_ne digits [] with rfl | hne
  · simp only [List.isEmpty_nil, if_true, List.nil_append]
    rw [fraction?]
    rintro t rfl
    exact (hr '.' rfl).2 rfl
  · rw [if_neg (by simpa using hne)]
    exact digits?_append hdigit hne fun c hc => (hr c hc).1

theorem exponent?_of_endsNumber (hr : EndsNumber r) : exponent? r = some (none, r) := by
  cases r with
  | nil => rfl
  | cons c r =>
    obtain ⟨-, -, hlower, hupper⟩ := hr c rfl
    simp [exponent?, hlower, hupper]

theorem exponent?_exponentText (e : Int) (hr : EndsNumber r) :
    exponent? (Numeral.exponentText e ++ r) = some (some e, r) := by
  have hdigits : digits? (Nat.toDigits 10 e.natAbs ++ r) = some (Nat.toDigits 10 e.natAbs, r) :=
    digits?_append (fun c => Nat.isDigit_of_mem_toDigits (by decide) (by decide))
      Nat.toDigits_ne_nil fun c hc => (hr c hc).1
  rw [Numeral.exponentText]
  split
  · next hneg =>
    simp [exponent?, hdigits, digitsValue_toDigits, abs_of_neg hneg]
  · next hnonneg =>
    simp [exponent?, hdigits, digitsValue_toDigits, abs_of_nonneg (not_lt.1 hnonneg)]

theorem exponent?_append (e : Option Int) (hr : EndsNumber r) :
    exponent? ((e.map Numeral.exponentText).getD [] ++ r) = some (e, r) := by
  cases e with
  | none => exact exponent?_of_endsNumber hr
  | some e => exact exponent?_exponentText e hr

theorem head?_exponent (e : Option Int) (hr : EndsNumber r) :
    ∀ c ∈ ((e.map Numeral.exponentText).getD [] ++ r).head?, c.isDigit = false ∧ c ≠ '.' := by
  cases e with
  | none => exact fun c hc => ⟨(hr c hc).1, (hr c hc).2.1⟩
  | some e =>
    rintro c ⟨⟩
    decide

theorem head?_fraction (digits : List Char) (hr : ∀ c ∈ r.head?, c.isDigit = false ∧ c ≠ '.') :
    ∀ c ∈ ((if digits.isEmpty then [] else '.' :: digits) ++ r).head?, c.isDigit = false := by
  split
  · exact fun c hc => (hr c hc).1
  · rintro c ⟨⟩
    rfl

/-- What is read behind the sign of a number. -/
def unsigned? (negative : Bool) (s : List Char) : Option (Numeral × List Char) := do
  let (whole, s) ← whole? s
  let (fraction, s) ← fraction? s
  let (exponent, s) ← exponent? s
  return (⟨negative, whole, fraction, exponent⟩, s)

theorem number?_minus (s : List Char) : number? ('-' :: s) = unsigned? true s :=
  rfl

theorem number?_of_head? (hs : s.head? ≠ some '-') : number? s = unsigned? false s := by
  rw [number?]
  · rfl
  · rintro t rfl
    exact hs rfl

/-- A numeral is read from its text whatever follows that does not go on with it. -/
theorem number?_text (hn : n.Spelled) (hr : EndsNumber r) :
    number? (n.text ++ r) = some (n, r) := by
  have hexponent := exponent?_append n.exponent hr
  have hhead := head?_exponent n.exponent hr
  have hfraction := fraction?_append hn.isDigit_fraction hhead
  have hwhole := whole?_append hn (head?_fraction n.fraction hhead)
  have hunsigned : unsigned? n.negative (n.whole ++ ((if n.fraction.isEmpty then [] else
      '.' :: n.fraction) ++ ((n.exponent.map Numeral.exponentText).getD [] ++ r))) =
        some (n, r) := by
    simp only [unsigned?, hwhole, hfraction, hexponent, Option.bind_eq_bind, Option.bind_some]
    rfl
  rw [← hunsigned, Numeral.text]
  cases n.negative with
  | true =>
    simp only [if_true, List.append_assoc, List.cons_append]
    exact number?_minus _
  | false =>
    simp only [Bool.false_eq_true, if_false, List.nil_append, List.append_assoc]
    apply number?_of_head?
    obtain ⟨c, cs, heq⟩ := List.exists_cons_of_ne_nil hn.whole_ne_nil
    rw [heq]
    rintro ⟨⟩
    exact absurd (hn.isDigit_whole '-' (heq ▸ List.mem_cons_self)) (by decide)

theorem stringUnits_plain {c : Char} (hcontrol : ¬c.toNat < 0x20) (hquote : c ≠ '\x22')
    (hslash : c ≠ '\x5c') (r : List Char) : stringUnits (c :: r) =
      (stringUnits r).map fun (units, rest) => (c.toNat :: units, rest) := by
  rw [stringUnits]
  · simp [hcontrol, hslash]
  · exact hquote
  · exact fun _ _ _ _ _ hc => absurd hc hslash
  · exact fun _ _ hc => absurd hc hslash

theorem stringUnits_short {c d : Char} (hd : escaped? c = some d) (r : List Char) :
    stringUnits ('\x5c' :: c :: r) =
      (stringUnits r).map fun (units, rest) => (d.toNat :: units, rest) := by
  rw [stringUnits]
  · rw [hd]
    cases stringUnits r <;> rfl
  · rintro _ _ _ _ _ rfl
    cases hd

theorem codeUnit?_hex : ∀ m < 0x20,
    codeUnit? '0' '0' (Nat.digitChar (m / 16)) (Nat.digitChar (m % 16)) = some m := by
  decide

theorem stringUnits_escape (c : Char) (r : List Char) : stringUnits (escape c ++ r) =
    (stringUnits r).map fun (units, rest) => (c.toNat :: units, rest) := by
  rw [escape.eq_def]
  split
  · exact stringUnits_short rfl r
  · exact stringUnits_short rfl r
  · exact stringUnits_short rfl r
  · exact stringUnits_short rfl r
  · exact stringUnits_short rfl r
  · exact stringUnits_short rfl r
  · exact stringUnits_short rfl r
  · next hquote hslash _ _ _ _ _ =>
    split
    · next hcontrol =>
      simp only [List.cons_append, List.nil_append, stringUnits, codeUnit?_hex _ hcontrol]
      cases stringUnits r <;> rfl
    · next hplain => exact stringUnits_plain hplain hquote hslash r

theorem stringUnits_flatMap (s r : List Char) :
    stringUnits (s.flatMap escape ++ '\x22' :: r) = some (s.map Char.toNat, r) := by
  induction s with
  | nil => simp [stringUnits]
  | cons c s ih =>
    rw [List.flatMap_cons, List.append_assoc, stringUnits_escape, ih]
    rfl

theorem not_isSurrogate (c : Char) :
    isHighSurrogate c.toNat = false ∧ isLowSurrogate c.toNat = false := by
  have hvalid : c.toNat < 0xD800 ∨ 0xDFFF < c.toNat ∧ c.toNat < 0x110000 := c.valid
  simp only [isHighSurrogate, isLowSurrogate, Bool.and_eq_false_iff, decide_eq_false_iff_not]
  omega

theorem ofUnits?_map (s : List Char) : ofUnits? (s.map Char.toNat) = some s := by
  induction s with
  | nil => rfl
  | cons c s ih =>
    obtain ⟨hhigh, hlow⟩ := not_isSurrogate c
    cases s with
    | nil => simp [ofUnits?, hhigh, hlow]
    | cons d s =>
      simp only [List.map_cons] at ih ⊢
      simp [ofUnits?, hhigh, hlow, ih]

theorem string?_quoted (s : String) (r : List Char) :
    ∃ t, quoted (some s) ++ r = '\x22' :: t ∧ string? t = some (some s, r) := by
  refine ⟨s.toList.flatMap escape ++ '\x22' :: r, by simp [quoted], ?_⟩
  rw [string?, stringUnits_flatMap]
  simp [ofUnits?_map]

end SqlWalk.Json
