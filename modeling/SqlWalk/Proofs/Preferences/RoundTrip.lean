import SqlWalk.Proofs.Json.RoundTrip
import SqlWalk.Proofs.Number.Reading
import SqlWalk.Proofs.Preferences.Usable

namespace SqlWalk

open Json

variable {s : Store} {p : Preferences} {x : Float32}

theorem Json.asSingle?_single (x : Float32) :
    asSingle? (.single x) = if x.isFinite then some x else none := by
  cases h : singleNumeral? x with
  | none =>
    have hfinite := singleNumeral?_eq_none_iff.1 h
    simp [Json.single, h, hfinite, asSingle?]
  | some n =>
    have hfinite : x.isFinite = true := by
      rw [← Bool.not_eq_false, ← singleNumeral?_eq_none_iff, h]
      exact Option.some_ne_none n
    simp [Json.single, h, hfinite, asSingle?, (single?_of_singleNumeral? h).2]

theorem Json.spelled_single (x : Float32) : Spelled (.single x) := by
  cases h : singleNumeral? x with
  | none =>
    rw [Json.single, h]
    exact .null
  | some n =>
    rw [Json.single, h]
    exact .num (single?_of_singleNumeral? h).1

namespace Preferences

structure Finite (p : Preferences) : Prop where
  canvasWidth : p.canvasWidth.isFinite = true
  tableWidth : p.tableWidth.isFinite = true
  tableHeight : p.tableHeight.isFinite = true
  padding : p.padding.isFinite = true

theorem Finite.sanitized_eq (h : p.Finite) : p.sanitized =
    ⟨max 500 (min p.speed 3000), if 0 < p.canvasWidth then p.canvasWidth else 960,
      if 0 < p.tableWidth then p.tableWidth else 180,
      if 0 < p.tableHeight then p.tableHeight else 120,
      if 0 ≤ p.padding then p.padding else 40⟩ := by
  simp [sanitized, usableExtent, usableSpace, h.canvasWidth, h.tableWidth, h.tableHeight,
    h.padding, clampSpeed, minSpeed, maxSpeed, standard, Dimensions.standard]

theorem spelled_toJson (p : Preferences) : p.toJson.Spelled := by
  refine spelled_record (List.forall_mem_cons.2 ⟨.num (Numeral.spelled_ofNat _), ?_⟩)
  simp [spelled_single]

theorem ofJson?_toJson (hspeed : p.speed < UInt64.size) :
    (p.Finite → ofJson? p.toJson = some p) ∧ (¬p.Finite → ofJson? p.toJson = none) := by
  have hfields : fields? fieldNames true p.toJson = some [some (nat p.speed),
      some (.single p.canvasWidth), some (.single p.tableWidth), some (.single p.tableHeight),
      some (.single p.padding)] :=
    fields?_record (by decide) rfl true
  have hword : asWord? (nat p.speed) = some p.speed := Numeral.word?_ofNat hspeed
  simp only [ofJson?, hfields, Option.bind_eq_bind, Option.bind_some, defaulting, hword,
    asSingle?_single]
  constructor
  · rintro ⟨hcanvas, hwidth, hheight, hpadding⟩
    simp [hcanvas, hwidth, hheight, hpadding]
  · intro hfinite
    by_contra hsome
    obtain ⟨q, hq⟩ := Option.ne_none_iff_exists'.1 hsome
    simp only [Option.bind_eq_some_iff, Option.ite_none_right_eq_some] at hq
    obtain ⟨_, ⟨hcanvas, -⟩, _, ⟨hwidth, -⟩, _, ⟨hheight, -⟩, _, ⟨hpadding, -⟩, -⟩ := hq
    exact hfinite ⟨hcanvas, hwidth, hheight, hpadding⟩

end Preferences

namespace Store

theorem save_of_ok (h : (s.save p).2 = .ok ()) :
    (s.save p).1 = folder (.file (some p.toJson.pretty)) := by
  match s with
  | file => cases h
  | folder .folder => cases h
  | missing => rfl
  | folder .missing => rfl
  | folder (.file _) => rfl

/-- Saved preferences are read back, sanitized, if all their sizes are finite, else refused. -/
theorem tryLoad_save (s : Store) (p : Preferences) (hspeed : p.speed < UInt64.size)
    (hsave : (s.save p).2 = .ok ()) :
    (p.Finite → (s.save p).1.tryLoad = .ok p.sanitized ∧ p.sanitized =
      ⟨max 500 (min p.speed 3000), if 0 < p.canvasWidth then p.canvasWidth else 960,
        if 0 < p.tableWidth then p.tableWidth else 180,
        if 0 < p.tableHeight then p.tableHeight else 120,
        if 0 ≤ p.padding then p.padding else 40⟩) ∧
      (¬p.Finite → (s.save p).1.tryLoad = .error .malformed ∧ (s.save p).1.load = .standard) := by
  have hstore := save_of_ok hsave
  have hread := Json.ofString?_pretty p.spelled_toJson
  obtain ⟨hfinite, hnotFinite⟩ := Preferences.ofJson?_toJson hspeed
  constructor
  · intro hp
    refine ⟨?_, hp.sanitized_eq⟩
    simp only [hstore, tryLoad, text, hread, Option.bind_some, hfinite hp]
  · intro hp
    have htry : (s.save p).1.tryLoad = .error .malformed := by
      simp only [hstore, tryLoad, text, hread, Option.bind_some, hnotFinite hp]
    exact ⟨htry, load_of_error htry⟩

theorem tryLoad_save_negative_zero :
    let p : Preferences := ⟨10, 0.1, -0.0, 16777216, -0.0⟩
    let q : Preferences := { p with padding := Float32.ofBits 0xFF800000 }
    p.speed < UInt64.size ∧ (missing.save p).2 = .ok () ∧ p.Finite ∧
      (missing.save p).1.tryLoad = .ok p.sanitized ∧ p.sanitized.speed = 500 ∧
      p.sanitized.tableWidth = 180 ∧ p.sanitized.padding.toBits = 0x80000000 ∧
      ¬q.Finite ∧ (missing.save q).1.tryLoad = .error .malformed ∧
      (missing.save q).1.load = .standard := by
  intro p q
  have hspeed : p.speed < UInt64.size := by decide
  have hp : p.Finite := ⟨by decide, by decide, by decide, by decide⟩
  have hq : ¬q.Finite := fun h => absurd h.padding (by decide)
  obtain ⟨hread, -⟩ := tryLoad_save missing p hspeed rfl
  obtain ⟨-, hlost⟩ := tryLoad_save missing q hspeed rfl
  exact ⟨hspeed, rfl, hp, (hread hp).1, by decide, by decide, by decide, hq, hlost hq⟩

/-- A single size that is no number is enough for the whole record to be lost. -/
theorem not_tryLoad_save_nan :
    ¬∀ (s : Store) (p : Preferences), p.speed < UInt64.size → (s.save p).2 = .ok () →
      (s.save p).1.tryLoad = .ok p.sanitized := by
  intro h
  let p : Preferences := { Preferences.standard with canvasWidth := Float32.ofBits 0x7FC00000 }
  have hmalformed : (missing.save p).1.tryLoad.isOk = false := by decide +kernel
  rw [h missing p (by decide) rfl] at hmalformed
  cases hmalformed

end Store
end SqlWalk
