import SqlWalk.Session
import SqlWalk.Proofs.Player.Event

namespace SqlWalk

theorem Plan.size_ofQuery_pos {q : Query} : 0 < (Plan.ofQuery q).size ↔ q.tables ≠ [] := by
  by_cases h : q.tables = []
  · simp [ofQuery, size, Query.isEmpty, h]
  · simp [ofQuery, size, Query.isEmpty, h, Step.canonical, Step.isPlannedFor]

theorem Machine.Sound.step?_eq_none {m : Machine} (h : m.Sound) :
    m.step? = none ↔ ¬ 0 < m.plan.size := by
  have hlt := h.index_lt
  simp only [Plan.size] at hlt ⊢
  rw [step?, Plan.get?, List.getElem?_eq_none_iff]
  omega

namespace Session

/-- What an event can make of a session. A text or a width that is already there changes nothing, a
new one replaces what was derived, and any other event goes to the player. -/
inductive Becomes (s : Session) : SessionEvent → Session → Option Reply → Prop where
  | sameText : Becomes s (.setQuery s.text) s none
  | newText {text : String} : text ≠ s.text →
      Becomes s (.setQuery text)
        { s with
          text
          query := .ofText text
          player := .new (.ofQuery (.ofText text)) s.player.machine.speed s.player.hasClock
          layout := .ofTables (Query.ofText text).tables s.canvasWidth s.dimensions }
        none
  | sameWidth {width : Float32} : (width == s.canvasWidth) = true →
      Becomes s (.setCanvasWidth width) s none
  | newWidth {width : Float32} : (width == s.canvasWidth) = false →
      Becomes s (.setCanvasWidth width)
        { s with
          canvasWidth := width
          layout := .ofTables s.query.tables width s.dimensions }
        none
  | played (e : PlayerEvent) :
      Becomes s (.player e) { s with player := (s.player.handle e).1 } (s.player.handle e).2

variable {s s' : Session} {e : SessionEvent} {r : Option Reply}

theorem becomes_handle (s : Session) (e : SessionEvent) :
    s.Becomes e (s.handle e).1 (s.handle e).2 := by
  cases e with
  | setQuery text =>
    simp only [handle, setQuery]
    split
    · next ht =>
      subst ht
      exact .sameText
    · next ht => exact .newText ht
  | setCanvasWidth width =>
    simp only [handle, setCanvasWidth]
    split
    · next hw => exact .sameWidth hw
    · next hw => exact .newWidth (Bool.eq_false_iff.2 hw)
  | player e => exact .played e

theorem run_invariant {P : Session → Prop} (step : ∀ s e s' r, s.Becomes e s' r → P s → P s')
    (h : P s) (events : List SessionEvent) : P (s.run events) := by
  induction events generalizing s with
  | nil => exact h
  | cons e events ih => exact ih (step s e _ _ (s.becomes_handle e) h)

namespace Becomes

theorem dimensions_eq (hb : s.Becomes e s' r) : s'.dimensions = s.dimensions := by
  cases hb with
  | sameText => rfl
  | newText => rfl
  | sameWidth => rfl
  | newWidth => rfl
  | played e => rfl

theorem hasClock_eq (hb : s.Becomes e s' r) : s'.player.hasClock = s.player.hasClock := by
  cases hb with
  | sameText => rfl
  | newText => rfl
  | sameWidth => rfl
  | newWidth => rfl
  | played e => exact (s.player.becomes_handle e).hasClock_eq

end Becomes

theorem dimensions_run (s : Session) (events : List SessionEvent) :
    (s.run events).dimensions = s.dimensions :=
  run_invariant (P := fun s' => s'.dimensions = s.dimensions)
    (fun _ _ _ _ hb h => hb.dimensions_eq.trans h) rfl events

theorem hasClock_run (s : Session) (events : List SessionEvent) :
    (s.run events).player.hasClock = s.player.hasClock :=
  run_invariant (P := fun s' => s'.player.hasClock = s.player.hasClock)
    (fun _ _ _ _ hb h => hb.hasClock_eq.trans h) rfl events

/-- What a session derives from its text agrees with it. -/
structure Coherent (s : Session) : Prop where
  query : s.query = .ofText s.text
  plan : s.plan = .ofQuery s.query
  boxes : s.layout.boxes = (Layout.ofTables s.query.tables s.canvasWidth s.dimensions).boxes
  sound : s.player.machine.Sound

theorem coherent_new (p : Preferences) (hasClock : Bool) : (new p hasClock).Coherent where
  query := rfl
  plan := rfl
  boxes := rfl
  sound := Machine.sound_new ⟨[]⟩ p.speed

theorem Coherent.becomes (h : s.Coherent) (hb : s.Becomes e s' r) : s'.Coherent := by
  cases hb with
  | sameText => exact h
  | newText ht => exact ⟨rfl, rfl, rfl, Machine.sound_new _ _⟩
  | sameWidth => exact h
  | newWidth hw => exact ⟨h.query, h.plan, rfl, h.sound⟩
  | played e =>
    have hp := s.player.becomes_handle e
    exact ⟨h.query, hp.plan_eq.trans h.plan, h.boxes, hp.sound h.sound⟩

theorem Coherent.run (h : s.Coherent) (events : List SessionEvent) : (s.run events).Coherent :=
  run_invariant (fun _ _ _ _ hb hs => hs.becomes hb) h events

theorem Coherent.step_eq_none (h : s.Coherent) : s.snapshot.step = none ↔ s.query.tables = [] := by
  have hs : 0 < s.player.machine.plan.size ↔ s.query.tables ≠ [] := by
    rw [← Plan.size_ofQuery_pos, ← h.plan]
    rfl
  exact h.sound.step?_eq_none.trans (by rw [hs, Classical.not_not])

theorem Coherent.highlights_eq (h : s.Coherent) :
    s.snapshot.phase = .idle ∧ s.highlights = .none s.query ∨
      s.snapshot.phase ≠ .idle ∧
        ∃ step, s.snapshot.step = some step ∧ s.highlights = .ofStep step s.query := by
  by_cases hi : s.player.machine.phase = .idle
  · refine .inl ⟨hi, ?_⟩
    simp only [highlights, hi]
  · have hp := h.sound.size_pos hi
    obtain ⟨step, hstep⟩ := Option.ne_none_iff_exists'.1 fun hn => h.sound.step?_eq_none.1 hn hp
    refine .inr ⟨hi, step, hstep, ?_⟩
    simp only [highlights, hstep]

/-- All that a session shows belongs to its text, whatever happened to it. -/
theorem coherent_run (p : Preferences) (hasClock : Bool) (events : List SessionEvent) :
    let s := (new p hasClock).run events
    s.query = .ofText s.text ∧ s.plan = .ofQuery s.query ∧
      s.snapshot.total = s.plan.size ∧ s.snapshot.step = s.plan.get? s.snapshot.index ∧
      s.layout.boxes = (Layout.ofTables s.query.tables s.canvasWidth p.dimensions).boxes ∧
      (s.snapshot.step = none ↔ s.query.tables = []) ∧
      (s.snapshot.phase = .idle ∧ s.highlights = .none s.query ∨
        s.snapshot.phase ≠ .idle ∧
          ∃ step, s.snapshot.step = some step ∧ s.highlights = .ofStep step s.query) := by
  intro s
  have h : s.Coherent := (coherent_new p hasClock).run events
  have hd : s.dimensions = p.dimensions := (new p hasClock).dimensions_run events
  exact ⟨h.query, h.plan, rfl, rfl, hd ▸ h.boxes, h.step_eq_none, h.highlights_eq⟩

end Session
end SqlWalk
