import SqlWalk.Proofs.Layout.Grid
import SqlWalk.Proofs.Session.Coherence

namespace SqlWalk

variable {s s' : Session} {p : Preferences} {e : SessionEvent} {r : Option Reply}

/-- Says whether an event leaves the blank layout that a session begins with. -/
def SessionEvent.keepsBlank (p : Preferences) : SessionEvent → Bool
  | .setQuery text => text == ""
  | .setCanvasWidth width => width == p.canvasWidth
  | .player _ => true

namespace Session

def Laid (s : Session) : Prop :=
  s.layout.columnsPerRow = s.dimensions.columnsPerRow s.canvasWidth

/-- The states in which a session still has the layout, the text and the width it began with. -/
structure Unlaid (p : Preferences) (s : Session) : Prop where
  text : s.text = ""
  canvasWidth : s.canvasWidth = p.canvasWidth
  columns : s.layout.columnsPerRow = 0

theorem unlaid_new (p : Preferences) (hasClock : Bool) : (new p hasClock).Unlaid p :=
  ⟨rfl, rfl, rfl⟩

theorem Laid.becomes (h : s.Laid) (hb : s.Becomes e s' r) : s'.Laid := by
  cases hb with
  | sameText => exact h
  | newText => rfl
  | sameWidth => exact h
  | newWidth => rfl
  | played e => exact h

theorem Laid.run (h : s.Laid) (events : List SessionEvent) : (s.run events).Laid :=
  run_invariant (fun _ _ _ _ hb hs => hs.becomes hb) h events

theorem Unlaid.keepsBlank_setQuery (h : s.Unlaid p) (text : String) :
    (SessionEvent.setQuery text).keepsBlank p = (text == s.text) := by
  rw [h.text]
  rfl

theorem Unlaid.keepsBlank_setCanvasWidth (h : s.Unlaid p) (width : Float32) :
    (SessionEvent.setCanvasWidth width).keepsBlank p = (width == s.canvasWidth) := by
  rw [h.canvasWidth]
  rfl

theorem Unlaid.becomes (h : s.Unlaid p) (hb : s.Becomes e s' r) :
    if e.keepsBlank p then s'.Unlaid p else s'.Laid := by
  cases hb with
  | sameText =>
    rw [h.keepsBlank_setQuery, if_pos (beq_self_eq_true _)]
    exact h
  | newText ht =>
    rw [h.keepsBlank_setQuery, if_neg (by simpa using ht)]
    rfl
  | sameWidth hw =>
    rw [h.keepsBlank_setCanvasWidth, if_pos hw]
    exact h
  | newWidth hw =>
    rw [h.keepsBlank_setCanvasWidth, hw, if_neg Bool.false_ne_true]
    rfl
  | played e => exact ⟨h.text, h.canvasWidth, h.columns⟩

theorem Unlaid.columns_run (h : s.Unlaid p) (events : List SessionEvent) :
    (s.run events).layout.columnsPerRow =
      if events.all (·.keepsBlank p) then 0
      else s.dimensions.columnsPerRow (s.run events).canvasWidth := by
  induction events generalizing s with
  | nil => exact h.columns
  | cons e events ih =>
    have hb := s.becomes_handle e
    have hnext := h.becomes hb
    cases he : e.keepsBlank p with
    | true =>
      rw [he, if_pos rfl] at hnext
      rw [List.all_cons, he, Bool.true_and, ← hb.dimensions_eq]
      exact ih hnext
    | false =>
      rw [he, if_neg Bool.false_ne_true] at hnext
      have hlaid : (s.run (e :: events)).Laid := hnext.run events
      rw [List.all_cons, he, Bool.false_and, if_neg Bool.false_ne_true, hlaid, dimensions_run]

/-- The columns are those of the width once an event has changed text or width, else none. -/
theorem columnsPerRow_run (p : Preferences) (hasClock : Bool) (events : List SessionEvent) :
    let s := (new p hasClock).run events
    (s.layout.columnsPerRow =
      if events.all (·.keepsBlank p) then 0 else p.dimensions.columnsPerRow s.canvasWidth) ∧
    (1 ≤ s.layout.columnsPerRow ↔ ∃ e ∈ events, e.keepsBlank p = false) := by
  intro s
  have hcolumns : s.layout.columnsPerRow =
      if events.all (·.keepsBlank p) then 0 else p.dimensions.columnsPerRow s.canvasWidth :=
    (unlaid_new p hasClock).columns_run events
  refine ⟨hcolumns, ?_⟩
  rw [hcolumns]
  cases hall : events.all (·.keepsBlank p) with
  | true => simpa using hall
  | false =>
    simp only [Bool.false_eq_true, if_false, Dimensions.one_le_columnsPerRow, true_iff]
    simpa using hall

/-- A new session has no column, though its canvas is wide enough for four. -/
theorem not_columnsPerRow_new :
    ¬∀ (p : Preferences) (hasClock : Bool) (events : List SessionEvent),
      let s := (new p hasClock).run events
      s.layout.columnsPerRow = s.dimensions.columnsPerRow s.canvasWidth ∧
        1 ≤ s.layout.columnsPerRow := by
  intro h
  have hfour : Dimensions.standard.columnsPerRow 960 = 4 := by decide +kernel
  have hzero : 0 = Dimensions.standard.columnsPerRow 960 := (h .standard true []).1
  omega

end Session
end SqlWalk
