import SqlWalk.Proofs.Player.Timer
import SqlWalk.Proofs.Session.Coherence

namespace SqlWalk

/-- What a session shows behind an event: the reply, and all that can be seen of it. -/
structure SessionAnswer where
  reply : Option Reply
  isArmed : Bool
  text : String
  canvasWidth : Float32
  view : SessionView

def SessionEvent.setsOff : SessionEvent → Bool
  | .player e => e.setsOff
  | .setQuery _ | .setCanvasWidth _ => false

namespace Session

variable {s s' s₁ s₂ : Session} {e : SessionEvent} {r : Option Reply} {text : String}

def answer (s : Session) (reply : Option Reply) : SessionAnswer :=
  ⟨reply, s.player.isArmed, s.text, s.canvasWidth, s.view⟩

def trace (s : Session) : List SessionEvent → List SessionAnswer
  | [] => []
  | e :: es => (s.handle e).1.answer (s.handle e).2 :: (s.handle e).1.trace es

theorem setQuery_self (s : Session) : s.setQuery s.text = s :=
  if_pos rfl

theorem setQuery_of_ne (ht : text ≠ s.text) :
    s.setQuery text =
      { s with
        text
        query := .ofText text
        player := .new (.ofQuery (.ofText text)) s.player.machine.speed s.player.hasClock
        layout := .ofTables (Query.ofText text).tables s.canvasWidth s.dimensions } :=
  if_neg ht

theorem setQuery_congr (ht₁ : text ≠ s₁.text) (ht₂ : text ≠ s₂.text)
    (hspeed : s₁.player.machine.speed = s₂.player.machine.speed)
    (hclock : s₁.player.hasClock = s₂.player.hasClock) (hwidth : s₁.canvasWidth = s₂.canvasWidth)
    (hdim : s₁.dimensions = s₂.dimensions) : s₁.setQuery text = s₂.setQuery text := by
  rw [setQuery_of_ne ht₁, setQuery_of_ne ht₂, hspeed, hclock, hwidth, hdim]

theorem Becomes.holdsAll (hb : s.Becomes e s' r) (h : s.player.HoldsAll) : s'.player.HoldsAll := by
  cases hb with
  | sameText => exact h
  | newText ht => exact Player.holdsAll_new _ _ _
  | sameWidth => exact h
  | newWidth => exact h
  | played e => exact (s.player.becomes_handle e).holdsAll h

theorem holdsAll_run (p : Preferences) (hasClock : Bool) (events : List SessionEvent) :
    ((new p hasClock).run events).player.HoldsAll :=
  run_invariant (P := fun s => s.player.HoldsAll) (fun _ _ _ _ hb h => hb.holdsAll h)
    (Player.holdsAll_new _ _ _) events

theorem Becomes.atRest (hb : s.Becomes e s' r) (h : s.player.AtRest) (he : e.setsOff = false) :
    s'.player.AtRest := by
  cases hb with
  | sameText => exact h
  | newText ht => exact Player.atRest_new _ _ _
  | sameWidth => exact h
  | newWidth => exact h
  | played e => exact (s.player.becomes_handle e).atRest h he

theorem atRest_run (h : s.player.AtRest) {events : List SessionEvent}
    (he : ∀ e ∈ events, e.setsOff = false) : (s.run events).player.AtRest := by
  induction events generalizing s with
  | nil => exact h
  | cons e events ih =>
    rw [List.forall_mem_cons] at he
    exact ih ((s.becomes_handle e).atRest h he.1) he.2

theorem atRest_setQuery (ht : text ≠ s.text) : (s.setQuery text).player.AtRest := by
  rw [setQuery_of_ne ht]
  exact Player.atRest_new _ _ _

theorem handle_wait_of_atRest (h : s.player.AtRest) (ms : Nat) :
    s.handle (.player (.wait ms)) = (s, none) := by
  simp only [handle, Player.handle, Player.wait_of_nil h.timers]

theorem player_run (s : Session) (events : List PlayerEvent) :
    (s.run (events.map .player)).player = s.player.run events := by
  induction events generalizing s with
  | nil => rfl
  | cons e events ih => exact ih (s.handle (.player e)).1

theorem player_run_setQuery (ht : text ≠ s.text) (events : List PlayerEvent) :
    ((s.setQuery text).run (events.map .player)).player =
      (Player.new (.ofQuery (.ofText text)) s.player.machine.speed s.player.hasClock).run
        events := by
  rw [player_run, setQuery_of_ne ht]

/-- From a new text on, sessions of one speed, width and dimensions answer alike, whatever their
pasts. No timer of the past is left, and the same text again changes nothing. -/
theorem trace_setQuery {p₁ p₂ : Preferences} (hdim : p₁.dimensions = p₂.dimensions)
    (hasClock : Bool) (past₁ past₂ : List SessionEvent) (text : String) :
    let s₁ := (new p₁ hasClock).run past₁
    let s₂ := (new p₂ hasClock).run past₂
    (text ≠ s₁.text → text ≠ s₂.text → s₁.snapshot.speed = s₂.snapshot.speed →
      s₁.canvasWidth = s₂.canvasWidth → ∀ future,
        s₁.trace (.setQuery text :: future) = s₂.trace (.setQuery text :: future)) ∧
      s₁.player.cancel.timers = [] ∧
      (text ≠ s₁.text →
        (∀ events, ((s₁.setQuery text).run (events.map .player)).player =
          (Player.new (.ofQuery (.ofText text)) s₁.snapshot.speed hasClock).run events) ∧
        ∀ future, (∀ e ∈ future, e.setsOff = false) →
          let s := (s₁.setQuery text).run future
          s.player.timers = [] ∧ ∀ ms, s.handle (.player (.wait ms)) = (s, none)) ∧
      s₁.setQuery s₁.text = s₁ := by
  intro s₁ s₂
  have hclock₁ : s₁.player.hasClock = hasClock := hasClock_run _ past₁
  have hclock₂ : s₂.player.hasClock = hasClock := hasClock_run _ past₂
  have hdim₁ : s₁.dimensions = p₁.dimensions := dimensions_run _ past₁
  have hdim₂ : s₂.dimensions = p₂.dimensions := dimensions_run _ past₂
  refine ⟨?_, (holdsAll_run p₁ hasClock past₁).timers_cancel, ?_, s₁.setQuery_self⟩
  · intro ht₁ ht₂ hspeed hwidth future
    have hd : s₁.dimensions = s₂.dimensions := hdim₁.trans (hdim.trans hdim₂.symm)
    have heq := setQuery_congr ht₁ ht₂ hspeed (hclock₁.trans hclock₂.symm) hwidth hd
    simp only [trace, handle, heq]
  · intro ht
    refine ⟨?_, ?_⟩
    · intro events
      rw [player_run_setQuery ht, hclock₁]
      rfl
    · intro future hf s
      have hs : s.player.AtRest := atRest_run (atRest_setQuery ht) hf
      exact ⟨hs.timers, handle_wait_of_atRest hs⟩

theorem trace_setQuery_running :
    let s₁ := (new .standard true).run
      [.setQuery "SELECT a FROM t", .player (.command .start), .player (.wait 250)]
    let s₂ := new .standard true
    s₁.player.timers = [⟨1, 1000, 750⟩] ∧
      (∀ future, s₁.trace (.setQuery "SELECT b FROM u" :: future) =
        s₂.trace (.setQuery "SELECT b FROM u" :: future)) ∧
      ((s₁.setQuery "SELECT b FROM u").run [.player (.command .stepForward)]).player.timers = [] := by
  obtain ⟨htrace, -, hrest, -⟩ := @trace_setQuery .standard .standard rfl true
    [.setQuery "SELECT a FROM t", .player (.command .start), .player (.wait 250)] []
    "SELECT b FROM u"
  have hf : ∀ e ∈ [SessionEvent.player (.command .stepForward)], e.setsOff = false := by
    simp [SessionEvent.setsOff, PlayerEvent.setsOff]
  exact ⟨by decide +kernel, htrace (by decide) (by decide) (by decide +kernel) rfl,
    ((hrest (by decide)).2 _ hf).1⟩

end Session
end SqlWalk
