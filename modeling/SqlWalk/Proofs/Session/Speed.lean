import SqlWalk.Proofs.Player.Clock
import SqlWalk.Proofs.Session.Coherence

namespace SqlWalk

variable {m : Machine} {p : Player} {s : Session} {factor : Float}

theorem clampSpeed_of_bounds {ms : Nat} (hmin : minSpeed ≤ ms) (hmax : ms ≤ maxSpeed) :
    clampSpeed ms = ms := by
  rw [clampSpeed, Nat.min_eq_left hmax, Nat.max_eq_right hmin]

theorem Machine.Sound.speed_bounds (h : m.Sound) : 500 ≤ m.speed ∧ m.speed ≤ 3000 :=
  ⟨h.minSpeed_le, h.le_maxSpeed⟩

theorem Machine.changeSpeed_of_unusable (h : ¬(factor.isFinite = true ∧ 0 < factor))
    (m : Machine) : m.changeSpeed factor = (m, .ignored) := by
  rw [changeSpeed, if_neg]
  rw [Bool.and_eq_true, decide_eq_true_eq]
  exact h

namespace Player

/-- Says that the machine of a player is sound, and that the player rests if it has no clock. -/
structure Steady (p : Player) : Prop where
  sound : p.machine.Sound
  atRest : p.hasClock = false → p.AtRest

theorem steady_new (plan : Plan) (speed : Nat) (hasClock : Bool) :
    (new plan speed hasClock).Steady where
  sound := Machine.sound_new plan speed
  atRest _ := atRest_new plan speed hasClock

theorem Steady.handle (h : p.Steady) (e : PlayerEvent) : (p.handle e).1.Steady where
  sound := (p.becomes_handle e).sound h.sound
  atRest hclock := by
    have hb := p.becomes_handle e
    rw [hb.hasClock_eq] at hclock
    cases he : e.setsOff with
    | true =>
      rw [handle_of_setsOff hclock he]
      exact h.atRest hclock
    | false => exact hb.atRest (h.atRest hclock) he

theorem Steady.run (h : p.Steady) (events : List PlayerEvent) : (p.run events).Steady :=
  run_invariant (fun _ e hp => hp.handle e) h events

theorem Steady.changeSpeed_of_unusable (h : p.Steady)
    (hf : ¬(factor.isFinite = true ∧ 0 < factor)) :
    p.perform (.changeSpeed factor) = (p, .ok .ignored) := by
  have hresult : p.machine.changeSpeed factor = (p.machine, .ignored) :=
    Machine.changeSpeed_of_unusable hf p.machine
  rw [perform, changeSpeed, hresult]
  split
  · next hr =>
    cases hclock : p.hasClock with
    | true =>
      rw [needingClock, if_pos hclock]
      rfl
    | false => exact absurd hr (h.atRest hclock).stopped
  · rfl

end Player

namespace Session

theorem Becomes.steady {s' : Session} {e : SessionEvent} {r : Option Reply}
    (hb : s.Becomes e s' r) (h : s.player.Steady) : s'.player.Steady := by
  cases hb with
  | sameText => exact h
  | newText ht => exact Player.steady_new _ _ _
  | sameWidth => exact h
  | newWidth => exact h
  | played e => exact h.handle e

theorem steady_run (prefs : Preferences) (hasClock : Bool) (events : List SessionEvent) :
    ((new prefs hasClock).run events).player.Steady :=
  run_invariant (P := fun s => s.player.Steady) (fun _ _ _ _ hb h => hb.steady h)
    (Player.steady_new _ _ _) events

theorem speed_setQuery (h : s.player.Steady) (text : String) :
    (s.setQuery text).snapshot.speed = s.snapshot.speed := by
  rw [setQuery]
  split
  · rfl
  · exact clampSpeed_of_bounds h.sound.minSpeed_le h.sound.le_maxSpeed

/-- A step takes from half a second to three seconds. A factor that is not finite and positive
changes nothing, and no new text changes the speed. -/
theorem speed_run :
    (∀ (plan : Plan) (speed : Nat) (events : List MachineEvent),
      let m := (Machine.new plan speed).run events
      (500 ≤ m.snapshot.speed ∧ m.snapshot.speed ≤ 3000) ∧
        ∀ factor : Float, ¬(factor.isFinite = true ∧ 0 < factor) →
          m.perform (.changeSpeed factor) = (m, .ignored)) ∧
    (∀ (plan : Plan) (speed : Nat) (hasClock : Bool) (events : List PlayerEvent),
      let p := (Player.new plan speed hasClock).run events
      (500 ≤ p.snapshot.speed ∧ p.snapshot.speed ≤ 3000) ∧
        ∀ factor : Float, ¬(factor.isFinite = true ∧ 0 < factor) →
          p.perform (.changeSpeed factor) = (p, .ok .ignored)) ∧
    ∀ (prefs : Preferences) (hasClock : Bool) (events : List SessionEvent),
      let s := (new prefs hasClock).run events
      (500 ≤ s.snapshot.speed ∧ s.snapshot.speed ≤ 3000) ∧
        (∀ factor : Float, ¬(factor.isFinite = true ∧ 0 < factor) →
          s.handle (.player (.command (.changeSpeed factor))) = (s, some (.ok .ignored))) ∧
        ∀ text, (s.setQuery text).snapshot.speed = s.snapshot.speed := by
  refine ⟨?_, ?_, ?_⟩
  · intro plan speed events m
    have h : m.Sound := (Machine.sound_new plan speed).run events
    exact ⟨h.speed_bounds, fun factor hf => Machine.changeSpeed_of_unusable hf m⟩
  · intro plan speed hasClock events p
    have h : p.Steady := (Player.steady_new plan speed hasClock).run events
    exact ⟨h.sound.speed_bounds, fun factor hf => h.changeSpeed_of_unusable hf⟩
  · intro prefs hasClock events s
    have h : s.player.Steady := steady_run prefs hasClock events
    refine ⟨h.sound.speed_bounds, ?_, fun text => speed_setQuery h text⟩
    intro factor hf
    simp only [handle, Player.handle, h.changeSpeed_of_unusable hf]

theorem speed_run_infinite :
    let factor : Float := 1 / 0
    let s := (new ⟨7, 960, 180, 120, 40⟩ true).run
      [.setQuery "SELECT a FROM t", .player (.command .start),
        .player (.command (.changeSpeed 1e300)), .player (.wait 250)]
    ¬(factor.isFinite = true ∧ 0 < factor) ∧ s.snapshot.speed = 3000 ∧
      s.handle (.player (.command (.changeSpeed factor))) = (s, some (.ok .ignored)) ∧
      (s.setQuery "SELECT b FROM u").snapshot.speed = 3000 := by
  intro factor s
  have hf : ¬(factor.isFinite = true ∧ 0 < factor) := by decide +kernel
  have hspeed : s.snapshot.speed = 3000 := by decide +kernel
  obtain ⟨-, hignored, hkept⟩ := speed_run.2.2 ⟨7, 960, 180, 120, 40⟩ true
    [.setQuery "SELECT a FROM t", .player (.command .start),
      .player (.command (.changeSpeed 1e300)), .player (.wait 250)]
  exact ⟨hf, hspeed, hignored factor hf, (hkept _).trans hspeed⟩

end Session
end SqlWalk
