import SqlWalk.Proofs.Player.Event

namespace SqlWalk

/-- The commands that ask for a clock: those that may have to arm a timer. -/
def Command.asksForClock (m : Machine) : Command → Bool
  | .start => !m.plan.isEmpty
  | .resume => true
  | .changeSpeed _ => m.phase == .running
  | .pause | .reset | .stepForward => false

namespace Player

variable {p q : Player} {e : PlayerEvent} {r : Option Reply} {plan : Plan}

theorem settle_ne_noClock (p : Player) (result : Machine × Outcome) (next : Player → Player) :
    (p.settle result next).2 ≠ .error .noClock :=
  nofun

theorem needingClock_eq_noClock_iff {go : Player × Reply} (hgo : go.2 ≠ .error .noClock) :
    (p.needingClock go).2 = .error .noClock ↔ p.hasClock = false := by
  rw [needingClock]
  split
  · next hc => simp [hgo, hc]
  · next hc => simp [hc]

theorem perform_eq_noClock_iff (p : Player) (c : Command) :
    (p.perform c).2 = .error .noClock ↔ p.hasClock = false ∧ c.asksForClock p.machine = true := by
  have hsettle (result : Machine × Outcome) (next : Player → Player) :=
    p.settle_ne_noClock result next
  have hneeding (result : Machine × Outcome) (next : Player → Player) :=
    needingClock_eq_noClock_iff (p := p) (hsettle result next)
  cases c with
  | start =>
    simp only [perform, start, Command.asksForClock]
    split
    · next he => simp [he]
    · next he => rw [hneeding]; simp [he]
  | resume =>
    simp only [perform, resume, Command.asksForClock, and_true]
    exact hneeding _ _
  | changeSpeed factor =>
    simp only [perform, changeSpeed, Command.asksForClock]
    split
    · next hr => rw [hneeding]; simp [hr]
    · next hr => simp [hsettle, hr]
  | pause => simp [perform, pause, hsettle, Command.asksForClock]
  | reset => simp [perform, reset, hsettle, Command.asksForClock]
  | stepForward => simp [perform, stepForward, hsettle, Command.asksForClock]

theorem handle_of_setsOff (hc : p.hasClock = false) (he : e.setsOff = true) :
    (p.handle e).1 = p := by
  have hneeding (go : Player × Reply) : (p.needingClock go).1 = p := by
    rw [needingClock, hc]
    rfl
  cases e with
  | wait ms => cases he
  | command c =>
    cases c with
    | start =>
      simp only [handle, perform, start]
      split
      · rfl
      · exact hneeding _
    | resume => exact hneeding _
    | pause => cases he
    | reset => cases he
    | stepForward => cases he
    | changeSpeed factor => cases he

theorem Becomes.not_completed (h : p.Becomes e q r) (hr : p.machine.phase ≠ .running)
    (hc : p.machine.phase ≠ .completed) : q.machine.phase ≠ .completed := by
  cases h with
  | unclocked => exact hc
  | refused => exact hc
  | kept _ hm => rwa [← hm] at hc
  | cancelled hm =>
    cases Machine.applies_of_perform hm with
    | start => nofun
    | pause => nofun
    | resume => nofun
    | reset => nofun
    | stepForward => nofun
    | changeSpeed => exact hc
  | armed _ hm =>
    intro hd
    cases hm.symm.trans hd
  | waited _ n =>
    rw [Machine.ticked_of_not_running hr]
    exact hc

structure Stilled (plan : Plan) (p : Player) : Prop where
  hasClock : p.hasClock = false
  plan_eq : p.machine.plan = plan
  atRest : p.AtRest
  not_completed : p.machine.phase ≠ .completed

theorem stilled_new (plan : Plan) (speed : Nat) : (new plan speed false).Stilled plan :=
  ⟨rfl, rfl, atRest_new plan speed false, nofun⟩

theorem Stilled.handle (h : p.Stilled plan) (e : PlayerEvent) : (p.handle e).1.Stilled plan := by
  have hb := p.becomes_handle e
  cases he : e.setsOff with
  | true => rwa [handle_of_setsOff h.hasClock he]
  | false =>
    exact ⟨hb.hasClock_eq.trans h.hasClock, hb.plan_eq.trans h.plan_eq, hb.atRest h.atRest he,
      hb.not_completed h.atRest.stopped h.not_completed⟩

theorem Stilled.run (h : p.Stilled plan) (events : List PlayerEvent) :
    (p.run events).Stilled plan :=
  run_invariant (fun _ e hp => hp.handle e) h events

theorem hasClock_run (p : Player) (events : List PlayerEvent) :
    (p.run events).hasClock = p.hasClock :=
  run_invariant (P := fun p' => p'.hasClock = p.hasClock)
    (fun p' e h => (p'.becomes_handle e).hasClock_eq.trans h) rfl events

/-- Without a clock a machine never runs, and for want of one a player refuses just to start a plan
with steps and to resume. With a clock it refuses nothing for want of one. -/
theorem clock_run (plan : Plan) (speed : Nat) (events : List PlayerEvent) :
    let p := (new plan speed false).run events
    let clocked := (new plan speed true).run events
    p.machine.phase ≠ .running ∧ p.machine.phase ≠ .completed ∧ p.timers = [] ∧
      p.isArmed = false ∧
      ((p.perform .start).2 = .error .noClock ↔ plan.isEmpty = false) ∧
      (p.perform .resume).2 = .error .noClock ∧
      (∀ factor, (p.perform (.changeSpeed factor)).2 ≠ .error .noClock) ∧
      ∀ c, (clocked.perform c).2 ≠ .error .noClock := by
  intro p clocked
  have h : p.Stilled plan := (stilled_new plan speed).run events
  have hclock : clocked.hasClock = true := hasClock_run _ events
  have hunarmed : p.isArmed = false := by
    rw [isArmed, h.atRest.timers]
    rfl
  refine ⟨h.atRest.stopped, h.not_completed, h.atRest.timers, hunarmed, ?_, ?_, ?_, ?_⟩
  · rw [perform_eq_noClock_iff, h.hasClock, Command.asksForClock, h.plan_eq]
    simp
  · rw [perform_eq_noClock_iff]
    exact ⟨h.hasClock, rfl⟩
  · intro factor
    rw [Ne, perform_eq_noClock_iff, Command.asksForClock, beq_iff_eq]
    exact fun hr => h.atRest.stopped hr.2
  · intro c
    rw [Ne, perform_eq_noClock_iff, hclock]
    nofun

end Player
end SqlWalk
