import SqlWalk.Proofs.Player.Event

namespace SqlWalk.Player

variable {p q : Player} {c : Command} {m' : Machine} {r : Nat}

/-- The state of a player with a clock: the timers follow the machine. -/
structure InStep (p : Player) : Prop where
  hasClock : p.hasClock = true
  sound : p.machine.Sound
  idle : p.machine.phase ≠ .running → p.timers = []
  running : p.machine.phase = .running → ∃ r, 0 < r ∧ r ≤ p.machine.speed ∧
    p.timers = [⟨p.generation, p.machine.speed, r⟩] ∧ p.held = some p.generation

/-- What a command can do to the timers: leave none to a machine that does not run, leave the timer
alone, or arm a new one for a machine that starts to run or changes its speed. -/
inductive Rearms (p q : Player) : Prop where
  | stopped : q.machine.phase ≠ .running → q.timers = [] → Rearms p q
  | kept : p.machine.phase = .running → q.machine.phase = .running →
      q.machine.speed = p.machine.speed → q.timers = p.timers → q.generation = p.generation →
      q.held = p.held → Rearms p q
  | armed : q.machine.phase = .running →
      (p.machine.phase = .running → q.machine.speed ≠ p.machine.speed) →
      q.timers = [⟨q.generation, q.machine.speed, q.machine.speed⟩] →
      q.held = some q.generation → Rearms p q

/-- What a player with a clock makes of a command: its machine performs it and answers it. -/
structure Obeys (p : Player) (c : Command) (result : Player × Reply) : Prop where
  reply : result.2 = .ok (p.machine.perform c).2
  machine : result.1.machine = (p.machine.perform c).1
  hasClock : result.1.hasClock = p.hasClock
  rearms : p.Rearms result.1

theorem InStep.timers_cancel (h : p.InStep) (m : Machine) :
    ({ p with machine := m } : Player).cancel.timers = [] := by
  by_cases hr : p.machine.phase = .running
  · obtain ⟨r, _, _, ht, hh⟩ := h.running hr
    simp [cancel, ht, hh]
  · simp [cancel, h.idle hr]

theorem InStep.timers_arm (h : p.InStep) (m : Machine) :
    ({ p with machine := m } : Player).arm.timers = [⟨p.generation + 1, m.speed, m.speed⟩] := by
  have hc := h.timers_cancel m
  simp only [arm, keep, hc, List.nil_append]
  rfl

theorem InStep.rearms_self (h : p.InStep) : p.Rearms p := by
  by_cases hr : p.machine.phase = .running
  · exact .kept hr hr rfl rfl rfl rfl
  · exact .stopped hr (h.idle hr)

theorem InStep.rearms_arm (h : p.InStep) (hm : m'.phase = .running)
    (hs : p.machine.phase = .running → m'.speed ≠ p.machine.speed) :
    p.Rearms ({ p with machine := m' } : Player).arm :=
  .armed hm hs (h.timers_arm m') rfl

theorem InStep.rearms_cancel (h : p.InStep) (hm : m'.phase ≠ .running) :
    p.Rearms ({ p with machine := m' } : Player).cancel :=
  .stopped hm (h.timers_cancel m')

theorem Becomes.obeys {reply : Reply} (hb : p.Becomes (.command c) q (some reply)) (h : p.InStep) :
    p.Obeys c (q, reply) := by
  cases hb with
  | unclocked _ hc => cases hc.symm.trans h.hasClock
  | refused hm => exact ⟨by rw [hm], by rw [hm], rfl, h.rearms_self⟩
  | kept hm hphase hspeed =>
    refine ⟨by rw [hm], by rw [hm], rfl, ?_⟩
    by_cases hr : p.machine.phase = .running
    · exact .kept hr (hphase.trans hr) (hspeed (hphase.trans hr)) rfl rfl rfl
    · exact .stopped (fun hr' => hr (hphase.symm.trans hr')) (h.idle hr)
  | cancelled hm hn => exact ⟨by rw [hm], by rw [hm]; rfl, rfl, h.rearms_cancel hn⟩
  | armed hm hr hs => exact ⟨by rw [hm], by rw [hm]; rfl, rfl, h.rearms_arm hr hs⟩

theorem InStep.obeys_perform (h : p.InStep) (c : Command) : p.Obeys c (p.perform c) :=
  (p.becomes_perform c).obeys h

theorem Obeys.inStep {result : Player × Reply} (ho : p.Obeys c result) (h : p.InStep) :
    result.1.InStep := by
  have hs : result.1.machine.Sound := by
    rw [ho.machine]
    exact h.sound.perform c
  refine ⟨ho.hasClock.trans h.hasClock, hs, ?_, ?_⟩
  · intro hn
    cases ho.rearms with
    | stopped _ ht => exact ht
    | kept _ hq => exact absurd hq hn
    | armed hq => exact absurd hq hn
  · intro hr
    cases ho.rearms with
    | stopped hn => exact absurd hr hn
    | kept hp _ hsp ht hg hh =>
      rw [hsp, ht, hg, hh]
      exact h.running hp
    | armed _ _ ht hh => exact ⟨_, hs.speed_pos, Nat.le_refl _, ht, hh⟩

theorem InStep.new (plan : Plan) (speed : Nat) : (Player.new plan speed true).InStep where
  hasClock := rfl
  sound := Machine.sound_new plan speed
  idle _ := rfl
  running h := by cases h

theorem elapse_of_nil (ht : p.timers = []) : p.elapse = p := by
  simp only [elapse, ht, List.foldl_nil]
  rw [← ht]

theorem wait_of_nil (ht : p.timers = []) (ms : Nat) : p.wait ms = p := by
  cases ms with
  | zero => rfl
  | succ ms => simp [wait, ht]

theorem elapse_of_lt (ht : p.timers = [⟨p.generation, p.machine.speed, r⟩]) (hr : 1 < r) :
    p.elapse = { p with timers := [⟨p.generation, p.machine.speed, r - 1⟩] } := by
  simp only [elapse, ht, List.foldl_cons, List.foldl_nil, pass, hr, if_true, keep, List.nil_append]

theorem InStep.elapse_of_due (h : p.InStep) (hr : p.machine.phase = .running)
    (ht : p.timers = [⟨p.generation, p.machine.speed, 1⟩]) :
    p.elapse = { p with
      machine := p.machine.tick.1
      timers := if p.machine.tick.1.phase = .running then
          [⟨p.generation, p.machine.speed, p.machine.speed⟩] else [] } := by
  have hp := h.sound.size_pos (by rw [hr]; nofun)
  simp only [elapse, ht, List.foldl_cons, List.foldl_nil, pass, Nat.lt_irrefl, if_false, if_true]
  rw [Machine.tick_of_running hr hp]
  by_cases hi : p.machine.index + 1 < p.machine.plan.size
  · simp [hi, hr, keep]
  · simp [hi]

theorem InStep.elapse (h : p.InStep) : p.elapse.InStep := by
  by_cases hr : p.machine.phase = .running
  · obtain ⟨r, hpos, hle, ht, hh⟩ := h.running hr
    by_cases hdue : r = 1
    · subst hdue
      rw [h.elapse_of_due hr ht]
      have hs := h.sound.tick
      have hspeed := p.machine.tick_speed
      refine ⟨h.hasClock, hs, ?_, ?_⟩
      · intro hn
        exact if_neg hn
      · intro hn
        refine ⟨p.machine.speed, h.sound.speed_pos, ?_, ?_, hh⟩
        · exact Nat.le_of_eq hspeed.symm
        · simp only [if_pos hn, hspeed]
    · rw [elapse_of_lt ht (by omega)]
      refine ⟨h.hasClock, h.sound, fun hn => absurd hr hn, fun _ => ⟨r - 1, ?_, ?_, rfl, hh⟩⟩
      · omega
      · exact Nat.le_trans (Nat.sub_le r 1) hle
  · rw [elapse_of_nil (h.idle hr)]
    exact h

theorem InStep.wait (h : p.InStep) (ms : Nat) : (p.wait ms).InStep := by
  induction ms generalizing p with
  | zero => exact h
  | succ ms ih =>
    rw [Player.wait]
    split
    · exact h
    · exact ih h.elapse

theorem InStep.handle (h : p.InStep) (e : PlayerEvent) : (p.handle e).1.InStep := by
  cases e with
  | command c => exact (h.obeys_perform c).inStep h
  | wait ms => exact h.wait ms

theorem InStep.run (h : p.InStep) (events : List PlayerEvent) : (p.run events).InStep :=
  run_invariant (fun _ e hp => hp.handle e) h events

/-- With a clock a player holds a live timer just while its machine runs, and no other is alive. It
ticks at the machine's speed, later than now and within a period. -/
theorem timers_run (plan : Plan) (speed : Nat) (events : List PlayerEvent) :
    let p := (Player.new plan speed true).run events
    p.timers.length ≤ 1 ∧ (p.isArmed = true ↔ p.machine.phase = .running) ∧
      ∀ t ∈ p.timers, p.held = some t.generation ∧ t.period = p.machine.speed ∧
        0 < t.remaining ∧ t.remaining ≤ t.period := by
  intro p
  have h : p.InStep := (InStep.new plan speed).run events
  by_cases hr : p.machine.phase = .running
  · obtain ⟨r, hpos, hle, ht, hh⟩ := h.running hr
    refine ⟨?_, ?_, ?_⟩
    · simp [ht]
    · simp [isArmed, ht, hh, hr]
    · intro t hmem
      rw [ht, List.mem_singleton] at hmem
      subst hmem
      exact ⟨hh, rfl, hpos, hle⟩
  · have ht := h.idle hr
    refine ⟨?_, ?_, ?_⟩
    · simp [ht]
    · simp [isArmed, ht, hr]
    · simp [ht]

end SqlWalk.Player
