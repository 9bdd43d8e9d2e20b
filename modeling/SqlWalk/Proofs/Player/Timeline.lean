import Mathlib.Algebra.GroupWithZero.Nat
import SqlWalk.Proofs.Player.Timer

namespace SqlWalk

variable {p : Player} {m : Machine} {e : PlayerEvent} {r : Nat}

namespace Machine

def answers (m : Machine) : List MachineEvent → List MachineReply
  | [] => []
  | e :: es => (m.handle e).2 :: (m.handle e).1.answers es

def trace (m : Machine) : List (List MachineEvent) → List (List MachineReply × Snapshot)
  | [] => []
  | es :: rest => (m.answers es, (m.run es).snapshot) :: (m.run es).trace rest

end Machine

/-- What a player shows of its machine's replies: those to commands, and none to ticks. -/
def shownReply (replies : List MachineReply) : Option Reply :=
  replies.findSome? fun
    | .command o => some (.ok o)
    | .tick _ => none

/-- A bare machine in time, and since when it has been running at its present speed. -/
structure Timeline where
  machine : Machine
  now : Nat
  since : Option Nat

namespace Timeline

variable {l : Timeline}

def new (plan : Plan) (speed : Nat) : Timeline :=
  ⟨.new plan speed, 0, none⟩

/-- The ticks in a wait: a machine running since `T` with a speed of `P` ticks at `T + P`, `T + 2 *
P` and so on, up to the tick that completes it. -/
def due (l : Timeline) (ms : Nat) : Nat :=
  match l.since with
  | none => 0
  | some T => min ((l.now + ms - T) / l.machine.speed - (l.now - T) / l.machine.speed)
      (l.machine.plan.size - l.machine.index)

def script (l : Timeline) : PlayerEvent → List MachineEvent
  | .command c => [.command c]
  | .wait ms => List.replicate (l.due ms) .tick

def clockAfter (l : Timeline) : PlayerEvent → Nat
  | .command _ => l.now
  | .wait ms => l.now + ms

def after (l : Timeline) (e : PlayerEvent) : Timeline :=
  let m := l.machine.run (l.script e)
  { machine := m
    now := l.clockAfter e
    since :=
      if m.phase = .running then
        if l.machine.phase = .running ∧ m.speed = l.machine.speed then l.since
        else some (l.clockAfter e)
      else none }

theorem after_wait_of_running (hr : l.machine.phase = .running) (ms : Nat) :
    l.after (.wait ms) = ⟨l.machine.ticked (l.due ms), l.now + ms,
      if (l.machine.ticked (l.due ms)).phase = .running then l.since else none⟩ := by
  have hs : (l.machine.ticked (l.due ms)).speed = l.machine.speed := l.machine.ticked_speed _
  change (⟨l.machine.ticked (l.due ms), l.now + ms, if (l.machine.ticked (l.due ms)).phase = .running
    then if l.machine.phase = .running ∧ (l.machine.ticked (l.due ms)).speed = l.machine.speed
    then l.since else _ else none⟩ : Timeline) = _
  rw [if_pos (And.intro hr hs)]

theorem after_wait_of_not_running (hr : l.machine.phase ≠ .running) (ms : Nat) :
    l.after (.wait ms) = ⟨l.machine, l.now + ms, none⟩ := by
  have hm : l.machine.run (l.script (.wait ms)) = l.machine :=
    Machine.ticked_of_not_running hr (l.due ms)
  simp only [after, hm, if_neg hr, clockAfter]

theorem div_add_sub_div (a ms : Nat) {P : Nat} (hP : 0 < P) :
    (a + ms) / P - a / P = (ms + a % P) / P := by
  have ha : a + ms = ms + a % P + P * (a / P) := by
    have hd := Nat.mod_add_div a P
    omega
  rw [ha, Nat.add_mul_div_left _ _ hP, Nat.add_sub_cancel]

/-- What the machine is given for each event. -/
def scripts (l : Timeline) : List PlayerEvent → List (List MachineEvent)
  | [] => []
  | e :: es => l.script e :: (l.after e).scripts es

end Timeline

theorem shownReply_ticks (m : Machine) (n : Nat) :
    shownReply (m.answers (List.replicate n .tick)) = none := by
  induction n generalizing m with
  | zero => rfl
  | succ n ih => exact ih m.tick.1

namespace Player

variable {l : Timeline}

def trace (p : Player) : List PlayerEvent → List (Option Reply × Snapshot)
  | [] => []
  | e :: es => ((p.handle e).2, (p.handle e).1.snapshot) :: (p.handle e).1.trace es

theorem wait_wait (p : Player) (a b : Nat) : (p.wait a).wait b = p.wait (a + b) := by
  induction a generalizing p with
  | zero => rw [Nat.zero_add, wait]
  | succ a ih =>
    by_cases ht : p.timers = []
    · rw [wait_of_nil ht, wait_of_nil ht, wait_of_nil ht]
    · have he : p.timers.isEmpty = false := by simpa using ht
      rw [Nat.succ_add, wait, wait, he]
      exact ih p.elapse

theorem foldl_wait (p : Player) (waits : List Nat) : waits.foldl wait p = p.wait waits.sum := by
  induction waits generalizing p with
  | nil => rfl
  | cons ms waits ih => rw [List.foldl_cons, ih, wait_wait, List.sum_cons]

/-- The ticks that were due have come, and the rest of the wait is taken off the period. -/
theorem InStep.wait_of_running (h : p.InStep) (hr : p.machine.phase = .running)
    (ht : p.timers = [⟨p.generation, p.machine.speed, r⟩]) (hpos : 0 < r)
    (hle : r ≤ p.machine.speed) (ms : Nat) :
    p.wait ms = { p with
      machine := p.machine.ticked ((ms + (p.machine.speed - r)) / p.machine.speed)
      timers :=
        if (p.machine.ticked ((ms + (p.machine.speed - r)) / p.machine.speed)).phase = .running then
          [⟨p.generation, p.machine.speed,
            p.machine.speed - (ms + (p.machine.speed - r)) % p.machine.speed⟩] else [] } := by
  induction ms generalizing p r with
  | zero =>
    have hlt : p.machine.speed - r < p.machine.speed := by omega
    rw [Nat.zero_add, Nat.div_eq_of_lt hlt, Nat.mod_eq_of_lt hlt, Nat.sub_sub_self hle,
      Machine.ticked_zero, if_pos hr, ← ht]
    rfl
  | succ ms ih =>
    have hstep : p.wait (ms + 1) = p.elapse.wait ms := by
      rw [Player.wait, ht]
      rfl
    rw [hstep]
    by_cases hdue : r = 1
    · subst hdue
      have hcount : (ms + 1 + (p.machine.speed - 1)) = ms + p.machine.speed := by omega
      have hp := h.sound.speed_pos
      rw [hcount, Nat.add_div_right _ hp, Nat.add_mod_right, Machine.ticked_succ]
      have he := h.elapse_of_due hr ht
      by_cases hrun : p.machine.tick.1.phase = .running
      · rw [if_pos hrun] at he
        have hspeed := p.machine.tick_speed
        have hi := ih (p := p.elapse) (r := p.machine.speed) h.elapse (by rw [he]; exact hrun)
          (by rw [he]; simp only [hspeed]) hp (by rw [he]; exact Nat.le_of_eq hspeed.symm)
        rw [hi, he]
        simp only [hspeed, Nat.sub_self, Nat.add_zero]
      · rw [if_neg hrun] at he
        rw [he, wait_of_nil rfl, Machine.ticked_of_not_running hrun, if_neg hrun]
    · have he := elapse_of_lt ht (by omega)
      have hi := ih (p := p.elapse) (r := r - 1) h.elapse (by rw [he]; exact hr) (by rw [he])
        (by omega) (by rw [he]; simp only; omega)
      have hcount : ms + (p.machine.speed - (r - 1)) = ms + 1 + (p.machine.speed - r) := by omega
      rw [hi, he]
      simp only [hcount]

/-- A player beside a timeline: they have one machine, and the timer is as old as it says. -/
structure Tracks (p : Player) (l : Timeline) : Prop where
  inStep : p.InStep
  machine : p.machine = l.machine
  idle : l.machine.phase ≠ .running → l.since = none
  running : l.machine.phase = .running → ∃ T ≤ l.now, l.since = some T ∧
    p.timers = [⟨p.generation, l.machine.speed,
      l.machine.speed - (l.now - T) % l.machine.speed⟩]

theorem Tracks.new (plan : Plan) (speed : Nat) :
    (Player.new plan speed true).Tracks (.new plan speed) where
  inStep := .new plan speed
  machine := rfl
  idle _ := rfl
  running h := by cases h

theorem Tracks.command (h : p.Tracks l) (c : Command) :
    (p.perform c).2 = .ok (l.machine.perform c).2 ∧
      (p.perform c).1.Tracks (l.after (.command c)) := by
  have ho := h.inStep.obeys_perform c
  have hm : (p.perform c).1.machine = (l.after (.command c)).machine := by
    rw [ho.machine, h.machine]
    rfl
  have hsince : (l.after (.command c)).since = if (p.perform c).1.machine.phase = .running then
      if p.machine.phase = .running ∧ (p.perform c).1.machine.speed = p.machine.speed then l.since
      else some l.now else none := by
    rw [hm, h.machine]
    rfl
  refine ⟨by rw [ho.reply, h.machine], ho.inStep h.inStep, hm, ?_, ?_⟩
  · intro hn
    rw [hsince, hm, if_neg hn]
  · intro hr
    rw [← hm] at hr ⊢
    rw [hsince, if_pos hr]
    cases ho.rearms with
    | stopped hn => exact absurd hr hn
    | kept hp _ hs ht hg =>
      rw [if_pos ⟨hp, hs⟩, ht, hg, hs, h.machine]
      rw [h.machine] at hp
      exact h.running hp
    | armed _ hn ht =>
      rw [if_neg (fun hp => hn hp.1 hp.2)]
      refine ⟨l.now, Nat.le_refl _, rfl, ?_⟩
      have hnow : (l.after (.command c)).now = l.now := rfl
      rw [hnow, Nat.sub_self, Nat.zero_mod, Nat.sub_zero]
      exact ht

theorem Tracks.wait (h : p.Tracks l) (ms : Nat) : (p.wait ms).Tracks (l.after (.wait ms)) := by
  by_cases hr : l.machine.phase = .running
  · obtain ⟨T, hT, hsince, ht⟩ := h.running hr
    have hs := h.inStep.sound
    rw [h.machine] at hs
    have hpos := hs.speed_pos
    have hlt : (l.now - T) % l.machine.speed < l.machine.speed := Nat.mod_lt _ hpos
    have hrest : l.machine.speed - (l.machine.speed - (l.now - T) % l.machine.speed) =
        (l.now - T) % l.machine.speed := by omega
    have hw := h.inStep.wait_of_running (by rw [h.machine, hr]) (by rw [h.machine]; exact ht)
      (by omega) (by rw [h.machine]; omega) ms
    rw [h.machine, hrest] at hw
    have hdue : l.machine.ticked (l.due ms) =
        l.machine.ticked ((ms + (l.now - T) % l.machine.speed) / l.machine.speed) := by
      rw [Timeline.due, hsince]
      simp only
      rw [Machine.ticked_min hr (hs.index_lt (hs.size_pos (by rw [hr]; nofun))), Nat.sub_add_comm hT,
        Timeline.div_add_sub_div _ _ hpos]
    have hm : (p.wait ms).machine = l.machine.ticked (l.due ms) := by rw [hw, hdue]
    rw [Timeline.after_wait_of_running hr]
    refine ⟨h.inStep.wait ms, hm, fun hn => if_neg hn, ?_⟩
    intro hr'
    simp only at hr' ⊢
    refine ⟨T, by omega, by rw [if_pos hr', hsince], ?_⟩
    rw [hw, Machine.ticked_speed]
    simp only
    rw [← hdue, if_pos hr', Nat.sub_add_comm hT, Nat.add_comm (l.now - T) ms, Nat.add_mod_mod]
  · rw [wait_of_nil (h.inStep.idle (by rwa [h.machine])), Timeline.after_wait_of_not_running hr]
    exact ⟨h.inStep, h.machine, fun _ => rfl, fun hr' => absurd hr' hr⟩

theorem Tracks.handle (h : p.Tracks l) (e : PlayerEvent) : (p.handle e).1.Tracks (l.after e) := by
  cases e with
  | command c => exact (h.command c).2
  | wait ms => exact h.wait ms

theorem Tracks.reply (h : p.Tracks l) (e : PlayerEvent) :
    (p.handle e).2 = shownReply (l.machine.answers (l.script e)) := by
  cases e with
  | command c =>
    rw [Player.handle, (h.command c).1]
    rfl
  | wait ms => exact (shownReply_ticks l.machine (l.due ms)).symm

theorem Tracks.trace_eq (h : p.Tracks l) (events : List PlayerEvent) :
    p.trace events = (l.machine.trace (l.scripts events)).map fun x => (shownReply x.1, x.2) := by
  induction events generalizing p l with
  | nil => rfl
  | cons e events ih =>
    have hn := h.handle e
    have hs : (p.handle e).1.snapshot = (l.after e).machine.snapshot := by
      rw [snapshot, hn.machine]
    rw [trace, h.reply e, hs, ih hn]
    rfl

theorem InStep.plan_run (h : p.InStep) (events : List PlayerEvent) :
    (p.run events).machine.plan = p.machine.plan := by
  induction events generalizing p with
  | nil => rfl
  | cons e events ih => exact (ih (h.handle e)).trans (p.becomes_handle e).plan_eq

/-- Left alone from the moment its timer is armed, a player takes a step each period. -/
theorem InStep.machine_wait (h : p.InStep) {t : Timer} (ht : t ∈ p.timers)
    (hfull : t.remaining = t.period) (ms : Nat) :
    (p.wait ms).machine.index =
        min (p.machine.plan.size - 1) (p.machine.index + ms / t.period) ∧
      (p.wait ms).machine.phase =
        if p.machine.plan.size ≤ p.machine.index + ms / t.period then .completed else .running := by
  by_cases hr : p.machine.phase = .running
  · obtain ⟨r, hpos, hle, htimers, _⟩ := h.running hr
    rw [htimers, List.mem_singleton] at ht
    subst ht
    simp only at hfull ⊢
    have hlt := h.sound.index_lt (h.sound.size_pos (by rw [hr]; nofun))
    rw [h.wait_of_running hr htimers hpos hle, hfull, Nat.sub_self, Nat.add_zero,
      Machine.ticked_of_running hr hlt]
    by_cases hi : p.machine.index + ms / p.machine.speed < p.machine.plan.size
    · simp only [if_pos hi]
      rw [if_neg (by omega), Nat.min_eq_right (by omega)]
      exact ⟨rfl, hr⟩
    · simp only [if_neg hi]
      rw [if_pos (by omega), Nat.min_eq_left (by omega)]
      exact ⟨rfl, rfl⟩
  · rw [h.idle hr] at ht
    cases ht

/-- With a clock, a player in time is its machine with the ticks that are due. -/
theorem trace_eq_machine_trace (plan : Plan) (speed : Nat) (events : List PlayerEvent)
    (a b : Nat) (waits : List Nat) :
    (Player.new plan speed true).trace events =
        ((Machine.new plan speed).trace ((Timeline.new plan speed).scripts events)).map
          (fun x => (shownReply x.1, x.2)) ∧
      let p := (Player.new plan speed true).run events
      (p.wait a).wait b = p.wait (a + b) ∧
        ∀ t ∈ p.timers, t.remaining = t.period →
          (waits.foldl Player.wait p).machine.index =
              min (plan.size - 1) (p.machine.index + waits.sum / t.period) ∧
            (waits.foldl Player.wait p).machine.phase =
              if plan.size ≤ p.machine.index + waits.sum / t.period then .completed
              else .running := by
  have hnew := InStep.new plan speed
  refine ⟨(Tracks.new plan speed).trace_eq events, wait_wait _ a b, ?_⟩
  intro t ht hfull
  have hm := (hnew.run events).machine_wait ht hfull waits.sum
  rw [hnew.plan_run events] at hm
  rw [foldl_wait]
  exact hm

theorem completed_four_steps :
    let p := (Player.new ⟨[.parse, .select, .fromTables, .result]⟩ 1000 true).run [.command .start]
    (⟨1, 1000, 1000⟩ : Timer) ∈ p.timers ∧
      ([1500, 2500].foldl Player.wait p).machine.index = 3 ∧
      ([1500, 2500].foldl Player.wait p).machine.phase = .completed := by
  have h := trace_eq_machine_trace ⟨[.parse, .select, .fromTables, .result]⟩ 1000 [.command .start]
    0 0 [1500, 2500]
  have ht : (⟨1, 1000, 1000⟩ : Timer) ∈ ((Player.new ⟨[.parse, .select, .fromTables, .result]⟩ 1000
      true).run [.command .start]).timers := by decide
  exact ⟨ht, h.2.2 _ ht rfl⟩

end Player
end SqlWalk
