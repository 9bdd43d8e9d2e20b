import SqlWalk.Player.Machine

namespace SqlWalk

variable {m m' : Machine} {c : Command} {plan : Plan}

theorem Plan.size_pos_iff : 0 < plan.size ↔ plan.isEmpty = false := by
  simp [Plan.size, Plan.isEmpty, List.length_pos_iff]

theorem Plan.lastIndex?_of_pos (h : 0 < plan.size) : plan.lastIndex? = some (plan.size - 1) := by
  simp [Plan.lastIndex?, Plan.size_pos_iff.1 h]

theorem Plan.lastIndex?_eq_some {last : Nat} (h : plan.lastIndex? = some last) :
    plan.size = last + 1 := by
  simp only [Plan.lastIndex?] at h
  split at h
  · cases h
  · next he =>
    rw [Bool.not_eq_true] at he
    have hp := Plan.size_pos_iff.2 he
    simp only [Option.some.injEq] at h
    omega

namespace Machine

/-- A command that fits a machine, and the machine that it makes. -/
inductive Applies (m : Machine) : Command → Machine → Prop where
  | start : 0 < m.plan.size → m.phase = .idle ∨ m.phase = .completed →
      Applies m .start { m with phase := .running, index := 0 }
  | pause : m.phase = .running → Applies m .pause { m with phase := .paused }
  | resume : m.phase = .paused → Applies m .resume { m with phase := .running }
  | reset : Applies m .reset { m with phase := .idle, index := 0 }
  | stepForward : m.phase = .idle ∨ m.phase = .paused → m.index + 1 < m.plan.size →
      Applies m .stepForward { m with phase := .paused, index := m.index + 1 }
  | changeSpeed (factor : Float) :
      Applies m (.changeSpeed factor) { m with speed := scaleSpeed m.speed factor }

theorem perform_cases (m : Machine) (c : Command) :
    (m.perform c).2 = .applied ∧ m.Applies c (m.perform c).1 ∨
      (m.perform c).2 ≠ .applied ∧ (m.perform c).1 = m := by
  cases c with
  | start =>
    simp only [perform, start]
    split
    · exact .inr ⟨by simp, rfl⟩
    · next he =>
      have hp := Plan.size_pos_iff.2 (Bool.eq_false_iff.2 he)
      split
      · next hi => exact .inl ⟨rfl, .start hp (.inl hi)⟩
      · next hc => exact .inl ⟨rfl, .start hp (.inr hc)⟩
      · exact .inr ⟨by simp, rfl⟩
      · exact .inr ⟨by simp, rfl⟩
  | pause =>
    simp only [perform, pause]
    split
    · next hr => exact .inl ⟨rfl, .pause hr⟩
    · exact .inr ⟨by simp, rfl⟩
  | resume =>
    simp only [perform, resume]
    split
    · next hp => exact .inl ⟨rfl, .resume hp⟩
    · exact .inr ⟨by simp, rfl⟩
  | reset => exact .inl ⟨rfl, .reset⟩
  | stepForward =>
    simp only [perform, stepForward]
    split
    · exact .inr ⟨by simp, rfl⟩
    · next last hl =>
      have hs := Plan.lastIndex?_eq_some hl
      split
      · next hi =>
        split
        · exact .inr ⟨by simp, rfl⟩
        · exact .inl ⟨rfl, .stepForward (.inl hi) (by omega)⟩
      · next hp =>
        split
        · exact .inr ⟨by simp, rfl⟩
        · exact .inl ⟨rfl, .stepForward (.inr hp) (by omega)⟩
      · exact .inr ⟨by simp, rfl⟩
      · exact .inr ⟨by simp, rfl⟩
  | changeSpeed factor =>
    simp only [perform, changeSpeed]
    split
    · exact .inl ⟨rfl, .changeSpeed factor⟩
    · exact .inr ⟨by simp, rfl⟩

theorem applies_of_perform (h : m.perform c = (m', .applied)) : m.Applies c m' := by
  rcases m.perform_cases c with ⟨-, ha⟩ | ⟨hn, -⟩
  · rwa [h] at ha
  · exact absurd (congrArg Prod.snd h) hn

theorem Applies.plan_eq (ha : m.Applies c m') : m'.plan = m.plan := by
  cases ha <;> rfl

/-- The states that a machine can be in. -/
structure Sound (m : Machine) : Prop where
  size_pos : m.phase ≠ .idle → 0 < m.plan.size
  index_lt : 0 < m.plan.size → m.index < m.plan.size
  index_idle : m.phase = .idle → m.index = 0
  index_completed : m.phase = .completed → m.index + 1 = m.plan.size
  minSpeed_le : minSpeed ≤ m.speed
  le_maxSpeed : m.speed ≤ maxSpeed

theorem sound_new (plan : Plan) (speed : Nat) : (new plan speed).Sound where
  size_pos h := absurd rfl h
  index_lt h := h
  index_idle _ := rfl
  index_completed h := by cases h
  minSpeed_le := (clampSpeed_bounds speed).1
  le_maxSpeed := (clampSpeed_bounds speed).2

theorem Sound.speed_pos (h : m.Sound) : 0 < m.speed :=
  Nat.lt_of_lt_of_le (by decide) h.minSpeed_le

theorem Sound.applies (h : m.Sound) (ha : m.Applies c m') : m'.Sound := by
  cases ha with
  | start hp hi =>
    exact ⟨fun _ => hp, fun hp => hp, fun _ => rfl, nofun, h.minSpeed_le, h.le_maxSpeed⟩
  | pause hr =>
    have hp := h.size_pos (by rw [hr]; nofun)
    exact ⟨fun _ => hp, h.index_lt, nofun, nofun, h.minSpeed_le, h.le_maxSpeed⟩
  | resume hr =>
    have hp := h.size_pos (by rw [hr]; nofun)
    exact ⟨fun _ => hp, h.index_lt, nofun, nofun, h.minSpeed_le, h.le_maxSpeed⟩
  | reset => exact ⟨nofun, fun hp => hp, fun _ => rfl, nofun, h.minSpeed_le, h.le_maxSpeed⟩
  | stepForward hi hlt =>
    exact ⟨fun _ => Nat.zero_lt_of_lt hlt, fun _ => hlt, nofun, nofun, h.minSpeed_le,
      h.le_maxSpeed⟩
  | changeSpeed factor =>
    have hb := clampSpeed_bounds (m.speed.toFloat * factor + 0.5).toUInt64.toNat
    exact ⟨h.size_pos, h.index_lt, h.index_idle, h.index_completed, hb.1, hb.2⟩

theorem Sound.perform (h : m.Sound) (c : Command) : (m.perform c).1.Sound := by
  rcases m.perform_cases c with ⟨_, ha⟩ | ⟨_, he⟩
  · exact h.applies ha
  · rwa [he]

theorem tick_of_running (hr : m.phase = .running) (hp : 0 < m.plan.size) :
    m.tick = if m.index + 1 < m.plan.size then ({ m with index := m.index + 1 },
      .advanced (m.index + 1)) else ({ m with phase := .completed }, .completed) := by
  simp only [tick, hr, Plan.lastIndex?_of_pos hp]
  by_cases hi : m.index + 1 < m.plan.size
  · rw [if_neg (by omega), if_pos hi]
  · rw [if_pos (by omega), if_neg hi]

theorem tick_of_not_running (hr : m.phase ≠ .running) : m.tick = (m, .inactive) := by
  simp only [tick]
  split
  · next hr' _ => exact absurd hr' hr
  · rfl

theorem tick_plan (m : Machine) : m.tick.1.plan = m.plan := by
  simp only [tick]
  split
  · split <;> rfl
  · rfl

theorem tick_speed (m : Machine) : m.tick.1.speed = m.speed := by
  simp only [tick]
  split
  · split <;> rfl
  · rfl

theorem Sound.tick (h : m.Sound) : m.tick.1.Sound := by
  by_cases hr : m.phase = .running
  · have hp := h.size_pos (by rw [hr]; nofun)
    have hlt := h.index_lt hp
    rw [tick_of_running hr hp]
    split
    · next hi =>
      exact ⟨h.size_pos, fun _ => hi, fun hd => (nomatch hr.symm.trans hd),
        fun hd => (nomatch hr.symm.trans hd), h.minSpeed_le, h.le_maxSpeed⟩
    · next hi =>
      exact ⟨fun _ => hp, h.index_lt, nofun, fun _ => by simp only; omega, h.minSpeed_le,
        h.le_maxSpeed⟩
  · rwa [tick_of_not_running hr]

theorem handle_plan (m : Machine) (e : MachineEvent) : (m.handle e).1.plan = m.plan := by
  cases e with
  | command c =>
    rcases m.perform_cases c with ⟨-, ha⟩ | ⟨-, he⟩
    · exact ha.plan_eq
    · exact congrArg plan he
  | tick => exact m.tick_plan

theorem Sound.handle (h : m.Sound) (e : MachineEvent) : (m.handle e).1.Sound := by
  cases e with
  | command c => exact h.perform c
  | tick => exact h.tick

theorem run_plan (m : Machine) (events : List MachineEvent) : (m.run events).plan = m.plan := by
  induction events generalizing m with
  | nil => rfl
  | cons e events ih => exact (ih (m.handle e).1).trans (m.handle_plan e)

theorem Sound.run (h : m.Sound) (events : List MachineEvent) : (m.run events).Sound := by
  induction events generalizing m with
  | nil => exact h
  | cons e events ih => exact ih (h.handle e)

def ticked (m : Machine) (n : Nat) : Machine :=
  m.run (List.replicate n .tick)

@[simp] theorem ticked_zero (m : Machine) : m.ticked 0 = m :=
  rfl

theorem ticked_succ (m : Machine) (n : Nat) : m.ticked (n + 1) = m.tick.1.ticked n :=
  rfl

theorem ticked_add (m : Machine) (a b : Nat) : (m.ticked a).ticked b = m.ticked (a + b) := by
  induction a generalizing m with
  | zero => rw [ticked_zero, Nat.zero_add]
  | succ a ih => rw [ticked_succ, ih, Nat.succ_add, ticked_succ]

theorem Sound.ticked (h : m.Sound) (n : Nat) : (m.ticked n).Sound :=
  h.run _

theorem ticked_plan (m : Machine) (n : Nat) : (m.ticked n).plan = m.plan :=
  m.run_plan _

theorem ticked_speed (m : Machine) (n : Nat) : (m.ticked n).speed = m.speed := by
  induction n generalizing m with
  | zero => rfl
  | succ n ih => rw [ticked_succ, ih, tick_speed]

theorem ticked_of_not_running (hr : m.phase ≠ .running) (n : Nat) : m.ticked n = m := by
  induction n with
  | zero => rfl
  | succ n ih => rw [ticked_succ, tick_of_not_running hr, ih]

/-- Ticks walk a running machine through the plan and complete it behind the last step. -/
theorem ticked_of_running (hr : m.phase = .running) (hi : m.index < m.plan.size) (n : Nat) :
    m.ticked n = if m.index + n < m.plan.size then { m with index := m.index + n }
      else { m with phase := .completed, index := m.plan.size - 1 } := by
  induction n generalizing m with
  | zero =>
    rw [Nat.add_zero, if_pos hi]
    rfl
  | succ n ih =>
    rw [ticked_succ, tick_of_running hr (Nat.zero_lt_of_lt hi)]
    by_cases hn : m.index + 1 < m.plan.size
    · rw [if_pos hn, ih (m := { m with index := m.index + 1 }) hr hn]
      simp only [Nat.add_assoc, Nat.add_comm 1 n]
    · have hl : m.index = m.plan.size - 1 := by omega
      rw [if_neg hn, if_neg (by omega), ticked_of_not_running (by simp), ← hl]

theorem ticked_min (hr : m.phase = .running) (hi : m.index < m.plan.size) (n : Nat) :
    m.ticked (min n (m.plan.size - m.index)) = m.ticked n := by
  rw [ticked_of_running hr hi, ticked_of_running hr hi]
  by_cases hn : m.index + n < m.plan.size
  · rw [Nat.min_eq_left (by omega)]
  · rw [if_neg hn, Nat.min_eq_right (by omega), if_neg (by omega)]

end Machine
end SqlWalk
