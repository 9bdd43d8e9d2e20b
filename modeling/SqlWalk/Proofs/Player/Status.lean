import SqlWalk.Proofs.Player.Machine

namespace SqlWalk

variable {m : Machine} {plan : Plan} {description : String} {i : Nat}

theorem Plan.describe?_ne_empty (h : plan.describe? i = some description) : description ≠ "" := by
  obtain ⟨step, -, rfl⟩ := Option.map_eq_some_iff.1 h
  cases step with
  | result =>
    simp only
    split
    · decide
    · decide
  | _ => simp

theorem Plan.exists_describe? (h : i < plan.size) :
    ∃ description, plan.describe? i = some description := by
  apply Option.isSome_iff_exists.1
  rw [plan.describe?_isSome, decide_eq_true h]

def Phase.status (phase : Phase) (index total : Nat) (description : String) : String :=
  match phase with
  | .idle => "Ready: " ++ toString total ++ " steps planned"
  | .running =>
    "Step " ++ (toString (index + 1) ++ " of " ++ toString total ++ ": " ++ description)
  | .paused =>
    "Paused at step " ++ (toString (index + 1) ++ " of " ++ toString total ++ ": " ++ description)
  | .completed => "Completed: " ++ description

theorem Phase.status_completed_iff (phase : Phase) (index total : Nat) (description : String) :
    "Completed".toList <+: (phase.status index total description).toList ↔ phase = .completed := by
  cases phase with
  | idle => simp [Phase.status]
  | running => simp [Phase.status]
  | paused => simp [Phase.status]
  | completed => simp [Phase.status]

namespace Machine

theorem status_of_isEmpty (h : m.plan.isEmpty = true) :
    m.status = "Nothing to animate: no tables found in the query" :=
  if_pos h

theorem Sound.status_eq (h : m.Sound) (hp : m.plan.isEmpty = false)
    (hd : m.plan.describe? m.index = some description) :
    m.status = m.phase.status m.index m.plan.size description := by
  have hlast : m.phase = .completed → m.plan.size - 1 = m.index := by
    intro hc
    have hi := h.index_completed hc
    omega
  simp only [status, hp, Bool.false_eq_true, if_false, hd, Option.getD_some]
  cases hphase : m.phase with
  | idle => rfl
  | running => rfl
  | paused => rfl
  | completed =>
    rw [hlast hphase, hd]
    rfl

theorem Sound.idle_of_isEmpty (h : m.Sound) (hp : m.plan.isEmpty = true) :
    m.phase = .idle ∧ m.index = 0 := by
  have hsize : ¬0 < m.plan.size := by
    rw [Plan.size_pos_iff, hp]
    simp
  have hidle : m.phase = .idle := Classical.byContradiction fun hn => hsize (h.size_pos hn)
  exact ⟨hidle, h.index_idle hidle⟩

theorem Sound.exists_step? (h : m.Sound) (hp : m.plan.isEmpty = false) :
    ∃ step, m.step? = some step :=
  ⟨_, List.getElem?_eq_getElem (h.index_lt (Plan.size_pos_iff.2 hp))⟩

theorem Sound.lastIndex?_eq (h : m.Sound) (hc : m.phase = .completed) :
    m.plan.lastIndex? = some m.index := by
  have hi := h.index_completed hc
  rw [Plan.lastIndex?_of_pos (by omega), ← hi, Nat.add_sub_cancel]

theorem Sound.completed_prefix_iff (h : m.Sound) :
    "Completed".toList <+: m.status.toList ↔ m.phase = .completed := by
  by_cases hp : m.plan.isEmpty = true
  · rw [status_of_isEmpty hp, (h.idle_of_isEmpty hp).1]
    decide
  · rw [Bool.not_eq_true] at hp
    obtain ⟨description, hd⟩ := Plan.exists_describe? (h.index_lt (Plan.size_pos_iff.2 hp))
    rw [h.status_eq hp hd]
    exact m.phase.status_completed_iff _ _ _

/-- Without a plan a machine is idle. With one it is at a step of the plan, which its status
describes, and says that it has completed just if it has. -/
theorem status_run (plan : Plan) (speed : Nat) (events : List MachineEvent) :
    let m := (new plan speed).run events
    (plan.isEmpty = true → m.phase = .idle ∧ m.index = 0 ∧
      m.status = "Nothing to animate: no tables found in the query") ∧
      (plan.isEmpty = false → m.index < plan.size ∧ (∃ step, m.step? = some step) ∧
        ∃ description, plan.describe? m.index = some description ∧ description ≠ "" ∧
          m.status = m.phase.status m.index plan.size description) ∧
      (m.phase = .idle → m.index = 0) ∧
      (m.phase = .completed → plan.lastIndex? = some m.index) ∧
      ("Completed".toList <+: m.status.toList ↔ m.phase = .completed) := by
  intro m
  have h : m.Sound := (sound_new plan speed).run events
  have hplan : m.plan = plan := run_plan _ events
  rw [← hplan]
  refine ⟨?_, ?_, h.index_idle, h.lastIndex?_eq, h.completed_prefix_iff⟩
  · intro hp
    obtain ⟨hidle, hindex⟩ := h.idle_of_isEmpty hp
    exact ⟨hidle, hindex, status_of_isEmpty hp⟩
  · intro hp
    have hi := h.index_lt (Plan.size_pos_iff.2 hp)
    obtain ⟨description, hd⟩ := Plan.exists_describe? hi
    exact ⟨hi, h.exists_step? hp, description, hd, Plan.describe?_ne_empty hd, h.status_eq hp hd⟩

theorem status_completed_two_steps :
    let m := (new ⟨[.parse, .result]⟩ 1000).run
      [.command .stepForward, .command .resume, .tick, .command .pause]
    m.phase = .completed ∧
      (⟨[.parse, .result]⟩ : Plan).lastIndex? = some m.index ∧
      "Completed".toList <+: m.status.toList := by
  obtain ⟨-, -, -, hlast, hstatus⟩ := status_run ⟨[.parse, .result]⟩ 1000
    [.command .stepForward, .command .resume, .tick, .command .pause]
  exact ⟨rfl, hlast rfl, hstatus.2 rfl⟩

end Machine
end SqlWalk
