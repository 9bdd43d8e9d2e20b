import Mathlib.Data.List.DropRight
import SqlWalk.Proofs.Player.Machine

namespace SqlWalk

variable {m m' : Machine} {c : Command} {o : Outcome} {e : MachineEvent}

/-- An event with the reply to it. -/
abbrev Exchange := MachineEvent × MachineReply

namespace Exchange

/-- Says whether a walk begins: with a start that applied, or a reset. -/
def begins : Exchange → Bool
  | (.command .start, .command .applied) | (.command .reset, _) => true
  | _ => false

/-- Says whether a step was taken, by a tick or by hand. -/
def advances : Exchange → Bool
  | (.tick, .tick (.advanced _)) | (.command .stepForward, .command .applied) => true
  | _ => false

def completes : Exchange → Bool
  | (.tick, .tick .completed) => true
  | _ => false

theorem advances_command (ho : o ≠ .applied) : advances (.command c, .command o) = false := by
  cases o with
  | applied => exact absurd rfl ho
  | ignored => cases c <;> rfl
  | nothingToAnimate => cases c <;> rfl

theorem begins_start (ho : o ≠ .applied) : begins (.command .start, .command o) = false := by
  cases o with
  | applied => exact absurd rfl ho
  | ignored => rfl
  | nothingToAnimate => rfl

end Exchange

namespace Machine

def exchanges (m : Machine) : List MachineEvent → List Exchange
  | [] => []
  | e :: es => (e, (m.handle e).2) :: (m.handle e).1.exchanges es

/-- What happened since the present walk began. -/
def walk (m : Machine) (events : List MachineEvent) : List Exchange :=
  (m.exchanges events).rtakeWhile (!·.begins)

theorem run_concat (m : Machine) (events : List MachineEvent) (e : MachineEvent) :
    m.run (events ++ [e]) = ((m.run events).handle e).1 :=
  List.foldl_concat ..

theorem exchanges_concat (m : Machine) (events : List MachineEvent) (e : MachineEvent) :
    m.exchanges (events ++ [e]) = m.exchanges events ++ [(e, ((m.run events).handle e).2)] := by
  induction events generalizing m with
  | nil => rfl
  | cons f events ih =>
    rw [List.cons_append, exchanges, ih]
    rfl

theorem walk_concat (m : Machine) (events : List MachineEvent) (e : MachineEvent) :
    m.walk (events ++ [e]) = if Exchange.begins (e, ((m.run events).handle e).2) then []
      else m.walk events ++ [(e, ((m.run events).handle e).2)] := by
  rw [walk, exchanges_concat, List.rtakeWhile_concat]
  cases Exchange.begins (e, ((m.run events).handle e).2) <;> rfl

/-- What an event, with the reply to it, does to the walk of a machine. -/
inductive Moves (m : Machine) (x : Exchange) (m' : Machine) : Prop where
  | begins : x.begins = true → m'.index = 0 → m'.phase ≠ .completed → Moves m x m'
  | advances : x.begins = false → x.advances = true → x.completes = false →
      m.phase ≠ .completed → m'.phase ≠ .completed → m'.index = m.index + 1 → Moves m x m'
  | completes : x.begins = false → x.advances = false → x.completes = true →
      m.phase = .running → m'.phase = .completed → m'.index = m.index → Moves m x m'
  | stays : x.begins = false → x.advances = false → x.completes = false →
      (m'.phase = .completed ↔ m.phase = .completed) → m'.index = m.index → Moves m x m'

theorem Applies.moves (h : m.Applies c m') : m.Moves (.command c, .command .applied) m' := by
  cases h with
  | start => exact .begins rfl rfl nofun
  | pause hr => exact .stays rfl rfl rfl (by simp [hr]) rfl
  | resume hp => exact .stays rfl rfl rfl (by simp [hp]) rfl
  | reset => exact .begins rfl rfl nofun
  | stepForward hi =>
    refine .advances rfl rfl rfl ?_ nofun rfl
    rcases hi with hi | hi
    · rw [hi]
      nofun
    · rw [hi]
      nofun
  | changeSpeed => exact .stays rfl rfl rfl Iff.rfl rfl

theorem moves_perform (m : Machine) (c : Command) :
    m.Moves (.command c, .command (m.perform c).2) (m.perform c).1 := by
  rcases m.perform_cases c with ⟨ho, ha⟩ | ⟨ho, hm⟩
  · rw [ho]
    exact ha.moves
  · rw [hm]
    refine .stays ?_ (Exchange.advances_command ho) rfl Iff.rfl rfl
    cases c with
    | start => exact Exchange.begins_start ho
    | reset => exact absurd rfl ho
    | _ => rfl

theorem Sound.moves_tick (h : m.Sound) : m.Moves (.tick, .tick m.tick.2) m.tick.1 := by
  by_cases hr : m.phase = .running
  · rw [tick_of_running hr (h.size_pos (by rw [hr]; nofun))]
    split
    · exact .advances rfl rfl rfl (by rw [hr]; nofun) (by simp [hr]) rfl
    · exact .completes rfl rfl rfl hr rfl rfl
  · rw [tick_of_not_running hr]
    exact .stays rfl rfl rfl Iff.rfl rfl

theorem Sound.moves (h : m.Sound) (e : MachineEvent) :
    m.Moves (e, (m.handle e).2) (m.handle e).1 := by
  cases e with
  | command c => exact m.moves_perform c
  | tick => exact h.moves_tick

/-- A machine behind its walk: its index counts the steps taken, and whether it has completed the
times it said so. -/
structure Walked (m : Machine) (walk : List Exchange) : Prop where
  index : m.index = walk.countP Exchange.advances
  completed : walk.countP Exchange.completes = if m.phase = .completed then 1 else 0

theorem walked_new (plan : Plan) (speed : Nat) : (new plan speed).Walked [] :=
  ⟨rfl, rfl⟩

theorem Moves.walked {walk : List Exchange} {x : Exchange} (hx : m.Moves x m')
    (h : m.Walked walk) : m'.Walked (if x.begins then [] else walk ++ [x]) := by
  obtain ⟨hindex, hcompleted⟩ := h
  cases hx with
  | begins hb hi hc =>
    rw [if_pos hb]
    exact ⟨hi, by simp [hc]⟩
  | advances hb ha hc hm hm' hi =>
    rw [if_neg (by simp [hb])]
    constructor
    · simp [hi, hindex, ha]
    · simp [hcompleted, hc, hm, hm']
  | completes hb ha hc hm hm' hi =>
    rw [if_neg (by simp [hb])]
    constructor
    · simp [hi, hindex, ha]
    · simp [hcompleted, hc, hm, hm']
  | stays hb ha hc hm hi =>
    rw [if_neg (by simp [hb])]
    constructor
    · simp [hi, hindex, ha]
    · simp [hcompleted, hc, hm]

theorem walked_run (plan : Plan) (speed : Nat) (events : List MachineEvent) :
    ((new plan speed).run events).Walked ((new plan speed).walk events) := by
  induction events using List.reverseRecOn with
  | nil => exact walked_new plan speed
  | append_singleton events e ih =>
    rw [run_concat, walk_concat]
    exact (((sound_new plan speed).run events).moves e).walked ih

theorem Walked.completed_of_mem {walk : List Exchange} (h : m.Walked walk)
    (hc : walk.any Exchange.completes = true) : m.phase = .completed := by
  obtain ⟨x, hx, hcompletes⟩ := List.any_eq_true.1 hc
  have hpos := List.countP_pos_iff.2 ⟨x, hx, hcompletes⟩
  rw [h.completed] at hpos
  split at hpos
  · assumption
  · cases hpos

theorem Walked.countP_completes_le {walk : List Exchange} (h : m.Walked walk) :
    walk.countP Exchange.completes ≤ 1 := by
  rw [h.completed]
  split
  · exact Nat.le_refl 1
  · exact Nat.zero_le 1

theorem Moves.of_completed {x : Exchange} (hx : m.Moves x m') (hm : m.phase = .completed)
    (hb : x.begins = false) : m'.phase = .completed ∧ m'.index = m.index := by
  cases hx with
  | begins hb' => cases hb'.symm.trans hb
  | advances _ _ _ hn => exact absurd hm hn
  | completes _ _ _ hr => cases hr.symm.trans hm
  | stays _ _ _ hp hi => exact ⟨hp.2 hm, hi⟩

theorem index_of_tick_advanced {i : Nat} (h : m.tick.2 = .advanced i) : m.tick.1.index = i := by
  simp only [tick] at h ⊢
  split at h
  · split at h
    · cases h
    · next hlt =>
      cases h
      rw [if_neg hlt]
  · cases h

theorem Sound.tick_eq_completed_iff (h : m.Sound) :
    m.tick.2 = .completed ↔ m.phase = .running ∧ m.index + 1 = m.plan.size := by
  by_cases hr : m.phase = .running
  · have hp := h.size_pos (by rw [hr]; nofun)
    have hlt := h.index_lt hp
    rw [tick_of_running hr hp]
    split
    · simp only [reduceCtorEq, false_iff, not_and]
      omega
    · simp only [hr, true_and, true_iff]
      omega
  · simp [tick_of_not_running hr, hr]

/-- The index of a machine is the number of steps taken since its walk began. Just the tick that
finds it running at the last step completes it, at most once in a walk. -/
theorem index_run (plan : Plan) (speed : Nat) (events : List MachineEvent) :
    let m := (new plan speed).run events
    let walk := (new plan speed).walk events
    m.index = walk.countP Exchange.advances ∧
      (∀ i, (m.handle .tick).2 = .tick (.advanced i) → (m.handle .tick).1.index = i) ∧
      walk.countP Exchange.completes ≤ 1 ∧
      ((m.handle .tick).2 = .tick .completed ↔ m.phase = .running ∧ m.index + 1 = plan.size) ∧
      (walk.any Exchange.completes = true →
        m.phase = .completed ∧ m.index + 1 = plan.size ∧
          ∀ e, Exchange.begins (e, (m.handle e).2) = false →
            (m.handle e).1.phase = m.phase ∧ (m.handle e).1.index = m.index) := by
  intro m walk
  have hs : m.Sound := (sound_new plan speed).run events
  have hw : m.Walked walk := walked_run plan speed events
  have hplan : m.plan = plan := run_plan _ events
  refine ⟨hw.index, ?_, hw.countP_completes_le, ?_, ?_⟩
  · intro i hi
    exact index_of_tick_advanced (MachineReply.tick.inj hi)
  · rw [← hplan, ← hs.tick_eq_completed_iff]
    exact ⟨MachineReply.tick.inj, congrArg MachineReply.tick⟩
  · intro hc
    have hm := hw.completed_of_mem hc
    refine ⟨hm, hplan ▸ hs.index_completed hm, ?_⟩
    intro e hb
    rw [hm]
    exact (hs.moves e).of_completed hm hb

theorem index_run_by_hand :
    let events : List MachineEvent := [.command .start, .tick, .command .reset, .command .start,
      .tick, .command .pause, .command .stepForward, .command .resume, .tick]
    let m := (new ⟨[.parse, .select, .result]⟩ 1000).run events
    let walk := (new ⟨[.parse, .select, .result]⟩ 1000).walk events
    walk.any Exchange.completes = true ∧ walk.countP Exchange.advances = 2 ∧ m.index = 2 ∧
      m.phase = .completed ∧ Exchange.begins (.tick, (m.handle .tick).2) = false ∧
      (m.handle .tick).1.phase = m.phase ∧ (m.handle .tick).1.index = m.index := by
  intro events m walk
  obtain ⟨hindex, -, -, -, hcompleted⟩ := index_run ⟨[.parse, .select, .result]⟩ 1000 events
  have hc : walk.any Exchange.completes = true := rfl
  have ha : walk.countP Exchange.advances = 2 := rfl
  have hb : Exchange.begins (.tick, (m.handle .tick).2) = false := rfl
  obtain ⟨hm, -, hkept⟩ := hcompleted hc
  exact ⟨hc, ha, hindex.trans ha, hm, hb, hkept .tick hb⟩

end Machine
end SqlWalk
