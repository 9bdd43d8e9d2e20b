import SqlWalk.Player.Basic
import SqlWalk.Proofs.Player.Machine

namespace SqlWalk

/-- The commands that can set a player at rest in motion. -/
def PlayerEvent.setsOff : PlayerEvent → Bool
  | .command .start | .command .resume => true
  | _ => false

namespace Player

/-- What an event can make of a player. A command is refused, or the machine takes it and the timer
is left alone, taken away or armed anew; a wait only ticks the machine and ends timers. -/
inductive Becomes (p : Player) : PlayerEvent → Player → Option Reply → Prop where
  | unclocked (c : Command) : p.hasClock = false →
      Becomes p (.command c) p (some (.error .noClock))
  | refused {c : Command} {o : Outcome} : p.machine.perform c = (p.machine, o) →
      Becomes p (.command c) p (some (.ok o))
  | kept {c : Command} {m : Machine} : p.machine.perform c = (m, .applied) →
      m.phase = p.machine.phase → (m.phase = .running → m.speed = p.machine.speed) →
      Becomes p (.command c) { p with machine := m } (some (.ok .applied))
  | cancelled {c : Command} {m : Machine} : p.machine.perform c = (m, .applied) →
      m.phase ≠ .running →
      Becomes p (.command c) ({ p with machine := m } : Player).cancel (some (.ok .applied))
  | armed {c : Command} {m : Machine} : p.machine.perform c = (m, .applied) →
      m.phase = .running → (p.machine.phase = .running → m.speed ≠ p.machine.speed) →
      Becomes p (.command c) ({ p with machine := m } : Player).arm (some (.ok .applied))
  | waited (ms n : Nat) (ts : List Timer) :
      (∀ t ∈ ts, ∃ u ∈ p.timers, u.generation = t.generation) →
      Becomes p (.wait ms) { p with machine := p.machine.ticked n, timers := ts } none

variable {p q : Player} {c : Command} {e : PlayerEvent} {r : Option Reply}

theorem becomes_settle {next : Player → Player}
    (hnext : ∀ m, p.machine.perform c = (m, .applied) →
      p.Becomes (.command c) (next { p with machine := m }) (some (.ok .applied))) :
    p.Becomes (.command c) (p.settle (p.machine.perform c) next).1
      (some (p.settle (p.machine.perform c) next).2) := by
  rcases p.machine.perform_cases c with ⟨ha, -⟩ | ⟨ha, hm⟩
  · simp only [settle, ha, if_true]
    exact hnext _ (Prod.ext rfl ha)
  · simp only [settle, if_neg ha, hm]
    exact .refused (Prod.ext hm rfl)

theorem becomes_needingClock {go : Player × Reply}
    (hgo : p.Becomes (.command c) go.1 (some go.2)) :
    p.Becomes (.command c) (p.needingClock go).1 (some (p.needingClock go).2) := by
  rw [needingClock]
  split
  · exact hgo
  · next hc => exact .unclocked c (Bool.eq_false_iff.2 hc)

theorem becomes_perform (p : Player) (c : Command) :
    p.Becomes (.command c) (p.perform c).1 (some (p.perform c).2) := by
  cases c with
  | start =>
    simp only [perform, start]
    split
    · next he => exact .refused (by simp [Machine.perform, Machine.start, he])
    · apply becomes_needingClock
      apply becomes_settle (c := .start)
      intro m hm
      cases Machine.applies_of_perform hm with
      | start hp hi =>
        refine .armed hm rfl ?_
        intro hr
        rw [hr] at hi
        rcases hi with hi | hi <;> cases hi
  | pause =>
    apply becomes_settle (c := .pause)
    intro m hm
    cases Machine.applies_of_perform hm with
    | pause => exact .cancelled hm (by simp)
  | resume =>
    apply becomes_needingClock
    apply becomes_settle (c := .resume)
    intro m hm
    cases Machine.applies_of_perform hm with
    | resume hp =>
      refine .armed hm rfl ?_
      intro hr
      cases hp.symm.trans hr
  | reset =>
    apply becomes_settle (c := .reset)
    intro m hm
    cases Machine.applies_of_perform hm with
    | reset => exact .cancelled hm (by simp)
  | stepForward =>
    apply becomes_settle (c := .stepForward)
    intro m hm
    cases Machine.applies_of_perform hm with
    | stepForward => exact .cancelled hm (by simp)
  | changeSpeed factor =>
    simp only [perform, changeSpeed]
    split
    · next hr =>
      apply becomes_needingClock
      apply becomes_settle (c := .changeSpeed factor)
      intro m hm
      cases Machine.applies_of_perform hm with
      | changeSpeed =>
        -- At the end of the range a speed can stay as it is, and its timer with it.
        split
        · next hs => exact .kept hm rfl fun _ => hs
        · next hs => exact .armed hm hr fun _ => hs
    · next hr =>
      apply becomes_settle (c := .changeSpeed factor)
      intro m hm
      cases Machine.applies_of_perform hm with
      | changeSpeed => exact .kept hm rfl fun hr' => absurd hr' hr

theorem pass_cases (p : Player) (t : Timer) :
    ∃ n ts, p.pass t = { p with machine := p.machine.ticked n, timers := p.timers ++ ts } ∧
      ∀ u ∈ ts, u.generation = t.generation := by
  simp only [pass]
  split
  · exact ⟨0, [{ t with remaining := t.remaining - 1 }], rfl, by simp⟩
  · split
    · rcases ht : p.machine.tick with ⟨m, index | _ | _⟩
      · refine ⟨1, [{ t with remaining := t.period }], ?_, by simp⟩
        simp only [keep, Machine.ticked_succ, ht, Machine.ticked_zero]
      · refine ⟨1, [], ?_, by simp⟩
        simp only [Machine.ticked_succ, ht, Machine.ticked_zero, List.append_nil]
      · refine ⟨1, [], ?_, by simp⟩
        simp only [Machine.ticked_succ, ht, Machine.ticked_zero, List.append_nil]
    · exact ⟨0, [], by simp, by simp⟩

theorem foldl_pass_cases (p : Player) (us : List Timer) :
    ∃ n ts, us.foldl pass p = { p with machine := p.machine.ticked n, timers := p.timers ++ ts } ∧
      ∀ t ∈ ts, ∃ u ∈ us, u.generation = t.generation := by
  induction us generalizing p with
  | nil => exact ⟨0, [], by simp, by simp⟩
  | cons u us ih =>
    obtain ⟨n, ts, hp, hts⟩ := p.pass_cases u
    obtain ⟨n', ts', hp', hts'⟩ := ih (p.pass u)
    refine ⟨n + n', ts ++ ts', ?_, ?_⟩
    · rw [List.foldl_cons, hp', hp]
      simp only [Machine.ticked_add, List.append_assoc]
    · intro t ht
      rcases List.mem_append.1 ht with ht | ht
      · exact ⟨u, List.mem_cons_self, (hts t ht).symm⟩
      · obtain ⟨v, hv, hg⟩ := hts' t ht
        exact ⟨v, List.mem_cons_of_mem u hv, hg⟩

theorem wait_cases (p : Player) (ms : Nat) :
    ∃ n ts, p.wait ms = { p with machine := p.machine.ticked n, timers := ts } ∧
      ∀ t ∈ ts, ∃ u ∈ p.timers, u.generation = t.generation := by
  induction ms generalizing p with
  | zero => exact ⟨0, p.timers, rfl, fun t ht => ⟨t, ht, rfl⟩⟩
  | succ ms ih =>
    rw [wait]
    split
    · exact ⟨0, p.timers, rfl, fun t ht => ⟨t, ht, rfl⟩⟩
    · obtain ⟨n, ts, hp, hts⟩ := foldl_pass_cases { p with timers := [] } p.timers
      obtain ⟨n', ts', hp', hts'⟩ := ih p.elapse
      rw [elapse, hp] at hp' hts'
      refine ⟨n + n', ts', ?_, ?_⟩
      · rw [elapse, hp, hp']
        simp only [Machine.ticked_add]
      · intro t ht
        obtain ⟨u, hu, hg⟩ := hts' t ht
        obtain ⟨v, hv, hg'⟩ := hts u hu
        exact ⟨v, hv, hg'.trans hg⟩

theorem becomes_handle (p : Player) (e : PlayerEvent) :
    p.Becomes e (p.handle e).1 (p.handle e).2 := by
  cases e with
  | command c => exact p.becomes_perform c
  | wait ms =>
    obtain ⟨n, ts, hp, hts⟩ := p.wait_cases ms
    rw [handle, hp]
    exact .waited ms n ts hts

theorem run_invariant {P : Player → Prop} (step : ∀ p e, P p → P (p.handle e).1) (h : P p)
    (events : List PlayerEvent) : P (p.run events) := by
  induction events generalizing p with
  | nil => exact h
  | cons e events ih => exact ih (step p e h)

theorem Becomes.plan_eq (h : p.Becomes e q r) : q.machine.plan = p.machine.plan := by
  cases h with
  | unclocked => rfl
  | refused => rfl
  | kept hm => exact (Machine.applies_of_perform hm).plan_eq
  | cancelled hm => exact (Machine.applies_of_perform hm).plan_eq
  | armed hm => exact (Machine.applies_of_perform hm).plan_eq
  | waited _ n => exact p.machine.ticked_plan n

theorem Becomes.hasClock_eq (h : p.Becomes e q r) : q.hasClock = p.hasClock := by
  cases h <;> rfl

theorem Becomes.sound (h : p.Becomes e q r) (hs : p.machine.Sound) : q.machine.Sound := by
  cases h with
  | unclocked => exact hs
  | refused => exact hs
  | kept hm => exact hs.applies (Machine.applies_of_perform hm)
  | cancelled hm => exact hs.applies (Machine.applies_of_perform hm)
  | armed hm => exact hs.applies (Machine.applies_of_perform hm)
  | waited _ n => exact hs.ticked n

/-- Every live timer is the one that the player holds. -/
def HoldsAll (p : Player) : Prop :=
  ∀ t ∈ p.timers, p.held = some t.generation

theorem holdsAll_new (plan : Plan) (speed : Nat) (hasClock : Bool) :
    (new plan speed hasClock).HoldsAll :=
  nofun

theorem HoldsAll.timers_cancel (h : p.HoldsAll) : p.cancel.timers = [] := by
  simp only [cancel, List.filter_eq_nil_iff]
  intro t ht
  simp [h t ht]

theorem Becomes.holdsAll (h : p.Becomes e q r) (hp : p.HoldsAll) : q.HoldsAll := by
  have hcancel (m : Machine) : ({ p with machine := m } : Player).cancel.timers = [] :=
    HoldsAll.timers_cancel hp
  cases h with
  | unclocked => exact hp
  | refused => exact hp
  | kept => exact hp
  | cancelled => simp [HoldsAll, hcancel]
  | armed => simp [HoldsAll, arm, keep, hcancel]
  | waited _ _ ts hts =>
    intro t ht
    obtain ⟨u, hu, hg⟩ := hts t ht
    rw [← hg]
    exact hp u hu

/-- The state of a player that nothing moves until it is started or resumed. -/
structure AtRest (p : Player) : Prop where
  stopped : p.machine.phase ≠ .running
  timers : p.timers = []

theorem atRest_new (plan : Plan) (speed : Nat) (hasClock : Bool) :
    (new plan speed hasClock).AtRest :=
  ⟨nofun, rfl⟩

theorem Becomes.atRest (h : p.Becomes e q r) (hp : p.AtRest) (he : e.setsOff = false) :
    q.AtRest := by
  cases h with
  | unclocked => exact hp
  | refused => exact hp
  | kept _ hm => exact ⟨fun hr => hp.stopped (hm.symm.trans hr), hp.timers⟩
  | cancelled _ hm => exact ⟨hm, by simp [cancel, hp.timers]⟩
  | armed hm hr =>
    -- A machine that did not run runs now, so it was started or resumed.
    cases Machine.applies_of_perform hm with
    | start => cases he
    | pause => cases hr
    | resume => cases he
    | reset => cases hr
    | stepForward => cases hr
    | changeSpeed => exact absurd hr hp.stopped
  | waited _ n ts hts =>
    refine ⟨?_, ?_⟩
    · simp only [Machine.ticked_of_not_running hp.stopped]
      exact hp.stopped
    · rw [hp.timers] at hts
      apply List.eq_nil_iff_forall_not_mem.2
      intro t ht
      obtain ⟨u, hu, _⟩ := hts t ht
      cases hu

end Player
end SqlWalk
