import SqlWalk.Plan

namespace SqlWalk

inductive Phase where
  | idle | running | paused | completed
  deriving DecidableEq, Repr

def Phase.name : Phase → String
  | idle => "Idle"
  | running => "Running"
  | paused => "Paused"
  | completed => "Completed"

inductive Outcome where
  | applied
  | ignored
  | nothingToAnimate
  deriving DecidableEq, Repr

inductive TickOutcome where
  | advanced (index : Nat)
  | completed
  | inactive
  deriving DecidableEq, Repr

inductive Command where
  | start | pause | resume | reset | stepForward
  | changeSpeed (factor : Float)

inductive MachineEvent where
  | command (c : Command)
  | tick

inductive MachineReply where
  | command (o : Outcome)
  | tick (o : TickOutcome)
  deriving DecidableEq, Repr

def minSpeed : Nat := 500

def maxSpeed : Nat := 3000

def defaultSpeed : Nat := 1000

def clampSpeed (ms : Nat) : Nat :=
  max minSpeed (min ms maxSpeed)

theorem clampSpeed_bounds (ms : Nat) : minSpeed ≤ clampSpeed ms ∧ clampSpeed ms ≤ maxSpeed := by
  simp only [clampSpeed, minSpeed, maxSpeed]
  omega

/-- A speed multiplied by a positive factor and rounded, a half upwards, within the range. -/
def scaleSpeed (ms : Nat) (factor : Float) : Nat :=
  clampSpeed (ms.toFloat * factor + 0.5).toUInt64.toNat

structure Machine where
  plan : Plan
  phase : Phase
  index : Nat
  speed : Nat
  deriving DecidableEq, Repr

structure Snapshot where
  index : Nat
  step : Option Step
  total : Nat
  phase : Phase
  speed : Nat
  status : String
  deriving DecidableEq, Repr

namespace Machine

def new (plan : Plan) (speed : Nat) : Machine :=
  ⟨plan, .idle, 0, clampSpeed speed⟩

def step? (m : Machine) : Option Step :=
  m.plan.get? m.index

def start (m : Machine) : Machine × Outcome :=
  if m.plan.isEmpty then (m, .nothingToAnimate)
  else
    match m.phase with
    | .idle | .completed => ({ m with phase := .running, index := 0 }, .applied)
    | .running | .paused => (m, .ignored)

/-- Moves a running machine to the next step, or completes it at the last one. -/
def tick (m : Machine) : Machine × TickOutcome :=
  match m.phase, m.plan.lastIndex? with
  | .running, some last =>
    if last ≤ m.index then ({ m with phase := .completed }, .completed)
    else ({ m with index := m.index + 1 }, .advanced (m.index + 1))
  | _, _ => (m, .inactive)

def pause (m : Machine) : Machine × Outcome :=
  if m.phase = .running then ({ m with phase := .paused }, .applied) else (m, .ignored)

def resume (m : Machine) : Machine × Outcome :=
  if m.phase = .paused then ({ m with phase := .running }, .applied) else (m, .ignored)

def reset (m : Machine) : Machine × Outcome :=
  ({ m with phase := .idle, index := 0 }, .applied)

/-- Moves an idle or paused machine to the next step, where it is paused. -/
def stepForward (m : Machine) : Machine × Outcome :=
  match m.plan.lastIndex? with
  | none => (m, .nothingToAnimate)
  | some last =>
    match m.phase with
    | .idle | .paused =>
      if last ≤ m.index then (m, .ignored)
      else ({ m with phase := .paused, index := m.index + 1 }, .applied)
    | .running | .completed => (m, .ignored)

/-- Multiplies the length of a step. Only finite positive factors are taken. -/
def changeSpeed (m : Machine) (factor : Float) : Machine × Outcome :=
  if factor.isFinite && 0 < factor then
    ({ m with speed := scaleSpeed m.speed factor }, .applied)
  else (m, .ignored)

def perform (m : Machine) : Command → Machine × Outcome
  | .start => m.start
  | .pause => m.pause
  | .resume => m.resume
  | .reset => m.reset
  | .stepForward => m.stepForward
  | .changeSpeed factor => m.changeSpeed factor

def handle (m : Machine) : MachineEvent → Machine × MachineReply
  | .command c => ((m.perform c).1, .command (m.perform c).2)
  | .tick => (m.tick.1, .tick m.tick.2)

def run (m : Machine) (events : List MachineEvent) : Machine :=
  events.foldl (fun m e => (m.handle e).1) m

def status (m : Machine) : String :=
  let total := m.plan.size
  let describe (i : Nat) := (m.plan.describe? i).getD ""
  let place := toString (m.index + 1) ++ " of " ++ toString total ++ ": " ++ describe m.index
  if m.plan.isEmpty then "Nothing to animate: no tables found in the query"
  else
    match m.phase with
    | .idle => "Ready: " ++ toString total ++ " steps planned"
    | .running => "Step " ++ place
    | .paused => "Paused at step " ++ place
    | .completed => "Completed: " ++ describe (total - 1)

def snapshot (m : Machine) : Snapshot :=
  ⟨m.index, m.step?, m.plan.size, m.phase, m.speed, m.status⟩

end Machine
end SqlWalk
