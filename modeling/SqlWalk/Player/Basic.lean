import SqlWalk.Player.Machine

namespace SqlWalk

/-- A timer, with the generation that it was armed in. Its times are in milliseconds. -/
structure Timer where
  generation : UInt64
  period : Nat
  remaining : Nat
  deriving DecidableEq, Repr

inductive PlayerError where
  | noClock
  deriving DecidableEq, Repr

def PlayerError.message : PlayerError → String
  | noClock => "no tokio runtime available to drive the animation timer"

structure Player where
  machine : Machine
  /-- Goes on, and around at its end, with each change of timer. -/
  generation : UInt64
  /-- The timer that the player holds, by its generation. It may have ended by itself. -/
  held : Option UInt64
  timers : List Timer
  hasClock : Bool
  deriving DecidableEq, Repr

abbrev Reply := Except PlayerError Outcome

inductive PlayerEvent where
  | command (c : Command)
  | wait (ms : Nat)

namespace Player

def new (plan : Plan) (speed : Nat) (hasClock : Bool) : Player :=
  ⟨.new plan speed, 0, none, [], hasClock⟩

def isArmed (p : Player) : Bool :=
  p.timers.any fun t => p.held == some t.generation

def cancel (p : Player) : Player :=
  { p with
    generation := p.generation + 1
    held := none
    timers := p.timers.filter fun t => p.held != some t.generation }

def keep (p : Player) (t : Timer) : Player :=
  { p with timers := p.timers ++ [t] }

def arm (p : Player) : Player :=
  let p := p.cancel
  { p with held := some p.generation }.keep ⟨p.generation, p.machine.speed, p.machine.speed⟩

/-- Puts in the machine that a command left, and runs `next` if the command was applied. -/
def settle (p : Player) (result : Machine × Outcome) (next : Player → Player) : Player × Reply :=
  let p := { p with machine := result.1 }
  (if result.2 = .applied then next p else p, .ok result.2)

def needingClock (p : Player) (go : Player × Reply) : Player × Reply :=
  if p.hasClock then go else (p, .error .noClock)

/-- Starts the machine and arms the timer. An empty plan needs no clock. -/
def start (p : Player) : Player × Reply :=
  if p.machine.plan.isEmpty then (p, .ok .nothingToAnimate)
  else p.needingClock (p.settle p.machine.start arm)

def pause (p : Player) : Player × Reply :=
  p.settle p.machine.pause cancel

/-- Resumes the machine and arms the timer. The clock is asked for first in any phase. -/
def resume (p : Player) : Player × Reply :=
  p.needingClock (p.settle p.machine.resume arm)

def reset (p : Player) : Player × Reply :=
  p.settle p.machine.reset cancel

def stepForward (p : Player) : Player × Reply :=
  p.settle p.machine.stepForward cancel

/-- While the machine runs, a speed that really changes starts a new period. -/
def changeSpeed (p : Player) (factor : Float) : Player × Reply :=
  let result := p.machine.changeSpeed factor
  if p.machine.phase = .running then
    p.needingClock (p.settle result fun q => if q.machine.speed = p.machine.speed then q else q.arm)
  else p.settle result id

def perform (p : Player) : Command → Player × Reply
  | .start => p.start
  | .pause => p.pause
  | .resume => p.resume
  | .reset => p.reset
  | .stepForward => p.stepForward
  | .changeSpeed factor => p.changeSpeed factor

/-- Lets a millisecond pass for a timer. When a tick is due it moves the machine on; a tick that
does not, or that comes from an earlier generation, is the timer's last. -/
def pass (p : Player) (t : Timer) : Player :=
  if 1 < t.remaining then p.keep { t with remaining := t.remaining - 1 }
  else if t.generation = p.generation then
    match p.machine.tick with
    | (m, .advanced _) => { p with machine := m }.keep { t with remaining := t.period }
    | (m, _) => { p with machine := m }
  else p

def elapse (p : Player) : Player :=
  p.timers.foldl pass { p with timers := [] }

/-- Lets time pass, in milliseconds. Ticks that are due at the last moment still happen. -/
def wait (p : Player) : (ms : Nat) → Player
  | 0 => p
  | ms + 1 => if p.timers.isEmpty then p else p.elapse.wait ms

def handle (p : Player) : PlayerEvent → Player × Option Reply
  | .command c => ((p.perform c).1, some (p.perform c).2)
  | .wait ms => (p.wait ms, none)

def run (p : Player) (events : List PlayerEvent) : Player :=
  events.foldl (fun p e => (p.handle e).1) p

def snapshot (p : Player) : Snapshot :=
  p.machine.snapshot

end Player
end SqlWalk
