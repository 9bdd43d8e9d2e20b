import SqlWalk.Proofs.Player.Event

namespace SqlWalk

/-- Says whether a command did nothing, by the reply to it. -/
def Reply.isRefusal : Reply → Bool
  | .ok .applied => false
  | .ok .ignored | .ok .nothingToAnimate | .error .noClock => true

/-- What a player shows behind an event, the time to its next tick included. -/
structure PlayerAnswer where
  reply : Option Reply
  snapshot : Snapshot
  isArmed : Bool
  untilTick? : Option Nat

def PlayerAnswer.isRefusal (a : PlayerAnswer) : Bool :=
  a.reply.any Reply.isRefusal

namespace Player

variable {p q : Player} {e : PlayerEvent} {r : Option Reply}

def untilTick? (p : Player) : Option Nat :=
  (p.timers.map (·.remaining)).min?

def answer (p : Player) (reply : Option Reply) : PlayerAnswer :=
  ⟨reply, p.snapshot, p.isArmed, p.untilTick?⟩

def answers (p : Player) : List PlayerEvent → List PlayerAnswer
  | [] => []
  | e :: es => (p.handle e).1.answer (p.handle e).2 :: (p.handle e).1.answers es

/-- The events without the commands that are refused. -/
def effective (p : Player) : List PlayerEvent → List PlayerEvent
  | [] => []
  | e :: es =>
    if (p.handle e).2.any Reply.isRefusal then p.effective es
    else e :: (p.handle e).1.effective es

theorem Becomes.eq_of_isRefusal (h : p.Becomes e q r) (hr : r.any Reply.isRefusal = true) :
    q = p := by
  cases h with
  | unclocked => rfl
  | refused => rfl
  | kept => cases hr
  | cancelled => cases hr
  | armed => cases hr
  | waited => cases hr

theorem handle_of_isRefusal (h : (p.handle e).2.any Reply.isRefusal = true) :
    (p.handle e).1 = p :=
  (p.becomes_handle e).eq_of_isRefusal h

theorem answers_effective (p : Player) (events : List PlayerEvent) :
    p.answers (p.effective events) = (p.answers events).filter (!·.isRefusal) := by
  induction events generalizing p with
  | nil => rfl
  | cons e events ih =>
    rw [effective, answers, List.filter_cons]
    by_cases h : (p.handle e).2.any Reply.isRefusal = true
    · have hanswer : ((p.handle e).1.answer (p.handle e).2).isRefusal = true := h
      rw [if_pos h, hanswer, handle_of_isRefusal h, ih]
      rfl
    · have hanswer : ((p.handle e).1.answer (p.handle e).2).isRefusal = false :=
        Bool.eq_false_iff.2 h
      rw [if_neg h, hanswer, answers, ih]
      rfl

/-- A command that a player refuses changes neither what is seen of it, nor when its next tick
comes, nor any later answer. -/
theorem answers_refused (plan : Plan) (speed : Nat) (hasClock : Bool) (past : List PlayerEvent) :
    let p := (new plan speed hasClock).run past
    (∀ c : Command, (p.perform c).2.isRefusal = true →
      (p.perform c).1.snapshot = p.snapshot ∧ (p.perform c).1.isArmed = p.isArmed ∧
        (p.perform c).1.untilTick? = p.untilTick? ∧
        ∀ future, p.answers (.command c :: future) =
          p.answer (some (p.perform c).2) :: p.answers future) ∧
      ∀ future, p.answers (p.effective future) = (p.answers future).filter (!·.isRefusal) := by
  intro p
  refine ⟨?_, p.answers_effective⟩
  intro c hr
  have hp : (p.perform c).1 = p := handle_of_isRefusal (e := .command c) hr
  refine ⟨by rw [hp], by rw [hp], by rw [hp], ?_⟩
  intro future
  rw [answers, handle, hp]

theorem answers_refused_running :
    let p := (new ⟨[.parse, .select, .fromTables, .result]⟩ 1000 true).run
      [.command .start, .wait 1250]
    (p.perform .stepForward).2.isRefusal = true ∧ p.untilTick? = some 750 ∧
      (p.perform .stepForward).1.untilTick? = some 750 ∧
      ∀ future, p.answers (.command .stepForward :: future) =
        p.answer (some (p.perform .stepForward).2) :: p.answers future := by
  intro p
  have htick : p.untilTick? = some 750 := by decide +kernel
  have hr : (p.perform .stepForward).2.isRefusal = true := by decide +kernel
  obtain ⟨-, -, huntil, hfuture⟩ := (answers_refused ⟨[.parse, .select, .fromTables, .result]⟩ 1000
    true [.command .start, .wait 1250]).1 .stepForward hr
  exact ⟨hr, htick, huntil.trans htick, hfuture⟩

end Player
end SqlWalk
