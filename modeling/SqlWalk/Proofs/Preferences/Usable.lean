import Mathlib.Tactic.Common
import SqlWalk.Preferences.Store

namespace SqlWalk

namespace Preferences

/-- Says that a player and a layout can be made with these values. -/
structure Usable (p : Preferences) : Prop where
  speed : 500 ≤ p.speed ∧ p.speed ≤ 3000
  canvasWidth : p.canvasWidth.isFinite = true ∧ 0 < p.canvasWidth
  tableWidth : p.tableWidth.isFinite = true ∧ 0 < p.tableWidth
  tableHeight : p.tableHeight.isFinite = true ∧ 0 < p.tableHeight
  padding : p.padding.isFinite = true ∧ 0 ≤ p.padding

theorem usable_standard : standard.Usable where
  speed := by decide
  canvasWidth := by decide
  tableWidth := by decide
  tableHeight := by decide
  padding := by decide

theorem usableExtent_spec {x default : Float32} (h : default.isFinite = true ∧ 0 < default) :
    (usableExtent x default).isFinite = true ∧ 0 < usableExtent x default := by
  rw [usableExtent]
  split
  · next hx => simpa using hx
  · exact h

theorem usableSpace_spec {x default : Float32} (h : default.isFinite = true ∧ 0 ≤ default) :
    (usableSpace x default).isFinite = true ∧ 0 ≤ usableSpace x default := by
  rw [usableSpace]
  split
  · next hx => simpa using hx
  · exact h

theorem usable_sanitized (p : Preferences) : p.sanitized.Usable where
  speed := clampSpeed_bounds p.speed
  canvasWidth := usableExtent_spec usable_standard.canvasWidth
  tableWidth := usableExtent_spec usable_standard.tableWidth
  tableHeight := usableExtent_spec usable_standard.tableHeight
  padding := usableSpace_spec usable_standard.padding

end Preferences

/-- What can be done to a store, and to the places of its file and folder. -/
inductive StoreEvent where
  | write (text : Option String)
  | makeFolderAtFile
  | makeFileAtFolder
  | save (p : Preferences)
  | load
  | tryLoad

inductive StoreAnswer where
  | done
  | saved (result : Except StoreError Unit)
  | loaded (p : Preferences)
  | tried (result : Except StoreError Preferences)

namespace StoreAnswer

def preferences? : StoreAnswer → Option Preferences
  | loaded p => some p
  | tried (.ok p) => some p
  | done | saved _ | tried (.error _) => none

/-- Says whether an answer is that to a reading, or tells that a save failed. -/
def isHarmless : StoreAnswer → Bool
  | loaded _ | tried _ | saved (.error _) => true
  | done | saved (.ok _) => false

end StoreAnswer

namespace Store

variable {s : Store} {p : Preferences} {e : StoreEvent}

def handle (s : Store) : StoreEvent → Store × StoreAnswer
  | .write text => (s.write text, .done)
  | .makeFolderAtFile => (s.makeFolderAtFile, .done)
  | .makeFileAtFolder => (s.makeFileAtFolder, .done)
  | .save p => ((s.save p).1, .saved (s.save p).2)
  | .load => (s, .loaded s.load)
  | .tryLoad => (s, .tried s.tryLoad)

def run (s : Store) (events : List StoreEvent) : Store :=
  events.foldl (fun s e => (s.handle e).1) s

def answers (s : Store) : List StoreEvent → List StoreAnswer
  | [] => []
  | e :: es => (s.handle e).2 :: (s.handle e).1.answers es

theorem usable_of_tryLoad (h : s.tryLoad = .ok p) : p.Usable := by
  rw [tryLoad] at h
  split at h
  · cases h
  · split at h
    · cases h
      exact Preferences.usable_sanitized _
    · cases h

theorem load_of_ok (h : s.tryLoad = .ok p) : s.load = p := by
  rw [load, h]

theorem load_of_error {error : StoreError} (h : s.tryLoad = .error error) :
    s.load = .standard := by
  rw [load, h]

theorem usable_load (s : Store) : s.load.Usable := by
  cases h : s.tryLoad with
  | ok p =>
    rw [load_of_ok h]
    exact usable_of_tryLoad h
  | error error =>
    rw [load_of_error h]
    exact Preferences.usable_standard

theorem usable_handle (s : Store) (e : StoreEvent) :
    ∀ p ∈ (s.handle e).2.preferences?, p.Usable := by
  cases e with
  | load =>
    rintro p ⟨⟩
    exact s.usable_load
  | tryLoad =>
    intro p hp
    cases h : s.tryLoad with
    | ok q =>
      simp only [handle, h, StoreAnswer.preferences?, Option.mem_some_iff] at hp
      rw [← hp]
      exact usable_of_tryLoad h
    | error error => simp [handle, h, StoreAnswer.preferences?] at hp
  | _ => rintro p ⟨⟩

theorem save_of_error {error : StoreError} (h : (s.save p).2 = .error error) :
    (s.save p).1 = s := by
  match s with
  | file => rfl
  | folder .folder => rfl
  | missing => cases h
  | folder .missing => cases h
  | folder (.file _) => cases h

theorem handle_of_isHarmless (h : (s.handle e).2.isHarmless = true) : (s.handle e).1 = s := by
  cases e with
  | save p =>
    cases hp : (s.save p).2 with
    | ok => simp [handle, hp, StoreAnswer.isHarmless] at h
    | error error => exact save_of_error hp
  | load => rfl
  | tryLoad => rfl
  | _ => cases h

theorem usable_of_mem_answers (s : Store) (events : List StoreEvent) :
    ∀ a ∈ s.answers events, ∀ p ∈ a.preferences?, p.Usable := by
  induction events generalizing s with
  | nil => nofun
  | cons e events ih =>
    intro a ha
    rcases List.mem_cons.1 ha with rfl | ha
    · exact s.usable_handle e
    · exact ih _ a ha

/-- All preferences that a store gives are usable, whatever was done to it. Readings and failed
saves do not change what is read next. -/
theorem usable_answers (store : Store) (past : List StoreEvent) :
    let s := store.run past
    (∀ future, ∀ a ∈ s.answers future, ∀ p ∈ a.preferences?, p.Usable) ∧
      (∀ p, s.tryLoad = .ok p → s.load = p) ∧
      (∀ error, s.tryLoad = .error error → s.load = .standard) ∧
      ∀ e, (s.handle e).2.isHarmless = true → (s.handle e).1.tryLoad = s.tryLoad := by
  intro s
  refine ⟨s.usable_of_mem_answers, fun p => load_of_ok, fun error => load_of_error, ?_⟩
  intro e he
  rw [handle_of_isHarmless he]

theorem usable_answers_obstacles :
    let written := missing.run [.write (some "\x7b\"speed_ms\": 10, \"padding\": -1e39\x7d"), .load]
    let blocked := missing.run [.makeFolderAtFile, .tryLoad, .write (some "\x7b\x7d")]
    (∃ p, written.tryLoad = .ok p ∧ written.load = p ∧ p.speed = 500 ∧ p.padding = 40) ∧
      blocked.tryLoad = .error (.io .isFolder .file) ∧ blocked.load = .standard ∧
      (blocked.handle (.save .standard)).2.isHarmless = true ∧
      (blocked.handle (.save .standard)).1.tryLoad = blocked.tryLoad := by
  intro written blocked
  obtain ⟨-, hok, -, -⟩ := usable_answers missing
    [.write (some "\x7b\"speed_ms\": 10, \"padding\": -1e39\x7d"), .load]
  obtain ⟨-, -, herror, hharmless⟩ := usable_answers missing
    [.makeFolderAtFile, .tryLoad, .write (some "\x7b\x7d")]
  have hblocked : blocked.tryLoad = .error (.io .isFolder .file) := rfl
  refine ⟨?_, hblocked, herror _ hblocked, rfl, hharmless (.save .standard) rfl⟩
  have hread : written.tryLoad.isOk = true := by decide +kernel
  have hspeed : written.load.speed = 500 := by decide +kernel
  have hpadding : written.load.padding = 40 := by decide +kernel
  cases hw : written.tryLoad with
  | ok p =>
    have hload : written.load = p := hok p hw
    exact ⟨p, rfl, hload, hload ▸ hspeed, hload ▸ hpadding⟩
  | error e =>
    rw [hw] at hread
    cases hread

end Store
end SqlWalk
