import SqlWalk.Query.Analysis
import SqlWalk.Highlight
import SqlWalk.Player.Basic
import SqlWalk.Preferences.Basic

namespace SqlWalk

inductive SessionEvent where
  | setQuery (text : String)
  | setCanvasWidth (width : Float32)
  | player (event : PlayerEvent)

structure Session where
  text : String
  query : Query
  player : Player
  layout : Layout
  canvasWidth : Float32
  dimensions : Dimensions

structure SessionView where
  query : Query
  plan : Plan
  layout : Layout
  snapshot : Snapshot
  highlights : Highlights

namespace Session

def new (p : Preferences) (hasClock : Bool) : Session where
  text := ""
  query := .blank .empty
  player := .new ⟨[]⟩ p.speed hasClock
  layout := .blank
  canvasWidth := p.canvasWidth
  dimensions := p.dimensions

/-- A new text gets a new player at the speed of the old one. The same text changes nothing. -/
def setQuery (s : Session) (text : String) : Session :=
  if text = s.text then s
  else
    let query := Query.ofText text
    { s with
      text
      query
      player := .new (.ofQuery query) s.player.machine.speed s.player.hasClock
      layout := .ofTables query.tables s.canvasWidth s.dimensions }

def setCanvasWidth (s : Session) (width : Float32) : Session :=
  if width == s.canvasWidth then s
  else
    { s with
      canvasWidth := width
      layout := .ofTables s.query.tables width s.dimensions }

def handle (s : Session) : SessionEvent → Session × Option Reply
  | .setQuery text => (s.setQuery text, none)
  | .setCanvasWidth width => (s.setCanvasWidth width, none)
  | .player event =>
    let (player, reply) := s.player.handle event
    ({ s with player }, reply)

def run (s : Session) (events : List SessionEvent) : Session :=
  events.foldl (fun s e => (s.handle e).1) s

def plan (s : Session) : Plan :=
  s.player.machine.plan

def snapshot (s : Session) : Snapshot :=
  s.player.snapshot

/-- What the step on show lights up; nothing while the player is idle. -/
def highlights (s : Session) : Highlights :=
  match s.player.machine.phase, s.player.machine.step? with
  | .idle, _ | _, none => .none s.query
  | _, some step => .ofStep step s.query

def view (s : Session) : SessionView :=
  ⟨s.query, s.plan, s.layout, s.snapshot, s.highlights⟩

end Session
end SqlWalk
