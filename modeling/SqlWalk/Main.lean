import SqlWalk.CommandLine

namespace SqlWalk

def readStore : IO Store := do
  let folder := dataFolder (← IO.getEnv "SQLSCOPE_DATA_DIR") (← IO.getEnv "HOME")
  try
    let bytes ← IO.FS.readBinFile (preferencesPath folder)
    return .folder (.file (String.fromUTF8? bytes))
  catch _ => return .missing

/-- Prints a frame whenever the step or the phase is a new one, until the walk is over. -/
partial def walk (s : Session) (shown : Option (Nat × Phase)) : IO Unit := do
  let now := (s.snapshot.index, s.snapshot.phase)
  if shown != some now then IO.println s.frame.compact
  unless s.snapshot.phase = .completed do
    IO.sleep 50
    walk (s.handle (.player (.wait 50))).1 (some now)

def run (args : List String) : IO UInt32 := do
  let invocation := Invocation.ofArguments args
  let input ←
    match invocation with
    | .report o => if o.words.isEmpty then (← IO.getStdin).readToEnd else pure ""
    | _ => pure ""
  let store ← readStore
  let output := invocation.output input store
  IO.print output.text
  if let .report o := invocation then
    let s := o.session input store.load
    if o.animate && !s.plan.isEmpty then
      let s := match o.speed with
        | some factor => s.run [.player (.command (.changeSpeed factor))]
        | none => s
      walk (s.run [.player (.command .start)]) none
  return output.exitCode.toUInt32

end SqlWalk

def main (args : List String) : IO UInt32 :=
  SqlWalk.run args
