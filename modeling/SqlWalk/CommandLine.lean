import SqlWalk.Number.Reading
import SqlWalk.Preferences.Store
import SqlWalk.Report

namespace SqlWalk

structure Options where
  animate : Bool
  speed : Option Float
  width : Option Float32
  /-- The words of the query. Without any the query is read from the input. -/
  words : List String

inductive Invocation where
  | report (options : Options)
  | version
  | help
  | refused

structure Output where
  exitCode : Nat
  text : String
  deriving DecidableEq, Repr

inductive Flag where
  | animate | speed | width | version | help
  deriving DecidableEq, Repr

namespace Flag

def name : Flag → String
  | animate => "--animate"
  | speed => "--speed"
  | width => "--width"
  | version => "--version"
  | help => "--help"

def every : List Flag :=
  [animate, speed, width, version, help]

def ofLetter? (c : Char) : Option Flag :=
  if c == 'V' then some version else if c == 'h' then some help else none

/-- The option that an argument gives, with the value joined to it by an equals sign. Letters may be
given together, if each of them names an option; the first one acts. -/
def ofArgument? (arg : String) : Option (Flag × Option String) :=
  match arg.toList with
  | '-' :: '-' :: _ =>
    let name := arg.toList.takeWhile (· ≠ '=')
    let value := arg.toList.drop name.length
    (every.find? (·.name.toList == name)).map fun flag =>
      (flag, if value.isEmpty then none else some (String.ofList (value.drop 1)))
  | '-' :: c :: cs =>
    if cs.all (ofLetter? · |>.isSome) then (ofLetter? c).map fun flag => (flag, none) else none
  | _ => none

end Flag

namespace Options

def none : Options :=
  ⟨false, .none, .none, []⟩

def withSpeed (o : Options) (value : String) : Option Options :=
  if o.speed.isSome then .none
  else (TypedNumber.ofString? value).map fun n => { o with speed := some n.toDouble }

def withWidth (o : Options) (value : String) : Option Options :=
  if o.width.isSome then .none
  else (TypedNumber.ofString? value).map fun n => { o with width := some n.toSingle }

def withValue (o : Options) (flag : Flag) (value : String) : Option Options :=
  match flag with
  | .speed => o.withSpeed value
  | .width => o.withWidth value
  | _ => .none

def queryText (o : Options) (input : String) : String :=
  if o.words.isEmpty then input else " ".intercalate o.words

def session (o : Options) (input : String) (p : Preferences) : Session :=
  (Session.new { p with canvasWidth := o.width.getD p.canvasWidth } true).setQuery
    (o.queryText input)

end Options

namespace Invocation

/-- From the first argument that is no option on, all arguments are words of the query. -/
def ofArgumentsFrom (o : Options) : List String → Invocation
  | [] => report o
  | arg :: args =>
    if arg == "--" then report { o with words := args }
    else
      match Flag.ofArgument? arg with
      | none => report { o with words := arg :: args }
      | some (.animate, none) =>
        if o.animate then refused else ofArgumentsFrom { o with animate := true } args
      | some (.version, none) => version
      | some (.help, none) => help
      | some (flag, some value) =>
        match o.withValue flag value with
        | some o => ofArgumentsFrom o args
        | none => refused
      | some (flag, none) =>
        match args with
        | value :: args =>
          if value == "--" || (Flag.ofArgument? value).isSome then refused
          else
            match o.withValue flag value with
            | some o => ofArgumentsFrom o args
            | none => refused
        | [] => refused

def ofArguments (args : List String) : Invocation :=
  ofArgumentsFrom .none args

end Invocation

def versionText : String :=
  "sqlscope 0.1.0\n"

def helpText : String :=
  "Usage: sqlscope [--animate] [--speed FACTOR] [--width PIXELS] [SQL]...\n"

def Options.report (o : Options) (s : Session) : String :=
  (s.report .demo).pretty ++ "\n" ++
    if o.animate && s.plan.isEmpty then s.snapshot.status ++ "\n" else ""

def Invocation.output (i : Invocation) (input : String) (store : Store) : Output :=
  match i with
  | .report o => ⟨0, o.report (o.session input store.load)⟩
  | .version => ⟨0, versionText⟩
  | .help => ⟨0, helpText⟩
  | .refused => ⟨2, ""⟩

end SqlWalk
