import SqlWalk.Preferences.Basic
import SqlWalk.Json.Parser
import SqlWalk.Json.Printer

namespace SqlWalk

/-- What is in the place of the file. The text is missing if its bytes are not UTF-8. -/
inductive Entry where
  | missing
  | file (text : Option String)
  | folder
  deriving DecidableEq, Repr

/-- What is in the place of the folder. -/
inductive Store where
  | missing
  | file
  | folder (entry : Entry)
  deriving DecidableEq, Repr

inductive FileError where
  | notFound | isFolder | notFolder | alreadyExists | invalidData
  deriving DecidableEq, Repr

inductive Place where
  | folder | file
  deriving DecidableEq, Repr

inductive StoreError where
  | io (error : FileError) (place : Place)
  | malformed
  deriving DecidableEq, Repr

namespace Store

def text : Store → Except StoreError String
  | missing => .error (.io .notFound .file)
  | file => .error (.io .notFolder .file)
  | folder .missing => .error (.io .notFound .file)
  | folder .folder => .error (.io .isFolder .file)
  | folder (.file none) => .error (.io .invalidData .file)
  | folder (.file (some text)) => .ok text

def tryLoad (s : Store) : Except StoreError Preferences :=
  match s.text with
  | .error e => .error e
  | .ok text =>
    match (Json.ofString? text).bind Preferences.ofJson? with
    | some p => .ok p.sanitized
    | none => .error .malformed

def load (s : Store) : Preferences :=
  match s.tryLoad with
  | .ok p => p
  | .error _ => .standard

def save (s : Store) (p : Preferences) : Store × Except StoreError Unit :=
  match s with
  | file => (s, .error (.io .alreadyExists .folder))
  | folder .folder => (s, .error (.io .isFolder .file))
  | missing | folder _ => (folder (.file (some p.toJson.pretty)), .ok ())

def write (s : Store) (text : Option String) : Store :=
  match s with
  | file | folder .folder => s
  | missing | folder _ => folder (.file text)

def makeFolderAtFile : Store → Store
  | missing | folder .missing => folder .folder
  | s => s

def makeFileAtFolder : Store → Store
  | missing => file
  | s => s

end Store

def joinPath (base name : String) : String :=
  if base.toList.isEmpty || base.toList.getLast? == some '/' then base ++ name
  else base ++ "/" ++ name

/-- The folder for data: the one asked for if its path is absolute, else one in the home. -/
def dataFolder (asked home : Option String) : String :=
  let fallback := home.elim ".sqlscope" (joinPath · ".sqlscope")
  match asked with
  | some path => if path.toList.head? == some '/' then path else fallback
  | none => fallback

def preferencesPath (folder : String) : String :=
  joinPath folder "preferences.json"

end SqlWalk
