import Flowgraph.Graph

namespace Flowgraph

/-- The lines that nodes have printed. -/
structure Console where
  lines : Array String := #[]
deriving DecidableEq, Repr, Inhabited

namespace Console

def write (c : Console) (line : String) : Console := ⟨c.lines.push line⟩

def clear (_ : Console) : Console := ⟨#[]⟩

end Console

/-- An object a host lends to the bodies of a session. -/
inductive Extension where
  | library (l : Library)
  | console (c : Console)
  | text (s : String)
  | integer (n : Int64)
  | flag (b : Bool)

/-- Objects of the host by key. One of another kind than asked for is as good as none. -/
structure Extensions where
  objects : Table String Extension := {}
deriving Inhabited

namespace Extensions

def libraryKey : String := "graph_library"

def consoleKey : String := "console"

def empty : Extensions := {}

def get? (e : Extensions) (key : String) : Option Extension := e.objects.get? key

def has (e : Extensions) (key : String) : Bool := e.objects.contains key

def set (e : Extensions) (key : String) (x : Extension) : Extensions := ⟨e.objects.insert key x⟩

def library? (e : Extensions) : Option Library :=
  match e.get? libraryKey with
  | some (.library l) => some l
  | _ => none

def console? (e : Extensions) : Option Console :=
  match e.get? consoleKey with
  | some (.console c) => some c
  | _ => none

def setConsole (e : Extensions) (c : Console) : Extensions := e.set consoleKey (.console c)

/-- Writes to the console, if there is one. -/
def print (e : Extensions) (line : String) : Extensions :=
  match e.console? with
  | some c => e.setConsole (c.write line)
  | none => e

def clearConsole (e : Extensions) : Extensions :=
  match e.console? with
  | some c => e.setConsole c.clear
  | none => e

/-- A fresh console and a library, as the built-in nodes expect them. -/
def standard (l : Library) : Extensions :=
  (empty.setConsole {}).set libraryKey (.library l)

end Extensions

end Flowgraph
