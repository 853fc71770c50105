namespace Flowgraph

inductive Level where
  | error
  | warn
  | info
  | debug
deriving DecidableEq, Repr, Inhabited

def Level.name : Level → String
  | .error => "error"
  | .warn => "warn"
  | .info => "info"
  | .debug => "debug"

/-- What is written down beside the results: log records, the notes that bodies take, and a counter
that bodies may advance. -/
structure Journal where
  records : Array (Level × String) := #[]
  notes : Array String := #[]
  ticks : Nat := 0
deriving DecidableEq, Repr, Inhabited

namespace Journal

def record (j : Journal) (level : Level) (text : String) : Journal :=
  { j with records := j.records.push (level, text) }

def note (j : Journal) (text : String) : Journal := { j with notes := j.notes.push text }

def tick (j : Journal) : Journal := { j with ticks := j.ticks + 1 }

end Journal

end Flowgraph
