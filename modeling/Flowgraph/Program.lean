import Flowgraph.Error
import Flowgraph.Event
import Flowgraph.Journal

namespace Flowgraph

/-- Counts over the life of a session. They have 64 bits and start over beyond them. -/
structure Statistics where
  /-- Nodes taken from queues. -/
  steps : UInt64 := 0
  /-- Bodies run. -/
  evaluated : UInt64 := 0
  /-- Nodes put back behind their producers. -/
  deferred : UInt64 := 0
  /-- Nodes given up without a run. -/
  dropped : UInt64 := 0
deriving DecidableEq, Repr, Inhabited

/-- What a body can ask of the session that runs it. -/
inductive Operation where
  | activeNode
  | activeGraph
  | field (index : Nat)
  | inputCount
  | input (port : Nat)
  | setOutput (port : Nat) (value : Value)
  | fire (port : Nat)
  | queue (node : Handle)
  | depth
  | cacheSize
  | statistics
  | cached (graph : GraphId) (output : PortRef)
  | isEvaluated (graph : GraphId) (node : Handle)
  | hasExtension (key : String)
  /-- Whether the library holds a graph of this name. -/
  | findGraph (name : String)
  | print (line : String)
  | log (level : Level) (text : String)
  | note (text : String)
  | tick

namespace Operation

/-- What the session answers. -/
def Reply : Operation → Type
  | .activeNode => Except Error Handle
  | .activeGraph => Except Error (GraphId × String)
  | .field _ => Except Error Value
  | .inputCount => Except Error Nat
  | .input _ => Except Error Value
  | .setOutput _ _ => Except Error Unit
  | .fire _ => Except Error Unit
  | .queue _ => Except Error Unit
  | .depth => Nat
  | .cacheSize => Nat
  | .statistics => Statistics
  | .cached _ _ => Option Value
  | .isEvaluated _ _ => Bool
  | .hasExtension _ => Bool
  | .findGraph _ => Except Error Unit
  | .print _ => Unit
  | .log _ _ => Unit
  | .note _ => Unit
  | .tick => Nat

end Operation

/-- A graph as a body names it: one the host gave a name, or one of the library. -/
inductive Target where
  | named (name : String)
  | library (name : String)
deriving DecidableEq, Repr

/-- A finite deterministic body: it performs operations and nested evaluations one after the other,
each next one depending on the answers so far, and finishes with a result or an error. -/
inductive Program (α : Type) : Type where
  | finish (result : Except Error α)
  | perform (op : Operation) (next : op.Reply → Program α)
  | enter (target : Target) (entry : Entry) (next : Except Error Unit → Program α)

namespace Program

variable {α β : Type}

protected def bind : Program α → (α → Program β) → Program β
  | .finish (.ok a), f => f a
  | .finish (.error e), _ => .finish (.error e)
  | .perform op next, f => .perform op fun reply => (next reply).bind f
  | .enter target entry next, f => .enter target entry fun result => (next result).bind f

instance : Monad Program where
  pure a := .finish (.ok a)
  bind := Program.bind

/-- Hands an error on as a result. What was done before it stays done. -/
def attempt : Program α → Program (Except Error α)
  | .finish result => .finish (.ok result)
  | .perform op next => .perform op fun reply => (next reply).attempt
  | .enter target entry next => .enter target entry fun result => (next result).attempt

def fail (e : Error) : Program α := .finish (.error e)

def ofExcept (result : Except Error α) : Program α := .finish result

def activeNode : Program Handle := .perform .activeNode .finish

def activeGraph : Program (GraphId × String) := .perform .activeGraph .finish

def field (index : Nat) : Program Value := .perform (.field index) .finish

def inputCount : Program Nat := .perform .inputCount .finish

def input (port : Nat) : Program Value := .perform (.input port) .finish

def setOutput (port : Nat) (value : Value) : Program Unit :=
  .perform (.setOutput port value) .finish

def fire (port : Nat) : Program Unit := .perform (.fire port) .finish

def queue (node : Handle) : Program Unit := .perform (.queue node) .finish

def depth : Program Nat := .perform .depth fun n => pure n

def cacheSize : Program Nat := .perform .cacheSize fun n => pure n

def statistics : Program Statistics := .perform .statistics fun s => pure s

def cached (graph : GraphId) (output : PortRef) : Program (Option Value) :=
  .perform (.cached graph output) fun v => pure v

def isEvaluated (graph : GraphId) (node : Handle) : Program Bool :=
  .perform (.isEvaluated graph node) fun b => pure b

def hasExtension (key : String) : Program Bool := .perform (.hasExtension key) fun b => pure b

def findGraph (name : String) : Program Unit := .perform (.findGraph name) .finish

def print (line : String) : Program Unit := .perform (.print line) fun _ => pure ()

def log (level : Level) (text : String) : Program Unit :=
  .perform (.log level text) fun _ => pure ()

def note (text : String) : Program Unit := .perform (.note text) fun _ => pure ()

def tick : Program Nat := .perform .tick fun n => pure n

def evaluate (target : Target) (entry : Entry) : Program Unit := .enter target entry .finish

end Program

end Flowgraph
