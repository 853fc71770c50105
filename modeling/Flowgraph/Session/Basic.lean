import Flowgraph.Config
import Flowgraph.Extensions

namespace Flowgraph

/-- A node in one of the graphs of a session. -/
structure Site where
  graph : GraphId
  node : Handle
deriving DecidableEq, Repr, Inhabited

/-- An output in one of the graphs of a session. -/
structure Outlet where
  graph : GraphId
  port : PortRef
deriving DecidableEq, Repr, Inhabited

/-- A graph under evaluation with the nodes that wait for their turn. -/
structure Frame where
  graph : Graph
  queue : List Handle := []
deriving Inhabited

/-- A problem with one node that did not end the evaluation. -/
structure Diagnostic where
  graph : GraphId
  node : Handle
  error : Error
deriving DecidableEq, Repr

/-- What becomes of events: they are kept, thrown away, or refused with a message. -/
inductive Sink where
  | collect
  | discard
  | refuse (message : String)
deriving DecidableEq, Repr, Inhabited

/-- All that evaluations on one session share. What is computed once stays for the session's life. -/
structure Session where
  executionId : String
  config : Config := {}
  extensions : Extensions := {}
  sink : Sink := .discard
  events : Array Event := #[]
  /-- The graphs under evaluation, the innermost first. -/
  frames : List Frame := []
  /-- The nodes whose bodies are running, the innermost first. -/
  calls : List Handle := []
  cache : Table Outlet Value := {}
  /-- Nodes whose body has run. -/
  evaluated : List Site := []
  /-- Nodes that are not tried again. -/
  dropped : List Site := []
  diagnostics : Array Diagnostic := #[]
  statistics : Statistics := {}
  journal : Journal := {}
deriving Inhabited

namespace Session

def log (s : Session) (level : Level) (text : String) : Session :=
  { s with journal := s.journal.record level text }

def emit (s : Session) (graph : GraphId) (occurrence : Occurrence) : Session :=
  match s.sink with
  | .collect => { s with events := s.events.push ⟨s.executionId, graph, occurrence⟩ }
  | .discard => s
  | .refuse message => s.log .warn s!"Failed to deliver evaluation event: Event error: {message}"

def report (s : Session) (graph : GraphId) (node : Handle) (error : Error) : Session :=
  { s with diagnostics := s.diagnostics.push ⟨graph, node, error⟩ }

def depth (s : Session) : Nat := s.frames.length

def cached? (s : Session) (graph : GraphId) (output : PortRef) : Option Value :=
  s.cache.get? ⟨graph, output⟩

def isCached (s : Session) (graph : GraphId) (output : PortRef) : Bool :=
  (s.cached? graph output).isSome

def isEvaluated (s : Session) (graph : GraphId) (node : Handle) : Bool :=
  s.evaluated.contains ⟨graph, node⟩

def isDropped (s : Session) (graph : GraphId) (node : Handle) : Bool :=
  s.dropped.contains ⟨graph, node⟩

/-- Appends to the queue of the innermost graph. -/
def enqueue (s : Session) (nodes : List Handle) : Session :=
  match s.frames with
  | [] => s
  | frame :: rest => { s with frames := { frame with queue := frame.queue ++ nodes } :: rest }

/-- Takes the first node from the queue of the innermost graph. -/
def dequeue? (s : Session) : Option (Handle × Session) :=
  match s.frames with
  | [] => none
  | frame :: rest =>
    match frame.queue with
    | [] => none
    | h :: queue => some (h, { s with frames := { frame with queue } :: rest })

/-- The node whose body is running. -/
def activeNode (s : Session) : Except Error Handle :=
  match s.calls with
  | h :: _ => .ok h
  | [] => .error .noActiveNode

/-- The innermost graph under evaluation. -/
def activeGraph (s : Session) : Except Error Graph :=
  match s.frames with
  | frame :: _ => .ok frame.graph
  | [] => .error .noActiveGraph

/-- The running node in its graph. -/
structure Current where
  handle : Handle
  graph : Graph
  node : Node

def current (s : Session) : Except Error Current := do
  let handle ← s.activeNode
  let graph ← s.activeGraph
  return ⟨handle, graph, ← graph.node handle⟩

def field (s : Session) (index : Nat) : Except Error Value := do
  (← s.current).node.field index

def inputCount (s : Session) : Except Error Nat := do
  return (← s.current).node.inputCount

/-- The value at an input of the running node: what its producer left in the cache, or its constant
when it has no producer. -/
def input (s : Session) (port : Nat) : Except Error Value := do
  let c ← s.current
  let constant ← c.node.input port
  match c.graph.producer? ⟨c.handle, port⟩ with
  | some output =>
    match s.cached? c.graph.id output with
    | some v => .ok v
    | none => .error (.missingOutput output.node output.port)
  | none =>
    match constant with
    | some v => .ok v
    | none => .error (.unboundInput c.handle port)

/-- Puts a value on an output of the running node. -/
def setOutput (port : Nat) (v : Value) : Update Session Unit := do
  let s ← get
  let c ← s.current
  c.node.output port
  set { s with cache := s.cache.insert ⟨c.graph.id, c.handle, port⟩ v }

/-- Activates the targets of an output of the running node. -/
def fire (port : Nat) : Update Session Unit := do
  let s ← get
  let c ← s.current
  c.node.output port
  let targets := c.graph.targets ⟨c.handle, port⟩
  modify (·.log .debug
    s!"Node {c.handle.describe} fires output {port} to {targets.length} target(s)")
  modify (·.enqueue targets)

/-- Activates a node of the innermost graph. -/
def queueNode (h : Handle) : Update Session Unit := do
  let g ← (← get).activeGraph
  let _ ← g.node h
  modify (·.enqueue [h])

/-- Looks a graph up in the library of the host. -/
def libraryGraph (s : Session) (name : String) : Except Error Graph :=
  match s.extensions.library? with
  | some l => l.get name
  | none => .error (.evaluationFailed "no graph library installed")

end Session

/-- What an operation answers and what it does to the session. -/
def Operation.run (op : Operation) (s : Session) : op.Reply × Session :=
  match op with
  | .activeNode => (s.activeNode, s)
  | .activeGraph => (s.activeGraph.map fun g => (g.id, g.name), s)
  | .field index => (s.field index, s)
  | .inputCount => (s.inputCount, s)
  | .input port => (s.input port, s)
  | .setOutput port value => (Session.setOutput port value).run s
  | .fire port => (Session.fire port).run s
  | .queue node => (Session.queueNode node).run s
  | .depth => (s.depth, s)
  | .cacheSize => (s.cache.size, s)
  | .statistics => (s.statistics, s)
  | .cached graph output => (s.cached? graph output, s)
  | .isEvaluated graph node => (s.isEvaluated graph node, s)
  | .hasExtension key => (s.extensions.has key, s)
  | .findGraph name => ((s.libraryGraph name).map fun _ => (), s)
  | .print line => ((), { s with extensions := s.extensions.print line })
  | .log level text => ((), s.log level text)
  | .note text => ((), { s with journal := s.journal.note text })
  | .tick =>
    let journal := s.journal.tick
    (journal.ticks, { s with journal })

end Flowgraph
