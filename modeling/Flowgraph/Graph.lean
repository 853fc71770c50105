import Flowgraph.Arena
import Flowgraph.Node

namespace Flowgraph

/-- A named way into a graph, with the nodes it activates in order. -/
structure ExecutionInput where
  name : String
  targets : List Handle := []
deriving DecidableEq, Repr, Inhabited

/-- Nodes, the wires that bring values to inputs and the links that pass execution on. -/
structure Graph where
  id : GraphId
  name : String
  nodes : Arena Node := .empty
  /-- The output that feeds an input. -/
  wires : Table PortRef PortRef := {}
  /-- The nodes that an execution output activates, in order. -/
  links : Table PortRef (List Handle) := {}
  executionInputs : List ExecutionInput := []
  roots : List Handle := []
deriving Inhabited

namespace Graph

/-- A call that changes a graph and may fail. It does not return at all if a node has an output that
its type does not declare and the call looks the declaration up. -/
abbrev Editor := ExceptT Error (StateT Graph Option)

/-- What a call answers and the graph it leaves. -/
def Editor.run {α : Type} (call : Editor α) (g : Graph) : Option (Except Error α × Graph) :=
  StateT.run (ExceptT.run call) g

def new (id : GraphId) (name : String) : Graph := { id, name }

/-- The same graph under another identity. -/
def clone (g : Graph) (id : GraphId) : Graph := { g with id }

def node? (g : Graph) (h : Handle) : Option Node := g.nodes.get? h

def node (g : Graph) (h : Handle) : Except Error Node := g.nodes.get h

def size (g : Graph) : Nat := g.nodes.size

def isPure (g : Graph) (h : Handle) : Bool := (g.node? h).any (·.isPure)

/-- The output wired to an input. -/
def producer? (g : Graph) (input : PortRef) : Option PortRef := g.wires.get? input

def targets (g : Graph) (output : PortRef) : List Handle := (g.links.get? output).getD []

def inputTargets (g : Graph) (ordinal : Nat) : Except Error (List Handle) :=
  match g.executionInputs[ordinal]? with
  | some input => .ok input.targets
  | none => .error (.executionInputOutOfRange ordinal g.executionInputs.length)

def inputName? (g : Graph) (ordinal : Nat) : Option String :=
  g.executionInputs[ordinal]?.map (·.name)

/-- The first execution input of a name. -/
def findInput? (g : Graph) (name : String) : Option Nat :=
  g.executionInputs.findIdx? (·.name = name)

def addNode (g : Graph) (n : Node) : Handle × Graph :=
  let (h, nodes) := g.nodes.insert n
  (h, { g with nodes })

def addRoot (g : Graph) (n : Node) : Handle × Graph :=
  let (h, g) := g.addNode n
  (h, { g with roots := g.roots ++ [h] })

/-- Changes the nodes alone. -/
def onNodes {α : Type} (change : Update (Arena Node) α) : Editor α := do
  let g ← get
  let (answer, nodes) := change.run g.nodes
  set { g with nodes }
  answer

/-- Changes a live node. -/
def updateNode {α : Type} (h : Handle) (change : Update Node α) : Editor α :=
  onNodes (Arena.update h change)

/-- Removes a node with every wire and link that touches it. -/
def removeNode (h : Handle) : Editor Node := do
  let n ← onNodes (Arena.remove h)
  modify fun g => { g with
    wires := g.wires.filter fun input output => input.node ≠ h ∧ output.node ≠ h }
  modify fun g => { g with links := g.links.filter fun output _ => output.node ≠ h }
  modify fun g => { g with links := g.links.mapValues (·.filter (· ≠ h)) }
  modify fun g => { g with
    executionInputs :=
      g.executionInputs.map fun i => { i with targets := i.targets.filter (· ≠ h) } }
  modify fun g => { g with roots := g.roots.filter (· ≠ h) }
  return n

/-- What is worth a remark about a wire: its values are certain to be of another type than the input
declares. It is laid all the same, since bodies check what they read. -/
def wireRemark? (g : Graph) (source target : PortRef) : Option String := do
  let n ← g.node? source.node
  guard (source.port < n.outputCount)
  let .data produced := (← n.outputPort? source.port).kind | none
  let m ← g.node? target.node
  guard (target.port < m.inputCount)
  let .data expected := (← m.definition.metadata.inputPort? target.port).kind | none
  if produced ≠ .any && !expected.accepts produced then
    some s!"Edge {source.node.describe}:{source.port} -> {target.node.describe}:{target.port} connects {produced.name} to {expected.name}; reads are checked at evaluation"
  else none

/-- Wires a data output to an input that has no producer yet. A constant there is cleared. -/
def addWire (source target : PortRef) : Editor Unit := do
  let g ← get
  let n ← g.node source.node
  n.output source.port
  if (← n.outputPort? source.port).isExecution then throw (.notDataPort n.nodeType source.port)
  else do
    let m ← g.node target.node
    let _ ← m.input target.port
    if g.wires.contains target then throw (.inputAlreadyConnected target.node target.port)
    else do
      updateNode target.node (modify (·.clearConstant target.port))
      modify fun g => { g with wires := g.wires.insert target source }

def removeWire (g : Graph) (target : PortRef) : Option PortRef × Graph :=
  (g.wires.get? target, { g with wires := g.wires.erase target })

/-- Gives an input without a producer a constant. -/
def setConstant (input : PortRef) (v : Value) : Editor Unit := do
  if (← get).wires.contains input then throw (.inputAlreadyConnected input.node input.port)
  else updateNode input.node (Node.setConstant input.port v)

/-- Only nodes that are not pure can be activated. -/
def checkTarget (g : Graph) (h : Handle) : Except Error Unit := do
  let n ← g.node h
  if n.isPure then .error (.pureExecutionEdge n.nodeType) else .ok ()

/-- Links an execution output to a node. -/
def addLink (source : PortRef) (target : Handle) : Editor Unit := do
  let g ← get
  let n ← g.node source.node
  n.output source.port
  if n.isPure then throw (.pureExecutionEdge n.nodeType)
  else if !(← n.outputPort? source.port).isExecution then
    throw (.notExecutionPort n.nodeType source.port)
  else do
    g.checkTarget target
    modify fun g => { g with links := g.links.insert source (g.targets source ++ [target]) }

def addExecutionInput (g : Graph) (name : String) : Nat × Graph :=
  (g.executionInputs.length, { g with executionInputs := g.executionInputs ++ [{ name }] })

def addInputLink (ordinal : Nat) (target : Handle) : Editor Unit := do
  let g ← get
  g.checkTarget target
  match g.executionInputs[ordinal]? with
  | none => throw (.executionInputOutOfRange ordinal g.executionInputs.length)
  | some input =>
    let input := { input with targets := input.targets ++ [target] }
    set { g with executionInputs := g.executionInputs.set ordinal input }

end Graph

/-- Graphs that others call by name. -/
structure Library where
  graphs : Table String Graph := {}
deriving Inhabited

namespace Library

def empty : Library := {}

def size (l : Library) : Nat := l.graphs.size

def contains (l : Library) (name : String) : Bool := l.graphs.contains name

def get (l : Library) (name : String) : Except Error Graph :=
  match l.graphs.get? name with
  | some g => .ok g
  | none => .error (.unknownGraph name)

/-- Adds a graph under its own name; an older one of that name gives way. -/
def insert (l : Library) (g : Graph) : Library := ⟨l.graphs.insert g.name g⟩

end Library

end Flowgraph
