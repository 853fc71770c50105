import Flowgraph.Builtin
import Flowgraph.Session.Evaluation

namespace Flowgraph

/-- Why a workspace does not do what it is asked. -/
inductive Refusal where
  | failed (error : Error)
  /-- The graph went into the library and is no longer changed. -/
  | frozen
  | unknown (name : String)
  /-- The call did not return. -/
  | stopped
  /-- An evaluation did not end within the work allowed to it. -/
  | unfinished
deriving DecidableEq, Repr

/-- A graph with the mark that keeps it from being edited. -/
structure HeldGraph where
  graph : Graph
  frozen : Bool := false
deriving Inhabited

/-- Registries, graphs and sessions by name, one library, and the journal they all write to. -/
structure Workspace where
  registries : Table String Registry := {}
  graphs : Table String HeldGraph := {}
  library : Library := {}
  sessions : Table String Session := {}
  journal : Journal := {}
  /-- Every graph that was made with the name it got. -/
  names : Table GraphId String := {}
deriving Inhabited

/-- A request to a workspace. One that is refused may have written to the journal. -/
abbrev Request := ExceptT Refusal (StateM Workspace)

namespace Workspace

/-- More work than any evaluation that ends is going to need. -/
def patience : Nat := Nat.pow 2 60

def log (level : Level) (text : String) : Request Unit :=
  modify fun w => { w with journal := w.journal.record level text }

def ofExcept {α : Type} (result : Except Error α) : Request α :=
  match result with
  | .ok a => pure a
  | .error e => throw (.failed e)

def known {α : Type} (name : String) (found : Option α) : Request α :=
  match found with
  | some a => pure a
  | none => throw (.unknown name)

def registry (name : String) : Request Registry := do
  known name ((← get).registries.get? name)

def setRegistry (name : String) (r : Registry) : Request Unit :=
  modify fun w => { w with registries := w.registries.insert name r }

/-- Starts a registry, empty or with the built-in node types. -/
def newRegistry (name : String) (builtins : Bool) : Request Nat := do
  let r := if builtins then Registry.builtins else .empty
  if builtins then log .debug s!"Registered {r.size} built-in node types"
  setRegistry name r
  return r.size

def register (name : String) (d : Definition) : Request Unit := do
  let r ← registry name
  let extended ← ofExcept (r.register d)
  if (r.get? d.nodeType).isSome then log .warn s!"Node type '{d.nodeType}' was registered twice"
  setRegistry name extended

/-- Merges one registry into another; it is gone afterwards. -/
def mergeRegistries (into source : String) : Request Unit := do
  let other ← registry source
  modify fun w => { w with registries := w.registries.erase source }
  setRegistry into ((← registry into).merge other)

def held (name : String) : Request HeldGraph := do
  known name ((← get).graphs.get? name)

def graph (name : String) : Request Graph := do return (← held name).graph

def putGraph (name : String) (g : HeldGraph) : Request Unit :=
  modify fun w => { w with graphs := w.graphs.insert name g }

/-- Makes a graph with an identity that no graph of the workspace has or had. It comes last, and takes
the name from the graph that bore it. -/
def makeGraph (name : String) (make : GraphId → Graph) : Request Unit :=
  modify fun w =>
    let id := GraphId.ofNat (w.names.size + 1)
    { w with
      graphs := (w.graphs.erase name).insert name ⟨make id, false⟩
      names := w.names.insert id name }

def newGraph (name title : String) : Request Unit :=
  makeGraph name fun id => .new id title

def cloneGraph (name copy : String) : Request Unit := do
  let g ← graph name
  makeGraph copy g.clone

/-- Changes a graph unless it is frozen. -/
def edit {α : Type} (name : String) (change : Graph.Editor α) : Request α := do
  let g ← held name
  if g.frozen then throw .frozen
  match change.run g.graph with
  | none => throw .stopped
  | some (answer, graph) =>
    putGraph name { g with graph }
    ofExcept answer

/-- A node with its first fields set, in no graph yet. -/
def draftNode (registryName nodeType : String) (fields : List Value) : Request Node := do
  let n ← ofExcept ((← registry registryName).create nodeType)
  let (answer, n) := (Node.setFields fields).run n
  ofExcept answer
  return n

/-- Adds a node, as a root if so asked. -/
def addNode (name : String) (n : Node) (isRoot : Bool) : Request Handle :=
  edit name (modifyGet fun g => if isRoot then g.addRoot n else g.addNode n)

/-- Wires two ports, with a remark in the journal if their types do not meet. -/
def addWire (name : String) (source target : PortRef) : Request Unit := do
  let g ← held name
  if g.frozen then throw .frozen
  if let some remark := g.graph.wireRemark? source target then log .debug remark
  edit name (Graph.addWire source target)

/-- Puts a graph into the library, which freezes it. -/
def publish (name : String) : Request Library := do
  let g ← held name
  if g.frozen then throw .frozen
  putGraph name { g with frozen := true }
  modifyGet fun w =>
    let library := w.library.insert g.graph
    (library, { w with library })

/-- The name a graph was made under, which another one may bear by now. -/
def nameOf? (w : Workspace) (id : GraphId) : Option String := w.names.get? id

def scene (w : Workspace) : Scene := fun name => (w.graphs.get? name).map (·.graph)

def session (name : String) : Request Session := do
  known name ((← get).sessions.get? name)

def putSession (name : String) (s : Session) : Request Unit :=
  modify fun w => { w with sessions := w.sessions.insert name s }

/-- Console and library for a session, as the library stands. -/
def standardExtensions : Request Extensions := do
  let library := (← get).library
  log .debug s!"Installed graph library with {library.size} graph(s)"
  return .standard library

/-- What one piece of work on a session brought. -/
structure Report where
  result : Except Error Unit
  notes : List String
  diagnostics : List Diagnostic
  events : List Event
  session : Session

/-- Does some work on a session. -/
def work (name : String) (task : Scene → Session → Outcome Unit) : Request Report := do
  let s ← session name
  let w ← get
  match task w.scene { s with journal := w.journal } with
  | none => throw .unfinished
  | some (result, t) =>
    putSession name t
    modify fun w => { w with journal := t.journal }
    return {
      result
      notes := t.journal.notes.toList.drop w.journal.notes.size
      diagnostics := t.diagnostics.toList.drop s.diagnostics.size
      events := t.events.toList.drop s.events.size
      session := t }

def evaluate (name : String) (g : Graph) (entry : Entry) : Request Report :=
  work name fun scene s => s.evaluate scene patience g entry

def host (name : String) (p : Program Unit) : Request Report :=
  work name fun scene s => s.host scene patience p

/-- What a session holds of a node. -/
structure Trace where
  graph : String
  node : Handle
  evaluated : Bool
  outputs : List (Option Value)

/-- The live nodes that a session has run or has outputs of, graph by graph. -/
def traces (w : Workspace) (s : Session) : List Trace :=
  w.graphs.entries.flatMap fun (name, held) =>
    held.graph.nodes.toList.filterMap fun (h, n) =>
      let evaluated := s.isEvaluated held.graph.id h
      let outputs := (List.range n.outputCount).map fun port => s.cached? held.graph.id ⟨h, port⟩
      if evaluated || outputs.any (·.isSome) then some ⟨name, h, evaluated, outputs⟩ else none

end Workspace

end Flowgraph
