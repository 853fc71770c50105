import Flowgraph.Session.Verdict

namespace Flowgraph

/-- The graphs a host has given names. -/
abbrev Scene := String → Option Graph

/-- The result of an evaluation and the session after it; none when the work allowed to it ran out
first. -/
abbrev Outcome (α : Type) := Option (Except Error α × Session)

/-- Runs a body, with `call` for its nested evaluations. -/
def Program.run {α : Type} (call : Target → Entry → Session → Outcome Unit) :
    Program α → Session → Outcome α
  | .finish result, s => some (result, s)
  | .perform op next, s =>
    let (reply, s) := op.run s
    (next reply).run call s
  | .enter target entry next, s =>
    match call target entry s with
    | none => none
    | some (result, s) => (next result).run call s

namespace Session

def countStep (s : Session) : Session :=
  { s with statistics := { s.statistics with steps := s.statistics.steps + 1 } }

/-- The step limit, once it is passed. -/
def exceeded? (s : Session) : Option Nat :=
  (s.config.maxSteps.filter (· < s.statistics.steps)).map (·.toNat)

/-- Gives a node up for good. -/
def dropNode (s : Session) (graph : GraphId) (h : Handle) (e : Error) : Session :=
  let s := s.log .error <|
    if e.isDataFlow then s!"Invalid graph configuration at node {h.describe}: {e.message}"
    else s!"Skipping node {h.describe}: {e.message}"
  let s := { s with
    dropped := s.dropped.insert ⟨graph, h⟩
    statistics := { s.statistics with dropped := s.statistics.dropped + 1 } }
  (s.emit graph (.nodeDropped h e.message)).report graph h e

/-- Puts a node back behind the producers it waits for. -/
def deferNode (s : Session) (graph : GraphId) (h : Handle) (producers : List Handle) : Session :=
  let s := s.log .debug
    s!"Deferring node {h.describe} behind {producers.length} pure dependency(ies)"
  let s := { s with statistics := { s.statistics with deferred := s.statistics.deferred + 1 } }
  (s.emit graph (.nodeDeferred h (UInt64.ofNat producers.length))).enqueue (producers ++ [h])

/-- Carries out a verdict that runs no body. -/
def settle (s : Session) (graph : GraphId) (h : Handle) : Verdict → Session
  | .alreadyDropped => s.log .debug s!"Skipping dropped node {h.describe}"
  | .alreadyEvaluated => s.log .debug s!"Pure node {h.describe} already evaluated"
  | .drop e => s.dropNode graph h e
  | .defer producers => s.deferNode graph h producers
  | .start _ _ => s

/-- A body is about to run. -/
def startNode (s : Session) (graph : GraphId) (h : Handle) (d : Definition) : Session :=
  let s := s.log .debug s!"Evaluating node {h.describe} ({d.nodeType})"
  let s := s.emit graph (.nodeStarted h d.nodeType)
  { s with calls := h :: s.calls }

/-- A body has run. A pure node that failed is not tried again. -/
def finishNode (s : Session) (graph : GraphId) (h : Handle) (d : Definition)
    (result : Except Error Unit) : Session :=
  let s := { s with
    calls := s.calls.tail
    evaluated := s.evaluated.insert ⟨graph, h⟩
    statistics := { s.statistics with evaluated := s.statistics.evaluated + 1 } }
  match result with
  | .ok () => s.emit graph (.nodeCompleted h d.nodeType)
  | .error e =>
    let s := s.log .error s!"Node {h.describe} ({d.nodeType}) failed: {e.message}"
    let s := if d.isPure then { s with dropped := s.dropped.insert ⟨graph, h⟩ } else s
    (s.emit graph (.nodeFailed h e.message)).report graph h e

/-- There is room for one more graph. -/
def checkDepth (s : Session) : Except Error Unit × Session :=
  let limit := s.config.maxGraphDepth.toNat
  if s.depth < limit then (.ok (), s)
  else (.error (.graphDepthExceeded limit), s.log .error s!"Graph stack depth limit of {limit} reached")

/-- Lets in an evaluation that starts at a node. One that is no root is reported, and refused by
sessions that are strict about roots. -/
def rootSeeds (s : Session) (g : Graph) (h : Handle) : Except Error (List Handle) × Session :=
  match s.checkDepth with
  | (.error e, s) => (.error e, s)
  | (.ok (), s) =>
    match g.node h with
    | .error e => (.error e, s)
    | .ok n =>
      if n.definition.isRoot then (.ok [h], s)
      else
        let error := Error.notRoot n.nodeType
        let s := s.emit g.id (.nonRootEntry h n.nodeType)
        if s.config.strictRoots then
          (.error error, s.log .error
            s!"Refusing to evaluate from non-root node {h.describe}: {error.message}")
        else
          (.ok [h], (s.log .error
            s!"Attempted to evaluate starting from non-root node {h.describe}").report g.id h error)

/-- Lets in an evaluation that starts at an execution input. -/
def inputSeeds (s : Session) (g : Graph) (ordinal : Nat) : Except Error (List Handle) × Session :=
  match g.inputTargets ordinal with
  | .error e =>
    (.error e, s.log .error
      s!"Execution input {ordinal} out of range for graph '{g.name}' ({g.executionInputs.length} declared)")
  | .ok targets =>
    match s.checkDepth with
    | (.error e, s) => (.error e, s)
    | (.ok (), s) => (.ok targets, s)

/-- The nodes an entry activates first. -/
def seeds (s : Session) (g : Graph) : Entry → Except Error (List Handle) × Session
  | .root h => s.rootSeeds g h
  | .executionInput ordinal => s.inputSeeds g ordinal.toNat

/-- Puts a graph on top of those under evaluation. -/
def openGraph (s : Session) (g : Graph) (entry : Entry) (queue : List Handle) : Session :=
  let s :=
    if s.frames.isEmpty then s.log .info s!"Evaluating graph '{g.name}' ({s.executionId})"
    else s.log .debug s!"Entering nested graph '{g.name}' at depth {s.depth}"
  let s := s.emit g.id (.evaluationStarted entry)
  { s with frames := ⟨g, queue⟩ :: s.frames }

/-- Takes the innermost graph off, with what is left in its queue. -/
def closeGraph (s : Session) : Session :=
  match s.frames with
  | [] => s
  | frame :: rest =>
    let s := { s with frames := rest }.emit frame.graph.id .evaluationCompleted
    if rest.isEmpty then
      s.log .info s!"Finished graph '{frame.graph.name}': {s.statistics.steps} step(s), {s.statistics.evaluated} node(s) evaluated, {s.statistics.dropped} dropped"
    else s

/-- Evaluates a graph from an entry, with `drain` to empty its queue. -/
def evaluateWith (drain : Graph → Session → Outcome Unit) (s : Session) (g : Graph)
    (entry : Entry) : Outcome Unit :=
  match s.seeds g entry with
  | (.error e, s) => some (.error e, s)
  | (.ok queue, s) =>
    match drain g (s.openGraph g entry queue) with
    | none => none
    | some (result, s) => some (result, s.closeGraph)

def resolve (s : Session) (scene : Scene) : Target → Except Error Graph
  | .named name =>
    match scene name with
    | some g => .ok g
    | none => .error (.unknownGraph name)
  | .library name => s.libraryGraph name

/-- An evaluation that a body asks for. -/
def callWith (drain : Graph → Session → Outcome Unit) (scene : Scene) (target : Target)
    (entry : Entry) (s : Session) : Outcome Unit :=
  match s.resolve scene target with
  | .error e => some (.error e, s)
  | .ok g => s.evaluateWith drain g entry

/-- Empties the queue of the innermost graph `g`. A problem with one node is recorded and the next
one follows; only the step limit ends it early. The first argument bounds the nodes taken from one
queue together with the nesting of evaluations. -/
def drain (scene : Scene) : Nat → Graph → Session → Outcome Unit
  | 0, _, _ => none
  | fuel + 1, g, s =>
    match s.dequeue? with
    | none => some (.ok (), s)
    | some (h, s) =>
      let s := s.countStep
      match s.exceeded? with
      | some limit =>
        some (.error (.stepLimitExceeded limit),
          s.log .error s!"Evaluation exceeded step limit of {limit}")
      | none =>
        match s.verdict g h with
        | .start d body =>
          match body.run (callWith (drain scene fuel) scene) (s.startNode g.id h d) with
          | none => none
          | some (result, s) => drain scene fuel g (s.finishNode g.id h d result)
        | v => drain scene fuel g (s.settle g.id h v)

/-- Evaluates a graph on a session. -/
def evaluate (scene : Scene) (fuel : Nat) (s : Session) (g : Graph) (entry : Entry) :
    Outcome Unit :=
  s.evaluateWith (drain scene fuel) g entry

/-- Runs a body on a session from outside of any node. -/
def host {α : Type} (scene : Scene) (fuel : Nat) (s : Session) (p : Program α) : Outcome α :=
  p.run (callWith (drain scene fuel) scene) s

end Session

end Flowgraph
