import Flowgraph.Session.Basic

namespace Flowgraph.Session

/-- The wired outputs that the inputs of a node wait for, in the order of its ports. -/
def awaited (s : Session) (g : Graph) (h : Handle) : List PortRef :=
  match g.node? h with
  | none => []
  | some n =>
    (List.range n.inputCount).filterMap fun port =>
      (g.producer? ⟨h, port⟩).filter fun output => !s.isCached g.id output

/-- Looks for `start` among the nodes that those on the stack wait for. Only pure producers are
followed, each of them once. -/
def reaches (s : Session) (g : Graph) (start : Handle) :
    Nat → List Handle → List Handle → Bool
  | 0, _, _ => false
  | _ + 1, [], _ => false
  | room + 1, h :: stack, visited =>
    let producers := (s.awaited g h).map (·.node)
    if producers.contains start then true
    else
      let fresh := (producers.filter fun p => g.isPure p && !visited.contains p).eraseDups
      reaches s g start room (fresh ++ stack) (fresh ++ visited)

/-- Whether a node waits for itself through pure producers. Each node of the graph is looked at once
at most. -/
def dependsOnItself (s : Session) (g : Graph) (h : Handle) : Bool :=
  s.reaches g h (g.size + 1) [h] []

/-- The producer of an awaited output, if its value can still arrive. -/
def awaitedProducer (s : Session) (g : Graph) (h : Handle) (output : PortRef) :
    Except Error Handle := do
  let producer := output.node
  if !(← g.node producer).isPure then .error (.invalidDataFlow h producer)
  else if s.isDropped g.id producer then .error (.producerDropped h producer)
  else if s.isEvaluated g.id producer then .error (.missingOutput producer output.port)
  else .ok producer

/-- The producers of awaited outputs, each named once. -/
def producersOf (s : Session) (g : Graph) (h : Handle) (pending : List Handle) :
    List PortRef → Except Error (List Handle)
  | [] => .ok pending
  | output :: rest => do
    let producer ← s.awaitedProducer g h output
    producersOf s g h (if pending.contains producer then pending else pending ++ [producer]) rest

/-- The pure nodes that have to run before this one. It fails when a value can never arrive: its
producer is not pure, was dropped, has run without giving it, or waits for the node itself. -/
def pending (s : Session) (g : Graph) (h : Handle) : Except Error (List Handle) := do
  let producers ← s.producersOf g h [] (s.awaited g h)
  if !producers.isEmpty && g.isPure h && s.dependsOnItself g h then .error (.cyclicDependency h)
  else .ok producers

/-- What is to be done with a node taken from the queue. -/
inductive Verdict where
  | alreadyDropped
  | alreadyEvaluated
  | drop (error : Error)
  | defer (producers : List Handle)
  | start (definition : Definition) (body : Program Unit)

def verdict (s : Session) (g : Graph) (h : Handle) : Verdict :=
  if s.isDropped g.id h then .alreadyDropped
  else match g.node h with
    | .error e => .drop e
    | .ok n =>
      if n.isPure && s.isEvaluated g.id h then .alreadyEvaluated
      else match s.pending g h with
        | .error e => .drop e
        | .ok (p :: producers) => .defer (p :: producers)
        | .ok [] =>
          match n.definition.body with
          | none => .drop (.missingEvaluation n.nodeType)
          | some body => .start n.definition body

end Flowgraph.Session
