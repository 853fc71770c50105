import Flowgraph.Program

namespace Flowgraph

/-- One action of a scripted body. Actions work on one value at hand. -/
inductive Action where
  | const (v : Value)
  | input (port : Nat) (type : ValueType)
  | inputs
  | field (index : Nat) (type : ValueType)
  | output (port : Nat)
  | fire (port : Nat)
  | queue (node : Handle)
  | queueSelf
  | call (graph : String) (entry : Entry)
  | fail (message : String)
  /-- Runs the actions and takes the message of an error as the value at hand. -/
  | attempt (body : List Action)
  /-- Runs the actions when the value at hand is the given one. -/
  | when (v : Value) (body : List Action)
  | note (text : String)
  | display
  | tick
  | inputCount
  | depth
  | cacheSize
  | steps
  | activeNode
  | activeGraph
  | hasExtension (key : String)
  | cached (output : PortRef)
  | isEvaluated (node : Handle)

namespace Action

open Program

def count (n : Nat) : Value := .int (Int64.ofNat n)

/-- Reads inputs one after the other. -/
def collect (done : List Value) : List Nat → Program (List Value)
  | [] => pure done.reverse
  | port :: rest => do collect ((← Program.input port) :: done) rest

mutual

/-- The program of an action, from the value at hand to the next one. -/
def run (a : Action) (acc : Value) : Program Value :=
  match a with
  | .const v => pure v
  | .input port type => do ofExcept ((← Program.input port).expect type)
  | .inputs => do return .list (← collect [] (List.range (← Program.inputCount)))
  | .field index type => do ofExcept ((← Program.field index).expect type)
  | .output port => do
    setOutput port acc
    return acc
  | .fire port => do
    Program.fire port
    return acc
  | .queue node => do
    Program.queue node
    return acc
  | .queueSelf => do
    Program.queue (← Program.activeNode)
    return acc
  | .call graph entry => do
    evaluate (.named graph) entry
    return acc
  | .fail message => Program.fail (.evaluationFailed message)
  | .attempt body => do
    match ← (runAll body acc).attempt with
    | .ok v => return v
    | .error e => return .string e.message
  | .when v body => if acc.same v then runAll body acc else pure acc
  | .note text => do
    Program.note text
    return acc
  | .display => do
    Program.note acc.display
    return acc
  | .tick => do return count (← Program.tick)
  | .inputCount => do return count (← Program.inputCount)
  | .depth => do return count (← Program.depth)
  | .cacheSize => do return count (← Program.cacheSize)
  | .steps => do return count (← statistics).steps.toNat
  | .activeNode => do return .string (← Program.activeNode).label
  | .activeGraph => do return .string (← Program.activeGraph).2
  | .hasExtension key => do return .bool (← Program.hasExtension key)
  | .cached port => do
    let (graph, _) ← Program.activeGraph
    return (← Program.cached graph port).getD .null
  | .isEvaluated node => do
    let (graph, _) ← Program.activeGraph
    return .bool (← Program.isEvaluated graph node)

def runAll : List Action → Value → Program Value
  | [], acc => pure acc
  | a :: rest, acc => do runAll rest (← run a acc)

end

/-- The body that runs actions in order, starting from null. -/
def body (actions : List Action) : Program Unit := do
  let _ ← runAll actions .null
  return ()

end Action

end Flowgraph
