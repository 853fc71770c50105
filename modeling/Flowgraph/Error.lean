import Flowgraph.Handle
import Flowgraph.Value

namespace Flowgraph

/-- What an ordinal of a node counts. -/
inductive Side where
  | input
  | output
  | field
deriving DecidableEq, Repr

def Side.name : Side → String
  | .input => "input"
  | .output => "output"
  | .field => "field"

/-- Why the declaration of a node type does not hold together. -/
inductive Defect where
  | emptyType
  | executionInput
  | executionVariadic
  | pureExecutionOutput
  | pureRoot
  | notVariadic
deriving DecidableEq, Repr

def Defect.reason : Defect → String
  | .emptyType => "node type is empty"
  | .executionInput => "execution inputs are implicit and cannot be declared"
  | .executionVariadic => "variadic inputs must be data ports"
  | .pureExecutionOutput => "pure nodes cannot declare execution outputs"
  | .pureRoot => "pure nodes cannot be roots"
  | .notVariadic => "node type has no variadic inputs"

/-- What can go wrong while a graph is built or evaluated. -/
inductive Error where
  | typeMismatch (expected found : ValueType)
  | invalidDataFlow (node producer : Handle)
  | cyclicDependency (node : Handle)
  | producerDropped (node producer : Handle)
  | missingOutput (producer : Handle) (port : Nat)
  | missingEvaluation (nodeType : String)
  | notRoot (nodeType : String)
  | executionInputOutOfRange (index count : Nat)
  | nodeNotFound (node : Handle)
  | portOutOfRange (nodeType : String) (side : Side) (port count : Nat)
  | unboundInput (node : Handle) (port : Nat)
  | inputAlreadyConnected (node : Handle) (port : Nat)
  | notDataPort (nodeType : String) (port : Nat)
  | notExecutionPort (nodeType : String) (port : Nat)
  | pureExecutionEdge (nodeType : String)
  | invalidDefinition (nodeType : String) (defect : Defect)
  | unknownNodeType (nodeType : String)
  | unknownGraph (name : String)
  | noActiveNode
  | noActiveGraph
  | stepLimitExceeded (limit : Nat)
  | graphDepthExceeded (limit : Nat)
  | evaluationFailed (message : String)
deriving DecidableEq, Repr

namespace Error

def message : Error → String
  | .typeMismatch expected found =>
    s!"Type mismatch: expected {expected.name}, found {found.name}"
  | .invalidDataFlow node producer =>
    s!"Invalid data flow: node {node.describe} depends on unevaluated impure node {producer.describe}"
  | .cyclicDependency node => s!"Cyclic data dependency through node {node.describe}"
  | .producerDropped node producer =>
    s!"Node {node.describe} depends on dropped node {producer.describe}"
  | .missingOutput producer port =>
    s!"Node {producer.describe} produced no value on output {port}"
  | .missingEvaluation nodeType => s!"No evaluation routine for node type '{nodeType}'"
  | .notRoot nodeType => s!"Node type '{nodeType}' is not a root"
  | .executionInputOutOfRange index count =>
    s!"Execution input {index} out of range (graph declares {count})"
  | .nodeNotFound node => s!"Node {node.describe} not found"
  | .portOutOfRange nodeType side port count =>
    s!"{side.name} {port} out of range for node type '{nodeType}' ({count} declared)"
  | .unboundInput node port =>
    s!"Input {port} of node {node.describe} has neither a data edge nor a constant"
  | .inputAlreadyConnected node port =>
    s!"Input {port} of node {node.describe} is already connected"
  | .notDataPort nodeType port => s!"Output {port} of node type '{nodeType}' is not a data port"
  | .notExecutionPort nodeType port =>
    s!"Output {port} of node type '{nodeType}' is not an execution port"
  | .pureExecutionEdge nodeType =>
    s!"Pure node type '{nodeType}' cannot take part in execution edges"
  | .invalidDefinition nodeType defect =>
    s!"Invalid node definition '{nodeType}': {defect.reason}"
  | .unknownNodeType nodeType => s!"Unknown node type: {nodeType}"
  | .unknownGraph name => s!"Unknown graph: {name}"
  | .noActiveNode => "No active node"
  | .noActiveGraph => "No active graph"
  | .stepLimitExceeded limit => s!"Evaluation exceeded step limit of {limit}"
  | .graphDepthExceeded limit => s!"Graph nesting exceeded depth limit of {limit}"
  | .evaluationFailed text => s!"Node evaluation failed: {text}"

/-- Whether a node failed because a value it reads can never arrive. -/
def isDataFlow : Error → Bool
  | .invalidDataFlow .. | .cyclicDependency _ | .producerDropped .. | .missingOutput .. => true
  | _ => false

end Error

/-- Gives the value itself when it has the asked type, and never converts it. -/
def Value.expect (t : ValueType) (v : Value) : Except Error Value :=
  if t.accepts v.type then .ok v else .error (.typeMismatch t v.type)

def Value.expectBool : Value → Except Error Bool
  | .bool b => .ok b
  | v => .error (.typeMismatch .bool v.type)

def Value.expectInt : Value → Except Error Int64
  | .int n => .ok n
  | v => .error (.typeMismatch .int v.type)

def Value.expectString : Value → Except Error String
  | .string s => .ok s
  | v => .error (.typeMismatch .string v.type)

end Flowgraph
