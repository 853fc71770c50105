import Flowgraph.Registry
import Flowgraph.Update

namespace Flowgraph

/-- A node of a graph: its type, the constant of each input, the number of its outputs and the value
of each field. Computed outputs belong to the session, wires to the graph. -/
structure Node where
  definition : Definition
  inputs : List (Option Value)
  outputCount : Nat
  fields : List Value
deriving Inhabited

namespace Node

/-- A node as its definition declares it. -/
def new (d : Definition) : Node where
  definition := d
  inputs := List.replicate (d.metadata.inputs.length + d.metadata.variadicCount) none
  outputCount := d.metadata.outputs.length
  fields := d.metadata.fields.map (·.default)

def nodeType (n : Node) : String := n.definition.nodeType

def isPure (n : Node) : Bool := n.definition.isPure

def inputCount (n : Node) : Nat := n.inputs.length

/-- How many of the inputs stand behind the fixed ones. -/
def variadicInputs (n : Node) : Nat := n.inputs.length - n.definition.metadata.inputs.length

/-- The constant of an input, if it has one. -/
def input (n : Node) (i : Nat) : Except Error (Option Value) :=
  match n.inputs[i]? with
  | some constant => .ok constant
  | none => .error (.portOutOfRange n.nodeType .input i n.inputCount)

/-- Whether the node has an output. -/
def output (n : Node) (i : Nat) : Except Error Unit :=
  if i < n.outputCount then .ok ()
  else .error (.portOutOfRange n.nodeType .output i n.outputCount)

/-- What the type of the node declares of an output. -/
def outputPort? (n : Node) (i : Nat) : Option Port := n.definition.metadata.outputs[i]?

def field (n : Node) (i : Nat) : Except Error Value :=
  match n.fields[i]? with
  | some v => .ok v
  | none => .error (.portOutOfRange n.nodeType .field i n.fields.length)

def setConstant (i : Nat) (v : Value) : Update Node Unit := do
  let n ← get
  let _ ← n.input i
  set { n with inputs := n.inputs.set i (some v) }

def clearConstant (n : Node) (i : Nat) : Node := { n with inputs := n.inputs.set i none }

def setField (i : Nat) (v : Value) : Update Node Unit := do
  let n ← get
  let _ ← n.field i
  set { n with fields := n.fields.set i v }

/-- Sets the first fields in order. -/
def setFields (vs : List Value) : Update Node Unit :=
  vs.zipIdx.forM fun (v, i) => setField i v

/-- Appends an input and gives its ordinal. -/
def addVariadic : Update Node Nat := do
  let n ← get
  if n.definition.metadata.variadic.isNone then
    throw (.invalidDefinition n.nodeType .notVariadic)
  else do
    set { n with inputs := n.inputs ++ [none] }
    return (← get).inputCount - 1

end Node

def Registry.create (r : Registry) (nodeType : String) : Except Error Node :=
  match r.get? nodeType with
  | some d => .ok (.new d)
  | none => .error (.unknownNodeType nodeType)

end Flowgraph
