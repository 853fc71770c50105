import Flowgraph.Registry

namespace Flowgraph.Builtin

open Program

def data (id label : String) (type : ValueType) : Port := ⟨id, label, .data type⟩

def execution (id label : String) : Port := ⟨id, label, .execution⟩

/-- Reads a field as an integer. -/
def intField (index : Nat) : Program Int64 := do ofExcept (← field index).expectInt

def boolField (index : Nat) : Program Bool := do ofExcept (← field index).expectBool

def stringField (index : Nat) : Program String := do ofExcept (← field index).expectString

/-- Reads an input as an integer. -/
def intInput (port : Nat) : Program Int64 := do ofExcept (← input port).expectInt

def boolInput (port : Nat) : Program Bool := do ofExcept (← input port).expectBool

def integer : Definition where
  metadata := {
    nodeType := "integer", category := .value, label := "Integer"
    description := "A constant integer"
    inputs := [], outputs := [data "value" "Value" .int]
    fields := [⟨"value", "Value", .int 0⟩]
    isPure := true, isRoot := false }
  body := some do setOutput 0 (.int (← intField 0))

def boolean : Definition where
  metadata := {
    nodeType := "boolean", category := .value, label := "Boolean"
    description := "A constant boolean"
    inputs := [], outputs := [data "value" "Value" .bool]
    fields := [⟨"value", "Value", .bool false⟩]
    isPure := true, isRoot := false }
  body := some do setOutput 0 (.bool (← boolField 0))

/-- The sum of two integers, when it has 64 bits. -/
def checkedAdd (a b : Int64) : Option Int64 :=
  let sum := a.toInt + b.toInt
  if Int64.minValue.toInt ≤ sum ∧ sum ≤ Int64.maxValue.toInt then some (Int64.ofInt sum) else none

/-- Adds the inputs at some ports to a total, from the first on. -/
def addInputs (total : Int64) : List Nat → Program Int64
  | [] => pure total
  | port :: rest => do
    let operand ← intInput port
    match checkedAdd total operand with
    | some sum => addInputs sum rest
    | none => fail (.evaluationFailed "integer overflow in add")

def add : Definition where
  metadata := {
    nodeType := "add", category := .value, label := "Add"
    description := "Sums its integer operands"
    inputs := [], variadic := some ⟨data "operand" "Operand" .int, 2⟩
    outputs := [data "sum" "Sum" .int]
    isPure := true, isRoot := false }
  body := some do setOutput 0 (.int (← addInputs 0 (List.range (← inputCount))))

def greaterThan : Definition where
  metadata := {
    nodeType := "greater-than", category := .value, label := "Greater Than"
    description := "True when A is greater than B"
    inputs := [data "a" "A" .int, data "b" "B" .int], outputs := [data "result" "Result" .bool]
    isPure := true, isRoot := false }
  body := some do
    let a ← intInput 0
    let b ← intInput 1
    setOutput 0 (.bool (b.toInt < a.toInt))

def onInteract : Definition where
  metadata := {
    nodeType := "on-interact", category := .event, label := "On Interact"
    description := "Fires when the object is interacted with"
    inputs := [], outputs := [execution "next" "Next"]
    isPure := false, isRoot := true }
  body := some do
    let node ← activeNode
    log .debug s!"OnInteract {node.describe}: firing next"
    fire 0

def onStart : Definition where
  metadata := {
    nodeType := "on-start", category := .event, label := "On Start"
    description := "Fires when the script starts"
    inputs := [], outputs := [execution "next" "Next"]
    isPure := false, isRoot := true }
  body := some (fire 0)

def print : Definition where
  metadata := {
    nodeType := "print", category := .output, label := "Print"
    description := "Prints a value to the console"
    inputs := [data "value" "Value" .any], outputs := [execution "next" "Next"]
    isPure := false, isRoot := false }
  body := some do
    let line := (← input 0).display
    log .info line
    Program.print line
    fire 0

def branch : Definition where
  metadata := {
    nodeType := "branch", category := .control, label := "Branch"
    description := "Fires Then or Else based on a condition"
    inputs := [data "condition" "Condition" .bool]
    outputs := [execution "then" "Then", execution "else" "Else"]
    isPure := false, isRoot := false }
  body := some do
    let condition ← boolInput 0
    let node ← activeNode
    log .debug s!"Branch {node.describe}: condition={condition}, routing execution"
    fire (if condition then 0 else 1)

def sequence : Definition where
  metadata := {
    nodeType := "sequence", category := .control, label := "Sequence"
    description := "Fires First, then Second"
    inputs := [], outputs := [execution "first" "First", execution "second" "Second"]
    isPure := false, isRoot := false }
  body := some do
    fire 0
    fire 1

def callGraph : Definition where
  metadata := {
    nodeType := "call-graph", category := .graph, label := "Call Graph"
    description := "Evaluates another graph, then continues"
    inputs := [], outputs := [execution "next" "Next"]
    fields := [⟨"graph", "Graph", .string ""⟩, ⟨"entry", "Entry", .int 0⟩]
    isPure := false, isRoot := false }
  body := some do
    let name ← stringField 0
    let entry := (← intField 1).toInt
    if entry < 0 then
      fail (.evaluationFailed s!"execution input {entry} is negative")
    else do
      findGraph name
      let node ← activeNode
      log .debug s!"CallGraph {node.describe}: entering '{name}' at execution input {entry}"
      evaluate (.library name) (.executionInput (UInt64.ofNat entry.toNat))
      fire 0

/-- The node types that need no host beyond a console and a library. -/
def definitions : List Definition :=
  [integer, boolean, add, greaterThan, onInteract, onStart, print, branch, sequence, callGraph]

end Flowgraph.Builtin

namespace Flowgraph.Registry

def builtins : Registry :=
  ⟨Builtin.definitions.foldl (fun t d => t.insert d.nodeType d) {}⟩

end Flowgraph.Registry
