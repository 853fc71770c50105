import Flowgraph.Error

namespace Flowgraph

/-- Where a node type stands in a palette. -/
inductive Category where
  | event
  | value
  | control
  | output
  | graph
deriving DecidableEq, Repr, Inhabited

namespace Category

def all : List Category := [.event, .value, .control, .output, .graph]

def name : Category → String
  | .event => "event"
  | .value => "value"
  | .control => "control"
  | .output => "output"
  | .graph => "graph"

def ofName? (s : String) : Option Category := all.find? (·.name = s)

def toDocument (c : Category) : Document := .string c.name

def read (held : Bool) (room : Nat) (d : Document) : Option Category :=
  (d.name? held room).bind ofName?

theorem ofName?_name (c : Category) : ofName? c.name = some c := by cases c <;> decide

end Category

/-- A port carries values of a type, or passes execution on. -/
inductive PortKind where
  | data (type : ValueType)
  | execution
deriving DecidableEq, Repr, Inhabited

namespace PortKind

def toDocument : PortKind → Document
  | .data type => .record [("kind", .string "data"), ("valueType", type.toDocument)]
  | .execution => .record [("kind", .string "execution")]

def tags : List String := ["data", "execution"]

def read (held : Bool) : Nat → Document → Option PortKind
  | 0, _ => none
  | room + 1, d => do
    let t ← d.tagged? tags "kind" "valueType" held room
    match t.tag, t.content with
    | "data", some c => (ValueType.read t.held room c).map .data
    | "execution", none => some .execution
    | "execution", some .null => some .execution
    | _, _ => none

end PortKind

structure Port where
  id : String
  label : String
  kind : PortKind
deriving DecidableEq, Repr, Inhabited

namespace Port

def isExecution (p : Port) : Bool := p.kind = .execution

def toDocument (p : Port) : Document :=
  .record [("id", .string p.id), ("label", .string p.label), ("kind", p.kind.toDocument)]

def read : Nat → Document → Option Port
  | 0, _ => none
  | room + 1, d => do
    match ← d.fields? ["id", "label", "kind"] with
    | [some id, some label, some kind] =>
      return ⟨← id.string?, ← label.string?, ← PortKind.read false room kind⟩
    | _ => none

end Port

/-- Inputs of one declaration that a node may have any number of, behind its fixed ones. -/
structure Variadic where
  port : Port
  defaultCount : UInt64
deriving DecidableEq, Repr, Inhabited

namespace Variadic

def toDocument (v : Variadic) : Document :=
  .record [("port", v.port.toDocument), ("defaultCount", .nat v.defaultCount.toNat)]

def read : Nat → Document → Option Variadic
  | 0, _ => none
  | room + 1, d => do
    match ← d.fields? ["port", "defaultCount"] with
    | [some port, some count] => return ⟨← Port.read room port, ← count.word64?⟩
    | _ => none

end Variadic

/-- A setting of a node, with the value a new node has. -/
structure Field where
  id : String
  label : String
  default : Value
deriving DecidableEq, Inhabited

namespace Field

def toDocument (f : Field) : Document :=
  .record [("id", .string f.id), ("label", .string f.label), ("default", f.default.toDocument)]

def read : Nat → Document → Option Field
  | 0, _ => none
  | room + 1, d => do
    match ← d.fields? ["id", "label", "default"] with
    | [some id, some label, some value] =>
      return ⟨← id.string?, ← label.string?, ← Value.read false room value⟩
    | _ => none

end Field

/-- The declaration of a node type. A pure node only computes outputs from inputs; the others are run
when execution reaches them. -/
structure Metadata where
  nodeType : String
  category : Category
  label : String
  description : String
  inputs : List Port
  variadic : Option Variadic := none
  outputs : List Port
  fields : List Field := []
  isPure : Bool
  isRoot : Bool
deriving DecidableEq, Inhabited

namespace Metadata

/-- Checks a declaration; of several defects the first in this order is reported. -/
def validate (m : Metadata) : Except Error Unit :=
  if m.nodeType.isEmpty then .error (.invalidDefinition m.nodeType .emptyType)
  else if m.inputs.any Port.isExecution then .error (.invalidDefinition m.nodeType .executionInput)
  else if m.variadic.any (·.port.isExecution) then
    .error (.invalidDefinition m.nodeType .executionVariadic)
  else if m.isPure && m.outputs.any Port.isExecution then
    .error (.invalidDefinition m.nodeType .pureExecutionOutput)
  else if m.isPure && m.isRoot then .error (.invalidDefinition m.nodeType .pureRoot)
  else .ok ()

def variadicCount (m : Metadata) : Nat := m.variadic.elim 0 (·.defaultCount.toNat)

/-- The declaration of an input. Every ordinal behind the fixed inputs is variadic, if any is. -/
def inputPort? (m : Metadata) (i : Nat) : Option Port :=
  m.inputs[i]?.or (m.variadic.map (·.port))

/-- Absent variadic inputs and an empty list of fields are left out. -/
def parts (m : Metadata) : List (String × Document) :=
  [("nodeType", .string m.nodeType), ("category", m.category.toDocument),
    ("label", .string m.label), ("description", .string m.description),
    ("inputs", .array (m.inputs.map Port.toDocument))] ++
  m.variadic.toList.map (fun v => ("variadic", v.toDocument)) ++
  [("outputs", .array (m.outputs.map Port.toDocument))] ++
  (if m.fields.isEmpty then [] else [("fields", .array (m.fields.map Field.toDocument))]) ++
  [("isPure", .bool m.isPure), ("isRoot", .bool m.isRoot)]

def toDocument (m : Metadata) : Document := .record m.parts

/-- The items of an array, which takes a level of nesting itself. -/
def readItems {α : Type} (item : Nat → Document → Option α) : Nat → Document → Option (List α)
  | room + 1, .array items => items.mapM (item room)
  | _, _ => none

def read : Nat → Document → Option Metadata
  | 0, _ => none
  | room + 1, d => do
    match ← d.fields? ["nodeType", "category", "label", "description", "inputs", "variadic",
      "outputs", "fields", "isPure", "isRoot"] with
    | [some nodeType, some category, some label, some description, some inputs, variadic,
        some outputs, fields, some isPure, some isRoot] =>
      return {
        nodeType := ← nodeType.string?
        category := ← Category.read false room category
        label := ← label.string?
        description := ← description.string?
        inputs := ← readItems Port.read room inputs
        variadic := ← Document.optional? (Variadic.read room) variadic
        outputs := ← readItems Port.read room outputs
        fields := ← fields.elim (some []) (readItems Field.read room)
        isPure := ← isPure.bool?
        isRoot := ← isRoot.bool? }
    | _ => none

end Metadata

end Flowgraph
