import Flowgraph.GraphId
import Flowgraph.Handle

namespace Flowgraph

/-- How an evaluation got into its graph. -/
inductive Entry where
  | root (node : Handle)
  | executionInput (ordinal : UInt64)
deriving DecidableEq, Repr, Inhabited

namespace Entry

def toDocument : Entry → Document
  | .root node => .record [("type", .string "root"), ("node", node.toDocument)]
  | .executionInput ordinal =>
    .record [("type", .string "executionInput"), ("ordinal", .nat ordinal.toNat)]

def tags : List String := ["root", "executionInput"]

/-- Reads an entry, which is always a part that was held back. -/
def read : Nat → Document → Option Entry
  | 0, _ => none
  | room + 1, d => do
    let (tag, body) ← d.variant? "type"
    match ← tag.itemTag? true tags with
    | "root" =>
      match ← body.fields? ["node"] with
      | [some node] => (Handle.read room node).map .root
      | _ => none
    | "executionInput" =>
      match ← body.fields? ["ordinal"] with
      | [some ordinal] => ordinal.word64?.map .executionInput
      | _ => none
    | _ => none

end Entry

/-- What happened in a graph. -/
inductive Occurrence where
  | evaluationStarted (entry : Entry)
  | evaluationCompleted
  | nonRootEntry (node : Handle) (nodeType : String)
  | nodeStarted (node : Handle) (nodeType : String)
  | nodeCompleted (node : Handle) (nodeType : String)
  | nodeDeferred (node : Handle) (dependencies : UInt64)
  | nodeDropped (node : Handle) (reason : String)
  | nodeFailed (node : Handle) (error : String)
deriving DecidableEq, Repr, Inhabited

namespace Occurrence

def tag : Occurrence → String
  | .evaluationStarted _ => "evaluationStarted"
  | .evaluationCompleted => "evaluationCompleted"
  | .nonRootEntry .. => "nonRootEntry"
  | .nodeStarted .. => "nodeStarted"
  | .nodeCompleted .. => "nodeCompleted"
  | .nodeDeferred .. => "nodeDeferred"
  | .nodeDropped .. => "nodeDropped"
  | .nodeFailed .. => "nodeFailed"

def node? : Occurrence → Option Handle
  | .evaluationStarted _ | .evaluationCompleted => none
  | .nonRootEntry node _ | .nodeStarted node _ | .nodeCompleted node _ | .nodeDeferred node _
  | .nodeDropped node _ | .nodeFailed node _ => some node

def details : Occurrence → List (String × Document)
  | .evaluationStarted entry => [("entry", entry.toDocument)]
  | .evaluationCompleted => []
  | .nonRootEntry node nodeType | .nodeStarted node nodeType | .nodeCompleted node nodeType =>
    [("node", node.toDocument), ("nodeType", .string nodeType)]
  | .nodeDeferred node dependencies =>
    [("node", node.toDocument), ("dependencies", .nat dependencies.toNat)]
  | .nodeDropped node reason => [("node", node.toDocument), ("reason", .string reason)]
  | .nodeFailed node error => [("node", node.toDocument), ("error", .string error)]

/-- The names of the details of a tag. -/
def detailNames : String → Option (List String)
  | "evaluationStarted" => some ["entry"]
  | "evaluationCompleted" => some []
  | "nonRootEntry" | "nodeStarted" | "nodeCompleted" => some ["node", "nodeType"]
  | "nodeDeferred" => some ["node", "dependencies"]
  | "nodeDropped" => some ["node", "reason"]
  | "nodeFailed" => some ["node", "error"]
  | _ => none

def read (room : Nat) (tag : String) (details : List (Option Document)) : Option Occurrence :=
  match tag, details with
  | "evaluationStarted", [some entry] => (Entry.read room entry).map .evaluationStarted
  | "evaluationCompleted", [] => some .evaluationCompleted
  | "nonRootEntry", [some node, some nodeType] => do
    return .nonRootEntry (← Handle.read room node) (← nodeType.string?)
  | "nodeStarted", [some node, some nodeType] => do
    return .nodeStarted (← Handle.read room node) (← nodeType.string?)
  | "nodeCompleted", [some node, some nodeType] => do
    return .nodeCompleted (← Handle.read room node) (← nodeType.string?)
  | "nodeDeferred", [some node, some dependencies] => do
    return .nodeDeferred (← Handle.read room node) (← dependencies.word64?)
  | "nodeDropped", [some node, some reason] => do
    return .nodeDropped (← Handle.read room node) (← reason.string?)
  | "nodeFailed", [some node, some error] => do
    return .nodeFailed (← Handle.read room node) (← error.string?)
  | _, _ => none

end Occurrence

/-- A report of a session about one of its graphs. -/
structure Event where
  executionId : String
  graph : GraphId
  occurrence : Occurrence
deriving DecidableEq, Repr, Inhabited

namespace Event

/-- All that is written of an event behind its tag. -/
def body (e : Event) : List (String × Document) :=
  [("executionId", .string e.executionId), ("graphId", e.graph.toDocument)] ++ e.occurrence.details

def toDocument (e : Event) : Document := .record (("type", .string e.occurrence.tag) :: e.body)

/-- All but the tag is held back until the tag is known, and so all of it must be readable. -/
def read : Nat → Document → Option Event
  | 0, _ => none
  | room + 1, d => do
    let (tag, body) ← d.variant? "type"
    let tag ← tag.string?
    guard (body.sound (room + 1))
    match ← body.fields? (["executionId", "graphId"] ++ (← Occurrence.detailNames tag)) with
    | some executionId :: some graph :: details =>
      return ⟨← executionId.string?, ← GraphId.read graph, ← Occurrence.read room tag details⟩
    | _ => none

end Event

end Flowgraph
