import Flowgraph.Document.Reading

namespace Flowgraph

/-- The address of a node in its arena: a slot and the version of the slot it was put in. -/
structure Handle where
  idx : UInt32
  version : UInt32
deriving DecidableEq, Repr, Hashable

namespace Handle

/-- The slot number that no arena hands out. -/
def nullIdx : UInt32 := 4294967295

def null : Handle := ⟨nullIdx, 1⟩

instance : Inhabited Handle := ⟨null⟩

/-- The handle with given numbers. Handles name occupied slots, whose version is odd, so the last bit
of the version is set; the null slot has one version only. -/
def ofParts (idx version : UInt32) : Handle :=
  if idx = nullIdx then null else ⟨idx, version ||| 1⟩

def label (h : Handle) : String :=
  if h.idx = nullIdx then "null" else s!"{h.idx.toNat}v{h.version.toNat}"

/-- Reads what `label` writes, with the last bit of the version set. -/
def ofLabel? (s : String) : Option Handle :=
  let word (cs : List Char) : Option UInt32 :=
    let n := Nat.ofDigitChars 10 cs 0
    if !cs.isEmpty && cs.all Char.isDigit && n < UInt32.size then some (UInt32.ofNat n) else none
  if s = "null" then some null
  else do
    let cs := s.toList
    let idx ← word (cs.takeWhile (· ≠ 'v'))
    let version ← word ((cs.dropWhile (· ≠ 'v')).drop 1)
    return ofParts idx version

/-- The form used in messages. -/
def describe (h : Handle) : String := s!"NodeIndex({h.label})"

def toDocument (h : Handle) : Document :=
  .record [("idx", .nat h.idx.toNat), ("version", .nat h.version.toNat)]

def read : Nat → Document → Option Handle
  | 0, _ => none
  | _ + 1, d => do
    match ← d.fields? ["idx", "version"] with
    | [some idx, some version] => return ofParts (← idx.word32?) (← version.word32?)
    | _ => none

end Handle

/-- A port of a node, by ordinal. Whether it is an input or an output is up to the reader. -/
structure PortRef where
  node : Handle
  port : Nat
deriving DecidableEq, Repr, Inhabited, Hashable

namespace PortRef

def toDocument (p : PortRef) : Document :=
  .record [("node", p.node.toDocument), ("port", .nat p.port)]

def read : Nat → Document → Option PortRef
  | 0, _ => none
  | room + 1, d => do
    match ← d.fields? ["node", "port"] with
    | [some node, some port] => return ⟨← Handle.read room node, ← port.natBelow? UInt64.size⟩
    | _ => none

end PortRef

end Flowgraph
