import Flowgraph.Document.Reading

namespace Flowgraph

/-- The limits and rules of a session. -/
structure Config where
  /-- How many nodes may be taken from queues, over the life of the session. -/
  maxSteps : Option UInt64 := none
  /-- How many graphs may be under evaluation at once. -/
  maxGraphDepth : UInt64 := 64
  /-- Whether evaluation may only start at nodes declared as roots. -/
  strictRoots : Bool := false
deriving DecidableEq, Repr, Inhabited

namespace Config

def toDocument (c : Config) : Document :=
  .record [("maxSteps", c.maxSteps.elim .null fun n => .nat n.toNat),
    ("maxGraphDepth", .nat c.maxGraphDepth.toNat), ("strictRoots", .bool c.strictRoots)]

/-- Every field may be missing; only the step limit may be null. -/
def read : Nat → Document → Option Config
  | 0, _ => none
  | _ + 1, d => do
    match ← d.fields? ["maxSteps", "maxGraphDepth", "strictRoots"] with
    | [steps, depth, strict] =>
      let maxSteps ← Document.optional? Document.word64? steps
      let maxGraphDepth ← depth.elim (some 64) (·.word64?)
      let strictRoots ← strict.elim (some false) (·.bool?)
      return { maxSteps, maxGraphDepth, strictRoots }
    | _ => none

end Config

end Flowgraph
