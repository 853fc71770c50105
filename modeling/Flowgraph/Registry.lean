import Flowgraph.Metadata
import Flowgraph.Program
import Flowgraph.Table

namespace Flowgraph

/-- A node type: its declaration and, if it can run, its body. -/
structure Definition where
  metadata : Metadata
  body : Option (Program Unit) := none
deriving Inhabited

namespace Definition

def nodeType (d : Definition) : String := d.metadata.nodeType

def isPure (d : Definition) : Bool := d.metadata.isPure

def isRoot (d : Definition) : Bool := d.metadata.isRoot

def hasBody (d : Definition) : Bool := d.body.isSome

end Definition

/-- The node types that graphs are built from, by name. -/
structure Registry where
  definitions : Table String Definition := {}
deriving Inhabited

namespace Registry

def empty : Registry := {}

def size (r : Registry) : Nat := r.definitions.size

def get? (r : Registry) (nodeType : String) : Option Definition := r.definitions.get? nodeType

/-- Adds a valid definition; an older one of the same name gives way. -/
def register (r : Registry) (d : Definition) : Except Error Registry := do
  d.metadata.validate
  return ⟨r.definitions.insert d.nodeType d⟩

def merge (r other : Registry) : Registry := ⟨r.definitions.merge other.definitions⟩

/-- The names in order of their characters. -/
def nodeTypes (r : Registry) : List String := r.definitions.keys.mergeSort (fun a b => a ≤ b)

/-- The names of one category, in order of their characters. -/
def ofCategory (r : Registry) (c : Category) : List String :=
  (r.definitions.values.filter (·.metadata.category = c)).map (·.nodeType)
    |>.mergeSort (fun a b => a ≤ b)

end Registry

end Flowgraph
