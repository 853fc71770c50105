import Flowgraph.Decimal.Numeral

namespace Flowgraph

/-- A structured document: what its text says, with leaves left as they are written. A text whose
escapes spell no characters is `none`; it does no harm where nobody asks for it. -/
inductive Document where
  | null
  | bool (b : Bool)
  | number (n : Numeral)
  | text (s : Option String)
  | array (items : List Document)
  | object (members : List (Option String × Document))
deriving Inhabited

namespace Document

def string (s : String) : Document := .text (some s)

def nat (n : Nat) : Document := .number (.ofNat n)

def int (n : Int) : Document := .number (.ofInt n)

def record (members : List (String × Document)) : Document :=
  .object (members.map fun m => (some m.1, m.2))

end Document

end Flowgraph
