import Flowgraph.Decimal.Layout
import Flowgraph.Document.Reading

namespace Flowgraph

/-- What a port carries and a field holds. -/
inductive Value where
  | null
  | bool (b : Bool)
  | int (n : Int64)
  | float (x : Float)
  | string (s : String)
  | list (items : List Value)
deriving Inhabited

/-- The type of a value, or of the values a port takes; `any` is for ports alone. -/
inductive ValueType where
  | any
  | null
  | bool
  | int
  | float
  | string
  | list
deriving DecidableEq, Repr, Inhabited

namespace ValueType

def all : List ValueType := [.any, .null, .bool, .int, .float, .string, .list]

def name : ValueType → String
  | .any => "any"
  | .null => "null"
  | .bool => "bool"
  | .int => "int"
  | .float => "float"
  | .string => "string"
  | .list => "list"

def ofName? (s : String) : Option ValueType := all.find? (·.name = s)

/-- Whether a port of type `t` takes values of type `u`. -/
def accepts (t u : ValueType) : Bool := t = .any || t = u

def toDocument (t : ValueType) : Document := .string t.name

def read (held : Bool) (room : Nat) (d : Document) : Option ValueType :=
  (d.name? held room).bind ofName?

theorem ofName?_name (t : ValueType) : ofName? t.name = some t := by cases t <;> decide

end ValueType

namespace Value

mutual

/-- Equality of values; floats are compared by their bits, unlike in `same`. -/
def decEq : (v w : Value) → Decidable (v = w)
  | .null, .null => isTrue rfl
  | .bool a, .bool b => decidable_of_iff (a = b) (by simp)
  | .int a, .int b => decidable_of_iff (a = b) (by simp)
  | .float a, .float b => decidable_of_iff (a = b) (by simp)
  | .string a, .string b => decidable_of_iff (a = b) (by simp)
  | .list a, .list b =>
    match decEqItems a b with
    | isTrue h => isTrue (by rw [h])
    | isFalse h => isFalse (by simpa using h)
  | .null, .bool _ | .null, .int _ | .null, .float _ | .null, .string _ | .null, .list _
  | .bool _, .null | .bool _, .int _ | .bool _, .float _ | .bool _, .string _ | .bool _, .list _
  | .int _, .null | .int _, .bool _ | .int _, .float _ | .int _, .string _ | .int _, .list _
  | .float _, .null | .float _, .bool _ | .float _, .int _ | .float _, .string _ | .float _, .list _
  | .string _, .null | .string _, .bool _ | .string _, .int _ | .string _, .float _
  | .string _, .list _ | .list _, .null | .list _, .bool _ | .list _, .int _ | .list _, .float _
  | .list _, .string _ => isFalse nofun

def decEqItems : (vs ws : List Value) → Decidable (vs = ws)
  | [], [] => isTrue rfl
  | v :: vs, w :: ws =>
    match decEq v w, decEqItems vs ws with
    | isTrue h, isTrue hs => isTrue (by rw [h, hs])
    | isFalse h, _ => isFalse (by simp [h])
    | _, isFalse hs => isFalse (by simp [hs])
  | [], _ :: _ | _ :: _, [] => isFalse nofun

end

instance : DecidableEq Value := decEq

def type : Value → ValueType
  | .null => .null
  | .bool _ => .bool
  | .int _ => .int
  | .float _ => .float
  | .string _ => .string
  | .list _ => .list

mutual

/-- Values are the same when type and content are; floats compare as numbers, so that zero has no
sign and what is no number differs from itself. -/
def same : Value → Value → Bool
  | .null, .null => true
  | .bool a, .bool b => a == b
  | .int a, .int b => a == b
  | .float a, .float b => a == b
  | .string a, .string b => a == b
  | .list a, .list b => sameItems a b
  | _, _ => false

def sameItems : List Value → List Value → Bool
  | [], [] => true
  | a :: as, b :: bs => same a b && sameItems as bs
  | _, _ => false

end

mutual

/-- The text shown to people. -/
def display : Value → String
  | .null => "null"
  | .bool b => if b then "true" else "false"
  | .int n => toString n.toInt
  | .float x => Layout.display.text x
  | .string s => s
  | .list [] => "[]"
  | .list (v :: rest) => "[" ++ display v ++ displayRest rest

def displayRest : List Value → String
  | [] => "]"
  | v :: rest => ", " ++ display v ++ displayRest rest

end

/-- A list nests one level deeper than its deepest item. -/
def depth : Value → Nat
  | .list items => depthItems items + 1
  | _ => 0
where
  depthItems : List Value → Nat
    | [] => 0
    | v :: rest => max v.depth (depthItems rest)

def tagDocument (tag : String) (content : Document) : Document :=
  .record [("type", .string tag), ("value", content)]

def floatDocument (x : Float) : Document :=
  match Layout.document.numeral? x with
  | some n => .number n
  | none => .null

mutual

def toDocument : Value → Document
  | .null => .record [("type", .string "null")]
  | .bool b => tagDocument "bool" (.bool b)
  | .int n => tagDocument "int" (.int n.toInt)
  | .float x => tagDocument "float" (floatDocument x)
  | .string s => tagDocument "string" (.string s)
  | .list items => tagDocument "list" (.array (toDocuments items))

def toDocuments : List Value → List Document
  | [] => []
  | v :: rest => toDocument v :: toDocuments rest

end

def tags : List String := ["null", "bool", "int", "float", "string", "list"]

/-- Reads a value with `room` levels of nesting left. The value and a list in it take one each. -/
def read (held : Bool) : Nat → Document → Option Value
  | 0, _ => none
  | room + 1, d => do
    let t ← d.tagged? tags "type" "value" held room
    match t.tag, t.content with
    | "null", none => some .null
    | "null", some .null => some .null
    | "bool", some c => c.bool?.map .bool
    | "int", some c => c.int64?.map .int
    | "float", some c => c.float?.map .float
    | "string", some c => c.string?.map .string
    | "list", some (.array items) =>
      match room with
      | 0 => none
      | inner + 1 => (items.mapM (read t.held inner)).map .list
    | _, _ => none

end Value

end Flowgraph
