import Flowgraph.Decimal.Reading
import Flowgraph.Document.Basic
import Flowgraph.Document.Parser

namespace Flowgraph

/-- Whether a numeral can be read at all, as an integer of 64 bits or as a double. -/
def Numeral.readable (n : Numeral) : Bool :=
  (n.int?.any fun k => k.natAbs < UInt64.size) || n.float?.isSome

namespace Document

/-- The deepest nesting of arrays and objects a reader follows. -/
def maxDepth : Nat := 127

def bool? : Document → Option Bool
  | .bool b => some b
  | _ => none

def string? : Document → Option String
  | .text s => s
  | _ => none

def integer? : Document → Option Int
  | .number n => n.int?
  | _ => none

def float? : Document → Option Float
  | .number n => n.float?
  | _ => none

def int64? (d : Document) : Option Int64 := do
  let n ← d.integer?
  if Int64.minValue.toInt ≤ n ∧ n ≤ Int64.maxValue.toInt then some (Int64.ofInt n) else none

def natBelow? (bound : Nat) (d : Document) : Option Nat := do
  let n ← d.integer?
  if 0 ≤ n ∧ n < bound then some n.toNat else none

def word32? (d : Document) : Option UInt32 := (d.natBelow? UInt32.size).map UInt32.ofNat

def word64? (d : Document) : Option UInt64 := (d.natBelow? UInt64.size).map UInt64.ofNat

/-- Whether every part of a document can be read when `room` levels of nesting are left. -/
def sound : Nat → Document → Bool
  | _, .null => true
  | _, .bool _ => true
  | _, .number n => n.readable
  | _, .text s => s.isSome
  | 0, .array _ => false
  | 0, .object _ => false
  | room + 1, .array items => items.all (sound room)
  | room + 1, .object members => members.all fun m => m.1.isSome && sound room m.2

def named (name : String) (members : List (Option String × Document)) : List Document :=
  members.filterMap fun m => if m.1 = some name then some m.2 else none

def atMostOne? : List Document → Option (Option Document)
  | [] => some none
  | [d] => some (some d)
  | _ => none

/-- The documents of the fields `names`: by name in an object, where each may occur once and others
are passed over, or by position in an array, which may be shorter. -/
def fields? (names : List String) : Document → Option (List (Option Document))
  | .object members =>
    if members.all (·.1.isSome) then names.mapM fun name => atMostOne? (named name members)
    else none
  | .array items =>
    if items.length ≤ names.length then
      some (items.map some ++ List.replicate (names.length - items.length) none)
    else none
  | _ => none

/-- A part that may be missing, or null in its place. -/
def optional? {α : Type} (read : Document → Option α) : Option Document → Option (Option α)
  | none | some .null => some none
  | some d => (read d).map some

/-- A name out of a fixed set: a text, or an object with that name as its only key and nothing in it.
A part that was held back may also have an empty object there. -/
def name? (held : Bool) : Nat → Document → Option String
  | _, .text s => s
  | _ + 1, .object [(key, content)] =>
    match content with
    | .null => key
    | .object [] => if held then key else none
    | _ => none
  | _, _ => none

/-- A tag that is an item of an array: a text, or, in a part that was held back, also its place among
`tags`. -/
def itemTag? (held : Bool) (tags : List String) : Document → Option String
  | .text s => s
  | .number n =>
    match held, n.int? with
    | true, some (.ofNat k) => tags[k]?
    | _, _ => none
  | _ => none

/-- A tag with what it carries. `held` says that the content was held back until the tag was known. -/
structure Tagged where
  tag : String
  content : Option Document
  held : Bool

/-- Reads one of `tags` and its content from two keys, or from an array of both. Content that stands
in front of its tag is held back, and then all of it must be readable. -/
def tagged? (tags : List String) (tag content : String) (held : Bool) (room : Nat) :
    Document → Option Tagged
  | .array [t, c] => do return ⟨← t.itemTag? held tags, some c, held⟩
  | .object members => do
    guard (members.all (·.1.isSome))
    let t ← (← atMostOne? (named tag members)).bind (·.name? held room)
    let c ← atMostOne? (named content members)
    let first := members.find? fun m => m.1 = some tag || m.1 = some content
    let early := first.any (·.1 = some content)
    guard (!early || c.all (·.sound room))
    return ⟨t, c, held || early⟩
  | _ => none

/-- Splits a variant into its tag and its fields: one key of an object, or the head of an array. -/
def variant? (tag : String) : Document → Option (Document × Document)
  | .array (t :: rest) => some (t, .array rest)
  | .object members => do
    let t ← (← atMostOne? (named tag members))
    return (t, .object (members.filter (·.1 ≠ some tag)))
  | _ => none

/-- Reads an object from its text. There is none when the text holds no document, or one that spells
no such object or spells it in too many levels. -/
def decode? {α : Type} (read : Nat → Document → Option α) (s : String) : Option α :=
  (parse s).bind (read maxDepth)

end Document

end Flowgraph
