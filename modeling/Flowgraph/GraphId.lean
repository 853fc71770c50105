import Flowgraph.Document.Parser
import Flowgraph.Document.Reading

namespace Flowgraph

/-- The identity of a graph, a number of 128 bits. It separates what sessions remember about
different graphs, whose handles may coincide. -/
structure GraphId where
  value : BitVec 128
deriving DecidableEq, Repr, Inhabited

namespace GraphId

def ofNat (n : Nat) : GraphId := ⟨BitVec.ofNat 128 n⟩

/-- The 32 hexadecimal digits, most significant first. -/
def digits (id : GraphId) : List Char :=
  (List.range 32).map fun i => Nat.digitChar (id.value.toNat / Nat.pow 16 (31 - i) % 16)

/-- The canonical text: groups of 8, 4, 4, 4 and 12 digits joined by hyphens. -/
def text (id : GraphId) : String :=
  let ds := id.digits
  let group (start size : Nat) : List Char := (ds.drop start).take size
  String.ofList (group 0 8 ++ '-' :: group 8 4 ++ '-' :: group 12 4 ++ '-' :: group 16 4 ++
    '-' :: group 20 12)

def ofDigits? (ds : List Char) : Option GraphId := do
  let values ← ds.mapM Document.hexDigit?
  return ofNat (values.foldl (fun n d => n * 16 + d) 0)

/-- Groups of digits with hyphens between them. -/
def ofHyphenated? (cs : List Char) : Option GraphId :=
  let at? (i : Nat) : Bool := cs[i]? = some '-'
  if cs.length = 36 && at? 8 && at? 13 && at? 18 && at? 23 then
    ofDigits? (cs.take 8 ++ (cs.drop 9).take 4 ++ (cs.drop 14).take 4 ++ (cs.drop 19).take 4 ++
      cs.drop 24)
  else none

/-- Reads bare digits, hyphenated groups, groups in braces and groups behind the uniform resource
mark, in either case. -/
def ofText? (s : String) : Option GraphId :=
  let cs := s.toList
  if cs.length = 32 then ofDigits? cs
  else if cs.length = 38 then
    if cs.head? = some '{' && cs.getLast? = some '}' then ofHyphenated? ((cs.drop 1).take 36)
    else none
  else if cs.length = 45 then
    if (cs.take 9).map Char.toLower = "urn:uuid:".toList then ofHyphenated? (cs.drop 9) else none
  else ofHyphenated? cs

def toDocument (id : GraphId) : Document := .string id.text

def read (d : Document) : Option GraphId := d.string?.bind ofText?

end GraphId

end Flowgraph
