import Flowgraph.Document.Basic

namespace Flowgraph.Document

/-- A character inside a text: the quote, the backslash and the control characters are escaped, the
common ones by a letter and the rest by four hexadecimal digits. -/
def escape (c : Char) : List Char :=
  if c = '"' then ['\\', '"']
  else if c = '\\' then ['\\', '\\']
  else if c = '\x08' then ['\\', 'b']
  else if c = '\t' then ['\\', 't']
  else if c = '\n' then ['\\', 'n']
  else if c = '\x0c' then ['\\', 'f']
  else if c = '\r' then ['\\', 'r']
  else if c.toNat < 0x20 then
    ['\\', 'u', '0', '0', Nat.digitChar (c.toNat / 16), Nat.digitChar (c.toNat % 16)]
  else [c]

/-- A text in quotes. One that spells no characters is written as a lone surrogate. -/
def quote : Option String → List Char
  | some s => '"' :: (s.toList.flatMap escape ++ ['"'])
  | none => ['"', '\\', 'u', 'd', '8', '0', '0', '"']

mutual

/-- The compact text: no blanks, members in their order. -/
def chars : Document → List Char
  | .null => ['n', 'u', 'l', 'l']
  | .bool true => ['t', 'r', 'u', 'e']
  | .bool false => ['f', 'a', 'l', 's', 'e']
  | .number n => n.chars true
  | .text s => quote s
  | .array [] => ['[', ']']
  | .array (d :: rest) => '[' :: (chars d ++ itemChars rest)
  | .object [] => ['{', '}']
  | .object ((key, d) :: rest) => '{' :: (quote key ++ ':' :: (chars d ++ memberChars rest))

def itemChars : List Document → List Char
  | [] => [']']
  | d :: rest => ',' :: (chars d ++ itemChars rest)

def memberChars : List (Option String × Document) → List Char
  | [] => ['}']
  | (key, d) :: rest => ',' :: (quote key ++ ':' :: (chars d ++ memberChars rest))

end

def render (d : Document) : String := String.ofList d.chars

end Flowgraph.Document
