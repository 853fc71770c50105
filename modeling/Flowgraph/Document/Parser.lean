import Flowgraph.Document.Basic

namespace Flowgraph.Document

def isBlank (c : Char) : Bool := c == ' ' || c == '\n' || c == '\t' || c == '\r'

def skip (cs : List Char) : List Char := cs.dropWhile isBlank

def hexDigit? (c : Char) : Option Nat :=
  if '0' ≤ c ∧ c ≤ '9' then some (c.toNat - '0'.toNat)
  else if 'a' ≤ c ∧ c ≤ 'f' then some (c.toNat - 'a'.toNat + 10)
  else if 'A' ≤ c ∧ c ≤ 'F' then some (c.toNat - 'A'.toNat + 10)
  else none

def codeUnit? (a b c d : Char) : Option Nat := do
  return (((← hexDigit? a) * 16 + (← hexDigit? b)) * 16 + (← hexDigit? c)) * 16 + (← hexDigit? d)

/-- The character that a letter stands for behind a backslash. -/
def unescape? : Char → Option Char
  | '"' => some '"'
  | '\\' => some '\\'
  | '/' => some '/'
  | 'b' => some '\x08'
  | 'f' => some '\x0c'
  | 'n' => some '\n'
  | 'r' => some '\r'
  | 't' => some '\t'
  | _ => none

/-- One piece of a quoted text: a character, or a unit of sixteen bits written in hexadecimal. -/
inductive Piece where
  | char (c : Char)
  | unit (u : Nat)
deriving DecidableEq, Repr

/-- The pieces up to the closing quote, and what follows it. A raw control character, an unknown
escape and a missing quote end the reading. -/
def pieces? (done : List Piece) : List Char → Option (List Piece × List Char)
  | [] => none
  | '"' :: rest => some (done.reverse, rest)
  | '\\' :: 'u' :: a :: b :: c :: d :: rest =>
    match codeUnit? a b c d with
    | some u => pieces? (.unit u :: done) rest
    | none => none
  | '\\' :: c :: rest =>
    match unescape? c with
    | some e => pieces? (.char e :: done) rest
    | none => none
  | c :: rest => if c.toNat < 0x20 ∨ c = '\\' then none else pieces? (.char c :: done) rest

def isHigh (u : Nat) : Bool := 0xD800 ≤ u && u < 0xDC00

def isLow (u : Nat) : Bool := 0xDC00 ≤ u && u < 0xE000

/-- The characters that pieces spell. A high unit and the low unit behind it make one character;
either of them alone makes none. -/
def spell? (done : List Char) : List Piece → Option (List Char)
  | [] => some done.reverse
  | .char c :: rest => spell? (c :: done) rest
  | .unit u :: .unit v :: rest =>
    if isHigh u then
      if isLow v then
        spell? (Char.ofNat (0x10000 + (u - 0xD800) * 0x400 + (v - 0xDC00)) :: done) rest
      else none
    else if isLow u then none
    else spell? (Char.ofNat u :: done) (.unit v :: rest)
  | .unit u :: rest => if isHigh u || isLow u then none else spell? (Char.ofNat u :: done) rest

/-- A text, its opening quote already read. -/
def text? (cs : List Char) : Option (Option String × List Char) := do
  let (pieces, rest) ← pieces? [] cs
  return ((spell? [] pieces).map String.ofList, rest)

/-- The digits in front, and the rest. There has to be one at least. -/
def digits? (cs : List Char) : Option (List Char × List Char) :=
  match cs.takeWhile Char.isDigit with
  | [] => none
  | digits => some (digits, cs.dropWhile Char.isDigit)

/-- A whole part has no zero in front of other digits. -/
def whole? (cs : List Char) : Option (List Char × List Char) :=
  match digits? cs with
  | some ('0' :: _ :: _, _) => none
  | read => read

def fraction? : List Char → Option (List Char × List Char)
  | '.' :: rest => digits? rest
  | cs => some ([], cs)

def power? (negative : Bool) (cs : List Char) : Option (Option Int × List Char) := do
  let (digits, rest) ← digits? cs
  let magnitude : Int := Nat.ofDigitChars 10 digits 0
  return (some (if negative then -magnitude else magnitude), rest)

def exponent? : List Char → Option (Option Int × List Char)
  | e :: cs =>
    if e = 'e' ∨ e = 'E' then
      match cs with
      | '+' :: rest => power? false rest
      | '-' :: rest => power? true rest
      | rest => power? false rest
    else some (none, e :: cs)
  | [] => some (none, [])

def unsigned? (negative : Bool) (cs : List Char) : Option (Numeral × List Char) := do
  let (whole, cs) ← whole? cs
  let (fraction, cs) ← fraction? cs
  let (exponent, cs) ← exponent? cs
  return (⟨negative, whole, fraction, exponent⟩, cs)

def numeral? : List Char → Option (Numeral × List Char)
  | '-' :: rest => unsigned? true rest
  | cs => unsigned? false cs

mutual

/-- One document in front of a text, and the rest. The first argument bounds the work: the number
of characters is enough. -/
def value? : Nat → List Char → Option (Document × List Char)
  | 0, _ => none
  | room + 1, cs =>
    match skip cs with
    | 'n' :: 'u' :: 'l' :: 'l' :: rest => some (.null, rest)
    | 't' :: 'r' :: 'u' :: 'e' :: rest => some (.bool true, rest)
    | 'f' :: 'a' :: 'l' :: 's' :: 'e' :: rest => some (.bool false, rest)
    | '"' :: rest => (text? rest).map fun (s, rest) => (.text s, rest)
    | '[' :: rest =>
      match skip rest with
      | ']' :: rest => some (.array [], rest)
      | rest => (items? room rest).map fun (items, rest) => (.array items, rest)
    | '{' :: rest =>
      match skip rest with
      | '}' :: rest => some (.object [], rest)
      | rest => (members? room rest).map fun (members, rest) => (.object members, rest)
    | rest => (numeral? rest).map fun (n, rest) => (.number n, rest)

/-- The items of an array up to its end, at least one. -/
def items? : Nat → List Char → Option (List Document × List Char)
  | 0, _ => none
  | room + 1, cs =>
    match value? room cs with
    | none => none
    | some (d, rest) =>
      match skip rest with
      | ']' :: rest => some ([d], rest)
      | ',' :: rest => (items? room rest).map fun (items, rest) => (d :: items, rest)
      | _ => none

/-- The members of an object up to its end, at least one. -/
def members? : Nat → List Char → Option (List (Option String × Document) × List Char)
  | 0, _ => none
  | room + 1, cs =>
    match skip cs with
    | '"' :: rest =>
      match text? rest with
      | none => none
      | some (key, rest) =>
        match skip rest with
        | ':' :: rest =>
          match value? room rest with
          | none => none
          | some (d, rest) =>
            match skip rest with
            | '}' :: rest => some ([(key, d)], rest)
            | ',' :: rest =>
              (members? room rest).map fun (members, rest) => ((key, d) :: members, rest)
            | _ => none
        | _ => none
    | _ => none

end

/-- The document a text holds, with nothing but blanks around it. -/
def parse (s : String) : Option Document := do
  let cs := s.toList
  let (d, rest) ← value? (cs.length + 1) cs
  guard (skip rest).isEmpty
  return d

end Flowgraph.Document
