import Flowgraph.Update

namespace Flowgraph

structure Arena.Slot (α : Type) where
  version : UInt32
  item : Option α

/-- A store of items behind handles. A slot's version grows when the slot is emptied and again when
it is filled, so that a handle finds the item it was given out for or none. Slot zero is never
filled. -/
structure Arena (α : Type) where
  slots : Array (Arena.Slot α)
  /-- Emptied slots, the last one first. -/
  free : List Nat

namespace Arena

variable {α : Type}

def empty : Arena α := ⟨#[⟨0, none⟩], []⟩

instance : Inhabited (Arena α) := ⟨empty⟩

def get? (a : Arena α) (h : Handle) : Option α :=
  match a.slots[h.idx.toNat]? with
  | some slot => if slot.version = h.version then slot.item else none
  | none => none

def get (a : Arena α) (h : Handle) : Except Error α :=
  match a.get? h with
  | some x => .ok x
  | none => .error (.nodeNotFound h)

def contains (a : Arena α) (h : Handle) : Bool := (a.get? h).isSome

/-- Fills the slot emptied last, or a new one. -/
def insert (a : Arena α) (x : α) : Handle × Arena α :=
  match a.free with
  | i :: rest =>
    let version := (a.slots[i]?.elim 0 (·.version)) ||| 1
    (⟨UInt32.ofNat i, version⟩, ⟨a.slots.setIfInBounds i ⟨version, some x⟩, rest⟩)
  | [] => (⟨UInt32.ofNat a.slots.size, 1⟩, ⟨a.slots.push ⟨1, some x⟩, []⟩)

/-- Replaces the item behind a live handle. -/
def set (a : Arena α) (h : Handle) (x : α) : Arena α :=
  if a.contains h then ⟨a.slots.setIfInBounds h.idx.toNat ⟨h.version, some x⟩, a.free⟩ else a

/-- Changes the item behind a live handle. -/
def update {β : Type} (h : Handle) (change : Update α β) : Update (Arena α) β := do
  let a : Arena α ← MonadState.get
  let x ← a.get h
  let (answer, y) := change.run x
  modify (·.set h y)
  answer

def remove (h : Handle) : Update (Arena α) α := do
  let a : Arena α ← MonadState.get
  let x ← a.get h
  let i := h.idx.toNat
  modify fun a => ⟨a.slots.setIfInBounds i ⟨h.version + 1, none⟩, i :: a.free⟩
  return x

/-- The live handles with their items, by slot. -/
def toList (a : Arena α) : List (Handle × α) :=
  a.slots.toList.zipIdx.filterMap fun (slot, i) =>
    slot.item.map fun x => (⟨UInt32.ofNat i, slot.version⟩, x)

def size (a : Arena α) : Nat := a.toList.length

def isEmpty (a : Arena α) : Bool := a.size = 0

end Arena

end Flowgraph
