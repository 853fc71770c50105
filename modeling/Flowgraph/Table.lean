namespace Flowgraph

/-- A finite map as a list of entries in the order their keys came in. -/
structure Table (κ : Type) (ν : Type) where
  entries : List (κ × ν) := []
deriving Inhabited

namespace Table

variable {κ ν : Type}

def empty : Table κ ν := {}

def size (t : Table κ ν) : Nat := t.entries.length

def keys (t : Table κ ν) : List κ := t.entries.map (·.1)

def values (t : Table κ ν) : List ν := t.entries.map (·.2)

variable [DecidableEq κ]

def lookup (k : κ) : List (κ × ν) → Option ν
  | [] => none
  | e :: rest => if e.1 = k then some e.2 else lookup k rest

def get? (t : Table κ ν) (k : κ) : Option ν := lookup k t.entries

def contains (t : Table κ ν) (k : κ) : Bool := (t.get? k).isSome

def put (k : κ) (v : ν) : List (κ × ν) → List (κ × ν)
  | [] => [(k, v)]
  | e :: rest => if e.1 = k then (k, v) :: rest else e :: put k v rest

/-- A known key keeps its place. -/
def insert (t : Table κ ν) (k : κ) (v : ν) : Table κ ν := ⟨put k v t.entries⟩

def erase (t : Table κ ν) (k : κ) : Table κ ν := ⟨t.entries.filter (·.1 ≠ k)⟩

def filter (t : Table κ ν) (p : κ → ν → Bool) : Table κ ν := ⟨t.entries.filter fun e => p e.1 e.2⟩

def mapValues (t : Table κ ν) (f : ν → ν) : Table κ ν := ⟨t.entries.map fun e => (e.1, f e.2)⟩

/-- The entries of `u` win over those of `t`. -/
def merge (t u : Table κ ν) : Table κ ν := u.entries.foldl (fun t e => t.insert e.1 e.2) t

@[simp] theorem get?_empty (k : κ) : (empty : Table κ ν).get? k = none := rfl

theorem lookup_put (k k' : κ) (v : ν) (es : List (κ × ν)) :
    lookup k' (put k v es) = if k = k' then some v else lookup k' es := by
  induction es with
  | nil => rfl
  | cons e rest ih =>
    by_cases he : e.1 = k
    · subst he
      by_cases hk : e.1 = k' <;> simp [put, lookup, hk]
    · by_cases hk : e.1 = k'
      · subst hk
        simp [put, lookup, he, Ne.symm he]
      · simp [put, lookup, he, hk, ih]

theorem get?_insert (t : Table κ ν) (k k' : κ) (v : ν) :
    (t.insert k v).get? k' = if k = k' then some v else t.get? k' :=
  lookup_put k k' v t.entries

end Table

end Flowgraph
