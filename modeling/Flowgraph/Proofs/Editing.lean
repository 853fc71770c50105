import Flowgraph.Builtin
import Flowgraph.Proofs.Conditions

namespace Flowgraph

/-- A node of a registered type, with whatever constants, fields and variadic inputs it was given
since. Calls that fail count as well. -/
inductive Node.Made (r : Registry) : Node → Prop where
  | create (e : r.create type = .ok n) : Made r n
  | setConstant (before : Made r n) : Made r ((Node.setConstant i v).run n).2
  | clearConstant (before : Made r n) : Made r (n.clearConstant i)
  | setField (before : Made r n) : Made r ((Node.setField i v).run n).2
  | addVariadic (before : Made r n) : Made r (Node.addVariadic.run n).2

/-- A graph made with the operations of graphs from nodes of registered types. Calls that fail count
as well. -/
inductive Graph.Built (r : Registry) : Graph → Prop where
  | new (id : GraphId) (name : String) : Built r (.new id name)
  | clone (before : Built r g) (id : GraphId) : Built r (g.clone id)
  | addNode (before : Built r g) (made : n.Made r) : Built r (g.addNode n).2
  | addRoot (before : Built r g) (made : n.Made r) : Built r (g.addRoot n).2
  | update {f : Update Node α} (before : Built r g) (made : ∀ n, n.Made r → (f.run n).2.Made r)
      (e : (updateNode h f).run g = some (answer, g')) : Built r g'
  | change (c : Change) (before : Built r g) (e : (attempt c).run g = some (answer, g')) :
      Built r g'
  | removeWire (before : Built r g) : Built r (g.removeWire target).2
  | addExecutionInput (before : Built r g) : Built r (g.addExecutionInput label).2

theorem Graph.Built.changes {g : Graph} (hg : g.Built r) (cs : List Change) :
    ((attemptAll cs).result g).Built r :=
  (Editor.Keeps.forM (fun c _ _ _ => .change c) cs).result (.new default "") hg

/-- Every item of the arena has the property. -/
def Arena.All (P : α → Prop) (a : Arena α) : Prop :=
  ∀ (i : Nat) slot x, a.slots[i]? = some slot → slot.item = some x → P x

theorem Arena.All.empty : (Arena.empty : Arena α).All P := by
  intro i slot x hi hx
  obtain ⟨hlt, hslot⟩ := Array.getElem?_eq_some_iff.mp hi
  have hzero : i = 0 := Nat.lt_one_iff.mp hlt
  subst hzero
  rw [← hslot] at hx
  cases hx

theorem Arena.All.get? {a : Arena α} (ha : a.All P) (h : a.get? handle = some x) : P x := by
  unfold Arena.get? at h
  split at h
  · rename_i slot hs
    split at h
    · exact ha _ slot x hs h
    · cases h
  · cases h

/-- A slot that is overwritten holds the new item or one from before. -/
theorem Arena.All.put {a : Arena α} (ha : a.All P) (i : Nat) (slot : Arena.Slot α)
    (free : List Nat) (hs : ∀ x, slot.item = some x → P x) :
    Arena.All P ⟨a.slots.setIfInBounds i slot, free⟩ := by
  intro j slot' x hj hx
  rw [Array.getElem?_setIfInBounds] at hj
  split at hj
  · split at hj
    · cases hj
      exact hs x hx
    · cases hj
  · exact ha j slot' x hj hx

theorem Arena.All.insert {a : Arena α} (ha : a.All P) (hx : P x) : (a.insert x).2.All P := by
  have hslot (version : UInt32) (y : α) (hy : (⟨version, some x⟩ : Arena.Slot α).item = some y) :
      P y := by
    cases hy
    exact hx
  unfold Arena.insert
  split
  · exact ha.put _ _ _ (hslot _)
  · intro j slot y hj hy
    simp only [Array.getElem?_push] at hj
    split at hj
    · cases hj
      exact hslot _ y hy
    · exact ha j slot y hj hy

theorem Arena.All.set {a : Arena α} (ha : a.All P) (handle : Handle) (hx : P x) :
    (a.set handle x).All P := by
  unfold Arena.set
  split
  · refine ha.put _ _ _ ?_
    intro y hy
    cases hy
    exact hx
  · exact ha

theorem Arena.All.remove {a : Arena α} (ha : a.All P) (handle : Handle) :
    ((Arena.remove handle).run a).2.All P := by
  cases hlive : a.get? handle with
  | none => rwa [Arena.remove_of_missing hlive]
  | some x =>
    rw [Arena.remove_of_live hlive]
    refine ha.put _ _ _ ?_
    intro z hz
    cases hz

theorem Table.mem_of_lookup [DecidableEq κ] {k : κ} {v : ν} {es : List (κ × ν)}
    (h : Table.lookup k es = some v) : (k, v) ∈ es := by
  induction es with
  | nil => cases h
  | cons e rest ih =>
    unfold Table.lookup at h
    split at h
    · rename_i hk
      cases h
      rw [← hk]
      exact List.mem_cons_self
    · exact List.mem_cons_of_mem _ (ih h)

/-- No edit of a node changes its type. -/
theorem Node.Made.definition {n : Node} (h : n.Made r) :
    n.definition ∈ r.definitions.values := by
  induction h with
  | create e =>
    unfold Registry.create at e
    split at e
    · rename_i d hd
      cases e
      exact List.mem_map_of_mem (Table.mem_of_lookup hd)
    · cases e
  | setConstant _ ih =>
    rw [Node.setConstant_run]
    split <;> exact ih
  | clearConstant _ ih => exact ih
  | setField _ ih =>
    rw [Node.setField_run]
    exact ih
  | addVariadic _ ih =>
    rw [Node.addVariadic_run]
    split <;> exact ih

/-- Nor does one give it other outputs. -/
theorem Node.Made.intact {n : Node} (h : n.Made r) : n.Intact := by
  induction h with
  | create e =>
    unfold Registry.create at e
    split at e <;> cases e
    rfl
  | setConstant _ ih =>
    rw [Node.setConstant_run]
    split <;> exact ih
  | clearConstant _ ih => exact ih
  | setField _ ih =>
    rw [Node.setField_run]
    exact ih
  | addVariadic _ ih =>
    rw [Node.addVariadic_run]
    split <;> exact ih

theorem Node.Made.constant {n : Node} (h : n.Made r) (hi : i < n.inputCount) (v : Value) :
    Made r { n with inputs := n.inputs.set i (some v) } := by
  have hset := h.setConstant (i := i) (v := v)
  rwa [Node.setConstant_run, if_pos hi] at hset

/-- A node is changed where there is one. -/
theorem Graph.updateNode_cases {g g' : Graph} {f : Update Node α}
    (h : (updateNode handle f).run g = some (answer, g')) :
    g' = g ∨ ∃ n, g.node? handle = some n ∧
      g' = { g with nodes := g.nodes.set handle (f.run n).2 } := by
  cases hn : g.node? handle with
  | none =>
    rw [updateNode_of_missing hn] at h
    cases h
    exact .inl rfl
  | some n =>
    rw [updateNode_of_live hn] at h
    cases h
    exact .inr ⟨n, rfl, rfl⟩

theorem Graph.changed_all {g : Graph} {c : Change} {P : Node → Prop} (hg : g.nodes.All P)
    (hclear : ∀ n i, P n → P (n.clearConstant i))
    (hset : ∀ n i v, P n → i < n.inputCount → P { n with inputs := n.inputs.set i (some v) })
    (hc : ∀ d ∈ c.conditions, d.Holds g) : (g.changed c).nodes.All P := by
  cases c with
  | wire source target =>
    obtain ⟨-, -, -, ⟨n, hn⟩, -⟩ := by simpa [Change.conditions] using hc
    rw [changed, nodeAt_eq hn]
    exact hg.set _ (hclear n _ (hg.get? hn))
  | constant input v =>
    obtain ⟨-, -, n, hn, hi⟩ := by simpa [Change.conditions] using hc
    rw [changed, nodeAt_eq hn]
    exact hg.set _ (hset n _ v (hg.get? hn) hi)
  | removal h => exact hg.remove h
  | link source target => exact hg
  | inputLink ordinal target => exact hg

/-- Whatever was done to a graph, its nodes are of registered types. -/
theorem Graph.Built.all {g : Graph} (h : g.Built r) : g.nodes.All (Node.Made r) := by
  induction h with
  | new id name => exact Arena.All.empty
  | clone _ id ih => exact ih
  | addNode _ made ih => exact ih.insert made
  | addRoot _ made ih => exact ih.insert made
  | update _ made e ih =>
    rcases updateNode_cases e with rfl | ⟨n, hn, rfl⟩
    · exact ih
    · exact ih.set _ (made n (ih.get? hn))
  | change c _ e ih =>
    rcases attempt_cases e with rfl | ⟨hc, rfl⟩
    · exact ih
    · exact changed_all ih (fun _ _ => .clearConstant) (fun _ _ v made hi => made.constant hi v) hc
  | removeWire _ ih => exact ih
  | addExecutionInput _ ih => exact ih

/-- The nodes of a graph built from the built-in types are of those types. -/
theorem Graph.Built.builtin {g : Graph} (hg : g.Built .builtins) (h : g.node? handle = some n) :
    n.definition ∈ Builtin.definitions := by
  have hd : Registry.builtins.definitions.values = Builtin.definitions := rfl
  rw [← hd]
  exact (hg.all.get? h).definition

/-- A library of one graph gives that one or none. -/
theorem Session.libraryGraph_single {s : Session} {g₀ g : Graph}
    (hl : s.extensions.library? = some (Library.empty.insert g₀))
    (h : s.libraryGraph name = .ok g) : g = g₀ := by
  obtain ⟨l, hl', hg⟩ := libraryGraph_eq_ok.mp h
  cases hl'.symm.trans hl
  unfold Library.get at hg
  split at hg
  · rename_i hfound
    cases hg
    exact congrArg Prod.snd (List.mem_singleton.mp (Table.mem_of_lookup hfound))
  · cases hg

end Flowgraph
