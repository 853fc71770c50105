import Flowgraph.Graph

namespace Flowgraph

namespace Update

variable {σ α β : Type}

@[simp] theorem run_pure (a : α) (s : σ) : (pure a : Update σ α).run s = (.ok a, s) := rfl

theorem run_bind (call : Update σ α) (next : α → Update σ β) (s : σ) :
    (call >>= next).run s = match call.run s with
      | (.ok a, s') => (next a).run s'
      | (.error e, s') => (.error e, s') := by
  unfold Update.run ExceptT.run StateT.run
  simp only [bind, ExceptT.bind, ExceptT.mk, StateT.bind, ExceptT.bindCont]
  cases call s with
  | mk answer s' => cases answer <;> rfl

/-- An answer that nobody wants does not matter to the state. -/
theorem run_discard (call : Update σ α) (s : σ) :
    ((do let _ ← call : Update σ Unit).run s).2 = (call.run s).2 := by
  rw [run_bind]
  split
  · rename_i h
    rw [h]
    rfl
  · rename_i h
    rw [h]

@[simp] theorem run_get_bind (next : σ → Update σ β) (s : σ) :
    (get >>= next).run s = (next s).run s := rfl

@[simp] theorem run_set_bind (s s' : σ) (next : PUnit → Update σ β) :
    (set s' >>= next).run s = (next ()).run s' := rfl

/-- A look at the state goes on from the same state. -/
theorem run_look_bind (x : Except Error α) (next : α → Update σ β) (s : σ) :
    (liftM x >>= next).run s = match x with
      | .ok a => (next a).run s
      | .error e => (.error e, s) := by
  cases x <;> rfl

end Update

namespace Graph.Editor

variable {α β : Type} {call : Editor α} {next : α → Editor β} {g g' : Graph}

@[simp] theorem run_throw (e : Error) (g : Graph) :
    (throw e : Editor α).run g = some (.error e, g) := rfl

theorem run_bind (call : Editor α) (next : α → Editor β) (g : Graph) :
    (call >>= next).run g = (call.run g).bind fun
      | (.ok a, g') => (next a).run g'
      | (.error e, g') => some (.error e, g') := by
  unfold Editor.run ExceptT.run StateT.run
  simp only [bind, ExceptT.bind, ExceptT.mk, StateT.bind, ExceptT.bindCont]
  cases call g with
  | none => rfl
  | some outcome =>
    obtain ⟨answer, g'⟩ := outcome
    cases answer <;> rfl

@[simp] theorem run_get_bind (next : Graph → Editor β) (g : Graph) :
    (get >>= next).run g = (next g).run g := rfl

/-- A look at the graph goes on from the same graph. -/
theorem run_look_bind (x : Except Error α) (next : α → Editor β) (g : Graph) :
    (liftM x >>= next).run g = match x with
      | .ok a => (next a).run g
      | .error e => some (.error e, g) := by
  cases x <;> rfl

theorem run_lookup_bind (x : Option α) (next : α → Editor β) (g : Graph) :
    (liftM x >>= next).run g = x.bind fun a => (next a).run g := by
  cases x <;> rfl

theorem run_bind_of_some (h : call.run g = some (.ok a, g')) :
    (call >>= next).run g = (next a).run g' := by
  rw [run_bind, h]
  rfl

/-- The graph that a call leaves when it returns. -/
def result (call : Editor α) (g : Graph) : Graph := ((call.run g).map (·.2)).getD default

/-- Whether the call succeeds or fails, it leaves the property of the graph. -/
def Keeps (P : Graph → Prop) (call : Editor α) : Prop :=
  ∀ g answer g', P g → call.run g = some (answer, g') → P g'

theorem Keeps.bind {P : Graph → Prop} (hcall : call.Keeps P) (hnext : ∀ a, (next a).Keeps P) :
    Keeps P (call >>= next) := by
  intro g answer g' hg h
  rw [run_bind] at h
  obtain ⟨⟨first, middle⟩, hfirst, h⟩ := Option.bind_eq_some_iff.mp h
  have hmiddle := hcall g first middle hg hfirst
  cases first with
  | ok a => exact hnext a middle answer g' hmiddle h
  | error e =>
    cases h
    exact hmiddle

theorem Keeps.forM {P : Graph → Prop} {f : α → Editor PUnit} (hf : ∀ a, (f a).Keeps P)
    (as : List α) : Keeps P (as.forM f) := by
  induction as with
  | nil =>
    intro g answer g' hg h
    cases h
    exact hg
  | cons a as ih => exact (hf a).bind fun _ => ih

theorem Keeps.result {P : Graph → Prop} (h : call.Keeps P) (hempty : P default) (hg : P g) :
    P (call.result g) := by
  unfold Editor.result
  cases hr : call.run g with
  | none => exact hempty
  | some r => exact h g r.1 r.2 hg hr

end Graph.Editor

namespace Node

variable {n : Node} {i : Nat}

theorem input_of_lt (h : i < n.inputCount) : ∃ constant, n.input i = .ok constant := by
  have hi : n.inputs[i]? = some n.inputs[i] := List.getElem?_eq_getElem h
  exact ⟨n.inputs[i], by rw [input, hi]⟩

theorem input_of_not_lt (h : ¬ i < n.inputCount) :
    n.input i = .error (.portOutOfRange n.nodeType .input i n.inputCount) := by
  have hi : n.inputs[i]? = none := List.getElem?_eq_none_iff.mpr (Nat.not_lt.mp h)
  rw [input, hi]

theorem output_of_lt (h : i < n.outputCount) : n.output i = .ok () := if_pos h

theorem output_of_not_lt (h : ¬ i < n.outputCount) :
    n.output i = .error (.portOutOfRange n.nodeType .output i n.outputCount) := if_neg h

theorem setConstant_run (i : Nat) (v : Value) (n : Node) :
    (setConstant i v).run n =
      if i < n.inputCount then (.ok (), { n with inputs := n.inputs.set i (some v) })
      else (.error (.portOutOfRange n.nodeType .input i n.inputCount), n) := by
  unfold setConstant
  rw [Update.run_get_bind, Update.run_look_bind]
  by_cases h : i < n.inputCount
  · obtain ⟨constant, hc⟩ := input_of_lt h
    rw [if_pos h, hc]
    rfl
  · rw [if_neg h, input_of_not_lt h]

/-- Where there is no field nothing is set. -/
theorem setField_run (i : Nat) (v : Value) (n : Node) :
    ((setField i v).run n).2 = { n with fields := n.fields.set i v } := by
  unfold setField field
  rw [Update.run_get_bind, Update.run_look_bind]
  cases hi : n.fields[i]? with
  | some old => rfl
  | none => rw [List.set_eq_of_length_le (List.getElem?_eq_none_iff.mp hi)]

theorem addVariadic_run (n : Node) :
    addVariadic.run n =
      if n.definition.metadata.variadic.isNone then
        (.error (.invalidDefinition n.nodeType .notVariadic), n)
      else (.ok n.inputCount, { n with inputs := n.inputs ++ [none] }) := by
  unfold addVariadic
  rw [Update.run_get_bind]
  split
  · rfl
  · rw [Update.run_set_bind, Update.run_get_bind]
    simp [inputCount]

end Node

namespace Arena

variable {α β : Type} {a : Arena α} {h : Handle} {x : α}

theorem get_eq_ok : a.get h = .ok x ↔ a.get? h = some x := by
  unfold get
  cases a.get? h <;> simp

theorem get_of_missing (hnone : a.get? h = none) : a.get h = .error (.nodeNotFound h) := by
  simp [get, hnone]

theorem update_of_live (hlive : a.get? h = some x) (change : Update α β) :
    (update h change).run a = ((change.run x).1, a.set h (change.run x).2) := by
  unfold update
  rw [Update.run_get_bind, Update.run_look_bind, get_eq_ok.mpr hlive]
  rfl

theorem update_of_missing (hnone : a.get? h = none) (change : Update α β) :
    (update h change).run a = (.error (.nodeNotFound h), a) := by
  unfold update
  rw [Update.run_get_bind, Update.run_look_bind, get_of_missing hnone]

theorem remove_of_live (hlive : a.get? h = some x) : (remove h).run a =
    (.ok x, ⟨a.slots.setIfInBounds h.idx.toNat ⟨h.version + 1, none⟩, h.idx.toNat :: a.free⟩) := by
  unfold remove
  rw [Update.run_get_bind, Update.run_look_bind, get_eq_ok.mpr hlive]
  rfl

theorem remove_of_missing (hnone : a.get? h = none) :
    (remove h).run a = (.error (.nodeNotFound h), a) := by
  unfold remove
  rw [Update.run_get_bind, Update.run_look_bind, get_of_missing hnone]

end Arena

namespace Graph

variable {α : Type} {g : Graph} {h : Handle} {n : Node}

theorem onNodes_run (change : Update (Arena Node) α) (g : Graph) : (onNodes change).run g =
    some ((change.run g.nodes).1, { g with nodes := (change.run g.nodes).2 }) := rfl

theorem updateNode_returns (h : Handle) (change : Update Node α) (g : Graph) :
    ∃ answer g', (updateNode h change).run g = some (answer, g') :=
  ⟨_, _, onNodes_run (Arena.update h change) g⟩

theorem updateNode_of_live (hn : g.node? h = some n) (change : Update Node α) :
    (updateNode h change).run g =
      some ((change.run n).1, { g with nodes := g.nodes.set h (change.run n).2 }) := by
  rw [updateNode, onNodes_run, Arena.update_of_live hn]

theorem updateNode_of_missing (hn : g.node? h = none) (change : Update Node α) :
    (updateNode h change).run g = some (.error (.nodeNotFound h), g) := by
  rw [updateNode, onNodes_run, Arena.update_of_missing hn]

/-- The graph without one of its nodes. -/
def without (g : Graph) (h : Handle) : Graph where
  id := g.id
  name := g.name
  nodes := ((Arena.remove h).run g.nodes).2
  wires := g.wires.filter fun input output => input.node ≠ h ∧ output.node ≠ h
  links := (g.links.filter fun output _ => output.node ≠ h).mapValues (·.filter (· ≠ h))
  executionInputs :=
    g.executionInputs.map fun i => { i with targets := i.targets.filter (· ≠ h) }
  roots := g.roots.filter (· ≠ h)

theorem removeNode_of_live (hn : g.node? h = some n) :
    (removeNode h).run g = some (.ok n, g.without h) := by
  have hnodes : (onNodes (Arena.remove h)).run g =
      some (.ok n, { g with nodes := ((Arena.remove h).run g.nodes).2 }) := by
    rw [onNodes_run, Arena.remove_of_live hn]
  exact Editor.run_bind_of_some hnodes

theorem removeNode_of_missing (hn : g.node? h = none) :
    (removeNode h).run g = some (.error (.nodeNotFound h), g) := by
  have hnodes : (onNodes (Arena.remove h)).run g = some (.error (.nodeNotFound h), g) := by
    rw [onNodes_run, Arena.remove_of_missing hn]
  rw [removeNode, Editor.run_bind, hnodes]
  rfl

end Graph

end Flowgraph
