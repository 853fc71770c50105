import Flowgraph.Proofs.Shapes
import Flowgraph.Proofs.Slots

namespace Flowgraph

/-- A call of a host that builds a graph, be it on the graph or on one of its nodes. -/
inductive Edit where
  | addNode (n : Node)
  | addRoot (n : Node)
  | removeNode (h : Handle)
  | addWire (source target : PortRef)
  | removeWire (target : PortRef)
  | setConstant (input : PortRef) (v : Value)
  | addLink (source : PortRef) (target : Handle)
  | addExecutionInput (name : String)
  | addInputLink (ordinal : Nat) (target : Handle)
  | clone (id : GraphId)
  | setField (h : Handle) (index : Nat) (v : Value)
  | addVariadic (h : Handle)
  | setNodeConstant (input : PortRef) (v : Value)

def Edit.call : Edit → Graph.Editor Unit
  | .addNode n => modify fun g => (g.addNode n).2
  | .addRoot n => modify fun g => (g.addRoot n).2
  | .removeNode h => do let _ ← Graph.removeNode h
  | .addWire source target => Graph.addWire source target
  | .removeWire target => modify fun g => (g.removeWire target).2
  | .setConstant input v => Graph.setConstant input v
  | .addLink source target => Graph.addLink source target
  | .addExecutionInput name => modify fun g => (g.addExecutionInput name).2
  | .addInputLink ordinal target => Graph.addInputLink ordinal target
  | .clone id => modify (·.clone id)
  | .setField h index v => Graph.updateNode h (Node.setField index v)
  | .addVariadic h => Graph.updateNode h (do let _ ← Node.addVariadic)
  | .setNodeConstant input v => Graph.updateNode input.node (Node.setConstant input.port v)

/-- The graph that a call leaves, whether it succeeds or fails. -/
def Graph.edit (g : Graph) (e : Edit) : Option Graph := (e.call.run g).map (·.2)

/-- The call can be made: a node that is added comes from a registry and finds room. -/
def Edit.Possible (g : Graph) : Edit → Prop
  | .addNode n | .addRoot n => n.Registered ∧ g.size < Arena.capacity
  | _ => True

/-- Whether a call puts a constant on a wired input, as the node alone cannot tell. -/
def Edit.overrides (g : Graph) : Edit → Bool
  | .setNodeConstant input _ => (g.producer? input).isSome
  | _ => false

/-- All calls can be made, one after the other. -/
def Graph.Permits (g : Graph) : List Edit → Prop
  | [] => True
  | e :: edits => e.Possible g ∧ match g.edit e with
    | some g' => g'.Permits edits
    | none => True

/-- None of the calls puts a constant on a wired input. -/
def Graph.Respects (g : Graph) : List Edit → Prop
  | [] => True
  | e :: edits => e.overrides g = false ∧ match g.edit e with
    | some g' => g'.Respects edits
    | none => True

/-- What no update of a node takes away. -/
structure Node.Grows (n n' : Node) : Prop where
  definition : n'.definition = n.definition
  outputs : n'.outputCount = n.outputCount
  inputs : n.inputCount ≤ n'.inputCount

theorem Node.Grows.intact {n n' : Node} (h : n.Grows n') (hn : n.Intact) : n'.Intact := by
  rw [Intact, h.outputs, h.definition]
  exact hn

theorem Node.Grows.refl (n : Node) : n.Grows n := ⟨rfl, rfl, Nat.le_refl _⟩

/-- An update that nodes offer. -/
structure Node.Offers (f : Update Node α) : Prop where
  made : ∀ (r : Registry) (n : Node), n.Made r → (f.run n).2.Made r
  grows : ∀ n : Node, n.Grows (f.run n).2

theorem Node.setConstant_offers (i : Nat) (v : Value) : Offers (setConstant i v) where
  made _ _ := .setConstant
  grows n := by
    rw [setConstant_run]
    split
    · exact ⟨rfl, rfl, by simp [inputCount]⟩
    · exact .refl n

theorem Node.setField_offers (i : Nat) (v : Value) : Offers (setField i v) where
  made _ _ := .setField
  grows n := by
    rw [setField_run]
    exact ⟨rfl, rfl, Nat.le_refl _⟩

theorem Node.addVariadic_offers : Offers (do let _ ← addVariadic) where
  made _ _ h := by
    rw [Update.run_discard]
    exact .addVariadic h
  grows n := by
    rw [Update.run_discard, addVariadic_run]
    split
    · exact .refl n
    · exact ⟨rfl, rfl, by simp [inputCount]⟩

namespace Graph

def HasDataOutput (g : Graph) (p : PortRef) : Prop :=
  g.HasOutput p fun port => ∃ type, port.kind = .data type

def HasExecutionOutput (g : Graph) (p : PortRef) : Prop :=
  g.Activatable p.node ∧ g.HasOutput p fun port => port.kind = .execution

/-- Whatever the tables of a graph name is there. -/
structure Joined (g : Graph) : Prop where
  wires : ∀ e ∈ g.wires.entries, g.HasInput e.1 ∧ g.HasDataOutput e.2
  links : ∀ e ∈ g.links.entries, g.HasExecutionOutput e.1 ∧ ∀ h ∈ e.2, g.Activatable h
  executionInputs : ∀ input ∈ g.executionInputs, ∀ h ∈ input.targets, g.Activatable h
  roots : ∀ h ∈ g.roots, ∃ n, g.node? h = some n
  distinct : g.roots.Nodup

structure WellFormed (g : Graph) : Prop extends g.Joined where
  nodes : ∀ h n, g.node? h = some n → n.Shaped

/-- No input has both a producer and a constant. -/
def Exclusive (g : Graph) : Prop :=
  ∀ e ∈ g.wires.entries, ∀ n, g.node? e.1.node = some n → ∀ v, n.inputs[e.1.port]? ≠ some (some v)

/-- What every call keeps. Beyond the tables this is where the nodes come from and that the arena
gives out new handles only. -/
structure Sound (g : Graph) : Prop extends g.Joined where
  arena : g.nodes.Sound
  registered : ∀ h n, g.node? h = some n → n.Registered

variable {g g' : Graph} {h : Handle} {n n' : Node} {p source target : PortRef}

theorem HasOutput.dataOutput (hp : g.HasOutput p fun port => port.kind ≠ .execution) :
    g.HasDataOutput p := by
  obtain ⟨n, port, hn, hlt, hport, hkind⟩ := hp
  refine ⟨n, port, hn, hlt, hport, Port.data_of_not_isExecution ?_⟩
  simpa [Port.isExecution] using hkind

/-- What an edit leaves of a node: it stays live and only grows. -/
def Keeps (g g' : Graph) (h : Handle) : Prop :=
  ∀ n, g.node? h = some n → ∃ n', g'.node? h = some n' ∧ n.Grows n'

theorem HasInput.keeps (hp : g.HasInput p) (hk : g.Keeps g' p.node) : g'.HasInput p := by
  obtain ⟨n, hn, hlt⟩ := hp
  obtain ⟨n', hn', hgrows⟩ := hk n hn
  exact ⟨n', hn', Nat.lt_of_lt_of_le hlt hgrows.inputs⟩

theorem HasOutput.keeps {kind : Port → Prop} (hp : g.HasOutput p kind) (hk : g.Keeps g' p.node) :
    g'.HasOutput p kind := by
  obtain ⟨n, port, hn, hlt, hport, hkind⟩ := hp
  obtain ⟨n', hn', hgrows⟩ := hk n hn
  refine ⟨n', port, hn', hgrows.outputs ▸ hlt, ?_, hkind⟩
  rw [Node.outputPort?, hgrows.definition]
  exact hport

theorem Activatable.keeps (hh : g.Activatable h) (hk : g.Keeps g' h) : g'.Activatable h := by
  obtain ⟨n, hn, hp⟩ := hh
  obtain ⟨n', hn', hgrows⟩ := hk n hn
  refine ⟨n', hn', ?_⟩
  rw [Node.isPure, hgrows.definition]
  exact hp

theorem HasExecutionOutput.keeps (hp : g.HasExecutionOutput p) (hk : g.Keeps g' p.node) :
    g'.HasExecutionOutput p := ⟨hp.1.keeps hk, hp.2.keeps hk⟩

/-- Edits of nodes that leave the tables alone. -/
theorem Joined.keeps (hg : g.Joined) (hk : ∀ h, g.Keeps g' h) (hwires : g'.wires = g.wires)
    (hlinks : g'.links = g.links) (hinputs : g'.executionInputs = g.executionInputs)
    (hroots : g'.roots = g.roots) : g'.Joined where
  wires := by
    rw [hwires]
    intro e he
    obtain ⟨hin, hout⟩ := hg.wires e he
    exact ⟨hin.keeps (hk _), hout.keeps (hk _)⟩
  links := by
    rw [hlinks]
    intro e he
    obtain ⟨hout, htargets⟩ := hg.links e he
    exact ⟨hout.keeps (hk _), fun h hh => (htargets h hh).keeps (hk h)⟩
  executionInputs := by
    rw [hinputs]
    intro input hi h hh
    exact (hg.executionInputs input hi h hh).keeps (hk h)
  roots := by
    rw [hroots]
    intro h hh
    obtain ⟨n, hn⟩ := hg.roots h hh
    obtain ⟨n', hn', -⟩ := hk h n hn
    exact ⟨n', hn'⟩
  distinct := hroots ▸ hg.distinct

theorem Sound.new (id : GraphId) (name : String) : (Graph.new id name).Sound where
  wires := List.forall_mem_nil _
  links := List.forall_mem_nil _
  executionInputs := List.forall_mem_nil _
  roots := List.forall_mem_nil _
  distinct := List.nodup_nil
  arena := Arena.Sound.empty
  registered := by
    intro h n hn
    exact (Arena.All.get? (P := fun _ => False) .empty hn).elim

theorem Sound.addNode (hg : g.Sound) (hn : n.Registered) (hroom : g.size < Arena.capacity) :
    (g.addNode n).2.Sound ∧ g.node? (g.addNode n).1 = none ∧
      ∀ h, (g.addNode n).2.node? h = if h = (g.addNode n).1 then some n else g.node? h := by
  have hfresh : g.node? (g.addNode n).1 = none := hg.arena.get?_fresh hroom n
  have hnode (h : Handle) :
      (g.addNode n).2.node? h = if h = (g.addNode n).1 then some n else g.node? h :=
    hg.arena.get?_insert hroom n h
  refine ⟨⟨?_, hg.arena.insert hroom n, ?_⟩, hfresh, hnode⟩
  · refine hg.toJoined.keeps ?_ rfl rfl rfl rfl
    intro h n' hn'
    refine ⟨n', ?_, .refl n'⟩
    rw [hnode, if_neg]
    · exact hn'
    · rintro rfl
      rw [hfresh] at hn'
      cases hn'
  · intro h n' hn'
    rw [hnode] at hn'
    split at hn'
    · cases hn'
      exact hn
    · exact hg.registered h n' hn'

theorem Sound.addRoot (hg : g.Sound) (hn : n.Registered) (hroom : g.size < Arena.capacity) :
    (g.addRoot n).2.Sound := by
  obtain ⟨hadded, hfresh, hnode⟩ := hg.addNode hn hroom
  have hnew : (g.addNode n).1 ∉ g.roots := by
    intro hr
    obtain ⟨n', hn'⟩ := hg.roots _ hr
    rw [hfresh] at hn'
    cases hn'
  refine { hadded with roots := ?_, distinct := ?_ }
  · intro h hh
    rcases List.mem_append.mp hh with hold | hnew
    · exact hadded.roots h hold
    · rw [List.mem_singleton.mp hnew]
      exact ⟨n, (hnode _).trans (if_pos rfl)⟩
  · exact List.nodup_append.mpr ⟨hg.distinct, by simp, by
      rintro h hold _ hlast rfl
      rw [List.mem_singleton.mp hlast] at hold
      exact hnew hold⟩

theorem node?_set (hn : g.node? h = some n) (n' : Node) (h' : Handle) :
    node? { g with nodes := g.nodes.set h n' } h' = if h' = h then some n' else g.node? h' :=
  Arena.get?_set hn n' h'

/-- A node gives way to a later state of itself. -/
theorem keeps_set (hn : g.node? h = some n) (hgrows : n.Grows n') (h' : Handle) :
    g.Keeps { g with nodes := g.nodes.set h n' } h' := by
  intro m hm
  by_cases he : h' = h
  · subst he
    rw [hn] at hm
    cases hm
    exact ⟨n', (node?_set hn n' h').trans (if_pos rfl), hgrows⟩
  · exact ⟨m, (node?_set hn n' h').trans ((if_neg he).trans hm), .refl m⟩

theorem Sound.replace (hg : g.Sound) (hn : g.node? h = some n) (hr : n'.Registered)
    (hgrows : n.Grows n') : Sound { g with nodes := g.nodes.set h n' } := by
  have hjoined := hg.toJoined.keeps (keeps_set hn hgrows) rfl rfl rfl rfl
  refine ⟨hjoined, hg.arena.set hn n', ?_⟩
  intro h' m hm
  rw [node?_set hn] at hm
  split at hm
  · cases hm
    exact hr
  · exact hg.registered h' m hm

theorem Sound.wire (hg : g.Sound)
    (hc : ∀ d ∈ (Change.wire source target).conditions, d.Holds g) :
    (g.changed (.wire source target)).Sound := by
  obtain ⟨-, -, hdata, ⟨n, hn⟩, hin, -⟩ := by simpa [Change.conditions] using hc
  obtain ⟨r, hfilled, hmade⟩ := hg.registered _ n hn
  have hgrows : n.Grows (n.clearConstant target.port) :=
    ⟨rfl, rfl, by simp [Node.inputCount, Node.clearConstant]⟩
  have hkeeps := keeps_set hn hgrows
  have hset := hg.replace hn ⟨r, hfilled, .clearConstant hmade⟩ hgrows
  rw [changed, nodeAt_eq hn]
  refine { hset with wires := ?_ }
  intro entry hentry
  rcases Table.mem_put hentry with rfl | hold
  · exact ⟨hin.keeps (hkeeps _), hdata.dataOutput.keeps (hkeeps _)⟩
  · exact hset.wires entry hold

theorem Sound.removeWire (hg : g.Sound) : (g.removeWire target).2.Sound := by
  refine { hg with wires := ?_ }
  intro e he
  exact hg.wires e (List.mem_filter.mp he).1

theorem Sound.update {f : Update Node α} (hg : g.Sound) (hf : Node.Offers f) (h : Handle) :
    ∃ g', ((updateNode h f).run g).map (·.2) = some g' ∧ g'.Sound := by
  obtain ⟨answer, g', hrun⟩ := updateNode_returns h f g
  refine ⟨g', by rw [hrun]; rfl, ?_⟩
  rcases updateNode_cases hrun with rfl | ⟨n, hn, rfl⟩
  · exact hg
  · obtain ⟨r, hfilled, hold⟩ := hg.registered h n hn
    exact hg.replace hn ⟨r, hfilled, hf.made r n hold⟩ (hf.grows n)

theorem Sound.link {target : Handle} (hg : g.Sound)
    (hc : ∀ d ∈ (Change.link source target).conditions, d.Holds g) :
    (g.changed (.link source target)).Sound := by
  obtain ⟨-, -, himpure, hkind, -, htarget⟩ := by simpa [Change.conditions] using hc
  refine { hg with links := ?_ }
  intro entry hentry
  rcases Table.mem_put hentry with rfl | hold
  · refine ⟨⟨himpure, hkind⟩, ?_⟩
    intro h hh
    rcases List.mem_append.mp hh with hh | hh
    · unfold targets at hh
      cases hl : g.links.get? source with
      | none => simp [hl] at hh
      | some old =>
        rw [hl] at hh
        exact (hg.links _ (Table.mem_of_lookup hl)).2 h hh
    · rw [List.mem_singleton.mp hh]
      exact htarget
  · exact hg.links entry hold

theorem Sound.addExecutionInput (hg : g.Sound) (name : String) :
    (g.addExecutionInput name).2.Sound := by
  refine { hg with executionInputs := ?_ }
  intro input hi h hh
  rcases List.mem_append.mp hi with hi | hi
  · exact hg.executionInputs input hi h hh
  · rw [List.mem_singleton.mp hi] at hh
    cases hh

/-- What an execution input activates after a link to it. -/
theorem mem_inputLink {input' : ExecutionInput}
    (hi : input' ∈ (g.changed (.inputLink ordinal h)).executionInputs) (hh : h' ∈ input'.targets) :
    (∃ input ∈ g.executionInputs, h' ∈ input.targets) ∨ h' = h := by
  obtain ⟨j, hj⟩ := List.mem_iff_getElem?.mp hi
  dsimp only [changed] at hj
  rw [List.getElem?_modify] at hj
  obtain ⟨input, hinput, rfl⟩ := Option.map_eq_some_iff.mp hj
  have hmem := List.mem_of_getElem? hinput
  split at hh
  · rcases List.mem_append.mp hh with hh | hh
    · exact .inl ⟨input, hmem, hh⟩
    · exact .inr (List.mem_singleton.mp hh)
  · exact .inl ⟨input, hmem, hh⟩

theorem Sound.inputLink (hg : g.Sound)
    (hc : ∀ d ∈ (Change.inputLink ordinal h).conditions, d.Holds g) :
    (g.changed (.inputLink ordinal h)).Sound := by
  obtain ⟨-, htarget, -⟩ := by simpa [Change.conditions] using hc
  refine { hg with executionInputs := ?_ }
  intro input' hi h' hh
  rcases mem_inputLink hi hh with ⟨input, hi, hh⟩ | rfl
  · exact hg.executionInputs input hi h' hh
  · exact htarget

theorem node?_without (hn : g.node? h = some n) (h' : Handle) :
    (g.without h).node? h' = if h' = h then none else g.node? h' := by
  have hr := Arena.remove_of_live hn
  rw [node?, without, hr]
  exact Arena.get?_remove hr h'

/-- All nodes but the removed one stay, and no table names that one any more. -/
theorem Sound.removal (hg : g.Sound) (hn : g.node? h = some n) : (g.without h).Sound := by
  have hr := Arena.remove_of_live hn
  have hnode := node?_without hn
  have hkeeps {h' : Handle} (hne : h' ≠ h) : g.Keeps (g.without h) h' := by
    intro m hm
    refine ⟨m, ?_, .refl m⟩
    rw [hnode, if_neg hne]
    exact hm
  have harena : (g.without h).nodes.Sound := by
    rw [without, hr]
    exact hg.arena.remove hr
  refine ⟨⟨?_, ?_, ?_, ?_, ?_⟩, harena, ?_⟩
  · intro entry hentry
    obtain ⟨hentry, hne⟩ := List.mem_filter.mp hentry
    simp only [ne_eq, decide_eq_true_eq] at hne
    obtain ⟨hin, hout⟩ := hg.wires entry hentry
    exact ⟨hin.keeps (hkeeps hne.1), hout.keeps (hkeeps hne.2)⟩
  · intro entry hentry
    obtain ⟨old, hold, rfl⟩ := List.mem_map.mp hentry
    obtain ⟨hold, hne⟩ := List.mem_filter.mp hold
    simp only [ne_eq, decide_eq_true_eq] at hne
    obtain ⟨hout, htargets⟩ := hg.links old hold
    refine ⟨hout.keeps (hkeeps hne), ?_⟩
    intro h' hh
    obtain ⟨hh, hne⟩ := List.mem_filter.mp hh
    exact (htargets h' hh).keeps (hkeeps (by simpa using hne))
  · intro input hi h' hh
    obtain ⟨old, hold, rfl⟩ := List.mem_map.mp hi
    obtain ⟨hh, hne⟩ := List.mem_filter.mp hh
    exact (hg.executionInputs old hold h' hh).keeps (hkeeps (by simpa using hne))
  · intro h' hh
    obtain ⟨hh, hne⟩ := List.mem_filter.mp hh
    obtain ⟨m, hm⟩ := hg.roots h' hh
    have hne : h' ≠ h := by simpa using hne
    exact ⟨m, (hnode h').trans ((if_neg hne).trans hm)⟩
  · exact hg.distinct.sublist List.filter_sublist
  · intro h' m hm
    have hm := (hnode h').symm.trans hm
    split at hm
    · cases hm
    · exact hg.registered h' m hm

theorem Sound.constant (hg : g.Sound)
    (hc : ∀ d ∈ (Change.constant p v).conditions, d.Holds g) :
    (g.changed (.constant p v)).Sound := by
  obtain ⟨-, -, n, hn, hi⟩ := by simpa [Change.conditions] using hc
  obtain ⟨r, hfilled, hmade⟩ := hg.registered _ n hn
  rw [changed, nodeAt_eq hn]
  exact hg.replace hn ⟨r, hfilled, hmade.constant hi v⟩ ⟨rfl, rfl, by simp [Node.inputCount]⟩

theorem Sound.changed {c : Change} (hg : g.Sound) (hc : ∀ d ∈ c.conditions, d.Holds g) :
    (g.changed c).Sound := by
  cases c with
  | wire source target => exact hg.wire hc
  | link source target => exact hg.link hc
  | inputLink ordinal target => exact hg.inputLink hc
  | constant input v => exact hg.constant hc
  | removal h =>
    obtain ⟨n, hn⟩ := hc _ List.mem_cons_self
    exact hg.removal hn

theorem Sound.attempt (hg : g.Sound) (c : Change) :
    ∃ g', ((attempt c).run g).map (·.2) = some g' ∧ g'.Sound := by
  have hintact (h : Handle) (n : Node) (hn : g.node? h = some n) : n.Intact :=
    (hg.registered h n hn).shaped.outputs
  obtain ⟨⟨answer, g'⟩, hrun⟩ := Option.ne_none_iff_exists'.mp (attempt_returns hintact c)
  refine ⟨g', by rw [hrun]; rfl, ?_⟩
  rcases attempt_cases hrun with rfl | ⟨hc, rfl⟩
  · exact hg
  · exact hg.changed hc

/-- Every call returns, and keeps what holds of the graph whether it succeeds or fails. -/
theorem Sound.edit (hg : g.Sound) {e : Edit} (he : e.Possible g) :
    ∃ g', g.edit e = some g' ∧ g'.Sound := by
  cases e with
  | addNode n => exact ⟨_, rfl, (hg.addNode he.1 he.2).1⟩
  | addRoot n => exact ⟨_, rfl, hg.addRoot he.1 he.2⟩
  | removeNode h => exact hg.attempt (.removal h)
  | addWire source target => exact hg.attempt (.wire source target)
  | removeWire target => exact ⟨_, rfl, hg.removeWire⟩
  | setConstant input v => exact hg.attempt (.constant input v)
  | addLink source target => exact hg.attempt (.link source target)
  | addExecutionInput name => exact ⟨_, rfl, hg.addExecutionInput name⟩
  | addInputLink ordinal target => exact hg.attempt (.inputLink ordinal target)
  | clone id => exact ⟨_, rfl, { hg with }⟩
  | setField h index v => exact hg.update (Node.setField_offers index v) h
  | addVariadic h => exact hg.update Node.addVariadic_offers h
  | setNodeConstant input v =>
    exact hg.update (Node.setConstant_offers input.port v) input.node

theorem Sound.wellFormed (hg : g.Sound) : g.WellFormed :=
  { hg with nodes := fun h n hn => (hg.registered h n hn).shaped }

/-- A node may change as long as no wired input comes by a constant. -/
theorem Exclusive.set (hx : g.Exclusive) (hn : g.node? h = some n)
    (hsame : ∀ i output v, (⟨h, i⟩, output) ∈ g.wires.entries → n'.inputs[i]? = some (some v) →
      n.inputs[i]? = some (some v)) :
    Exclusive { g with nodes := g.nodes.set h n' } := by
  rintro ⟨⟨h', i⟩, output⟩ he m hm v hv
  rw [node?_set hn] at hm
  split at hm
  · rename_i heq
    cases hm
    dsimp only at heq
    subst heq
    exact hx _ he n hn v (hsame i output v he hv)
  · exact hx _ he m hm v hv

theorem Exclusive.addNode (hx : g.Exclusive) (hg : g.Sound) (hr : n.Registered)
    (hroom : g.size < Arena.capacity) : (g.addNode n).2.Exclusive := by
  obtain ⟨-, hfresh, hnode⟩ := hg.addNode hr hroom
  intro e he m hm
  obtain ⟨⟨m', hm', -⟩, -⟩ := hg.wires e he
  rw [hnode, if_neg] at hm
  · exact hx e he m hm
  · intro heq
    rw [heq, hfresh] at hm'
    cases hm'

theorem Exclusive.removal (hx : g.Exclusive) (hn : g.node? h = some n) :
    (g.without h).Exclusive := by
  intro entry hentry m hm
  rw [node?_without hn] at hm
  split at hm
  · cases hm
  · exact hx entry (List.mem_filter.mp hentry).1 m hm

theorem Exclusive.wire (hx : g.Exclusive) (hn : g.node? target.node = some n)
    (source : PortRef) : (g.changed (.wire source target)).Exclusive := by
  have hset : Exclusive { g with
      nodes := g.nodes.set target.node (n.clearConstant target.port) } := by
    refine hx.set hn ?_
    intro i output v _ hv
    exact (Node.clearConstant_inputs.mp hv).2
  rw [changed, nodeAt_eq hn]
  intro entry hentry m hm v hv
  rcases Table.mem_put hentry with rfl | hold
  · have hm := (node?_set hn _ _).symm.trans hm
    rw [if_pos rfl] at hm
    cases hm
    exact (Node.clearConstant_inputs.mp hv).1 rfl
  · exact hset entry hold m hm v hv

theorem Exclusive.constant (hx : g.Exclusive) (hn : g.node? p.node = some n)
    (hfree : g.producer? p = none) (v : Value) :
    Exclusive { g with
      nodes := g.nodes.set p.node { n with inputs := n.inputs.set p.port (some v) } } := by
  refine hx.set hn ?_
  intro i output v' hm hv
  rw [List.getElem?_set_ne] at hv
  · exact hv
  · rintro rfl
    exact Table.not_mem_of_lookup_none hfree hm

theorem Exclusive.changed {c : Change} (hx : g.Exclusive) (hc : ∀ d ∈ c.conditions, d.Holds g) :
    (g.changed c).Exclusive := by
  cases c with
  | wire source target =>
    obtain ⟨-, -, -, ⟨n, hn⟩, -⟩ := by simpa [Change.conditions] using hc
    exact hx.wire hn source
  | constant input v =>
    obtain ⟨hfree, ⟨n, hn⟩, -⟩ := by simpa [Change.conditions] using hc
    rw [Graph.changed, nodeAt_eq hn]
    exact hx.constant hn hfree v
  | removal h =>
    obtain ⟨n, hn⟩ := hc _ List.mem_cons_self
    exact hx.removal hn
  | link source target => exact hx
  | inputLink ordinal target => exact hx

theorem Exclusive.attempt {c : Change} (hx : g.Exclusive)
    (h : ((attempt c).run g).map (·.2) = some g') : g'.Exclusive := by
  obtain ⟨⟨answer, g'⟩, hrun, rfl⟩ := Option.map_eq_some_iff.mp h
  rcases attempt_cases hrun with rfl | ⟨hc, rfl⟩
  · exact hx
  · exact hx.changed hc

theorem Exclusive.update {f : Update Node α} (hx : g.Exclusive)
    (hf : ∀ n, g.node? h = some n → Exclusive { g with nodes := g.nodes.set h (f.run n).2 })
    (e : ((updateNode h f).run g).map (·.2) = some g') : g'.Exclusive := by
  obtain ⟨⟨answer, g'⟩, hrun, rfl⟩ := Option.map_eq_some_iff.mp e
  rcases updateNode_cases hrun with rfl | ⟨n, hn, rfl⟩
  · exact hx
  · exact hf n hn

theorem Exclusive.edit (hx : g.Exclusive) (hg : g.Sound) {e : Edit} (he : e.Possible g)
    (ho : e.overrides g = false) (h : g.edit e = some g') : g'.Exclusive := by
  cases e with
  | addNode n | addRoot n =>
    cases h
    exact hx.addNode hg he.1 he.2
  | removeNode h' => exact hx.attempt (c := .removal h') h
  | addWire source target => exact hx.attempt (c := .wire source target) h
  | removeWire target =>
    cases h
    exact fun entry hentry => hx entry (List.mem_filter.mp hentry).1
  | setConstant input v => exact hx.attempt (c := .constant input v) h
  | addLink source target => exact hx.attempt (c := .link source target) h
  | addExecutionInput name | clone id =>
    cases h
    exact hx
  | addInputLink ordinal target => exact hx.attempt (c := .inputLink ordinal target) h
  | setField h' index v =>
    refine hx.update (fun n hn => ?_) h
    rw [Node.setField_run]
    exact hx.set hn fun _ _ _ _ hv => hv
  | addVariadic h' =>
    refine hx.update (fun n hn => ?_) h
    rw [Update.run_discard, Node.addVariadic_run]
    split
    · exact hx.set hn fun _ _ _ _ hv => hv
    · refine hx.set hn ?_
      intro i output v _ hv
      rw [List.getElem?_append] at hv
      split at hv
      · exact hv
      · rw [List.getElem?_singleton] at hv
        split at hv <;> cases hv
  | setNodeConstant input v =>
    have hfree : g.producer? input = none := by simpa [Edit.overrides] using ho
    refine hx.update (fun n hn => ?_) h
    rw [Node.setConstant_run]
    split
    · exact hx.constant hn hfree v
    · exact hx.set hn fun _ _ _ _ hv => hv

theorem Sound.edits (hg : g.Sound) {edits : List Edit} (h : g.Permits edits) :
    ∃ g', edits.foldlM Graph.edit g = some g' ∧ g'.Sound := by
  induction edits generalizing g with
  | nil => exact ⟨g, rfl, hg⟩
  | cons e edits ih =>
    obtain ⟨he, hrest⟩ := h
    obtain ⟨g₁, hedit, hg₁⟩ := hg.edit he
    rw [hedit] at hrest
    obtain ⟨g', hfold, hg'⟩ := ih hg₁ hrest
    exact ⟨g', by rw [List.foldlM_cons, hedit]; exact hfold, hg'⟩

theorem Exclusive.edits (hx : g.Exclusive) (hg : g.Sound) {edits : List Edit}
    (h : g.Permits edits) (hr : g.Respects edits) (hfold : edits.foldlM Graph.edit g = some g') :
    g'.Exclusive := by
  induction edits generalizing g with
  | nil =>
    cases hfold
    exact hx
  | cons e edits ih =>
    obtain ⟨he, hrest⟩ := h
    obtain ⟨ho, hrespects⟩ := hr
    obtain ⟨g₁, hedit, hg₁⟩ := hg.edit he
    rw [hedit] at hrest hrespects
    rw [List.foldlM_cons, hedit] at hfold
    exact ih (hx.edit hg he ho hedit) hg₁ hrest hrespects hfold

end Graph

/-- What holds of a graph whatever was done to it since its making. All calls return, those that
fail included. The wires of the graph lead from data outputs of live nodes to inputs of live nodes,
execution goes from execution outputs to live nodes that are not pure, each root is live and listed
once, and nodes have the parts that their types declare. As long as constants are kept off wired
inputs, no input has both a producer and a constant. -/
theorem graph_representation_invariant {id : GraphId} {name : String} {edits : List Edit}
    (h : (Graph.new id name).Permits edits) :
    ∃ g, edits.foldlM Graph.edit (.new id name) = some g ∧ g.WellFormed ∧
      ((Graph.new id name).Respects edits → g.Exclusive) := by
  have hnew := Graph.Sound.new id name
  obtain ⟨g, hfold, hg⟩ := hnew.edits h
  refine ⟨g, hfold, hg.wellFormed, fun hr => ?_⟩
  have hempty : (Graph.new id name).Exclusive := List.forall_mem_nil _
  exact hempty.edits hnew h hr hfold

namespace Rewiring

/-- A number that a start has printed. The number is taken away and another one put in its slot,
under a new version; a wire to the old one and a constant beside the wire are refused. -/
def edits : List Edit :=
  [.addRoot (.new Builtin.onStart), .addNode (.new Builtin.integer), .addNode (.new Builtin.print),
    .setNodeConstant ⟨⟨3, 1⟩, 0⟩ (.int 5), .addWire ⟨⟨2, 1⟩, 0⟩ ⟨⟨3, 1⟩, 0⟩,
    .addLink ⟨⟨1, 1⟩, 0⟩ ⟨3, 1⟩, .removeNode ⟨2, 1⟩, .addNode (.new Builtin.integer),
    .addWire ⟨⟨2, 1⟩, 0⟩ ⟨⟨3, 1⟩, 0⟩, .addWire ⟨⟨2, 3⟩, 0⟩ ⟨⟨3, 1⟩, 0⟩,
    .setConstant ⟨⟨3, 1⟩, 0⟩ (.int 5)]

def empty : Graph := .new (.ofNat 1) "rewired"

def graph : Graph := (edits.foldlM Graph.edit empty).getD default

theorem graph_eq : edits.foldlM Graph.edit empty = some graph := rfl

theorem registered (type : String) {n : Node} (h : Registry.builtins.create type = .ok n) :
    n.Registered := ⟨.builtins, Registry.builtins_filled, .create h⟩

theorem permitted : empty.Permits edits := by
  have hstart : (Node.new Builtin.onStart).Registered := registered "on-start" rfl
  have hinteger : (Node.new Builtin.integer).Registered := registered "integer" rfl
  have hprint : (Node.new Builtin.print).Registered := registered "print" rfl
  exact ⟨⟨hstart, by decide⟩, ⟨hinteger, by decide⟩, ⟨hprint, by decide⟩, trivial, trivial, trivial,
    trivial, ⟨hinteger, by decide⟩, trivial, trivial, trivial, trivial⟩

theorem respected : empty.Respects edits :=
  ⟨rfl, rfl, rfl, rfl, rfl, rfl, rfl, rfl, rfl, rfl, rfl, trivial⟩

end Rewiring

/-- The wire that was laid to the reused slot leads from a live number, and the constant that stood
on the input before is gone. -/
theorem graph_representation_invariant_rewiring :
    Rewiring.empty.Permits Rewiring.edits ∧ Rewiring.empty.Respects Rewiring.edits ∧
    Rewiring.graph.producer? ⟨⟨3, 1⟩, 0⟩ = some ⟨⟨2, 3⟩, 0⟩ ∧
    Rewiring.graph.HasDataOutput ⟨⟨2, 3⟩, 0⟩ ∧
    ∀ n, Rewiring.graph.node? ⟨3, 1⟩ = some n → ∀ v, n.inputs[0]? ≠ some (some v) := by
  obtain ⟨g, hg, hformed, hexclusive⟩ := graph_representation_invariant Rewiring.permitted
  cases Rewiring.graph_eq.symm.trans hg
  have hwire : Rewiring.graph.producer? ⟨⟨3, 1⟩, 0⟩ = some ⟨⟨2, 3⟩, 0⟩ := rfl
  have hentry := Table.mem_of_lookup hwire
  exact ⟨Rewiring.permitted, Rewiring.respected, hwire, (hformed.wires _ hentry).2,
    hexclusive Rewiring.respected _ hentry⟩

end Flowgraph
