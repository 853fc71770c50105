import Flowgraph.Proofs.Slots
import Mathlib.Data.List.Basic

namespace Flowgraph

/-- A call that changes what a graph holds and may be refused. -/
inductive Change where
  | wire (source target : PortRef)
  | link (source : PortRef) (target : Handle)
  | inputLink (ordinal : Nat) (target : Handle)
  | constant (input : PortRef) (v : Value)
  | removal (h : Handle)

/-- What a call can demand of a graph. -/
inductive Condition where
  | live (h : Handle)
  | impure (h : Handle)
  | output (p : PortRef)
  | data (p : PortRef)
  | execution (p : PortRef)
  | input (p : PortRef)
  | unwired (p : PortRef)
  | ordinal (i : Nat)

/-- What a call demands, in the order in which it is checked. -/
def Change.conditions : Change → List Condition
  | .wire source target =>
    [.live source.node, .output source, .data source, .live target.node, .input target,
      .unwired target]
  | .link source target =>
    [.live source.node, .output source, .impure source.node, .execution source, .live target,
      .impure target]
  | .inputLink ordinal target => [.live target, .impure target, .ordinal ordinal]
  | .constant input _ => [.unwired input, .live input.node, .input input]
  | .removal h => [.live h]

/-- The node has as many outputs as its type declares. -/
def Node.Intact (n : Node) : Prop := n.outputCount = n.definition.metadata.outputs.length

namespace Graph

def attempt : Change → Editor Unit
  | .wire source target => addWire source target
  | .link source target => addLink source target
  | .inputLink ordinal target => addInputLink ordinal target
  | .constant input v => setConstant input v
  | .removal h => do let _ ← removeNode h

/-- Calls one after the other, until one of them fails. -/
def attemptAll (cs : List Change) : Editor Unit := cs.forM attempt

/-- The graph holds a node under the handle. -/
def Live (g : Graph) (h : Handle) : Prop := ∃ n, g.node? h = some n

/-- The handle is that of a node that execution can reach. -/
def Activatable (g : Graph) (h : Handle) : Prop := ∃ n, g.node? h = some n ∧ n.isPure = false

def HasInput (g : Graph) (p : PortRef) : Prop :=
  ∃ n, g.node? p.node = some n ∧ p.port < n.inputCount

/-- The node has such an output, and its type declares it of the kind that is asked for. -/
def HasOutput (g : Graph) (p : PortRef) (kind : Port → Prop) : Prop :=
  ∃ n port, g.node? p.node = some n ∧ p.port < n.outputCount ∧ n.outputPort? p.port = some port ∧
    kind port

/-- The node of an error message. -/
def nodeAt (g : Graph) (h : Handle) : Node := (g.node? h).getD default

theorem nodeAt_eq {g : Graph} (hn : g.node? h = some n) : g.nodeAt h = n := by
  rw [nodeAt, hn]
  rfl

theorem not_live {g : Graph} (hn : g.node? h = none) : ¬ g.Live h := by
  rintro ⟨n, hn'⟩
  rw [hn] at hn'
  cases hn'

theorem not_hasInput {g : Graph} {p : PortRef} (hn : g.node? p.node = some n)
    (hp : ¬ p.port < n.inputCount) : ¬ g.HasInput p := by
  rintro ⟨n', hn', hp'⟩
  cases hn.symm.trans hn'
  exact hp hp'

theorem not_hasOutput {g : Graph} {p : PortRef} {kind : Port → Prop}
    (hn : g.node? p.node = some n) (hport : n.outputPort? p.port = some port)
    (hkind : ¬ kind port) : ¬ g.HasOutput p kind := by
  rintro ⟨n', port', hn', -, hport', hkind'⟩
  cases hn.symm.trans hn'
  cases hport.symm.trans hport'
  exact hkind hkind'

/-- What becomes of the graph when nothing stands against the call. -/
def changed (g : Graph) : Change → Graph
  | .wire source target =>
    { g with
      nodes := g.nodes.set target.node ((g.nodeAt target.node).clearConstant target.port)
      wires := g.wires.insert target source }
  | .link source target => { g with links := g.links.insert source (g.targets source ++ [target]) }
  | .inputLink ordinal target =>
    { g with executionInputs :=
        g.executionInputs.modify ordinal fun i => { i with targets := i.targets ++ [target] } }
  | .constant input v =>
    let n := g.nodeAt input.node
    { g with nodes := g.nodes.set input.node { n with inputs := n.inputs.set input.port (some v) } }
  | .removal h => g.without h

end Graph

namespace Condition

def Holds (g : Graph) : Condition → Prop
  | .live h => g.Live h
  | .impure h => g.Activatable h
  | .output p => ∃ n, g.node? p.node = some n ∧ p.port < n.outputCount
  | .data p => g.HasOutput p fun port => port.kind ≠ .execution
  | .execution p => g.HasOutput p fun port => port.kind = .execution
  | .input p => g.HasInput p
  | .unwired p => g.producer? p = none
  | .ordinal i => i < g.executionInputs.length

/-- The error of a condition that does not hold. -/
def error (g : Graph) : Condition → Error
  | .live h => .nodeNotFound h
  | .impure h => .pureExecutionEdge (g.nodeAt h).nodeType
  | .output p =>
    .portOutOfRange (g.nodeAt p.node).nodeType .output p.port (g.nodeAt p.node).outputCount
  | .data p => .notDataPort (g.nodeAt p.node).nodeType p.port
  | .execution p => .notExecutionPort (g.nodeAt p.node).nodeType p.port
  | .input p =>
    .portOutOfRange (g.nodeAt p.node).nodeType .input p.port (g.nodeAt p.node).inputCount
  | .unwired p => .inputAlreadyConnected p.node p.port
  | .ordinal i => .executionInputOutOfRange i g.executionInputs.length

/-- The first condition of the list that does not hold. -/
def FirstBroken (g : Graph) (conditions : List Condition) (c : Condition) : Prop :=
  ∃ before after, conditions = before ++ c :: after ∧ (∀ d ∈ before, d.Holds g) ∧ ¬ c.Holds g

/-- The condition is about the kind of an output that the node has and its type does not declare. -/
def Undeclared (g : Graph) : Condition → Prop
  | .data p | .execution p =>
    ∃ n, g.node? p.node = some n ∧ p.port < n.outputCount ∧ n.outputPort? p.port = none
  | _ => False

theorem Undeclared.not_holds {g : Graph} {c : Condition} (h : c.Undeclared g) : ¬ c.Holds g := by
  intro hc
  cases c with
  | data p | execution p =>
    obtain ⟨n, hn, -, hnone⟩ := h
    obtain ⟨n', port, hn', -, hport, -⟩ := hc
    cases hn.symm.trans hn'
    cases hnone.symm.trans hport
  | _ => exact h

theorem Undeclared.not_intact {g : Graph} {c : Condition} (h : c.Undeclared g) :
    ∃ h n, g.node? h = some n ∧ ¬ n.Intact := by
  cases c with
  | data p | execution p =>
    obtain ⟨n, hn, hlt, hnone⟩ := h
    refine ⟨p.node, n, hn, ?_⟩
    intro hintact
    have hle := List.getElem?_eq_none_iff.mp hnone
    rw [← hintact] at hle
    exact absurd hlt (Nat.not_lt.mpr hle)
  | _ => exact h.elim

end Condition

/-- Conditions are checked one after the other. The first that does not hold gives the error and
leaves the graph as it is, and after the last the call has done its work. A call does not return if
it asks for the kind of an undeclared output. -/
inductive Checked (g after : Graph) :
    List Condition → Option (Except Error Unit × Graph) → Prop where
  | done : Checked g after [] (some (.ok (), after))
  | broken (broken : ¬ c.Holds g) : Checked g after (c :: rest) (some (.error (c.error g), g))
  | stopped (undeclared : c.Undeclared g) : Checked g after (c :: rest) none
  | holds (holds : c.Holds g) (checked : Checked g after rest r) : Checked g after (c :: rest) r

namespace Checked

variable {g g' after : Graph} {conditions rest : List Condition} {c : Condition} {e : Error}
variable {r : Option (Except Error Unit × Graph)} {n : Node} {h : Handle} {p : PortRef}

theorem ok_iff (hc : Checked g after conditions r) :
    (∃ g', r = some (.ok (), g')) ↔ ∀ c ∈ conditions, c.Holds g := by
  induction hc with
  | done => simp
  | broken broken => simp [broken]
  | stopped undeclared => simp [undeclared.not_holds]
  | holds holds _ ih => simp [holds, ih]

theorem of_ok (hc : Checked g after conditions r) (hr : r = some (.ok (), g')) : g' = after := by
  induction hc with
  | done =>
    cases hr
    rfl
  | broken => cases hr
  | stopped => cases hr
  | holds _ _ ih => exact ih hr

theorem of_error (hc : Checked g after conditions r) (hr : r = some (.error e, g')) :
    g' = g ∧ ∃ c, Condition.FirstBroken g conditions c ∧ e = c.error g := by
  induction hc with
  | done => cases hr
  | broken broken =>
    cases hr
    exact ⟨rfl, _, ⟨[], _, rfl, List.forall_mem_nil _, broken⟩, rfl⟩
  | stopped => cases hr
  | holds holds _ ih =>
    obtain ⟨hg, c, ⟨before, after, rfl, hbefore, hbroken⟩, he⟩ := ih hr
    exact ⟨hg, c, ⟨_ :: before, after, rfl, List.forall_mem_cons.mpr ⟨holds, hbefore⟩, hbroken⟩, he⟩

theorem of_none (hc : Checked g after conditions r) (hr : r = none) :
    ∃ c ∈ conditions, c.Undeclared g := by
  induction hc with
  | done => cases hr
  | broken => cases hr
  | stopped undeclared => exact ⟨_, List.mem_cons_self, undeclared⟩
  | holds _ _ ih =>
    obtain ⟨c, hc, hundeclared⟩ := ih hr
    exact ⟨c, List.mem_cons_of_mem _ hc, hundeclared⟩

theorem node (next : Node → Graph.Editor Unit)
    (hnext : ∀ n, g.node? h = some n → Checked g after rest ((next n).run g)) :
    Checked g after (.live h :: rest) ((liftM (g.node h) >>= next).run g) := by
  rw [Graph.Editor.run_look_bind]
  cases hn : g.node? h with
  | none =>
    rw [Graph.node_eq_error.mpr ⟨hn, rfl⟩]
    exact .broken (c := .live h) (Graph.not_live hn)
  | some n =>
    rw [Graph.node_eq_ok.mpr hn]
    exact .holds ⟨n, hn⟩ (hnext n hn)

theorem output (hn : g.node? p.node = some n) (next : Unit → Graph.Editor Unit)
    (hnext : p.port < n.outputCount → Checked g after rest ((next ()).run g)) :
    Checked g after (.output p :: rest) ((liftM (n.output p.port) >>= next).run g) := by
  rw [Graph.Editor.run_look_bind]
  by_cases hp : p.port < n.outputCount
  · rw [Node.output_of_lt hp]
    exact .holds ⟨n, hn, hp⟩ (hnext hp)
  · rw [Node.output_of_not_lt hp, ← Graph.nodeAt_eq hn]
    refine .broken (c := .output p) ?_
    rintro ⟨n', hn', hp'⟩
    cases hn.symm.trans hn'
    exact hp hp'

/-- The kind of an output that is there decides between going on and an error. -/
theorem kind (next : Port → Graph.Editor Unit)
    (hnone : n.outputPort? p.port = none → c.Undeclared g) (hnext :
      ∀ port, n.outputPort? p.port = some port → Checked g after (c :: rest) ((next port).run g)) :
    Checked g after (c :: rest) ((liftM (n.outputPort? p.port) >>= next).run g) := by
  rw [Graph.Editor.run_lookup_bind]
  cases hport : n.outputPort? p.port with
  | none => exact .stopped (hnone hport)
  | some port => exact hnext port hport

theorem data (hn : g.node? p.node = some n) (hp : p.port < n.outputCount)
    (next : Graph.Editor Unit) (hnext : Checked g after rest (next.run g)) :
    Checked g after (.data p :: rest) ((do
      if (← n.outputPort? p.port).isExecution then throw (.notDataPort n.nodeType p.port)
      else next : Graph.Editor Unit).run g) := by
  refine kind _ (fun hnone => ⟨n, hn, hp, hnone⟩) ?_
  intro port hport
  split
  · rename_i hx
    rw [← Graph.nodeAt_eq hn]
    refine .broken (c := .data p) (Graph.not_hasOutput hn hport ?_)
    simpa [Port.isExecution] using hx
  · rename_i hx
    refine .holds ⟨n, port, hn, hp, hport, ?_⟩ hnext
    simpa [Port.isExecution] using hx

theorem execution (hn : g.node? p.node = some n) (hp : p.port < n.outputCount)
    (next : Graph.Editor Unit) (hnext : Checked g after rest (next.run g)) :
    Checked g after (.execution p :: rest) ((do
      if !(← n.outputPort? p.port).isExecution then throw (.notExecutionPort n.nodeType p.port)
      else next : Graph.Editor Unit).run g) := by
  refine kind _ (fun hnone => ⟨n, hn, hp, hnone⟩) ?_
  intro port hport
  split
  · rename_i hx
    rw [← Graph.nodeAt_eq hn]
    refine .broken (c := .execution p) (Graph.not_hasOutput hn hport ?_)
    simpa [Port.isExecution] using hx
  · rename_i hx
    refine .holds ⟨n, port, hn, hp, hport, ?_⟩ hnext
    simpa [Port.isExecution] using hx

theorem input (hn : g.node? p.node = some n) (next : Option Value → Graph.Editor Unit)
    (hnext : ∀ constant, p.port < n.inputCount → Checked g after rest ((next constant).run g)) :
    Checked g after (.input p :: rest) ((liftM (n.input p.port) >>= next).run g) := by
  rw [Graph.Editor.run_look_bind]
  by_cases hp : p.port < n.inputCount
  · obtain ⟨constant, hc⟩ := Node.input_of_lt hp
    rw [hc]
    exact .holds ⟨n, hn, hp⟩ (hnext constant hp)
  · rw [Node.input_of_not_lt hp, ← Graph.nodeAt_eq hn]
    exact .broken (c := .input p) (Graph.not_hasInput hn hp)

theorem impure (hn : g.node? h = some n) (next : Graph.Editor Unit)
    (hnext : Checked g after rest (next.run g)) :
    Checked g after (.impure h :: rest)
      ((if n.isPure then throw (.pureExecutionEdge n.nodeType) else next :
        Graph.Editor Unit).run g) := by
  split
  · rename_i hp
    rw [← Graph.nodeAt_eq hn]
    refine .broken (c := .impure h) ?_
    rintro ⟨n', hn', hp'⟩
    cases hn.symm.trans hn'
    rw [hp] at hp'
    cases hp'
  · rename_i hp
    rw [Bool.not_eq_true] at hp
    exact .holds ⟨n, hn, hp⟩ hnext

/-- A node that execution is to come to is live and not pure. -/
theorem target (next : Unit → Graph.Editor Unit)
    (hnext : Checked g after rest ((next ()).run g)) :
    Checked g after (.live h :: .impure h :: rest)
      ((liftM (g.checkTarget h) >>= next).run g) := by
  rw [Graph.Editor.run_look_bind]
  unfold Graph.checkTarget
  cases hn : g.node? h with
  | none =>
    rw [Graph.node_eq_error.mpr ⟨hn, rfl⟩]
    exact .broken (c := .live h) (Graph.not_live hn)
  | some n =>
    rw [Graph.node_eq_ok.mpr hn]
    refine .holds ⟨n, hn⟩ ?_
    have hguard := impure hn (next ()) hnext
    split at hguard
    · rename_i hp
      simpa [bind, Except.bind, hp] using hguard
    · rename_i hp
      simpa [bind, Except.bind, hp] using hguard

theorem unwired (next : Graph.Editor Unit) (hnext : Checked g after rest (next.run g)) :
    Checked g after (.unwired p :: rest)
      ((if g.wires.contains p then throw (.inputAlreadyConnected p.node p.port) else next :
        Graph.Editor Unit).run g) := by
  split
  · rename_i hwired
    refine .broken (c := .unwired p) ?_
    intro hfree
    have hnone : g.wires.get? p = none := hfree
    simp [Table.contains, hnone] at hwired
  · rename_i hfree
    refine .holds ?_ hnext
    simpa [Condition.Holds, Table.contains, Graph.producer?] using hfree

end Checked

namespace Graph

variable {g g' : Graph}

theorem addWire_checked (g : Graph) (source target : PortRef) :
    Checked g (g.changed (.wire source target)) (Change.wire source target).conditions
      ((addWire source target).run g) := by
  unfold addWire
  rw [Editor.run_get_bind]
  refine .node _ ?_
  intro n hn
  refine .output hn _ ?_
  intro hp
  refine .data hn hp _ ?_
  refine .node _ ?_
  intro m hm
  refine .input hm _ ?_
  intro _ _
  refine .unwired _ ?_
  -- The target is looked up once more, and is still the node it was.
  rw [Editor.run_bind_of_some (updateNode_of_live hm _), changed, nodeAt_eq hm]
  exact .done

theorem addLink_checked (g : Graph) (source : PortRef) (target : Handle) :
    Checked g (g.changed (.link source target)) (Change.link source target).conditions
      ((addLink source target).run g) := by
  unfold addLink
  rw [Editor.run_get_bind]
  refine .node _ ?_
  intro n hn
  refine .output hn _ ?_
  intro hp
  refine .impure hn _ ?_
  refine .execution hn hp _ ?_
  exact .target _ .done

theorem addInputLink_checked (g : Graph) (ordinal : Nat) (target : Handle) :
    Checked g (g.changed (.inputLink ordinal target)) (Change.inputLink ordinal target).conditions
      ((addInputLink ordinal target).run g) := by
  unfold addInputLink
  rw [Editor.run_get_bind]
  refine .target _ ?_
  split
  · rename_i hnone
    refine .broken (c := .ordinal ordinal) ?_
    intro hlt
    exact absurd hlt (Nat.not_lt.mpr (List.getElem?_eq_none_iff.mp hnone))
  · rename_i input hinput
    refine .holds (List.getElem?_eq_some_iff.mp hinput).1 ?_
    rw [changed, List.modify_eq_set_getElem?, hinput]
    exact .done

theorem setConstant_checked (g : Graph) (input : PortRef) (v : Value) :
    Checked g (g.changed (.constant input v)) (Change.constant input v).conditions
      ((setConstant input v).run g) := by
  unfold setConstant
  rw [Editor.run_get_bind]
  refine .unwired _ ?_
  cases hn : g.node? input.node with
  | none =>
    rw [updateNode_of_missing hn]
    exact .broken (c := .live input.node) (not_live hn)
  | some n =>
    rw [updateNode_of_live hn, Node.setConstant_run]
    refine .holds ⟨n, hn⟩ ?_
    split
    · rename_i hp
      refine .holds ⟨n, hn, hp⟩ ?_
      rw [changed, nodeAt_eq hn]
      exact .done
    · rename_i hp
      -- The node is put back as it was.
      rw [Arena.set_self hn, ← nodeAt_eq hn]
      exact .broken (c := .input input) (not_hasInput hn hp)

theorem removeNode_checked (g : Graph) (h : Handle) :
    Checked g (g.changed (.removal h)) (Change.removal h).conditions
      ((attempt (.removal h)).run g) := by
  cases hn : g.node? h with
  | none =>
    rw [attempt, Editor.run_bind, removeNode_of_missing hn]
    exact .broken (c := .live h) (not_live hn)
  | some n =>
    rw [attempt, Editor.run_bind_of_some (removeNode_of_live hn)]
    exact .holds ⟨n, hn⟩ .done

theorem attempt_checked (g : Graph) (c : Change) :
    Checked g (g.changed c) c.conditions ((attempt c).run g) := by
  cases c with
  | wire source target => exact addWire_checked g source target
  | link source target => exact addLink_checked g source target
  | inputLink ordinal target => exact addInputLink_checked g ordinal target
  | constant input v => exact setConstant_checked g input v
  | removal h => exact removeNode_checked g h

/-- Every call returns if nodes have the outputs that their types declare. -/
theorem attempt_returns (hg : ∀ h n, g.node? h = some n → n.Intact) (c : Change) :
    (attempt c).run g ≠ none := by
  intro hnone
  obtain ⟨d, -, hd⟩ := (g.attempt_checked c).of_none hnone
  obtain ⟨h, n, hn, hbroken⟩ := hd.not_intact
  exact hbroken (hg h n hn)

/-- A call that returns has found all it demands or has left the graph as it was. -/
theorem attempt_cases {c : Change} (h : (attempt c).run g = some (answer, g')) :
    g' = g ∨ (∀ d ∈ c.conditions, d.Holds g) ∧ g' = g.changed c := by
  have hc := g.attempt_checked c
  cases answer with
  | ok => exact .inr ⟨hc.ok_iff.mp ⟨g', h⟩, hc.of_ok h⟩
  | error e => exact .inl (hc.of_error h).1

end Graph

end Flowgraph
