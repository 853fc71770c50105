import Flowgraph.Proofs.Agreement
import Flowgraph.Proofs.Coverage
import Flowgraph.Proofs.Memoization

namespace Flowgraph

/-- No graph under evaluation passes for `g` without being it. -/
def Memory.Keeps (μ : Memory) (g : Graph) : Prop := ∀ g' ∈ μ.graphs, g'.id = g.id → g' = g

/-- What is left of a body of `g` goes on as the worth of its node demands. -/
def Activation.Conforms (a : Activation) (g : Graph) (rest : Program Unit) (s : Session) : Prop :=
  (a.definition.isPure = true → rest.Leads (fun port v => port = 0 ∧ g.Denotes a.handle v)
    (fun result s => g.Ends a.handle s.cache result) s) ∧
  (a.definition.isPure = false → rest.Silent)

/-- A session at work on `g`, which nobody edits meanwhile. -/
structure Refines (g : Graph) (fs : List Frame) (cs : List Handle) (m : Machine) : Prop where
  stacked : Stacked fs cs m
  supplied : m.Supplied
  keeps : m.session.memory.Keeps g
  agrees : m.session.memory.Agrees g
  running : ∀ a rest, m.control = .running a rest → a.graph = g → a.Conforms g rest m.session
  held : ∀ w ∈ m.suspended, w.activation.graph = g →
    w.activation.definition.isPure = false ∧ ∀ result, (w.next result).Silent

theorem Memory.Keeps.step {m m' : Machine} (hk : m.session.memory.Keeps g) (h : Step m l m')
    (hl : ∀ g' entry, l = .entered g' entry → g'.id = g.id → g' = g) :
    m'.session.memory.Keeps g := by
  obtain ⟨-, hgraphs | hgraphs | ⟨g', entry, rfl, hgraphs, -⟩⟩ := h.graphs
  all_goals
    intro g₀ hm
    rw [hgraphs] at hm
  · exact hk g₀ hm
  · exact hk g₀ (List.mem_of_mem_tail hm)
  · rcases List.mem_cons.mp hm with rfl | hm
    · exact hl g₀ entry rfl
    · exact hk g₀ hm

/-- A body of `g` starts on the right track. -/
theorem Activation.conforms_of_start {s : Session} (hA : s.memory.Agrees g)
    (hG : g.IsBuiltin) {a : Activation} (ha : a.graph = g) (hs : a.Supplied s.memory)
    (hn : g.node? a.handle = some n) (hdef : n.definition = a.definition)
    (hc : s.current = .ok ⟨a.handle, g, n⟩) (hb : a.definition.body = some body) :
    a.Conforms g body s := by
  obtain ⟨hbuiltin, hintact⟩ := hG a.handle n hn
  refine ⟨?_, ?_⟩
  · intro hp
    have hpure : n.isPure = true := by rw [Node.isPure, hdef, hp]
    have hreads := hA.reads hs ha hn hc
    have hdelivers : Builtin.Delivers s ⟨a.handle, g, n⟩
        (fun port v => port = 0 ∧ g.Denotes a.handle v)
        (fun result s => g.Ends a.handle s.cache result) := by
      refine ⟨hc, hintact, ?_, ?_⟩
      · intro v hv
        refine ⟨⟨rfl, (hreads.denotes_iff hn hpure).mpr hv⟩, v, ?_⟩
        simp [Table.get?_insert]
      · intro hnone e v hv
        rw [hreads.denotes_iff hn hpure, hnone] at hv
        cases hv
    exact hdelivers.leads hbuiltin hpure (hdef ▸ hb)
  · intro hp
    exact Builtin.silent_of_impure (hdef ▸ hbuiltin) hp hb

theorem Activation.Conforms.perform {a : Activation} {op : Operation}
    {next : op.Reply → Program Unit} {s : Session} (h : a.Conforms g (.perform op next) s) :
    a.Conforms g (next (op.run s).1) (op.run s).2 :=
  ⟨fun hp => (h.1 hp).2, fun hp => (h.2 hp).2 _⟩

namespace Refines

/-- A body that seems to belong to `g` does. -/
theorem own (hR : Refines g fs cs m) (ha : a ∈ m.active) (hid : a.graph.id = g.id) :
    a.graph = g := hR.keeps a.graph (hR.stacked.graph_mem ha) hid

theorem own_draining (hR : Refines g fs cs m) (hd : m.control = .draining g')
    (hid : g'.id = g.id) : g' = g := by
  have hs := hR.stacked
  simp only [Stacked, hd] at hs
  obtain ⟨frame, rest, hf, rfl, -⟩ := hs
  refine hR.keeps frame.graph ?_ hid
  rw [Memory.graphs, hf]
  exact List.mem_cons_self

theorem agrees_step (hR : Refines g fs cs m) (hG : g.IsBuiltin) (h : Step m l m') :
    m'.session.memory.Agrees g := by
  have heffect := h.effect hR.stacked
  cases heffect with
  | quiet same => exact hR.agrees.sameResults same
  | output cache evaluated dropped =>
    rename_i a port v
    refine hR.agrees.output cache evaluated dropped ?_
    intro hid
    cases h with
    | perform =>
      obtain ⟨hpure, himpure⟩ := hR.running a _ rfl (hR.own List.mem_cons_self hid)
      cases hp : a.definition.isPure with
      | true => exact (hpure hp).1 port v rfl
      | false => exact absurd rfl ((himpure hp).1 port v)
  | drop cache evaluated dropped =>
    rename_i node e g'
    refine hR.agrees.drop cache evaluated dropped ?_
    intro hid n hn
    obtain rfl := hR.own_draining (by cases h; rfl) hid
    cases h with
    | settle hd he hv hne =>
      have hbody := Builtin.body_ne_none (hG node n hn).1
      refine Memory.Agrees.not_ready ?_ hbody hn hv
      rw [Session.countStep_memory]
      exact hR.agrees.sameResults (Session.dequeue?_sameResults hd)
  | finish cache evaluated dropped =>
    rename_i result a
    cases h with
    | finish =>
      have hown := hR.own (a := a) List.mem_cons_self
      refine hR.agrees.finish cache evaluated dropped ?_ ?_ ?_
      · intro hid
        obtain ⟨n, hn, hdef, -⟩ := hR.stacked.current rfl
        exact ⟨n, hown hid ▸ hn, hdef⟩
      · intro hid
        exact hR.agrees.ready_of_supplied (hR.supplied a List.mem_cons_self) (hown hid)
      · intro hid hp
        exact (hR.running a _ rfl (hown hid)).1 hp

theorem running_step (hR : Refines g fs cs m) (hG : g.IsBuiltin) (h : Step m l m')
    (hr : m'.control = .running a rest) (ha : a.graph = g) : a.Conforms g rest m'.session := by
  have hstacked := hR.stacked.step h
  have hsupplied := hR.supplied.step hR.stacked h
  have hagrees := hR.agrees_step hG h
  cases h with
  | start hd he hv =>
    cases hr
    obtain ⟨n, hn, hdef, hc⟩ := hstacked.current rfl
    subst ha
    cases Session.verdict_judged hv with
    | due kept live new nothing body =>
      have hinputs := hsupplied _ List.mem_cons_self
      exact Activation.conforms_of_start hagrees hG rfl hinputs hn hdef hc body
  | perform =>
    cases hr
    exact (hR.running _ _ rfl ha).perform
  | unresolved hres =>
    cases hr
    obtain ⟨hpure, himpure⟩ := hR.running _ _ rfl ha
    exact ⟨fun hp => (hpure hp).elim, fun hp => himpure hp _⟩
  | resume =>
    cases hr
    -- No pure body has asked for the evaluation that ends here.
    obtain ⟨himpure, hsilent⟩ := hR.held _ List.mem_cons_self ha
    refine ⟨?_, fun _ => hsilent _⟩
    intro hp
    rw [himpure] at hp
    cases hp
  | refuse | enter | drained | exhaust | settle | call | finish => cases hr

theorem held_step (hR : Refines g fs cs m) (h : Step m l m') (hw : w ∈ m'.suspended)
    (ha : w.activation.graph = g) :
    w.activation.definition.isPure = false ∧ ∀ result, (w.next result).Silent := by
  cases h with
  | call hres =>
    rcases List.mem_cons.mp hw with rfl | hw
    · obtain ⟨hpure, himpure⟩ := hR.running _ _ rfl ha
      cases hp : (Suspended.activation _).definition.isPure with
      | true => exact (hpure hp).elim
      | false => exact ⟨rfl, himpure hp⟩
    · exact hR.held w hw ha
  | resume => exact hR.held w (List.mem_cons_of_mem _ hw) ha
  | _ => exact hR.held w hw ha

theorem step (hR : Refines g fs cs m) (hG : g.IsBuiltin)
    (hl : ∀ g' entry, l = .entered g' entry → g'.id = g.id → g' = g) (h : Step m l m') :
    Refines g fs cs m' where
  stacked := hR.stacked.step h
  supplied := hR.supplied.step hR.stacked h
  keeps := hR.keeps.step h hl
  agrees := hR.agrees_step hG h
  running _ _ := hR.running_step hG h
  held _ := hR.held_step h

theorem move (hR : Refines g [] [] m) (h : Move m m') : Refines g [] [] m' where
  stacked := hR.stacked.move h
  supplied := by
    intro a ha
    rw [h.active.2] at ha
    cases ha
  keeps := by
    cases h with
    | perform op =>
      unfold Memory.Keeps
      rw [(op.run_sameStacks _).graphs]
      exact hR.keeps
    | equip | call | collect => exact hR.keeps
  agrees := hR.agrees.sameResults (h.sameResults hR.stacked)
  running := by
    intro a rest hr
    cases h <;> cases hr
  held := by
    intro w hw
    cases h <;> cases hw

/-- An evaluation that begins at some moment of a life. -/
theorem call (hR : Refines g fs cs m) (scene : Scene) (g₀ : Graph) (entry : Entry) :
    Refines g m.session.frames m.session.calls ⟨scene, .entering g₀ entry, [], m.session⟩ where
  stacked := Levels.base
  supplied := by
    intro a ha
    cases ha
  keeps := hR.keeps
  agrees := hR.agrees
  running := by
    intro a rest hr
    cases hr
  held := by
    intro w hw
    cases hw

end Refines

/-- Whatever has been evaluated under the identity of the graph was the graph as it is. -/
def Graph.Unedited (g : Graph) (ls : List Label) : Prop :=
  ∀ g' entry, .entered g' entry ∈ ls → g'.id = g.id → g' = g

theorem Steps.refines (h : Steps m ls m') (hR : Refines g fs cs m) (hG : g.IsBuiltin)
    (hu : g.Unedited ls) : Refines g fs cs m' := by
  induction h with
  | refl => exact hR
  | head first _ ih =>
    refine ih (hR.step hG ?_ first) ?_
    · rintro g' entry rfl
      exact hu g' entry List.mem_cons_self
    · intro g' entry hm
      exact hu g' entry (List.mem_cons_of_mem _ hm)

theorem Session.Fresh.refines {s : Session} (hs : s.Fresh) (g : Graph) (scene : Scene) :
    Refines g [] [] ⟨scene, .idle, [], s⟩ where
  stacked := ⟨rfl, hs.frames, hs.calls⟩
  supplied := by
    intro a ha
    cases ha
  keeps := by
    have hframes : s.memory.frames = [] := hs.frames
    intro g' hm
    rw [Memory.graphs, hframes] at hm
    cases hm
  agrees := hs.agrees g
  running := by
    intro a rest hr
    cases hr
  held := by
    intro w hw
    cases hw

theorem Life.refines (h : Life ls m) (hG : g.IsBuiltin) (hu : g.Unedited ls) :
    Refines g [] [] m := by
  revert hu
  refine h.keeps (P := fun ls m => g.Unedited ls → Refines g [] [] m) ?_ ?_ ?_
  · intro scene s hs _
    exact hs.refines g scene
  · intro ls m l m' _ ih hstep hu
    refine (ih ?_).step hG ?_ hstep
    · intro g' entry hm
      exact hu g' entry (List.mem_append_left _ hm)
    · rintro g' entry rfl
      exact hu g' entry (by simp)
  · intro ls m m' _ ih hmove hu
    exact (ih hu).move hmove

/-- Whatever is evaluated on a session and in whatever order, the nodes of a graph of built-in types
get what recursion over the wires says they are worth. An evaluation that returns has run those of
its nodes that can have their inputs and given up the others. -/
theorem scheduler_refines_denotation {g : Graph} {ls : List Label} {m : Machine}
    (hbuilt : g.Built .builtins) (h : Life ls m) (hu : g.Unedited ls) :
    (∀ node v, g.Denotes node v → (∀ w, g.Denotes node w → w = v) ∧
      ∀ c, Relation.TransGen g.Feeds c c → c ≠ node ∧ ¬ Relation.TransGen g.Feeds c node) ∧
    (∀ node port v, m.session.cached? g.id ⟨node, port⟩ = some v → port = 0 ∧ g.Denotes node v) ∧
    (∀ a, .started a ∈ ls → a.graph.id = g.id → g.Ready a.handle) ∧
    (∀ a rest n port output, m.control = .running a rest → a.graph.id = g.id →
      g.node? a.handle = some n → port < n.inputCount →
      g.producer? ⟨a.handle, port⟩ = some output →
        ∃ v, g.Denotes output.node v ∧ m.session.input port = .ok v) ∧
    (∀ g₀ entry calls result s', m.control = .entering g₀ entry →
      m.session.config.maxSteps = none → Call m.scene m.session g₀ entry calls result s' →
      g.Unedited calls → Steps m calls ⟨m.scene, .returning result, m.suspended, s'⟩ ∧
      ∀ l ∈ calls, ∀ node n, l.taken? = some (g, node) → g.node? node = some n →
        (s'.isEvaluated g.id node = true ↔ g.Ready node) ∧
        (s'.isDropped g.id node = true ↔
          if n.isPure then ∀ v, ¬ g.Denotes node v else ¬ g.Ready node) ∧
        (n.isPure = true → ∀ v, s'.cached? g.id ⟨node, 0⟩ = some v ↔ g.Denotes node v)) := by
  have hG := hbuilt.isBuiltin
  have hR := h.refines hG hu
  refine ⟨?_, hR.agrees.cached, ?_, ?_, ?_⟩
  · intro node v hv
    exact ⟨fun w hw => hw.unique hv, fun c hc => hv.not_behind_cycle hc⟩
  · intro a ha hid
    rcases h.recorded.started a ha with he | hactive
    · exact hR.agrees.evaluated a.handle (hid ▸ he)
    · exact hR.agrees.ready_of_supplied (hR.supplied a hactive) (hR.own hactive hid)
  · intro a rest n port output hr hid hn hp hw
    have hactive : a ∈ m.active := by simp [Machine.active, hr]
    obtain rfl := hR.own hactive hid
    obtain ⟨v, hv, hread⟩ := h.input_wired hr hn hp hw
    exact ⟨v, (hR.agrees.cached output.node output.port v hv).2, hread⟩
  · intro g₀ entry calls result s' hentering hmax hcall hucalls
    refine ⟨?_, ?_⟩
    · obtain ⟨scene, control, ws, s⟩ := m
      dsimp only at hentering hcall
      subst hentering
      exact hcall.under ws
    intro l hl node n ht hn
    have hR' := Steps.refines hcall (hR.call m.scene g₀ entry) hG hucalls
    have hsettled := hcall.settled hmax hl ht
    simp only [Session.isEvaluated, Session.isDropped, List.contains_iff_mem] at hsettled ⊢
    exact hR'.agrees.settled hn hsettled

namespace Sums

def number : Node := { Node.new Builtin.integer with fields := [.int 2] }

def sum : Node := { Node.new Builtin.add with inputs := [none, some (.int 3)] }

def comparison : Node := { Node.new Builtin.greaterThan with inputs := [none, some (.int 4)] }

def flag : Node := { Node.new Builtin.boolean with fields := [.bool true] }

def nodes : Graph :=
  let g := ((Graph.new (.ofNat 1) "sums").addRoot (.new Builtin.onStart)).2
  let g := (((g.addNode number).2.addNode sum).2.addNode comparison).2
  let g := (((g.addNode (.new Builtin.print)).2.addNode flag).2.addNode (.new Builtin.branch)).2
  ((g.addNode sum).2.addNode (.new Builtin.print)).2

/-- A start, a print of whether two and three are more than four, a branch on a flag, and then a
print of a sum that feeds itself. -/
def wiring : List Change :=
  [.wire ⟨⟨2, 1⟩, 0⟩ ⟨⟨3, 1⟩, 0⟩, .wire ⟨⟨3, 1⟩, 0⟩ ⟨⟨4, 1⟩, 0⟩, .wire ⟨⟨4, 1⟩, 0⟩ ⟨⟨5, 1⟩, 0⟩,
    .wire ⟨⟨6, 1⟩, 0⟩ ⟨⟨7, 1⟩, 0⟩, .wire ⟨⟨8, 1⟩, 0⟩ ⟨⟨8, 1⟩, 0⟩, .wire ⟨⟨8, 1⟩, 0⟩ ⟨⟨9, 1⟩, 0⟩,
    .link ⟨⟨1, 1⟩, 0⟩ ⟨5, 1⟩, .link ⟨⟨5, 1⟩, 0⟩ ⟨7, 1⟩, .link ⟨⟨7, 1⟩, 0⟩ ⟨9, 1⟩]

def graph : Graph := (Graph.attemptAll wiring).result nodes

theorem nodes_built : nodes.Built .builtins := by
  have made (d : Definition) (h : Registry.builtins.create d.nodeType = .ok (.new d)) :
      (Node.new d).Made .builtins := .create h
  have hstart := made Builtin.onStart rfl
  have hprint := made Builtin.print rfl
  have hbranch := made Builtin.branch rfl
  have hnumber : number.Made .builtins :=
    .setField (i := 0) (v := .int 2) (made Builtin.integer rfl)
  have hflag : flag.Made .builtins :=
    .setField (i := 0) (v := .bool true) (made Builtin.boolean rfl)
  have hsum : sum.Made .builtins :=
    .setConstant (i := 1) (v := .int 3) (made Builtin.add rfl)
  have hcomparison : comparison.Made .builtins :=
    .setConstant (i := 1) (v := .int 4) (made Builtin.greaterThan rfl)
  have hstarted := (Graph.Built.new (.ofNat 1) "sums").addRoot hstart
  have hvalues := ((hstarted.addNode hnumber).addNode hsum).addNode hcomparison
  have hprinted := hvalues.addNode hprint
  exact (((hprinted.addNode hflag).addNode hbranch).addNode hsum).addNode hprint

theorem graph_built : graph.Built .builtins := nodes_built.changes wiring

def entry : Machine :=
  ⟨fun _ => none, .entering graph (.root ⟨1, 1⟩), [], { executionId := "" }⟩

def labels : List Label := (entry.advance 51).1

def after : Session := (entry.advance 51).2.session

theorem call : Call entry.scene entry.session graph (.root ⟨1, 1⟩) labels (.ok ()) after :=
  entry.advance_steps 51

def entered? : Label → Option Graph
  | .entered g _ => some g
  | _ => none

theorem labels_unedited : graph.Unedited labels := by
  intro g e hm _
  have hg : g ∈ labels.filterMap entered? := List.mem_filterMap.mpr ⟨_, hm, rfl⟩
  have hone : labels.filterMap entered? = [graph] := rfl
  rw [hone] at hg
  exact List.mem_singleton.mp hg

end Sums

/-- The sum of two and three, whether it is more than four, and the flag have the values they are
worth; the sum that feeds itself is worth nothing since it was given up. -/
theorem scheduler_refines_denotation_sums :
    Sums.graph.Denotes ⟨3, 1⟩ (.int 5) ∧
    Sums.after.cached? Sums.graph.id ⟨⟨3, 1⟩, 0⟩ = some (.int 5) ∧
    Sums.graph.Denotes ⟨4, 1⟩ (.bool true) ∧
    Sums.after.cached? Sums.graph.id ⟨⟨4, 1⟩, 0⟩ = some (.bool true) ∧
    Sums.graph.Denotes ⟨6, 1⟩ (.bool true) ∧
    Sums.after.cached? Sums.graph.id ⟨⟨6, 1⟩, 0⟩ = some (.bool true) ∧
    Sums.after.isDropped Sums.graph.id ⟨8, 1⟩ = true ∧
    ∀ v, ¬ Sums.graph.Denotes ⟨8, 1⟩ v := by
  have hfresh : Sums.entry.session.Fresh := ⟨rfl, rfl, rfl, rfl, rfl, rfl, rfl, rfl⟩
  have hlife : Life [] Sums.entry := hfresh.life _ _ _ 0
  have hu : Sums.graph.Unedited [] := by
    intro g e hm
    cases hm
  obtain ⟨-, -, -, -, hcalls⟩ := scheduler_refines_denotation Sums.graph_built hlife hu
  obtain ⟨-, hfinal⟩ := hcalls _ _ _ _ _ rfl rfl Sums.call Sums.labels_unedited
  have hsum : Sums.graph.Denotes ⟨3, 1⟩ (.int 5) := ⟨2, rfl⟩
  have hmore : Sums.graph.Denotes ⟨4, 1⟩ (.bool true) := ⟨3, rfl⟩
  have hflag : Sums.graph.Denotes ⟨6, 1⟩ (.bool true) := ⟨1, rfl⟩
  have hgiven : Sums.after.isDropped Sums.graph.id ⟨8, 1⟩ = true := by decide +kernel
  obtain ⟨-, -, hsum'⟩ := hfinal _ (List.mem_of_getElem? (i := 15) rfl) ⟨3, 1⟩ _ rfl rfl
  obtain ⟨-, -, hmore'⟩ := hfinal _ (List.mem_of_getElem? (i := 22) rfl) ⟨4, 1⟩ _ rfl rfl
  obtain ⟨-, -, hflag'⟩ := hfinal _ (List.mem_of_getElem? (i := 37) rfl) ⟨6, 1⟩ _ rfl rfl
  obtain ⟨-, hloop, -⟩ := hfinal _ (List.mem_of_getElem? (i := 48) rfl) ⟨8, 1⟩ _ rfl rfl
  exact ⟨hsum, (hsum' rfl _).mpr hsum, hmore, (hmore' rfl _).mpr hmore, hflag,
    (hflag' rfl _).mpr hflag, hgiven, hloop.mp hgiven⟩

end Flowgraph
