import Flowgraph.Proofs.Activations
import Flowgraph.Proofs.Construction
import Flowgraph.Proofs.Locality
import Flowgraph.Proofs.Refinement
import Flowgraph.Proofs.Reports

namespace Flowgraph

namespace Graph

/-- A graph made with the operations of graphs, from nodes of any kind that have the outputs of their
types. A live node may be changed in any way that leaves it these, and a node is added while there is
room for it. Calls that fail count as well. -/
inductive Edited : Graph → Prop where
  | new (id : GraphId) (name : String) : Edited (.new id name)
  | clone (before : Edited g) (id : GraphId) : Edited (g.clone id)
  | addNode (before : Edited g) (intact : n.Intact) (room : g.size < Arena.capacity) :
      Edited (g.addNode n).2
  | addRoot (before : Edited g) (intact : n.Intact) (room : g.size < Arena.capacity) :
      Edited (g.addRoot n).2
  | update {f : Update Node α} (before : Edited g)
      (intact : ∀ n : Node, n.Intact → (f.run n).2.Intact)
      (e : (updateNode h f).run g = some (answer, g')) : Edited g'
  | change (c : Change) (before : Edited g) (e : (attempt c).run g = some (answer, g')) : Edited g'
  | removeWire (before : Edited g) : Edited (g.removeWire target).2
  | addExecutionInput (before : Edited g) : Edited (g.addExecutionInput label).2

/-- Whatever evaluation can come to by way of the tables is live. -/
structure Tied (g : Graph) : Prop where
  arena : g.nodes.Sound
  producers : ∀ e ∈ g.wires.entries, g.Live e.2.node
  targets : ∀ e ∈ g.links.entries, ∀ h ∈ e.2, g.Live h
  entries : ∀ input ∈ g.executionInputs, ∀ h ∈ input.targets, g.Live h

section

variable {g g' : Graph} {h : Handle} {n : Node}

theorem Activatable.live (hh : g.Activatable h) : g.Live h := by
  obtain ⟨n, hn, -⟩ := hh
  exact ⟨n, hn⟩

theorem Live.addNode (ha : g.nodes.Sound) (hroom : g.size < Arena.capacity) (n : Node)
    (hh : g.Live h) : (g.addNode n).2.Live h := by
  obtain ⟨m, hm⟩ := hh
  refine ⟨m, (ha.get?_insert hroom n h).trans ?_⟩
  rw [if_neg]
  · exact hm
  · rintro rfl
    rw [node?, ha.get?_fresh hroom n] at hm
    cases hm

theorem live_addNode (ha : g.nodes.Sound) (hroom : g.size < Arena.capacity) (n : Node) :
    (g.addNode n).2.Live (g.addNode n).1 :=
  ⟨n, (ha.get?_insert hroom n _).trans (if_pos rfl)⟩

theorem Live.without (hn : g.node? h = some n) (hne : h' ≠ h) (hh : g.Live h') :
    (g.without h).Live h' := by
  obtain ⟨m, hm⟩ := hh
  refine ⟨m, ?_⟩
  rw [node?_without hn, if_neg hne, hm]

/-- A change that leaves the tables alone and takes no node away. -/
theorem Tied.keeps (hg : g.Tied) (harena : g'.nodes.Sound) (hlive : ∀ h, g.Live h → g'.Live h)
    (hwires : g'.wires = g.wires) (hlinks : g'.links = g.links)
    (hinputs : g'.executionInputs = g.executionInputs) : g'.Tied where
  arena := harena
  producers := by
    rw [hwires]
    exact fun e he => hlive _ (hg.producers e he)
  targets := by
    rw [hlinks]
    exact fun e he h hh => hlive h (hg.targets e he h hh)
  entries := by
    rw [hinputs]
    exact fun input hi h hh => hlive h (hg.entries input hi h hh)

theorem Tied.addNode (hg : g.Tied) (hroom : g.size < Arena.capacity) (n : Node) :
    (g.addNode n).2.Tied := by
  refine hg.keeps (hg.arena.insert hroom n) ?_ rfl rfl rfl
  exact fun h => Live.addNode hg.arena hroom n

theorem Live.set (hn : g.node? h = some n) (n' : Node) {h' : Handle} (hh : g.Live h') :
    Live { g with nodes := g.nodes.set h n' } h' := by
  obtain ⟨m, hm⟩ := hh
  by_cases he : h' = h
  · exact ⟨n', (node?_set hn n' h').trans (if_pos he)⟩
  · exact ⟨m, (node?_set hn n' h').trans ((if_neg he).trans hm)⟩

theorem Tied.set (hg : g.Tied) (hn : g.node? h = some n) (n' : Node) :
    Tied { g with nodes := g.nodes.set h n' } := by
  refine hg.keeps (hg.arena.set hn n') ?_ rfl rfl rfl
  exact fun h' => Live.set hn n'

theorem Tied.wire (hg : g.Tied) (hm : g.node? source.node = some m)
    (hn : g.node? target.node = some n) : (g.changed (.wire source target)).Tied := by
  have hset := hg.set hn (n.clearConstant target.port)
  rw [Graph.changed, nodeAt_eq hn]
  refine { hset with producers := ?_ }
  intro entry hentry
  rcases Table.mem_put hentry with rfl | hold
  · exact Live.set hn _ ⟨m, hm⟩
  · exact hset.producers entry hold

theorem Tied.producer_live (hg : g.Tied) (hp : g.producer? input = some output) :
    g.Live output.node := hg.producers _ (Table.mem_of_lookup hp)

theorem Tied.targets_live (hg : g.Tied) (hh : h ∈ g.targets output) : g.Live h := by
  unfold Graph.targets at hh
  cases hl : g.links.get? output with
  | none => simp [hl] at hh
  | some nodes =>
    rw [hl] at hh
    exact hg.targets _ (Table.mem_of_lookup hl) h hh

theorem Tied.inputTargets_live (hg : g.Tied) (ht : g.inputTargets ordinal = .ok queue)
    (hh : h ∈ queue) : g.Live h := by
  unfold Graph.inputTargets at ht
  split at ht
  · rename_i input hinput
    cases ht
    exact hg.entries input (List.mem_of_getElem? hinput) h hh
  · cases ht

theorem Tied.link (hg : g.Tied) (htarget : g.Activatable h) (source : PortRef) :
    (g.changed (.link source h)).Tied := by
  refine { hg with targets := ?_ }
  intro entry hentry
  rcases Table.mem_put hentry with rfl | hold
  · intro h' hh
    rcases List.mem_append.mp hh with hh | hh
    · exact hg.targets_live hh
    · rw [List.mem_singleton.mp hh]
      exact htarget.live
  · exact hg.targets entry hold

theorem Tied.inputLink (hg : g.Tied) (htarget : g.Activatable h) (ordinal : Nat) :
    (g.changed (.inputLink ordinal h)).Tied := by
  refine { hg with entries := ?_ }
  intro input' hi h' hh
  rcases mem_inputLink hi hh with ⟨input, hi, hh⟩ | rfl
  · exact hg.entries input hi h' hh
  · exact htarget.live

/-- The removed node is gone from every table that evaluation follows. -/
theorem Tied.removal (hg : g.Tied) (hn : g.node? h = some n) : (g.without h).Tied := by
  have hkept {h' : Handle} (hne : h' ≠ h) (hh : g.Live h') := hh.without hn hne
  have hr := Arena.remove_of_live hn
  have harena : (g.without h).nodes.Sound := by
    rw [Graph.without, hr]
    exact hg.arena.remove hr
  refine ⟨harena, ?_, ?_, ?_⟩
  · intro entry hentry
    obtain ⟨hentry, hne⟩ := List.mem_filter.mp hentry
    simp only [ne_eq, decide_eq_true_eq] at hne
    exact hkept hne.2 (hg.producers entry hentry)
  · intro entry hentry h' hh
    obtain ⟨old, hold, rfl⟩ := List.mem_map.mp hentry
    obtain ⟨hold, -⟩ := List.mem_filter.mp hold
    obtain ⟨hh, hne⟩ := List.mem_filter.mp hh
    exact hkept (by simpa using hne) (hg.targets old hold h' hh)
  · intro input hi h' hh
    obtain ⟨old, hold, rfl⟩ := List.mem_map.mp hi
    obtain ⟨hh, hne⟩ := List.mem_filter.mp hh
    exact hkept (by simpa using hne) (hg.entries old hold h' hh)

theorem Tied.changed {c : Change} (hg : g.Tied) (hc : ∀ d ∈ c.conditions, d.Holds g) :
    (g.changed c).Tied := by
  cases c with
  | wire source target =>
    obtain ⟨⟨m, hm⟩, -, -, ⟨n, hn⟩, -⟩ := by simpa [Change.conditions] using hc
    exact hg.wire hm hn
  | link source target =>
    obtain ⟨-, -, -, -, -, htarget⟩ := by simpa [Change.conditions] using hc
    exact hg.link htarget source
  | inputLink ordinal target =>
    obtain ⟨-, htarget, -⟩ := by simpa [Change.conditions] using hc
    exact hg.inputLink htarget ordinal
  | constant input v =>
    obtain ⟨-, ⟨n, hn⟩, -⟩ := by simpa [Change.conditions] using hc
    rw [Graph.changed, nodeAt_eq hn]
    exact hg.set hn _
  | removal h =>
    obtain ⟨n, hn⟩ := hc _ List.mem_cons_self
    exact hg.removal hn

theorem Edited.tied (hg : g.Edited) : g.Tied := by
  induction hg with
  | new id name =>
    exact ⟨Arena.Sound.empty, List.forall_mem_nil _, List.forall_mem_nil _, List.forall_mem_nil _⟩
  | clone _ _ ih => exact { ih with }
  | addNode _ _ room ih => exact ih.addNode room _
  | addRoot _ _ room ih => exact { ih.addNode room _ with }
  | update _ _ e ih =>
    rcases updateNode_cases e with rfl | ⟨n, hn, rfl⟩
    · exact ih
    · exact ih.set hn _
  | change c _ e ih =>
    rcases attempt_cases e with rfl | ⟨hc, rfl⟩
    · exact ih
    · exact ih.changed hc
  | removeWire _ ih =>
    refine { ih with producers := ?_ }
    exact fun entry hentry => ih.producers entry (List.mem_filter.mp hentry).1
  | addExecutionInput _ ih =>
    refine { ih with entries := ?_ }
    intro input hi h hh
    rcases List.mem_append.mp hi with hi | hi
    · exact ih.entries input hi h hh
    · rw [List.mem_singleton.mp hi] at hh
      cases hh

/-- However a graph was made, its nodes have the outputs of their types. -/
theorem Edited.all_intact (hg : g.Edited) : g.nodes.All Node.Intact := by
  induction hg with
  | new id name => exact Arena.All.empty
  | clone _ _ ih => exact ih
  | addNode _ intact _ ih => exact ih.insert intact
  | addRoot _ intact _ ih => exact ih.insert intact
  | update _ intact e ih =>
    rcases updateNode_cases e with rfl | ⟨n, hn, rfl⟩
    · exact ih
    · exact ih.set _ (intact n (ih.get? hn))
  | change c _ e ih =>
    rcases attempt_cases e with rfl | ⟨hc, rfl⟩
    · exact ih
    · exact changed_all ih (fun _ _ h => h) (fun _ _ _ h _ => h) hc
  | removeWire _ ih => exact ih
  | addExecutionInput _ ih => exact ih

end

end Graph

namespace Session

/-- The search for a cycle, given up at the first node that is not there. -/
def search (s : Session) (g : Graph) (start : Handle) :
    Nat → List Handle → List Handle → Except Error Bool
  | 0, _, _ => .ok false
  | _ + 1, [], _ => .ok false
  | room + 1, h :: stack, visited => do
    let _ ← g.node h
    let producers := (s.awaited g h).map (·.node)
    let _ ← producers.mapM g.node
    if producers.contains start then .ok true
    else
      let fresh := (producers.filter fun p => g.isPure p && !visited.contains p).eraseDups
      search s g start room (fresh ++ stack) (fresh ++ visited)

section

variable {s : Session} {g : Graph} {h : Handle}

theorem awaited_live (hg : g.Tied) (ho : output ∈ s.awaited g h) : g.Live output.node := by
  obtain ⟨n, port, -, -, hw, -⟩ := mem_awaited.mp ho
  exact hg.producer_live hw

theorem mapM_node_ok {nodes : List Handle} (hl : ∀ h ∈ nodes, g.Live h) :
    ∃ found, nodes.mapM g.node = .ok found := by
  induction nodes with
  | nil => exact ⟨[], rfl⟩
  | cons h rest ih =>
    rw [List.forall_mem_cons] at hl
    obtain ⟨n, hn⟩ := hl.1
    obtain ⟨found, hf⟩ := ih hl.2
    refine ⟨n :: found, ?_⟩
    rw [List.mapM_cons, Graph.node_eq_ok.mpr hn, hf]
    rfl

/-- Among live nodes the search never comes to one that is not there. -/
theorem search_eq (hg : g.Tied) {stack visited : List Handle} (hstack : ∀ h ∈ stack, g.Live h)
    (start : Handle) (room : Nat) :
    s.search g start room stack visited = .ok (s.reaches g start room stack visited) := by
  induction room generalizing stack visited with
  | zero => rfl
  | succ room ih =>
    cases stack with
    | nil => rfl
    | cons h stack =>
      rw [List.forall_mem_cons] at hstack
      obtain ⟨n, hn⟩ := hstack.1
      have hproducers : ∀ p ∈ (s.awaited g h).map (·.node), g.Live p := by
        intro p hp
        obtain ⟨output, ho, rfl⟩ := List.mem_map.mp hp
        exact awaited_live hg ho
      obtain ⟨found, hf⟩ := mapM_node_ok hproducers
      unfold search reaches
      simp only [Graph.node_eq_ok.mpr hn, hf, bind, Except.bind]
      split
      · rfl
      · apply ih
        intro p hp
        rcases List.mem_append.mp hp with hp | hp
        · exact hproducers p (List.mem_filter.mp (List.mem_eraseDups.mp hp)).1
        · exact hstack.2 p hp

theorem pending_ne_missing (hg : g.Tied) (h' : Handle) :
    s.pending g h ≠ .error (.nodeNotFound h') := by
  intro hp
  rcases pending_eq_error hp with ⟨output, ho, ha⟩ | ⟨-, he⟩
  · obtain ⟨n, hn⟩ := awaited_live hg ho
    simp only [awaitedProducer, Graph.node_eq_ok.mpr hn, bind, Except.bind] at ha
    split at ha
    · cases ha
    · split at ha
      · cases ha
      · split at ha <;> cases ha
  · cases he

/-- A live node is not dropped because some node is missing. -/
theorem verdict_ne_missing (hg : g.Tied) (hh : g.Live h) (h' : Handle) :
    s.verdict g h ≠ .drop (.nodeNotFound h') := by
  intro hv
  obtain ⟨n, hn⟩ := hh
  cases verdict_judged hv with
  | missing kept none =>
    rw [none] at hn
    cases hn
  | stuck kept live new vain => exact pending_ne_missing hg h' vain

end

/-- An evaluation that is to start at a dead handle is turned away at the door. -/
theorem evaluate_dead {g : Graph} {h : Handle} (hdead : g.node? h = none) (s : Session)
    (scene : Scene) (fuel : Nat) :
    ∃ e s', s.evaluate scene fuel g (.root h) = some (.error e, s') ∧ s'.memory = s.memory ∧
      s.Reports s' {} ∧ (s.depth < s.config.maxGraphDepth.toNat → e = .nodeNotFound h) := by
  have hnode : g.node h = .error (.nodeNotFound h) := Graph.node_eq_error.mpr ⟨hdead, rfl⟩
  rcases hs : s.seeds g (.root h) with ⟨result, s'⟩
  have hmemory := seeds_memory hs
  have hreports := seeds_reports hs
  simp only [entryAccount, hnode] at hreports
  have hresult : ∃ e, result = .error e ∧
      (s.depth < s.config.maxGraphDepth.toNat → e = .nodeNotFound h) := by
    simp only [seeds, rootSeeds, hnode] at hs
    split at hs <;> rename_i hc <;> cases hs
    · refine ⟨_, rfl, fun hroom => ?_⟩
      rw [checkDepth_room hroom] at hc
      cases hc
    · exact ⟨_, rfl, fun _ => rfl⟩
  obtain ⟨e, rfl, he⟩ := hresult
  exact ⟨e, s', by simp only [evaluate, evaluateWith, hs], hmemory, hreports, he⟩

/-- A handle that is dead in the innermost graph is not queued. -/
theorem queue_dead {s : Session} {h : Handle}
    (hdead : ∀ g, s.activeGraph = .ok g → g.node? h = none) :
    ∃ e, (Operation.queue h).run s = (.error e, s) := by
  cases hg : s.activeGraph with
  | error e => exact ⟨e, queueNode_idle hg h⟩
  | ok g =>
    refine ⟨.nodeNotFound h, (queueNode_run hg h).trans ?_⟩
    rw [hdead g hg]
    rfl

end Session

/-- The graph is tied and all that waits in its queue is live. -/
structure Frame.Served (frame : Frame) : Prop where
  tied : frame.graph.Tied
  live : ∀ h ∈ frame.queue, frame.graph.Live h

theorem Session.rootSeeds_live {s s' : Session} (h : s.rootSeeds g r = (.ok queue, s')) :
    g.Live r := by
  unfold rootSeeds at h
  split at h
  · cases h
  · split at h
    · cases h
    · rename_i n hn
      exact ⟨n, Graph.node_eq_ok.mp hn⟩

/-- All that a step puts in a queue is live, wherever it comes from: the entry, an execution output,
the body itself, or the inputs of a node that has to wait. -/
theorem Step.queued_live (h : Step m l m') (hg : l.graph.Tied)
    (htaken : ∀ g node, l.taken? = some (g, node) → g.Live node) :
    ∀ node ∈ l.queued, l.graph.Live node := by
  intro node hnode
  cases h with
  | @enter g entry _ _ _ _ _ hseeds =>
    cases entry with
    | root r =>
      rw [List.mem_singleton.mp hnode]
      exact Session.rootSeeds_live hseeds
    | executionInput ordinal =>
      simp only [Label.queued, Label.activated] at hnode
      cases ht : g.inputTargets ordinal.toNat with
      | error e => simp [ht, Except.toOption] at hnode
      | ok targets =>
        rw [ht] at hnode
        exact hg.inputTargets_live ht hnode
  | settle hd he hv hn =>
    cases Session.verdict_judged hv with
    | early kept live new pending =>
      rcases List.mem_append.mp hnode with hp | hlast
      · obtain ⟨output, ho, ha⟩ := Session.pending_eq_ok pending hp
        obtain ⟨rfl, -⟩ := Session.awaitedProducer_eq_ok ha
        exact Session.awaited_live hg ho
      · rw [List.mem_singleton.mp hlast]
        exact htaken _ _ rfl
    | alreadyDropped | alreadyEvaluated | missing | stuck | bodiless => cases hnode
    | due => exact absurd rfl (hn _ _)
  | @perform _ a _ _ op _ =>
    cases op with
    | fire port =>
      simp only [Label.queued, Label.activated] at hnode
      split at hnode
      · exact hg.targets_live hnode
      · cases hnode
    | queue target =>
      simp only [Label.queued, Label.activated] at hnode
      split at hnode
      · rename_i hsome
        rw [List.mem_singleton.mp hnode]
        exact Option.isSome_iff_exists.mp hsome
      · cases hnode
    | _ => cases hnode
  | _ => cases hnode

theorem Step.served (hs : Stacked fs cs m) (h : Step m l m')
    (hframes : ∀ frame ∈ m.session.memory.frames, frame.Served)
    (hentered : ∀ g entry, l = .entered g entry → g.Tied) :
    (∀ frame ∈ m'.session.memory.frames, frame.Served) ∧
      ∀ g node, l.taken? = some (g, node) → g.Tied ∧ g.Live node := by
  have hqueued := h.queued_live
  have hshift := h.shift hs
  generalize m.session.memory.frames = frames at hshift hframes
  generalize m'.session.memory.frames = frames' at hshift ⊢
  cases hshift with
  | keep untaken nothing =>
    refine ⟨hframes, ?_⟩
    intro g node ht
    rw [untaken] at ht
    cases ht
  | @enter g entry =>
    have hg := hentered g entry rfl
    have hactivated := hqueued hg (by simp [Label.taken?])
    exact ⟨List.forall_mem_cons.mpr ⟨⟨hg, hactivated⟩, hframes⟩, by simp [Label.taken?]⟩
  | drained =>
    rw [List.forall_mem_cons] at hframes
    exact ⟨hframes.2, by simp [Label.taken?]⟩
  | exhaust =>
    obtain ⟨⟨tied, live⟩, hrest⟩ := List.forall_mem_cons.mp hframes
    refine ⟨hrest, ?_⟩
    rintro _ _ ⟨⟩
    exact ⟨tied, live _ List.mem_cons_self⟩
  | @settle g node v queue rest =>
    obtain ⟨⟨tied, live⟩, hrest⟩ := List.forall_mem_cons.mp hframes
    rw [List.forall_mem_cons] at live
    have htaken (g' : Graph) (node' : Handle)
        (ht : (Label.settled g node v).taken? = some (g', node')) : g'.Live node' := by
      cases ht
      exact live.1
    refine ⟨List.forall_mem_cons.mpr ⟨⟨tied, ?_⟩, hrest⟩, ?_⟩
    · exact List.forall_mem_append.mpr ⟨live.2, hqueued tied htaken⟩
    · rintro _ _ ⟨⟩
      exact ⟨tied, live.1⟩
  | start =>
    obtain ⟨⟨tied, live⟩, hrest⟩ := List.forall_mem_cons.mp hframes
    rw [List.forall_mem_cons] at live
    refine ⟨List.forall_mem_cons.mpr ⟨⟨tied, live.2⟩, hrest⟩, ?_⟩
    rintro _ _ ⟨⟩
    exact ⟨tied, live.1⟩
  | perform =>
    obtain ⟨⟨tied, live⟩, hrest⟩ := List.forall_mem_cons.mp hframes
    have hactivated := hqueued tied (by simp [Label.taken?])
    refine ⟨List.forall_mem_cons.mpr ⟨⟨tied, ?_⟩, hrest⟩, by simp [Label.taken?]⟩
    exact List.forall_mem_append.mpr ⟨live, hactivated⟩

/-- Every frame of a life is served and every node that was taken was live. -/
theorem Life.served (h : Life ls m) (hentered : ∀ g entry, .entered g entry ∈ ls → g.Tied) :
    (∀ frame ∈ m.session.memory.frames, frame.Served) ∧
      ∀ l ∈ ls, ∀ g node, l.taken? = some (g, node) → g.Tied ∧ g.Live node := by
  revert hentered
  refine h.keeps (P := fun ls m => (∀ g entry, .entered g entry ∈ ls → g.Tied) →
    (∀ frame ∈ m.session.memory.frames, frame.Served) ∧
      ∀ l ∈ ls, ∀ g node, l.taken? = some (g, node) → g.Tied ∧ g.Live node) ?_ ?_ ?_
  · intro scene s hs _
    simp [Session.memory, hs.frames]
  · intro ls m l m' life ih last hentered
    obtain ⟨hframes, htaken⟩ := ih fun g entry he => hentered g entry (List.mem_append_left _ he)
    obtain ⟨hframes', hlast⟩ := last.served life.stacked.1 hframes (by
      rintro g entry rfl
      exact hentered g entry (List.mem_append_right _ List.mem_cons_self))
    exact ⟨hframes', List.forall_mem_append.mpr ⟨htaken, List.forall_mem_singleton.mpr hlast⟩⟩
  · intro ls m m' life ih last hentered
    refine ⟨?_, (ih hentered).2⟩
    cases last with
    | perform op =>
      obtain ⟨-, hf, -⟩ := life.stacked.1
      rw [(op.run_sameStacks _).frames_nil hf]
      exact List.forall_mem_nil _
    | equip | call | collect => exact (ih hentered).1

/-- Every diagnostic is told of by a step. -/
theorem Life.diagnosed (h : Life ls m) :
    ∀ d ∈ m.session.diagnostics.toList, ∃ l ∈ ls, ∃ config depth,
      d ∈ (l.account config depth).diagnostics := by
  refine h.keeps (P := fun ls m => ∀ d ∈ m.session.diagnostics.toList, ∃ l ∈ ls, ∃ config depth,
    d ∈ (l.account config depth).diagnostics) ?_ ?_ ?_
  · intro scene s hs
    simp [hs.diagnostics]
  · intro ls m l m' life ih last d hd
    rw [(last.reports life.stacked.1).diagnostics] at hd
    rcases List.mem_append.mp hd with hd | hd
    · obtain ⟨l', hl, hrest⟩ := ih d hd
      exact ⟨l', List.mem_append_left _ hl, hrest⟩
    · exact ⟨l, List.mem_append_right _ List.mem_cons_self, _, _, hd⟩
  · intro ls m m' life ih last
    cases last with
    | @perform _ s op => simpa [(op.run_reports s).diagnostics] using ih
    | equip | call | collect => exact ih

/-- A diagnostic about a missing node is the error of a body or comes with a drop. -/
theorem Label.account_missing {l : Label} {d : Diagnostic}
    (hd : d ∈ (l.account config depth).diagnostics) (he : d.error = .nodeNotFound h) :
    (∃ g node, l = .settled g node (.drop (.nodeNotFound h))) ∨
      ∃ a, l = .finished a (.error (.nodeNotFound h)) ∧ d = ⟨a.graph.id, a.handle, d.error⟩ := by
  have hentry {g : Graph} {entry : Entry}
      (hd : d ∈ (Session.entryAccount config depth g entry).diagnostics) : False := by
    unfold Session.entryAccount at hd
    split at hd
    · cases hd
    · split at hd
      · cases hd
      · split at hd
        · dsimp only at hd
          split at hd
          · cases hd
          · rw [List.mem_singleton.mp hd] at he
            cases he
        · cases hd
  cases l with
  | refused g entry => exact (hentry hd).elim
  | entered g entry =>
    rcases List.mem_append.mp hd with hd | hd
    · exact (hentry hd).elim
    · cases hd
  | settled g node v =>
    cases v with
    | drop e =>
      obtain rfl := List.mem_singleton.mp hd
      cases he
      exact .inl ⟨g, node, rfl⟩
    | _ => cases hd
  | finished a result =>
    cases result with
    | ok _ => cases hd
    | error e =>
      obtain rfl := List.mem_singleton.mp hd
      cases he
      exact .inr ⟨a, rfl, rfl⟩
  | _ => cases hd

theorem Life.settled_ne_missing (h : Life ls m)
    (hentered : ∀ g entry, .entered g entry ∈ ls → g.Tied) (g : Graph) (node missing : Handle) :
    .settled g node (.drop (.nodeNotFound missing)) ∉ ls := by
  intro hl
  obtain ⟨hg, hlive⟩ := (h.served hentered).2 _ hl g node rfl
  obtain ⟨pre, post, he⟩ := List.append_of_mem hl
  obtain ⟨m₁, m₂, -, hstep, -⟩ := h.split he
  cases hstep with
  | settle hd he hv hn => exact Session.verdict_ne_missing hg hlive missing hv

theorem Graph.Edited.attempt {g g' : Graph} (hg : g.Edited) {c : Change}
    (h : ((attempt c).run g).map (·.2) = some g') : g'.Edited := by
  obtain ⟨⟨answer, g'⟩, hrun, rfl⟩ := Option.map_eq_some_iff.mp h
  exact .change c hg hrun

theorem Graph.Edited.offered {g g' : Graph} (hg : g.Edited) {f : Update Node α}
    (hf : Node.Offers f) (h : ((updateNode handle f).run g).map (·.2) = some g') : g'.Edited := by
  obtain ⟨⟨answer, g'⟩, hrun, rfl⟩ := Option.map_eq_some_iff.mp h
  exact .update hg (fun n => (hf.grows n).intact) hrun

theorem Graph.Edited.edit {g g' : Graph} (hg : g.Edited) {e : Edit} (he : e.Possible g)
    (h : g.edit e = some g') : g'.Edited := by
  cases e with
  | addNode n =>
    cases h
    exact .addNode hg he.1.shaped.outputs he.2
  | addRoot n =>
    cases h
    exact .addRoot hg he.1.shaped.outputs he.2
  | removeNode h' => exact hg.attempt (c := .removal h') h
  | addWire source target => exact hg.attempt (c := .wire source target) h
  | removeWire target =>
    cases h
    exact .removeWire hg
  | setConstant input v => exact hg.attempt (c := .constant input v) h
  | addLink source target => exact hg.attempt (c := .link source target) h
  | addExecutionInput name =>
    cases h
    exact .addExecutionInput hg
  | addInputLink ordinal target => exact hg.attempt (c := .inputLink ordinal target) h
  | clone id =>
    cases h
    exact .clone hg id
  | setField h' index v => exact hg.offered (Node.setField_offers index v) h
  | addVariadic h' => exact hg.offered Node.addVariadic_offers h
  | setNodeConstant input v => exact hg.offered (Node.setConstant_offers input.port v) h

theorem Graph.Edited.edits {g g' : Graph} (hg : g.Edited) {edits : List Edit}
    (h : g.Permits edits) (hfold : edits.foldlM Graph.edit g = some g') : g'.Edited := by
  induction edits generalizing g with
  | nil =>
    cases hfold
    exact hg
  | cons e edits ih =>
    obtain ⟨he, hrest⟩ := h
    rw [List.foldlM_cons] at hfold
    obtain ⟨g₁, hedit, hfold⟩ := Option.bind_eq_some_iff.mp hfold
    rw [hedit] at hrest
    exact ih (hg.edit he hedit) hrest hfold

namespace Rewiring

/-- The graph before the number is taken away. -/
def former : Graph := ((edits.take 6).foldlM Graph.edit empty).getD default

theorem former_edited : former.Edited := by
  obtain ⟨hstart, hinteger, hprint, -⟩ := permitted
  have hformer : (edits.take 6).foldlM Graph.edit empty = some former := rfl
  have hpermits : empty.Permits (edits.take 6) :=
    ⟨hstart, hinteger, hprint, trivial, trivial, trivial, trivial⟩
  exact (Graph.Edited.new _ _).edits hpermits hformer

theorem graph_edited : graph.Edited := (Graph.Edited.new _ _).edits permitted graph_eq

def fresh : Session := { executionId := "" }

/-- The former graph from its start. -/
def first : Machine := ⟨fun _ => none, .entering former (.root ⟨1, 1⟩), [], fresh⟩

/-- The later graph on the same session, once the first evaluation has ended. -/
def second : Machine :=
  ⟨fun _ => none, .entering graph (.root ⟨1, 1⟩), [], (first.advance 16).2.session⟩

def labels : List Label := (first.advance 16).1 ++ (second.advance 5).1

theorem life : Life labels (second.advance 5).2 := by
  have hfresh : fresh.Fresh := ⟨rfl, rfl, rfl, rfl, rfl, rfl, rfl, rfl⟩
  have hfirst : Life (first.advance 16).1
      ⟨fun _ => none, .returning (.ok ()), [], (first.advance 16).2.session⟩ :=
    hfresh.life (fun _ => none) former (.root ⟨1, 1⟩) 16
  have hsecond : Life (first.advance 16).1 second :=
    (hfirst.move .collect).move (.call (fun _ => none) graph (.root ⟨1, 1⟩))
  exact hsecond.run (second.advance_steps 5).run

theorem labels_edited (g : Graph) (entry : Entry) (hm : .entered g entry ∈ labels) : g.Edited := by
  have hg : g ∈ labels.filterMap Sums.entered? := List.mem_filterMap.mpr ⟨_, hm, rfl⟩
  have htwo : labels.filterMap Sums.entered? = [former, graph] := rfl
  rw [htwo, List.mem_cons, List.mem_singleton] at hg
  rcases hg with rfl | rfl
  · exact former_edited
  · exact graph_edited

end Rewiring

/-- No handle reaches the scheduler that its graph does not hold, however the graphs were made and
edited between evaluations. What waits in a queue is live, and so is what is taken from one, with
all that it waits for and all that the search for a cycle looks at. Hence no node is dropped because
a node is missing, and a diagnostic that says so is the error of a body. A dead handle is refused
before anything is queued, at the entry of an evaluation as well as by a body. -/
theorem queued_handles_live {ls : List Label} {m : Machine} (h : Life ls m)
    (hedited : ∀ g entry, .entered g entry ∈ ls → g.Edited) :
    (∀ frame ∈ m.session.frames, ∀ node ∈ frame.queue, frame.graph.Live node) ∧
    (∀ l ∈ ls, ∀ g node, l.taken? = some (g, node) → g.Live node ∧ ∀ s : Session,
      (∀ output ∈ s.awaited g node, g.Live output.node) ∧
      s.search g node (g.size + 1) [node] [] = .ok (s.dependsOnItself g node)) ∧
    (∀ g node missing, .settled g node (.drop (.nodeNotFound missing)) ∉ ls) ∧
    (∀ d ∈ m.session.diagnostics.toList, ∀ missing, d.error = .nodeNotFound missing →
      ∃ a, .finished a (.error d.error) ∈ ls ∧ d.graph = a.graph.id ∧ d.node = a.handle) ∧
    (∀ scene fuel g node, g.node? node = none → ∃ e s',
      m.session.evaluate scene fuel g (.root node) = some (.error e, s') ∧
      s'.memory = m.session.memory ∧ m.session.Reports s' {} ∧
      (m.session.depth < m.session.config.maxGraphDepth.toNat → e = .nodeNotFound node)) ∧
    ∀ node, (∀ g, m.session.activeGraph = .ok g → g.node? node = none) →
      ∃ e, (Operation.queue node).run m.session = (.error e, m.session) := by
  have htied : ∀ g entry, .entered g entry ∈ ls → g.Tied :=
    fun g entry he => (hedited g entry he).tied
  obtain ⟨hframes, htaken⟩ := h.served htied
  have hmissing := h.settled_ne_missing htied
  refine ⟨fun frame hf => (hframes frame hf).live, ?_, hmissing, ?_, ?_, ?_⟩
  · intro l hl g node ht
    obtain ⟨hg, hlive⟩ := htaken l hl g node ht
    refine ⟨hlive, fun s => ⟨fun output ho => Session.awaited_live hg ho, ?_⟩⟩
    exact Session.search_eq hg (List.forall_mem_singleton.mpr hlive) node (g.size + 1)
  · intro d hd missing he
    obtain ⟨l, hl, config, depth, hd⟩ := h.diagnosed d hd
    rcases Label.account_missing hd he with ⟨g, node, rfl⟩ | ⟨a, rfl, hsite⟩
    · exact absurd hl (hmissing g node missing)
    · rw [he]
      exact ⟨a, hl, congrArg Diagnostic.graph hsite, congrArg Diagnostic.node hsite⟩
  · intro scene fuel g node hdead
    exact Session.evaluate_dead hdead m.session scene fuel
  · intro node hdead
    exact Session.queue_dead hdead

/-- Of the two numbers that were put in one slot the session has run the first and has the second in
its queue; the handle of the first is refused by now. -/
theorem queued_handles_live_rewiring :
    (Rewiring.second.advance 5).2.session.frames.map (·.queue) = [[⟨2, 3⟩, ⟨3, 1⟩]] ∧
    (Rewiring.second.advance 5).2.session.isEvaluated Rewiring.graph.id ⟨2, 1⟩ = true ∧
    Rewiring.graph.Live ⟨2, 3⟩ ∧ Rewiring.graph.Live ⟨3, 1⟩ ∧
    ∃ e, (Operation.queue ⟨2, 1⟩).run (Rewiring.second.advance 5).2.session =
      (.error e, (Rewiring.second.advance 5).2.session) := by
  obtain ⟨hqueued, -, -, -, -, hrefused⟩ :=
    queued_handles_live Rewiring.life Rewiring.labels_edited
  have hframe : (Rewiring.second.advance 5).2.session.frames =
    [⟨Rewiring.graph, [⟨2, 3⟩, ⟨3, 1⟩]⟩] := rfl
  rw [hframe] at hqueued
  have hlive := hqueued _ List.mem_cons_self
  refine ⟨rfl, rfl, hlive _ (by decide), hlive _ (by decide), hrefused ⟨2, 1⟩ ?_⟩
  intro g hg
  have hactive : (Rewiring.second.advance 5).2.session.activeGraph = .ok Rewiring.graph := rfl
  rw [hactive] at hg
  cases hg
  rfl

end Flowgraph
