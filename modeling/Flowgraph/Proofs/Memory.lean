import Flowgraph.Proofs.Updates
import Flowgraph.Session.Evaluation

namespace Flowgraph

/-- The part of a session that decides how its evaluations go on. Events, diagnostics, counts and the
journal only report on it. -/
structure Memory where
  config : Config
  library : Option Library
  frames : List Frame
  calls : List Handle
  cache : Table Outlet Value
  evaluated : List Site
  dropped : List Site

/-- What `Session.enqueue` does to the frames. -/
def Memory.enqueue (μ : Memory) (nodes : List Handle) : Memory :=
  match μ.frames with
  | [] => μ
  | frame :: rest => { μ with frames := { frame with queue := frame.queue ++ nodes } :: rest }

/-- What carrying out a verdict does to the memory. -/
def Memory.settle (μ : Memory) (graph : GraphId) (h : Handle) : Session.Verdict → Memory
  | .drop _ => { μ with dropped := μ.dropped.insert ⟨graph, h⟩ }
  | .defer producers => μ.enqueue (producers ++ [h])
  | .alreadyDropped | .alreadyEvaluated | .start .. => μ

theorem bind_eq_ok {x : Except ε α} {f : α → Except ε β} :
    (x >>= f) = .ok b ↔ ∃ a, x = .ok a ∧ f a = .ok b := by
  cases x <;> simp [bind, Except.bind]

theorem Extensions.library?_print (e : Extensions) (line : String) :
    (e.print line).library? = e.library? := by
  unfold Extensions.print
  split
  · have hk : ¬ Extensions.consoleKey = Extensions.libraryKey := by decide
    simp [Extensions.library?, Extensions.setConsole, Extensions.set, Extensions.get?,
      Table.get?_insert, hk]
  · rfl

theorem Graph.node_eq_ok {g : Graph} {h : Handle} {n : Node} :
    g.node h = .ok n ↔ g.node? h = some n := by
  unfold Graph.node Graph.node? Arena.get
  cases g.nodes.get? h <;> simp

theorem Graph.node_eq_error {g : Graph} {h : Handle} {e : Error} :
    g.node h = .error e ↔ g.node? h = none ∧ e = .nodeNotFound h := by
  unfold Graph.node Graph.node? Arena.get
  cases g.nodes.get? h <;> simp [eq_comm]

namespace Session

def memory (s : Session) : Memory :=
  ⟨s.config, s.extensions.library?, s.frames, s.calls, s.cache, s.evaluated, s.dropped⟩

@[simp] theorem log_memory (s : Session) (level : Level) (text : String) :
    (s.log level text).memory = s.memory := rfl

@[simp] theorem emit_memory (s : Session) (graph : GraphId) (o : Occurrence) :
    (s.emit graph o).memory = s.memory := by
  unfold emit
  split <;> rfl

@[simp] theorem report_memory (s : Session) (graph : GraphId) (h : Handle) (e : Error) :
    (s.report graph h e).memory = s.memory := rfl

@[simp] theorem countStep_memory (s : Session) : s.countStep.memory = s.memory := rfl

@[simp] theorem enqueue_memory (s : Session) (nodes : List Handle) :
    (s.enqueue nodes).memory = s.memory.enqueue nodes := by
  unfold enqueue Memory.enqueue
  cases hf : s.frames <;> simp [memory, hf]

@[simp] theorem dropNode_memory (s : Session) (graph : GraphId) (h : Handle) (e : Error) :
    (s.dropNode graph h e).memory =
      { s.memory with dropped := s.memory.dropped.insert ⟨graph, h⟩ } := by
  unfold dropNode
  rw [report_memory, emit_memory]
  rfl

@[simp] theorem deferNode_memory (s : Session) (graph : GraphId) (h : Handle)
    (producers : List Handle) :
    (s.deferNode graph h producers).memory = s.memory.enqueue (producers ++ [h]) := by
  unfold deferNode
  rw [enqueue_memory, emit_memory]
  rfl

@[simp] theorem startNode_memory (s : Session) (graph : GraphId) (h : Handle) (d : Definition) :
    (s.startNode graph h d).memory = { s.memory with calls := h :: s.memory.calls } := by
  have hc (t : Session) : ({ t with calls := h :: t.calls } : Session).memory =
      { t.memory with calls := h :: t.memory.calls } := rfl
  simp only [startNode, hc, emit_memory, log_memory]

theorem settle_memory (s : Session) (graph : GraphId) (h : Handle) (v : Verdict) :
    (s.settle graph h v).memory = s.memory.settle graph h v := by
  cases v with
  | alreadyDropped | alreadyEvaluated | start d body => rfl
  | drop e => exact dropNode_memory s graph h e
  | defer producers => exact deferNode_memory s graph h producers

/-- The nodes given up after a body has run: a pure one that failed joins them. -/
def droppedAfter (dropped : List Site) (site : Site) (isPure : Bool) :
    Except Error Unit → List Site
  | .ok () => dropped
  | .error _ => if isPure then dropped.insert site else dropped

theorem mem_droppedAfter {dropped : List Site} {site site' : Site} {isPure : Bool}
    {result : Except Error Unit} : site' ∈ droppedAfter dropped site isPure result ↔
      site' ∈ dropped ∨ site' = site ∧ isPure = true ∧ ∃ e, result = .error e := by
  cases result with
  | ok u => simp [droppedAfter]
  | error e =>
    cases isPure with
    | true => simp [droppedAfter, List.mem_insert_iff, or_comm]
    | false => simp [droppedAfter]

@[simp] theorem finishNode_memory (s : Session) (graph : GraphId) (h : Handle) (d : Definition)
    (result : Except Error Unit) :
    (s.finishNode graph h d result).memory = { s.memory with
      calls := s.memory.calls.tail
      evaluated := s.memory.evaluated.insert ⟨graph, h⟩
      dropped := droppedAfter s.memory.dropped ⟨graph, h⟩ d.isPure result } := by
  unfold finishNode
  match result with
  | .ok () => rw [emit_memory]; rfl
  | .error e =>
    rw [report_memory, emit_memory]
    cases hp : d.isPure <;> simp [memory, log, droppedAfter]

@[simp] theorem checkDepth_memory (s : Session) : s.checkDepth.2.memory = s.memory := by
  unfold checkDepth
  dsimp only
  split <;> rfl

theorem rootSeeds_memory (s : Session) (g : Graph) (h : Handle) :
    (s.rootSeeds g h).2.memory = s.memory := by
  have hd := checkDepth_memory s
  unfold rootSeeds
  split <;> rename_i hc <;> rw [hc] at hd
  · exact hd
  · split
    · exact hd
    · dsimp only
      split
      · exact hd
      · split <;> simpa using hd

theorem inputSeeds_memory (s : Session) (g : Graph) (ordinal : Nat) :
    (s.inputSeeds g ordinal).2.memory = s.memory := by
  have hd := checkDepth_memory s
  unfold inputSeeds
  split
  · rfl
  · split <;> rename_i hc <;> rw [hc] at hd <;> exact hd

/-- An entry is looked at without a change, whether it is admitted or not. -/
theorem seeds_memory {s s' : Session} {g : Graph} {entry : Entry}
    {result : Except Error (List Handle)} (hs : s.seeds g entry = (result, s')) :
    s'.memory = s.memory := by
  have he : s' = (s.seeds g entry).2 := by rw [hs]
  rw [he]
  cases entry with
  | root h => exact rootSeeds_memory s g h
  | executionInput ordinal => exact inputSeeds_memory s g ordinal.toNat

theorem checkDepth_room {s : Session} (h : s.depth < s.config.maxGraphDepth.toNat) :
    s.checkDepth = (.ok (), s) := if_pos h

theorem checkDepth_ok {s s' : Session} (h : s.checkDepth = (.ok (), s')) :
    s.memory.frames.length < s.memory.config.maxGraphDepth.toNat := by
  unfold checkDepth at h
  dsimp only at h
  split at h
  · assumption
  · simp at h

/-- An admitted entry has found room for one more graph. -/
theorem seeds_depth {s s' : Session} {g : Graph} {entry : Entry} {queue : List Handle}
    (h : s.seeds g entry = (.ok queue, s')) :
    s.memory.frames.length < s.memory.config.maxGraphDepth.toNat := by
  cases entry with
  | root r =>
    simp only [seeds, rootSeeds] at h
    split at h
    · simp at h
    · exact checkDepth_ok (by assumption)
  | executionInput ordinal =>
    simp only [seeds, inputSeeds] at h
    split at h
    · simp at h
    · split at h
      · simp at h
      · exact checkDepth_ok (by assumption)

@[simp] theorem openGraph_memory (s : Session) (g : Graph) (entry : Entry) (queue : List Handle) :
    (s.openGraph g entry queue).memory =
      { s.memory with frames := ⟨g, queue⟩ :: s.memory.frames } := by
  have hf (t : Session) : ({ t with frames := ⟨g, queue⟩ :: t.frames } : Session).memory =
      { t.memory with frames := ⟨g, queue⟩ :: t.memory.frames } := rfl
  simp only [openGraph, hf, emit_memory]
  split <;> rfl

@[simp] theorem closeGraph_memory (s : Session) :
    s.closeGraph.memory = { s.memory with frames := s.memory.frames.tail } := by
  unfold closeGraph
  split
  · rename_i hf
    simp [memory, hf]
  · rename_i frame rest hf
    dsimp only
    split
    · rw [log_memory, emit_memory]
      simp [memory, hf]
    · rw [emit_memory]
      simp [memory, hf]

theorem dequeue?_eq_some {s s' : Session} {h : Handle} (hd : s.dequeue? = some (h, s')) :
    ∃ frame rest queue, s.memory.frames = frame :: rest ∧ frame.queue = h :: queue ∧
      s'.memory = { s.memory with frames := { frame with queue } :: rest } := by
  unfold dequeue? at hd
  split at hd
  · simp at hd
  · rename_i frame rest hf
    split at hd
    · simp at hd
    · rename_i h' queue hq
      simp only [Option.some.injEq, Prod.mk.injEq] at hd
      obtain ⟨rfl, rfl⟩ := hd
      exact ⟨frame, rest, queue, hf, hq, rfl⟩

theorem dequeue?_eq_none {s : Session} {frame : Frame} {rest : List Frame}
    (hd : s.dequeue? = none) (hf : s.memory.frames = frame :: rest) : frame.queue = [] := by
  have hf' : s.frames = frame :: rest := hf
  unfold dequeue? at hd
  simp only [hf'] at hd
  split at hd
  · assumption
  · simp at hd

theorem dequeue?_frames {s : Session} (hf : s.memory.frames = ⟨g, h :: queue⟩ :: fs) :
    ∃ s', s.dequeue? = some (h, s') ∧
      s'.memory = { s.memory with frames := ⟨g, queue⟩ :: fs } := by
  have hf' : s.frames = ⟨g, h :: queue⟩ :: fs := hf
  exact ⟨{ s with frames := ⟨g, queue⟩ :: fs }, by simp [dequeue?, hf'], rfl⟩

/-- The running node is the innermost call, read in the innermost graph. -/
theorem current_eq_ok {s : Session} {c : Current} :
    s.current = .ok c ↔ ∃ frame rest calls, s.memory.frames = frame :: rest ∧
      s.memory.calls = c.handle :: calls ∧ c.graph = frame.graph ∧
      frame.graph.node? c.handle = some c.node := by
  unfold current activeNode activeGraph memory
  obtain ⟨handle, graph, node⟩ := c
  cases s.calls with
  | nil => simp [bind, Except.bind]
  | cons h calls =>
    cases s.frames with
    | nil => simp [bind, Except.bind]
    | cons frame rest =>
      simp only [bind, Except.bind, pure, Except.pure]
      cases hn : frame.graph.node h with
      | error e =>
        obtain ⟨hnone, -⟩ := Graph.node_eq_error.mp hn
        constructor
        · intro hc
          cases hc
        · rintro ⟨_, _, _, hf, hh, rfl, hsome⟩
          cases hf
          cases hh
          rw [hnone] at hsome
          cases hsome
      | ok n =>
        have hsome := Graph.node_eq_ok.mp hn
        constructor
        · intro hc
          cases hc
          exact ⟨frame, rest, calls, rfl, rfl, rfl, hsome⟩
        · rintro ⟨_, _, _, hf, hh, rfl, hsome'⟩
          cases hf
          cases hh
          rw [hsome] at hsome'
          cases hsome'
          rfl

theorem current_graph {s : Session} {c : Current} (hc : s.current = .ok c) :
    s.activeGraph = .ok c.graph := by
  obtain ⟨handle, -, hrest⟩ := bind_eq_ok.mp hc
  obtain ⟨graph, hgraph, hrest⟩ := bind_eq_ok.mp hrest
  obtain ⟨node, -, hrest⟩ := bind_eq_ok.mp hrest
  cases hrest
  exact hgraph

theorem setOutput_run {s : Session} {c : Current} (hc : s.current = .ok c) (port : Nat)
    (v : Value) : (setOutput port v).run s =
      if port < c.node.outputCount then
        (.ok (), { s with cache := s.cache.insert ⟨c.graph.id, c.handle, port⟩ v })
      else (.error (.portOutOfRange c.node.nodeType .output port c.node.outputCount), s) := by
  unfold setOutput
  rw [Update.run_get_bind, Update.run_look_bind, hc]
  dsimp only
  rw [Update.run_look_bind]
  by_cases hp : port < c.node.outputCount
  · rw [if_pos hp, Node.output_of_lt hp]
    rfl
  · rw [if_neg hp, Node.output_of_not_lt hp]

theorem setOutput_idle {s : Session} (hc : s.current = .error e) (port : Nat) (v : Value) :
    (setOutput port v).run s = (.error e, s) := by
  unfold setOutput
  rw [Update.run_get_bind, Update.run_look_bind, hc]

theorem fire_run {s : Session} {c : Current} (hc : s.current = .ok c) (port : Nat) :
    ∃ text, (fire port).run s =
      if port < c.node.outputCount then
        (.ok (), (s.log .debug text).enqueue (c.graph.targets ⟨c.handle, port⟩))
      else (.error (.portOutOfRange c.node.nodeType .output port c.node.outputCount), s) := by
  unfold fire
  rw [Update.run_get_bind, Update.run_look_bind, hc]
  dsimp only
  rw [Update.run_look_bind]
  by_cases hp : port < c.node.outputCount
  · simp only [if_pos hp, Node.output_of_lt hp]
    exact ⟨_, rfl⟩
  · rw [Node.output_of_not_lt hp]
    exact ⟨"", (if_neg hp).symm⟩

theorem fire_idle {s : Session} (hc : s.current = .error e) (port : Nat) :
    (fire port).run s = (.error e, s) := by
  unfold fire
  rw [Update.run_get_bind, Update.run_look_bind, hc]

theorem queueNode_run {s : Session} (hg : s.activeGraph = .ok g) (h : Handle) :
    (queueNode h).run s = match g.node? h with
      | some _ => (.ok (), s.enqueue [h])
      | none => (.error (.nodeNotFound h), s) := by
  unfold queueNode
  rw [Update.run_get_bind, Update.run_look_bind, hg]
  dsimp only
  rw [Update.run_look_bind]
  cases hn : g.node? h with
  | some n =>
    rw [Graph.node_eq_ok.mpr hn]
    rfl
  | none => rw [Graph.node_eq_error.mpr ⟨hn, rfl⟩]

theorem queueNode_idle {s : Session} (hg : s.activeGraph = .error e) (h : Handle) :
    (queueNode h).run s = (.error e, s) := by
  unfold queueNode
  rw [Update.run_get_bind, Update.run_look_bind, hg]

theorem libraryGraph_eq_ok {s : Session} :
    s.libraryGraph name = .ok g ↔ ∃ l, s.memory.library = some l ∧ l.get name = .ok g := by
  unfold libraryGraph memory
  cases s.extensions.library? <;> simp

end Session

/-- All that an operation can do: nothing, set an output of the running node, or append to the
innermost queue. -/
theorem Operation.run_cases (op : Operation) (s : Session) :
    (op.run s).2.memory = s.memory ∨
    (∃ port v c, op = .setOutput port v ∧ s.current = .ok c ∧ port < c.node.outputCount ∧
      (op.run s).2.memory =
        { s.memory with cache := s.memory.cache.insert ⟨c.graph.id, c.handle, port⟩ v }) ∨
    (∃ port c, op = .fire port ∧ s.current = .ok c ∧
      (op.run s).2.memory = s.memory.enqueue (c.graph.targets ⟨c.handle, port⟩)) ∨
    (∃ h g n, op = .queue h ∧ s.activeGraph = .ok g ∧ g.node? h = some n ∧
      (op.run s).2.memory = s.memory.enqueue [h]) := by
  cases op with
  | setOutput port v =>
    dsimp only [Operation.run]
    cases hc : s.current with
    | error e => exact .inl (by rw [Session.setOutput_idle hc])
    | ok c =>
      rw [Session.setOutput_run hc]
      split
      · rename_i hp
        exact .inr (.inl ⟨port, v, c, rfl, rfl, hp, rfl⟩)
      · exact .inl rfl
  | fire port =>
    dsimp only [Operation.run]
    cases hc : s.current with
    | error e => exact .inl (by rw [Session.fire_idle hc])
    | ok c =>
      obtain ⟨text, hfire⟩ := Session.fire_run hc port
      rw [hfire]
      split
      · exact .inr (.inr (.inl ⟨port, c, rfl, rfl, by simp⟩))
      · exact .inl rfl
  | queue h =>
    dsimp only [Operation.run]
    cases hg : s.activeGraph with
    | error e => exact .inl (by rw [Session.queueNode_idle hg])
    | ok g =>
      rw [Session.queueNode_run hg]
      cases hn : g.node? h with
      | none => exact .inl rfl
      | some n => exact .inr (.inr (.inr ⟨h, g, n, rfl, rfl, hn, by simp⟩))
  | print line =>
    left
    simp [Operation.run, Session.memory, Extensions.library?_print]
  | _ => exact .inl rfl

end Flowgraph
