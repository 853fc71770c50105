import Flowgraph.Proofs.Correspondence
import Flowgraph.Proofs.Verdict

namespace Flowgraph

/-- The graph of the activation holds its node. -/
def Activation.Live (a : Activation) : Prop :=
  ∃ n, a.graph.node? a.handle = some n ∧ n.definition = a.definition

/-- Bodies under way, one frame and one call each, above the frames and calls that were there before
them. -/
inductive Levels (fs : List Frame) (cs : List Handle) :
    List Activation → List Frame → List Handle → Prop where
  | base : Levels fs cs [] fs cs
  | level (live : a.Live) (graph : frame.graph = a.graph) (below : Levels fs cs as frames calls) :
      Levels fs cs (a :: as) (frame :: frames) (a.handle :: calls)

/-- The activations held up by nested evaluations. -/
def Machine.held (m : Machine) : List Activation := m.suspended.map (·.activation)

/-- The graph `g` has its queue drained: its frame lies on those of the bodies under way. -/
def Atop (fs : List Frame) (cs : List Handle) (g : Graph) (as : List Activation) (μ : Memory) :
    Prop :=
  ∃ frame rest, μ.frames = frame :: rest ∧ frame.graph = g ∧ Levels fs cs as rest μ.calls

/-- How the two stacks stand above `fs` and `cs`. While a queue is drained there is a frame more than
there are calls; while a body runs each level has both. -/
def Stacked (fs : List Frame) (cs : List Handle) (m : Machine) : Prop :=
  match m.control with
  | .idle => m.suspended = [] ∧ m.session.memory.frames = fs ∧ m.session.memory.calls = cs
  | .entering .. | .returning _ =>
    Levels fs cs m.held m.session.memory.frames m.session.memory.calls
  | .draining g => Atop fs cs g m.held m.session.memory
  | .running a _ => Levels fs cs (a :: m.held) m.session.memory.frames m.session.memory.calls

/-- The graphs under evaluation, the innermost first. -/
def Memory.graphs (μ : Memory) : List Graph := μ.frames.map (·.graph)

/-- At most the innermost queue differs. -/
structure Memory.SameStacks (μ μ' : Memory) : Prop where
  config : μ'.config = μ.config
  calls : μ'.calls = μ.calls
  graphs : μ'.graphs = μ.graphs
  below : μ'.frames.tail = μ.frames.tail

theorem Memory.SameStacks.refl (μ : Memory) : μ.SameStacks μ := ⟨rfl, rfl, rfl, rfl⟩

theorem Memory.SameStacks.trans {μ μ' μ'' : Memory} (h : μ.SameStacks μ')
    (h' : μ'.SameStacks μ'') : μ.SameStacks μ'' :=
  ⟨h'.config.trans h.config, h'.calls.trans h.calls, h'.graphs.trans h.graphs,
    h'.below.trans h.below⟩

theorem Memory.enqueue_sameStacks (μ : Memory) (nodes : List Handle) :
    μ.SameStacks (μ.enqueue nodes) := by
  unfold Memory.enqueue
  split
  · exact .refl μ
  · rename_i frame rest hf
    exact ⟨rfl, rfl, by simp [Memory.graphs, hf], by simp [hf]⟩

theorem Memory.settle_sameStacks (μ : Memory) (graph : GraphId) (h : Handle)
    (v : Session.Verdict) : μ.SameStacks (μ.settle graph h v) := by
  cases v with
  | defer producers => exact μ.enqueue_sameStacks _
  | alreadyDropped | alreadyEvaluated | drop e | start d body => exact ⟨rfl, rfl, rfl, rfl⟩

theorem Operation.run_sameStacks (op : Operation) (s : Session) :
    s.memory.SameStacks (op.run s).2.memory := by
  rcases op.run_cases s with hm | ⟨_, _, _, -, -, -, hm⟩ | ⟨_, _, -, -, hm⟩ | ⟨_, _, _, -, -, -, hm⟩
  all_goals rw [hm]
  · exact .refl _
  · exact ⟨rfl, rfl, rfl, rfl⟩
  · exact Memory.enqueue_sameStacks _ _
  · exact Memory.enqueue_sameStacks _ _

theorem Session.dequeue?_sameStacks {s s' : Session} {h : Handle}
    (hd : s.dequeue? = some (h, s')) : s.memory.SameStacks s'.memory := by
  obtain ⟨frame, rest, queue, hf, -, hm⟩ := dequeue?_eq_some hd
  rw [hm]
  exact ⟨rfl, rfl, by simp [Memory.graphs, hf], by simp [hf]⟩

/-- The frame on top keeps its graph and those under it stay as they are. -/
theorem Memory.SameStacks.frames_cons {μ μ' : Memory} {frame : Frame} {rest : List Frame}
    (h : μ.SameStacks μ') (hf : μ.frames = frame :: rest) :
    ∃ frame', μ'.frames = frame' :: rest ∧ frame'.graph = frame.graph := by
  have hgraphs := h.graphs
  have hbelow := h.below
  cases hf' : μ'.frames with
  | nil => simp [Memory.graphs, hf, hf'] at hgraphs
  | cons frame' rest' =>
    simp only [Memory.graphs, hf, hf', List.map_cons, List.cons.injEq] at hgraphs
    simp only [hf, hf', List.tail_cons] at hbelow
    exact ⟨frame', by rw [hbelow], hgraphs.1⟩

/-- A running body leaves every stack as it is but for its own queue. -/
theorem Levels.sameStacks {μ μ' : Memory} (h : Levels fs cs (a :: as) μ.frames μ.calls)
    (hs : μ.SameStacks μ') : Levels fs cs (a :: as) μ'.frames μ'.calls := by
  generalize hf : μ.frames = frames at h
  generalize hc : μ.calls = calls at h
  cases h with
  | level live graph below =>
    obtain ⟨frame', hf', hg⟩ := hs.frames_cons hf
    rw [hf', hs.calls, hc]
    exact .level live (hg.trans graph) below

theorem Levels.eq_base (h : Levels fs cs [] frames calls) : frames = fs ∧ calls = cs := by
  cases h with
  | base => exact ⟨rfl, rfl⟩

theorem Atop.sameStacks {μ μ' : Memory} (h : Atop fs cs g as μ) (hs : μ.SameStacks μ') :
    Atop fs cs g as μ' := by
  obtain ⟨frame, rest, hf, hg, hl⟩ := h
  obtain ⟨frame', hf', hg'⟩ := hs.frames_cons hf
  refine ⟨frame', rest, hf', hg'.trans hg, ?_⟩
  rw [hs.calls]
  exact hl

theorem Atop.tail {μ : Memory} (h : Atop fs cs g as μ) :
    Levels fs cs as μ.frames.tail μ.calls := by
  obtain ⟨frame, rest, hf, -, hl⟩ := h
  rw [hf]
  exact hl

/-- A body that ends leaves its frame on top and takes its call off. -/
theorem Levels.atop {μ : Memory} (h : Levels fs cs (a :: as) μ.frames μ.calls) :
    ∃ frame rest, μ.frames = frame :: rest ∧ frame.graph = a.graph ∧
      Levels fs cs as rest μ.calls.tail := by
  generalize hf : μ.frames = frames at h
  generalize hc : μ.calls = calls at h
  cases h with
  | level live graph below => exact ⟨_, _, rfl, graph, below⟩

theorem Session.verdict_live {s : Session} {g : Graph} {h : Handle} {d : Definition}
    {body : Program Unit} (hv : s.verdict g h = .start d body) : (Activation.mk g h d).Live := by
  cases verdict_judged hv with
  | due kept live new nothing body => exact ⟨_, live, rfl⟩

/-- Every step keeps the two stacks in line. -/
theorem Stacked.step (hs : Stacked fs cs m) (h : Step m l m') : Stacked fs cs m' := by
  cases h with
  | refuse hseeds =>
    simp only [Stacked, Session.seeds_memory hseeds] at hs ⊢
    exact hs
  | enter hseeds =>
    simp only [Stacked, Session.openGraph_memory, Session.seeds_memory hseeds] at hs ⊢
    exact ⟨_, _, rfl, rfl, hs⟩
  | drained hd =>
    simp only [Stacked, Session.closeGraph_memory]
    exact Atop.tail hs
  | exhaust hd he =>
    simp only [Stacked, Session.closeGraph_memory, Session.log_memory, Session.countStep_memory]
    exact Atop.tail (Atop.sameStacks hs (Session.dequeue?_sameStacks hd))
  | settle hd he hv hn =>
    simp only [Stacked, Session.settle_memory, Session.countStep_memory]
    have hq := Atop.sameStacks hs (Session.dequeue?_sameStacks hd)
    exact hq.sameStacks (Memory.settle_sameStacks _ _ _ _)
  | start hd he hv =>
    obtain ⟨frame, rest, hf, hg, hl⟩ := Atop.sameStacks hs (Session.dequeue?_sameStacks hd)
    simp only [Stacked, Session.startNode_memory, Session.countStep_memory, hf]
    exact .level (Session.verdict_live hv) hg hl
  | perform => exact Levels.sameStacks hs (Operation.run_sameStacks _ _)
  | unresolved hr => exact hs
  | call hr => exact hs
  | finish =>
    simp only [Stacked, Session.finishNode_memory] at hs ⊢
    exact hs.atop
  | resume => exact hs

theorem Steps.stacked (h : Steps m ls m') (hs : Stacked fs cs m) : Stacked fs cs m' := by
  induction h with
  | refl => exact hs
  | head first _ ih => exact ih (hs.step first)

/-- An evaluation leaves both stacks as it found them, with every queue, however it ends. -/
theorem Call.stacks {scene : Scene} {s s' : Session} {g : Graph} {entry : Entry}
    {result : Except Error Unit} (h : Call scene s g entry ls result s') :
    s'.frames = s.frames ∧ s'.calls = s.calls := by
  have hs : Stacked s.frames s.calls ⟨scene, .entering g entry, [], s⟩ := Levels.base
  have ht := Steps.stacked h hs
  exact Levels.eq_base ht

/-- What a step can do to the graphs under evaluation: nothing, take the innermost off, or put one
on top for which there is room. The configuration stays. -/
theorem Step.graphs (h : Step m l m') :
    m'.session.memory.config = m.session.memory.config ∧
    (m'.session.memory.graphs = m.session.memory.graphs ∨
      m'.session.memory.graphs = m.session.memory.graphs.tail ∨
      ∃ g entry, l = .entered g entry ∧
        m'.session.memory.graphs = g :: m.session.memory.graphs ∧
        m.session.memory.graphs.length < m.session.memory.config.maxGraphDepth.toNat) := by
  cases h with
  | refuse hs =>
    rw [Session.seeds_memory hs]
    exact ⟨rfl, .inl rfl⟩
  | enter hs =>
    have hroom := Session.seeds_depth hs
    rw [Session.openGraph_memory, Session.seeds_memory hs]
    exact ⟨rfl, .inr (.inr ⟨_, _, rfl, rfl, by simpa [Memory.graphs] using hroom⟩)⟩
  | drained hd =>
    rw [Session.closeGraph_memory]
    exact ⟨rfl, .inr (.inl List.map_tail)⟩
  | exhaust hd he =>
    have hq := Session.dequeue?_sameStacks hd
    rw [Session.closeGraph_memory, Session.log_memory, Session.countStep_memory]
    refine ⟨hq.config, .inr (.inl ?_)⟩
    rw [← hq.graphs]
    exact List.map_tail
  | @settle h g v _ _ s s' hd he hv hn =>
    have hq := (Session.dequeue?_sameStacks hd).trans (s'.memory.settle_sameStacks g.id h v)
    rw [Session.settle_memory, Session.countStep_memory]
    exact ⟨hq.config, .inl hq.graphs⟩
  | start hd he hv =>
    have hq := Session.dequeue?_sameStacks hd
    rw [Session.startNode_memory, Session.countStep_memory]
    exact ⟨hq.config, .inl hq.graphs⟩
  | @perform _ _ _ s op next =>
    have hq := op.run_sameStacks s
    exact ⟨hq.config, .inl hq.graphs⟩
  | unresolved hr => exact ⟨rfl, .inl rfl⟩
  | call hr => exact ⟨rfl, .inl rfl⟩
  | finish =>
    rw [Session.finishNode_memory]
    exact ⟨rfl, .inl rfl⟩
  | resume => exact ⟨rfl, .inl rfl⟩

theorem Memory.enqueue_library (μ : Memory) (nodes : List Handle) :
    (μ.enqueue nodes).library = μ.library := by
  unfold Memory.enqueue
  split <;> rfl

theorem Memory.settle_library (μ : Memory) (graph : GraphId) (h : Handle) (v : Session.Verdict) :
    (μ.settle graph h v).library = μ.library := by
  cases v with
  | defer producers => exact μ.enqueue_library _
  | alreadyDropped | alreadyEvaluated | drop e | start d body => rfl

theorem Session.dequeue?_library {s s' : Session} {h : Handle} (hd : s.dequeue? = some (h, s')) :
    s'.memory.library = s.memory.library := by
  obtain ⟨_, _, _, -, -, hm⟩ := dequeue?_eq_some hd
  rw [hm]

theorem Step.library (h : Step m l m') :
    m'.session.memory.library = m.session.memory.library := by
  cases h with
  | refuse hseeds => rw [Session.seeds_memory hseeds]
  | enter hseeds => rw [Session.openGraph_memory, Session.seeds_memory hseeds]
  | drained hd => rw [Session.closeGraph_memory]
  | exhaust hd he =>
    rw [Session.closeGraph_memory, Session.log_memory, Session.countStep_memory]
    exact Session.dequeue?_library hd
  | settle hd he hv hn =>
    rw [Session.settle_memory, Memory.settle_library, Session.countStep_memory]
    exact Session.dequeue?_library hd
  | start hd he hv =>
    rw [Session.startNode_memory, Session.countStep_memory]
    exact Session.dequeue?_library hd
  | @perform _ a _ s op next =>
    rcases op.run_cases s with hm | ⟨_, _, _, -, -, -, hm⟩ | ⟨_, _, -, -, hm⟩ |
      ⟨_, _, _, -, -, -, hm⟩
    all_goals rw [hm]
    · exact Memory.enqueue_library _ _
    · exact Memory.enqueue_library _ _
  | unresolved hr => rfl
  | call hr => rfl
  | finish => rw [Session.finishNode_memory]
  | resume => rfl

theorem Steps.same_scene (h : Steps m ls m') : m'.scene = m.scene := by
  induction h with
  | refl => rfl
  | head first _ ih => exact ih.trans (by cases first <;> rfl)

theorem Steps.config (h : Steps m ls m') :
    m'.session.memory.config = m.session.memory.config := by
  induction h with
  | refl => rfl
  | head first _ ih => exact ih.trans first.graphs.1

/-- No more graphs are under evaluation than the configuration allows. -/
def Machine.Bounded (m : Machine) : Prop :=
  m.session.memory.graphs.length ≤ m.session.memory.config.maxGraphDepth.toNat

theorem Machine.bounded_of_nil {m : Machine} (hf : m.session.memory.frames = []) : m.Bounded := by
  unfold Machine.Bounded Memory.graphs
  rw [hf]
  exact Nat.zero_le _

theorem Machine.Bounded.step {m m' : Machine} (hb : m.Bounded) (h : Step m l m') : m'.Bounded := by
  obtain ⟨hconfig, hgraphs | hgraphs | ⟨g, entry, -, hgraphs, hroom⟩⟩ := h.graphs
  all_goals
    unfold Machine.Bounded at hb ⊢
    rw [hconfig, hgraphs]
  · exact hb
  · rw [List.length_tail]
    omega
  · exact hroom

theorem Memory.SameStacks.frames_nil {μ μ' : Memory} (h : μ.SameStacks μ') (hf : μ.frames = []) :
    μ'.frames = [] := by
  have hgraphs := h.graphs
  rw [Memory.graphs, Memory.graphs, hf] at hgraphs
  exact List.map_eq_nil_iff.mp hgraphs

/-- Between evaluations the host finds and leaves both stacks empty. -/
theorem Stacked.move (hs : Stacked [] [] m) (h : Move m m') : Stacked [] [] m' := by
  cases h with
  | equip => exact hs
  | perform op =>
    obtain ⟨hw, hf, hc⟩ := hs
    exact ⟨rfl, (op.run_sameStacks _).frames_nil hf, (op.run_sameStacks _).calls.trans hc⟩
  | call scene' g entry =>
    obtain ⟨hw, hf, hc⟩ := hs
    simp only [Stacked, Machine.held, List.map_nil, hf, hc]
    exact .base
  | collect =>
    obtain ⟨hf, hc⟩ := Levels.eq_base hs
    exact ⟨rfl, hf, hc⟩

theorem Machine.Bounded.move {m m' : Machine} (hb : m.Bounded) (hs : Stacked [] [] m)
    (h : Move m m') : m'.Bounded := by
  cases h with
  | equip config extensions sink journal =>
    obtain ⟨hw, hf, hc⟩ := hs
    exact Machine.bounded_of_nil hf
  | @perform _ s op =>
    have hq := op.run_sameStacks s
    unfold Machine.Bounded
    rw [hq.graphs, hq.config]
    exact hb
  | call scene' g entry => exact hb
  | collect => exact hb

theorem Life.stacked (h : Life ls m) : Stacked [] [] m ∧ m.Bounded := by
  refine h.keeps (P := fun _ m => Stacked [] [] m ∧ m.Bounded) ?_ ?_ ?_
  · intro scene s hs
    exact ⟨⟨rfl, hs.frames, hs.calls⟩, Machine.bounded_of_nil hs.frames⟩
  · intro ls m l m' _ ⟨hs, hb⟩ h
    exact ⟨hs.step h, hb.step h⟩
  · intro ls m m' _ ⟨hs, hb⟩ h
    exact ⟨hs.move h, hb.move hs h⟩

/-- Each level has a call of a live node of its graph. -/
theorem Levels.live (h : Levels [] [] as frames calls) (i : Nat) (hc : calls[i]? = some c) :
    ∃ frame n, frames[i]? = some frame ∧ frame.graph.node? c = some n := by
  induction h generalizing i with
  | base => simp at hc
  | level live graph below ih =>
    cases i with
    | zero =>
      obtain ⟨n, hn, -⟩ := live
      simp only [List.getElem?_cons_zero, Option.some.injEq] at hc
      subst hc
      exact ⟨_, n, rfl, graph ▸ hn⟩
    | succ i => exact ih i hc

theorem Levels.length_eq (h : Levels [] [] as frames calls) :
    as.length = frames.length ∧ calls.length = frames.length := by
  induction h with
  | base => exact ⟨rfl, rfl⟩
  | level _ _ _ ih => simp [ih]

/-- What the operations of a running body act on is its own node in its own graph. -/
theorem Stacked.current (hs : Stacked fs cs m) (hr : m.control = .running a rest) :
    ∃ n, a.graph.node? a.handle = some n ∧ n.definition = a.definition ∧
      m.session.current = .ok ⟨a.handle, a.graph, n⟩ := by
  simp only [Stacked, hr] at hs
  generalize hf : m.session.memory.frames = frames at hs
  generalize hc : m.session.memory.calls = calls at hs
  cases hs with
  | level live graph below =>
    obtain ⟨n, hn, hd⟩ := live
    refine ⟨n, hn, hd, Session.current_eq_ok.mpr ⟨_, _, _, hf, hc, graph.symm, ?_⟩⟩
    rw [graph]
    exact hn

/-- At every moment of a session's life an evaluation that ends leaves both stacks, with all queues,
as it found them. While a body runs each graph has a call of one of its live nodes, the innermost
that of the body. No more graphs are open than are allowed, and none between evaluations. -/
theorem evaluation_keeps_stacks {ls : List Label} {m : Machine} (h : Life ls m) :
    (∀ scene fuel g entry result s', m.session.evaluate scene fuel g entry = some (result, s') →
      s'.frames = m.session.frames ∧ s'.calls = m.session.calls) ∧
    (∀ a rest, m.control = .running a rest →
      m.session.calls.length = m.session.frames.length ∧
      (∀ (i : Nat) c, m.session.calls[i]? = some c →
        ∃ frame n, m.session.frames[i]? = some frame ∧ frame.graph.node? c = some n) ∧
      ∃ n, a.graph.node? a.handle = some n ∧
        m.session.current = .ok ⟨a.handle, a.graph, n⟩) ∧
    m.session.frames.length ≤ m.session.config.maxGraphDepth.toNat ∧
    (m.control = .idle → m.session.frames = [] ∧ m.session.calls = []) := by
  obtain ⟨hs, hb⟩ := h.stacked
  have hdepth : m.session.frames.length ≤ m.session.config.maxGraphDepth.toNat := by
    rw [Machine.Bounded, Memory.graphs, List.length_map] at hb
    exact hb
  refine ⟨?_, ?_, hdepth, ?_⟩
  · intro scene fuel g entry result s' he
    obtain ⟨ls, hc⟩ := evaluate_iff_call.mp ⟨fuel, he⟩
    exact hc.stacks
  · intro a rest hr
    obtain ⟨n, hn, -, hc⟩ := hs.current hr
    simp only [Stacked, hr] at hs
    exact ⟨hs.length_eq.2, fun i c => hs.live i, n, hn, hc⟩
  · intro hi
    simp only [Stacked, hi] at hs
    exact ⟨hs.2.1, hs.2.2⟩

namespace Reentry

/-- A pure node that gives seven. -/
def seven : Definition where
  metadata := {
    nodeType := "seven", category := .value, label := "Seven", description := "Gives seven"
    inputs := [], outputs := [⟨"out", "Out", .data .int⟩]
    isPure := true, isRoot := false }
  body := some (Program.setOutput 0 (.int 7))

/-- A node that evaluates the graph it stands in once more. -/
def again : Definition where
  metadata := {
    nodeType := "again", category := .graph, label := "Again", description := "Starts over"
    inputs := [⟨"in", "In", .data .int⟩], outputs := []
    isPure := false, isRoot := true }
  body := some (Program.evaluate (.named "loop") (.root ⟨2, 1⟩))

/-- The two of them with a wire between them, and a constant left behind on the wired input. -/
def loop : Graph.Editor Unit := do
  let source ← modifyGet (·.addNode (.new seven))
  let target ← modifyGet (·.addRoot (.new again))
  Graph.addWire ⟨source, 0⟩ ⟨target, 0⟩
  Graph.updateNode target (Node.setConstant 0 (.int 5))

def graph : Graph := loop.result (.new (.ofNat 1) "loop")

/-- The graph under evaluation on a session that allows two levels. -/
def entry : Machine :=
  ⟨fun _ => some graph, .entering graph (.root ⟨2, 1⟩), [],
    { executionId := "", config := { maxGraphDepth := 2 } }⟩

theorem entry_life (n : Nat) : Life (entry.advance n).1 (entry.advance n).2 :=
  Session.Fresh.life ⟨rfl, rfl, rfl, rfl, rfl, rfl, rfl, rfl⟩ _ _ _ n

end Reentry

/-- After nine steps the second level of a graph that evaluates itself runs its body. -/
theorem evaluation_keeps_stacks_reentry :
    (Reentry.entry.advance 9).2.session.frames.length = 2 ∧
    (Reentry.entry.advance 9).2.session.calls.length =
      (Reentry.entry.advance 9).2.session.frames.length := by
  have h := evaluation_keeps_stacks (Reentry.entry_life 9)
  have hr : (Reentry.entry.advance 9).2.control = .running ⟨Reentry.graph, ⟨2, 1⟩, Reentry.again⟩
      (Program.evaluate (.named "loop") (.root ⟨2, 1⟩)) := rfl
  exact ⟨rfl, (h.2.1 _ _ hr).1⟩

end Flowgraph
