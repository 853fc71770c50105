import Flowgraph.Proofs.Bodies
import Flowgraph.Proofs.Editing
import Flowgraph.Proofs.Locality
import Flowgraph.Proofs.Reports

namespace Flowgraph

/-- The operations of a body that concern its own node and the queue of its graph. -/
def Operation.IsLocal : Operation → Prop
  | .field _ | .inputCount | .input _ | .setOutput .. | .fire _ | .queue _ => True
  | _ => False

/-- The program keeps to its own node and asks for no evaluation. -/
def Program.IsLocal (p : Program α) : Prop := p.Within Operation.IsLocal fun _ => False

def Graph.IsLocal (g : Graph) : Prop :=
  ∀ h n body, g.node? h = some n → n.definition.body = some body → body.IsLocal

/-- What is under way belongs to one graph and stays within it. -/
def Control.Within (g : Graph) : Control → Prop
  | .idle | .returning _ => True
  | .entering g' _ | .draining g' => g' = g
  | .running a rest => a.graph = g ∧ rest.IsLocal

/-- One evaluation of the graph is under way and no other. -/
structure Machine.Confined (g : Graph) (m : Machine) : Prop where
  suspended : m.suspended = []
  control : m.control.Within g

section

variable {g : Graph} {m m' : Machine}

theorem Machine.Confined.step (hm : m.Confined g) (hg : g.IsLocal) (h : Step m l m') :
    l.graph = g ∧ m'.Confined g := by
  obtain ⟨hsuspended, hcontrol⟩ := hm
  cases h with
  | refuse hs => exact ⟨hcontrol, hsuspended, trivial⟩
  | enter hs => exact ⟨hcontrol, hsuspended, hcontrol⟩
  | drained hd => exact ⟨hcontrol, hsuspended, trivial⟩
  | exhaust hd he => exact ⟨hcontrol, hsuspended, trivial⟩
  | settle hd he hv hn => exact ⟨hcontrol, hsuspended, hcontrol⟩
  | start hd he hv =>
    cases hcontrol
    cases Session.verdict_judged hv with
    | due kept live new nothing body =>
      exact ⟨rfl, hsuspended, rfl, hg _ _ _ live body⟩
  | perform => exact ⟨hcontrol.1, hsuspended, hcontrol.1, hcontrol.2.2 _⟩
  | unresolved hr => exact hcontrol.2.1.elim
  | call hr => exact hcontrol.2.1.elim
  | finish => exact ⟨hcontrol.1, hsuspended, hcontrol.1⟩
  | resume => cases hsuspended

theorem Steps.elsewhere {id : GraphId} (h : Steps m ls m') (hs : Stacked fs cs m)
    (hm : m.Confined g) (hg : g.IsLocal) (hid : g.id ≠ id) :
    m.session.memory.SameOn m'.session.memory id := by
  induction h with
  | refl => exact .refl _ _
  | head first _ ih =>
    obtain ⟨rfl, hm'⟩ := hm.step hg first
    exact ((first.effect hs).elsewhere hid).trans (ih (hs.step first) hm')

end

/-- Two memories that an evaluation of one graph cannot tell apart. -/
structure Memory.Twins (id : GraphId) (μ₁ μ₂ : Memory) : Prop where
  config : μ₂.config = μ₁.config
  frames : μ₂.frames = μ₁.frames
  calls : μ₂.calls = μ₁.calls
  same : μ₁.SameOn μ₂ id

section

variable {id : GraphId} {μ₁ μ₂ : Memory}

theorem Memory.Twins.enqueue (h : Memory.Twins id μ₁ μ₂) (nodes : List Handle) :
    Memory.Twins id (μ₁.enqueue nodes) (μ₂.enqueue nodes) := by
  have same := (μ₁.enqueue_sameResults nodes).sameOn id
  have same' := (μ₂.enqueue_sameResults nodes).sameOn id
  refine ⟨?_, ?_, ?_, same.symm.trans (h.same.trans same')⟩
  · rw [(μ₂.enqueue_sameStacks nodes).config, (μ₁.enqueue_sameStacks nodes).config, h.config]
  · simp only [Memory.enqueue, h.frames]
    split
    · exact h.frames
    · rfl
  · rw [(μ₂.enqueue_sameStacks nodes).calls, (μ₁.enqueue_sameStacks nodes).calls, h.calls]

theorem Memory.Twins.withFrames (h : Memory.Twins id μ₁ μ₂) (frames : List Frame) :
    Memory.Twins id { μ₁ with frames } { μ₂ with frames } :=
  ⟨h.config, rfl, h.calls, h.same.cached, h.same.evaluated, h.same.dropped⟩

theorem Memory.Twins.settle (h : Memory.Twins id μ₁ μ₂) (graph : GraphId) (node : Handle)
    (v : Session.Verdict) :
    Memory.Twins id (μ₁.settle graph node v) (μ₂.settle graph node v) := by
  cases v with
  | alreadyDropped | alreadyEvaluated | start d body => exact h
  | defer producers => exact h.enqueue _
  | drop e =>
    refine ⟨h.config, h.frames, h.calls, h.same.cached, h.same.evaluated, fun node' => ?_⟩
    simp only [Memory.settle, List.mem_insert_iff, h.same.dropped]

end

namespace Session

section

variable {id : GraphId} {s₁ s₂ s₁' : Session}

theorem checkDepth_twin (h : Memory.Twins id s₁.memory s₂.memory)
    (hc : s₁.checkDepth = (result, s₁')) :
    ∃ s₂', s₂.checkDepth = (result, s₂') ∧ s₂'.config = s₁'.config := by
  have hconfig : s₂.config = s₁.config := h.config
  have hdepth : s₂.depth = s₁.depth := congrArg List.length h.frames
  unfold checkDepth at hc ⊢
  dsimp only at hc ⊢
  rw [hconfig, hdepth]
  split at hc <;> cases hc
  · rename_i hd
    exact ⟨s₂, if_pos hd, hconfig⟩
  · rename_i hd
    exact ⟨_, if_neg hd, hconfig⟩

theorem seeds_twin {g : Graph} {entry : Entry} (h : Memory.Twins id s₁.memory s₂.memory)
    (hs : s₁.seeds g entry = (result, s₁')) : ∃ s₂', s₂.seeds g entry = (result, s₂') := by
  have hemit (t : Session) (o : Occurrence) : (t.emit g.id o).config = t.config :=
    congrArg Memory.config (t.emit_memory g.id o)
  cases entry with
  | executionInput ordinal =>
    simp only [seeds, inputSeeds] at hs ⊢
    split at hs
    · cases hs
      exact ⟨_, rfl⟩
    · split at hs <;> rename_i hc <;> cases hs <;> obtain ⟨s₂', hc', -⟩ := checkDepth_twin h hc
      · exact ⟨s₂', by rw [hc']⟩
      · exact ⟨s₂', by rw [hc']⟩
  | root node =>
    simp only [seeds, rootSeeds] at hs ⊢
    split at hs <;> rename_i hc <;> obtain ⟨s₂', hc', hconfig⟩ := checkDepth_twin h hc <;> rw [hc']
    · cases hs
      exact ⟨s₂', rfl⟩
    · split at hs
      · cases hs
        exact ⟨s₂', rfl⟩
      · dsimp only
        rw [hemit] at hs ⊢
        rw [hconfig]
        split at hs
        · rename_i hroot
          cases hs
          exact ⟨s₂', if_pos hroot⟩
        · rename_i hroot
          split at hs <;> rename_i hstrict <;> cases hs
          · exact ⟨_, (if_neg hroot).trans (if_pos hstrict)⟩
          · exact ⟨_, (if_neg hroot).trans (if_neg hstrict)⟩

theorem dequeue?_twin (h : Memory.Twins id s₁.memory s₂.memory)
    (hd : s₁.dequeue? = some (node, s₁')) :
    ∃ s₂', s₂.dequeue? = some (node, s₂') ∧ Memory.Twins id s₁'.memory s₂'.memory := by
  obtain ⟨frame, rest, queue, hf, hq, hm⟩ := dequeue?_eq_some hd
  obtain ⟨graph, _⟩ := frame
  cases hq
  obtain ⟨s₂', hd', hm'⟩ := dequeue?_frames (h.frames.trans hf)
  refine ⟨s₂', hd', ?_⟩
  rw [hm, hm']
  exact h.withFrames _

theorem dequeue?_twin_none (h : Memory.Twins id s₁.memory s₂.memory) (hd : s₁.dequeue? = none) :
    s₂.dequeue? = none := by
  have hf : s₂.frames = s₁.frames := h.frames
  unfold dequeue? at hd ⊢
  rw [hf]
  split at hd
  · rfl
  · split at hd
    · simp only
    · cases hd

theorem current_twin (h : Memory.Twins id s₁.memory s₂.memory) : s₂.current = s₁.current := by
  have hframes : s₂.frames = s₁.frames := h.frames
  have hcalls : s₂.calls = s₁.calls := h.calls
  unfold current activeNode activeGraph
  rw [hframes, hcalls]

end

end Session

/-- A local operation answers the same on either side and keeps the two alike. -/
theorem Operation.run_twin {op : Operation} {s₁ s₂ : Session} {c : Session.Current}
    (hop : op.IsLocal) (hc : s₁.current = .ok c)
    (h : Memory.Twins c.graph.id s₁.memory s₂.memory) :
    (op.run s₂).1 = (op.run s₁).1 ∧
      Memory.Twins c.graph.id (op.run s₁).2.memory (op.run s₂).2.memory := by
  have hsame := Session.current_twin h
  have hc' := hsame.trans hc
  cases op with
  | field index =>
    have hfield : s₂.field index = s₁.field index := by simp only [Session.field, hsame]
    exact ⟨hfield, h⟩
  | inputCount =>
    have hcount : s₂.inputCount = s₁.inputCount := by simp only [Session.inputCount, hsame]
    exact ⟨hcount, h⟩
  | input port =>
    have hinput : s₂.input port = s₁.input port := by
      simp only [Session.input, hc, hc', bind, Except.bind, Session.cached?_congr h.same]
    exact ⟨hinput, h⟩
  | setOutput port v =>
    rw [run, run, Session.setOutput_run hc, Session.setOutput_run hc']
    split
    · refine ⟨rfl, h.config, h.frames, h.calls, fun output => ?_, h.same.evaluated,
        h.same.dropped⟩
      simp only [Session.memory, Table.get?_insert]
      split
      · rfl
      · exact h.same.cached output
    · exact ⟨rfl, h⟩
  | fire port =>
    obtain ⟨text, hfire⟩ := Session.fire_run hc port
    obtain ⟨text', hfire'⟩ := Session.fire_run hc' port
    rw [run, run, hfire, hfire']
    split
    · refine ⟨rfl, ?_⟩
      rw [Session.enqueue_memory, Session.enqueue_memory]
      exact h.enqueue _
    · exact ⟨rfl, h⟩
  | queue node =>
    rw [run, run, Session.queueNode_run (Session.current_graph hc),
      Session.queueNode_run (Session.current_graph hc')]
    split
    · refine ⟨rfl, ?_⟩
      rw [Session.enqueue_memory, Session.enqueue_memory]
      exact h.enqueue _
    · exact ⟨rfl, h⟩
  | _ => exact hop.elim

/-- Two machines in the same place of the same evaluation. -/
structure Machine.Twins (g : Graph) (m₁ m₂ : Machine) : Prop where
  control : m₂.control = m₁.control
  suspended : m₂.suspended = m₁.suspended
  memory : Memory.Twins g.id m₁.session.memory m₂.session.memory

section

variable {g : Graph} {m₁ m₁' m₂ : Machine}

/-- Where no limit is set the next node of a queue is the same on either side, and so is what
becomes of it. -/
theorem Session.dequeue?_verdict {s₁ s₂ s₁' : Session} (h : Memory.Twins g.id s₁.memory s₂.memory)
    (hmax : s₁.memory.config.maxSteps = none) (hd : s₁.dequeue? = some (node, s₁')) :
    s₁'.countStep.exceeded? = none ∧ ∃ s₂', s₂.dequeue? = some (node, s₂') ∧
      s₂'.countStep.exceeded? = none ∧
      s₂'.countStep.verdict g node = s₁'.countStep.verdict g node ∧
      Memory.Twins g.id s₁'.memory s₂'.memory := by
  have unlimited {t : Session} (ht : t.memory.config.maxSteps = none) :
      t.countStep.exceeded? = none := by
    have ht' : t.countStep.config.maxSteps = none := ht
    simp [exceeded?, ht']
  obtain ⟨s₂', hd', h'⟩ := dequeue?_twin h hd
  have hmax' : s₁'.memory.config.maxSteps = none := by
    rw [(dequeue?_sameStacks hd).config, hmax]
  have hsame : s₁'.countStep.memory.SameOn s₂'.countStep.memory g.id := h'.same
  exact ⟨unlimited hmax', s₂', hd', unlimited (h'.config ▸ hmax'), verdict_congr hsame node, h'⟩

/-- What one machine does its twin can do as well. -/
theorem Machine.Twins.step (ht : Machine.Twins g m₁ m₂) (hm : m₁.Confined g)
    (hs : Stacked fs cs m₁) (hmax : m₁.session.memory.config.maxSteps = none)
    (h : Step m₁ l m₁') : ∃ m₂', Step m₂ l m₂' ∧ Machine.Twins g m₁' m₂' := by
  obtain ⟨scene, control, suspended, s₂⟩ := m₂
  obtain ⟨hcontrol, hsuspended, hmemory⟩ := ht
  dsimp only at hcontrol hsuspended hmemory
  subst hcontrol hsuspended
  cases h with
  | refuse hseeds =>
    obtain ⟨s₂', hseeds'⟩ := Session.seeds_twin hmemory hseeds
    refine ⟨_, .refuse hseeds', rfl, rfl, ?_⟩
    rw [Session.seeds_memory hseeds, Session.seeds_memory hseeds']
    exact hmemory
  | enter hseeds =>
    obtain ⟨s₂', hseeds'⟩ := Session.seeds_twin hmemory hseeds
    refine ⟨_, .enter hseeds', rfl, rfl, ?_⟩
    rw [Session.openGraph_memory, Session.openGraph_memory, Session.seeds_memory hseeds,
      Session.seeds_memory hseeds', hmemory.frames]
    exact hmemory.withFrames _
  | drained hd =>
    refine ⟨_, .drained (Session.dequeue?_twin_none hmemory hd), rfl, rfl, ?_⟩
    rw [Session.closeGraph_memory, Session.closeGraph_memory, hmemory.frames]
    exact hmemory.withFrames _
  | exhaust hd he =>
    -- No limit is set that could be passed.
    obtain ⟨hnone, -⟩ := Session.dequeue?_verdict hmemory hmax hd
    rw [he] at hnone
    cases hnone
  | settle hd he hv hn =>
    cases hm.control
    obtain ⟨-, s₂', hd', he', hverdict, h'⟩ := Session.dequeue?_verdict hmemory hmax hd
    refine ⟨_, .settle hd' he' (hverdict.trans hv) hn, rfl, rfl, ?_⟩
    rw [Session.settle_memory, Session.settle_memory]
    exact Memory.Twins.settle h' _ _ _
  | start hd he hv =>
    cases hm.control
    obtain ⟨-, s₂', hd', he', hverdict, h'⟩ := Session.dequeue?_verdict hmemory hmax hd
    refine ⟨_, .start hd' he' (hverdict.trans hv), rfl, rfl, ?_⟩
    rw [Session.startNode_memory, Session.startNode_memory]
    exact ⟨h'.config, h'.frames, congrArg (List.cons _) h'.calls, h'.same.cached,
      h'.same.evaluated, h'.same.dropped⟩
  | @perform _ a _ s₁ op next =>
    -- The operation acts on the node on top of the calls, and that one stands in `g`.
    obtain ⟨n, -, -, hc⟩ := hs.current rfl
    obtain ⟨rfl, hop, -⟩ := hm.control
    obtain ⟨hreply, h'⟩ := op.run_twin hop hc hmemory
    refine ⟨_, .perform, ?_, rfl, h'⟩
    dsimp only
    rw [hreply]
  | unresolved hr => exact hm.control.2.1.elim
  | call hr => exact hm.control.2.1.elim
  | @finish _ result _ a s₁ =>
    obtain ⟨rfl, -⟩ := hm.control
    refine ⟨_, .finish, rfl, rfl, ?_⟩
    rw [Session.finishNode_memory, Session.finishNode_memory]
    refine ⟨hmemory.config, hmemory.frames, congrArg List.tail hmemory.calls,
      hmemory.same.cached, fun node => ?_, fun node => ?_⟩
    · simp only [List.mem_insert_iff, hmemory.same.evaluated]
    · simp only [Session.mem_droppedAfter, hmemory.same.dropped]
  | resume => cases hm.suspended

/-- Twins tell the same all the way. -/
theorem Machine.Twins.steps (ht : Machine.Twins g m₁ m₂) (hg : g.IsLocal) (hm : m₁.Confined g)
    (hs₁ : Stacked fs₁ cs₁ m₁) (hs₂ : Stacked fs₂ cs₂ m₂)
    (hmax : m₁.session.memory.config.maxSteps = none) (h : Steps m₁ ls m₁') :
    ∃ m₂', Steps m₂ ls m₂' ∧ Machine.Twins g m₁' m₂' ∧
      ∃ r, m₁.session.Reports m₁'.session r ∧ m₂.session.Reports m₂'.session r := by
  induction h generalizing m₂ with
  | refl m =>
    exact ⟨m₂, .refl _, ht, {}, .silent rfl rfl rfl rfl rfl, .silent rfl rfl rfl rfl rfl⟩
  | @head m l m' ls m'' first rest ih =>
    obtain ⟨n, hn, htn⟩ := ht.step hm hs₁ hmax first
    have hmax' : m'.session.memory.config.maxSteps = none := first.graphs.1 ▸ hmax
    obtain ⟨n', hn', ht', r, hr₁, hr₂⟩ :=
      ih htn (hm.step hg first).2 (hs₁.step first) (hs₂.step hn) hmax'
    have hconfig : m₂.session.config = m.session.config := ht.memory.config
    have hdepth : m₂.session.depth = m.session.depth := congrArg List.length ht.memory.frames
    have hfirst := hn.reports hs₂
    rw [hconfig, hdepth] at hfirst
    exact ⟨n', .head hn hn', ht', _, (first.reports hs₁).trans hr₁, hfirst.trans hr₂⟩

end

namespace Session

/-- Nothing is under evaluation. -/
structure Idle (s : Session) : Prop where
  frames : s.frames = []
  calls : s.calls = []

/-- Whatever an evaluation comes to on the one session it comes to on the other: it returns the same
and tells the same, leaves the same results for its graph, and leaves those for others alone. -/
def Mimics (scene₁ scene₂ : Scene) (g : Graph) (entry : Entry) (s₁ s₂ : Session) : Prop :=
  ∀ fuel₁ result s₁', s₁.evaluate scene₁ fuel₁ g entry = some (result, s₁') →
    ∃ fuel₂ s₂', s₂.evaluate scene₂ fuel₂ g entry = some (result, s₂') ∧
      (∃ r, s₁.Reports s₁' r ∧ s₂.Reports s₂' r) ∧ s₁'.memory.SameOn s₂'.memory g.id ∧
      ∀ id, g.id ≠ id → s₁.memory.SameOn s₁'.memory id ∧ s₂.memory.SameOn s₂'.memory id

section

variable {scene scene₁ scene₂ : Scene} {g : Graph} {entry : Entry} {s s' s₁ s₂ : Session}

theorem Idle.mimics (hs₁ : s₁.Idle) (hs₂ : s₂.Idle) (hg : g.IsLocal)
    (hconfig : s₂.config = s₁.config) (hmax : s₁.config.maxSteps = none)
    (hsame : s₁.memory.SameOn s₂.memory g.id) : Mimics scene₁ scene₂ g entry s₁ s₂ := by
  intro fuel₁ result s₁' he
  have hconfined (scene : Scene) (s : Session) :
      Machine.Confined g ⟨scene, .entering g entry, [], s⟩ := ⟨rfl, rfl⟩
  have htwins : Machine.Twins g ⟨scene₁, .entering g entry, [], s₁⟩
      ⟨scene₂, .entering g entry, [], s₂⟩ :=
    ⟨rfl, rfl, hconfig, hs₂.frames.trans hs₁.frames.symm, hs₂.calls.trans hs₁.calls.symm, hsame⟩
  have hbase (scene : Scene) (s : Session) :
      Stacked s.frames s.calls ⟨scene, .entering g entry, [], s⟩ := Levels.base
  obtain ⟨ls, hcall⟩ := evaluate_iff_call.mp ⟨fuel₁, he⟩
  obtain ⟨m, hsteps, ⟨hcontrol, hsuspended, hmemory⟩, hreports⟩ :=
    htwins.steps hg (hconfined _ _) (hbase _ _) (hbase _ _) hmax hcall
  have hscene := hsteps.same_scene
  obtain ⟨_, _, _, s₂'⟩ := m
  dsimp only at hcontrol hsuspended hscene hmemory hreports
  subst hcontrol hsuspended hscene
  obtain ⟨fuel₂, he'⟩ := evaluate_iff_call.mpr ⟨ls, hsteps⟩
  refine ⟨fuel₂, s₂', he', hreports, hmemory.same, fun id hid => ?_⟩
  exact ⟨hcall.elsewhere (hbase _ _) (hconfined _ _) hg hid,
    hsteps.elsewhere (hbase _ _) (hconfined _ _) hg hid⟩

theorem Idle.evaluate (hs : s.Idle) (hg : g.IsLocal)
    (he : s.evaluate scene fuel g entry = some (result, s')) :
    s'.Idle ∧ s'.config = s.config ∧ ∀ id, g.id ≠ id → s.memory.SameOn s'.memory id := by
  obtain ⟨ls, hcall⟩ := evaluate_iff_call.mp ⟨fuel, he⟩
  have hbase : Stacked s.frames s.calls ⟨scene, .entering g entry, [], s⟩ := Levels.base
  obtain ⟨hframes, hcalls⟩ := Call.stacks hcall
  refine ⟨⟨hframes.trans hs.frames, hcalls.trans hs.calls⟩, hcall.config, fun id hid => ?_⟩
  exact hcall.elsewhere hbase ⟨rfl, rfl⟩ hg hid

end

end Session

/-- What is remembered about other graphs has no part in the evaluation of a graph whose bodies keep
to their own nodes. On idle sessions of the same configuration that agree on the results for the
graph it comes to the same. So whether another such graph was evaluated before makes no difference
to it, be it the one that it was copied from. -/
theorem graph_isolation (scene₁ scene₂ : Scene) {s₁ s₂ : Session} {g : Graph} (entry : Entry)
    (hg : g.IsLocal) (hs₁ : s₁.Idle) (hs₂ : s₂.Idle) (hconfig : s₂.config = s₁.config)
    (hmax : s₁.config.maxSteps = none) (hsame : s₁.memory.SameOn s₂.memory g.id) :
    (s₁.Mimics scene₁ scene₂ g entry s₂ ∧ s₂.Mimics scene₂ scene₁ g entry s₁) ∧
    ∀ scene fuel g₀ entry₀ result s, g₀.IsLocal → g₀.id ≠ g.id →
      s₁.evaluate scene fuel g₀ entry₀ = some (result, s) →
      s₁.Mimics scene₁ scene₂ g entry s ∧ s.Mimics scene₂ scene₁ g entry s₁ := by
  have hmax₂ : s₂.config.maxSteps = none := hconfig ▸ hmax
  refine ⟨⟨hs₁.mimics hs₂ hg hconfig hmax hsame,
    hs₂.mimics hs₁ hg hconfig.symm hmax₂ hsame.symm⟩, ?_⟩
  intro scene fuel g₀ entry₀ result s hg₀ hid he
  obtain ⟨hs, hc, hrest⟩ := hs₁.evaluate hg₀ he
  have hmax' : s.config.maxSteps = none := hc ▸ hmax
  exact ⟨hs₁.mimics hs hg hc hmax (hrest g.id hid),
    hs.mimics hs₁ hg hc.symm hmax' (hrest g.id hid).symm⟩

theorem Graph.Built.isLocal {g : Graph} (hg : g.Built r)
    (hr : ∀ d ∈ r.definitions.values, ∀ body, d.body = some body → body.IsLocal) : g.IsLocal :=
  fun _ _ body hn hb => hr _ (hg.all.get? hn).definition body hb

namespace Copies

def types : Registry :=
  ⟨[Builtin.integer, Builtin.add].foldl (fun t d => t.insert d.nodeType d) {}⟩

theorem types_isLocal (d : Definition) (hd : d ∈ types.definitions.values) (body : Program Unit)
    (hb : d.body = some body) : body.IsLocal := by
  have hset (v : Value) : (Program.setOutput 0 v).IsLocal := ⟨trivial, fun _ => trivial⟩
  have htypes : types.definitions.values = [Builtin.integer, Builtin.add] := rfl
  simp only [htypes, List.mem_cons, List.not_mem_nil, or_false] at hd
  rcases hd with rfl | rfl <;> cases hb
  · exact .bind (.bind ⟨trivial, fun _ => trivial⟩ fun _ => trivial) fun _ => hset _
  · refine .bind ⟨trivial, fun _ => trivial⟩ fun _ => ?_
    exact .bind (Builtin.addInputs_within (fun _ => trivial) 0 _) fun _ => hset _

def number : Node := { Node.new Builtin.integer with fields := [.int 2] }

def sum : Node := { Node.new Builtin.add with inputs := [none, some (.int 3)] }

def nodes : Graph := (((Graph.new (.ofNat 1) "sum").addNode number).2.addNode sum).2

/-- Two and three. -/
def original : Graph := (Graph.addWire ⟨⟨1, 1⟩, 0⟩ ⟨⟨2, 1⟩, 0⟩).result nodes

def edit : Graph.Editor Unit := Graph.updateNode ⟨1, 1⟩ (Node.setField 0 (.int 7))

/-- A copy with seven in the place of two. -/
def edited : Graph := edit.result (original.clone (.ofNat 2))

theorem original_built : original.Built types := by
  have hinteger : types.create "integer" = .ok (.new Builtin.integer) := rfl
  have hadd : types.create "add" = .ok (.new Builtin.add) := rfl
  have hnumber : number.Made types := .setField (i := 0) (v := .int 2) (.create hinteger)
  have hsum : sum.Made types := .setConstant (i := 1) (v := .int 3) (.create hadd)
  have hwire : (Graph.addWire ⟨⟨1, 1⟩, 0⟩ ⟨⟨2, 1⟩, 0⟩).run nodes = some (.ok (), original) := rfl
  have hnodes : nodes.Built types := .addNode (.addNode (.new _ _) hnumber) hsum
  exact .change (.wire ⟨⟨1, 1⟩, 0⟩ ⟨⟨2, 1⟩, 0⟩) hnodes hwire

theorem edited_built : edited.Built types := by
  have hedit : edit.run (original.clone (.ofNat 2)) = some (.ok (), edited) := rfl
  exact .update (.clone original_built _) (fun _ => .setField) hedit

def session : Session := { executionId := "fresh", sink := .collect }

/-- A session that remembers much about the nodes of the original. -/
def crowded : Session :=
  { executionId := "crowded", sink := .collect
    cache := Table.insert {} ⟨original.id, ⟨2, 1⟩, 0⟩ (.int 1)
    evaluated := [⟨original.id, ⟨1, 1⟩⟩], dropped := [⟨original.id, ⟨2, 1⟩⟩] }

theorem session_sameOn : session.memory.SameOn crowded.memory edited.id := by
  have hid : original.id ≠ edited.id := by decide
  have other (node node' : Handle) : (⟨edited.id, node⟩ : Site) ≠ ⟨original.id, node'⟩ :=
    fun he => hid (congrArg Site.graph he).symm
  refine ⟨fun output => ?_, fun node => ?_, fun node => ?_⟩
  · have hother : (⟨original.id, ⟨2, 1⟩, 0⟩ : Outlet) ≠ ⟨edited.id, output⟩ :=
      fun he => hid (congrArg Outlet.graph he)
    simp only [crowded, Session.memory, Table.get?_insert, if_neg hother]
    rfl
  · simp [crowded, session, Session.memory, other]
  · simp [crowded, session, Session.memory, other]

end Copies

/-- Neither a crowded session nor an evaluation of the original before it changes what the copy is
worth. -/
theorem graph_isolation_copies :
    (∃ fuel s', Copies.crowded.evaluate (fun _ => none) fuel Copies.edited (.root ⟨2, 1⟩) =
        some (.ok (), s') ∧ s'.cached? Copies.edited.id ⟨⟨2, 1⟩, 0⟩ = some (.int 10)) ∧
    ∃ s, Copies.session.evaluate (fun _ => none) 9 Copies.original (.root ⟨2, 1⟩) =
        some (.ok (), s) ∧
      ∃ fuel s', s.evaluate (fun _ => none) fuel Copies.edited (.root ⟨2, 1⟩) = some (.ok (), s') ∧
        s'.cached? Copies.edited.id ⟨⟨2, 1⟩, 0⟩ = some (.int 10) ∧
        s'.cached? Copies.original.id ⟨⟨2, 1⟩, 0⟩ = some (.int 5) := by
  have hidle : Copies.session.Idle := ⟨rfl, rfl⟩
  have hidle' : Copies.crowded.Idle := ⟨rfl, rfl⟩
  have hlocal := Copies.edited_built.isLocal Copies.types_isLocal
  have hfirst : Copies.session.evaluate (fun _ => none) 9 Copies.original (.root ⟨2, 1⟩) =
    some (.ok (), _) := rfl
  obtain ⟨⟨hcrowded, -⟩, hafter⟩ := graph_isolation (fun _ => none) (fun _ => none) (.root ⟨2, 1⟩)
    hlocal hidle hidle' rfl rfl Copies.session_sameOn
  obtain ⟨hsecond, -⟩ := hafter _ 9 _ _ _ _ (Copies.original_built.isLocal Copies.types_isLocal)
    (by decide) hfirst
  constructor
  · obtain ⟨fuel, s', he, -, hsame, -⟩ := hcrowded 9 _ _ rfl
    exact ⟨fuel, s', he, (hsame.cached _).trans rfl⟩
  · obtain ⟨fuel, s', he, -, hsame, hrest⟩ := hsecond 9 _ _ rfl
    have hid : Copies.edited.id ≠ Copies.original.id := by decide
    exact ⟨_, hfirst, fuel, s', he, (hsame.cached _).trans rfl,
      ((hrest _ hid).2.cached _).trans rfl⟩

end Flowgraph
