import Flowgraph.Proofs.Stack

namespace Flowgraph

/-- The results that two memories have in common. -/
structure Memory.SameResults (μ μ' : Memory) : Prop where
  cache : μ'.cache = μ.cache
  evaluated : μ'.evaluated = μ.evaluated
  dropped : μ'.dropped = μ.dropped

/-- All that a step can do to the results of a session: nothing, one output set by the body that
runs, one node given up, or the end of a body. -/
inductive Effect : Label → Memory → Memory → Prop where
  | quiet (same : μ.SameResults μ') : Effect l μ μ'
  | output (cache : μ'.cache = μ.cache.insert ⟨a.graph.id, a.handle, port⟩ v)
      (evaluated : μ'.evaluated = μ.evaluated) (dropped : μ'.dropped = μ.dropped) :
      Effect (.performed a (.setOutput port v)) μ μ'
  | drop {g : Graph} (cache : μ'.cache = μ.cache) (evaluated : μ'.evaluated = μ.evaluated)
      (dropped : μ'.dropped = μ.dropped.insert ⟨g.id, h⟩) :
      Effect (.settled g h (.drop e)) μ μ'
  | finish (cache : μ'.cache = μ.cache) (evaluated : μ'.evaluated = μ.evaluated.insert a.site)
      (dropped : μ'.dropped =
        Session.droppedAfter μ.dropped a.site a.definition.isPure result) :
      Effect (.finished a result) μ μ'

theorem Memory.SameResults.refl (μ : Memory) : μ.SameResults μ := ⟨rfl, rfl, rfl⟩

theorem Memory.enqueue_sameResults (μ : Memory) (nodes : List Handle) :
    μ.SameResults (μ.enqueue nodes) := by
  unfold Memory.enqueue
  split <;> exact ⟨rfl, rfl, rfl⟩

theorem Session.dequeue?_sameResults {s s' : Session} {h : Handle}
    (hd : s.dequeue? = some (h, s')) : s.memory.SameResults s'.memory := by
  obtain ⟨frame, rest, queue, -, -, hm⟩ := dequeue?_eq_some hd
  rw [hm]
  exact ⟨rfl, rfl, rfl⟩

theorem Memory.settle_effect (μ : Memory) (g : Graph) (h : Handle) (v : Session.Verdict) :
    Effect (.settled g h v) μ (μ.settle g.id h v) := by
  cases v with
  | drop e => exact .drop rfl rfl rfl
  | defer producers => exact .quiet (μ.enqueue_sameResults _)
  | alreadyDropped | alreadyEvaluated | start d body => exact .quiet (.refl μ)

/-- Taking a node from a queue first makes no difference to an effect. -/
theorem Effect.after {μ₀ μ μ' : Memory} (hs : μ₀.SameResults μ) (h : Effect l μ μ') :
    Effect l μ₀ μ' := by
  obtain ⟨hc, he, hd⟩ := hs
  cases h with
  | quiet same => exact .quiet ⟨same.cache.trans hc, same.evaluated.trans he, same.dropped.trans hd⟩
  | output cache evaluated dropped =>
    exact .output (hc ▸ cache) (evaluated.trans he) (dropped.trans hd)
  | drop cache evaluated dropped => exact .drop (cache.trans hc) (evaluated.trans he) (hd ▸ dropped)
  | finish cache evaluated dropped => exact .finish (cache.trans hc) (he ▸ evaluated) (hd ▸ dropped)

theorem Step.effect (hs : Stacked fs cs m) (h : Step m l m') :
    Effect l m.session.memory m'.session.memory := by
  cases h with
  | refuse hseeds =>
    rw [Session.seeds_memory hseeds]
    exact .quiet (.refl _)
  | enter hseeds =>
    rw [Session.openGraph_memory, Session.seeds_memory hseeds]
    exact .quiet ⟨rfl, rfl, rfl⟩
  | drained hd =>
    rw [Session.closeGraph_memory]
    exact .quiet ⟨rfl, rfl, rfl⟩
  | exhaust hd he =>
    rw [Session.closeGraph_memory, Session.log_memory, Session.countStep_memory]
    exact .after (Session.dequeue?_sameResults hd) (.quiet ⟨rfl, rfl, rfl⟩)
  | settle hd he hv hn =>
    rw [Session.settle_memory, Session.countStep_memory]
    exact .after (Session.dequeue?_sameResults hd) (Memory.settle_effect _ _ _ _)
  | start hd he hv =>
    rw [Session.startNode_memory, Session.countStep_memory]
    exact .after (Session.dequeue?_sameResults hd) (.quiet ⟨rfl, rfl, rfl⟩)
  | @perform _ a _ s op next =>
    rcases op.run_cases s with hm | ⟨port, v, c, rfl, hc, -, hm⟩ | ⟨_, _, -, -, hm⟩ |
      ⟨_, _, _, -, -, -, hm⟩
    all_goals rw [hm]
    · exact .quiet (.refl _)
    · -- The operation acts on the node on top of the calls, which is the one that runs.
      obtain ⟨n, -, -, hc'⟩ := hs.current rfl
      rw [hc'] at hc
      cases hc
      exact .output rfl rfl rfl
    · exact .quiet (Memory.enqueue_sameResults _ _)
    · exact .quiet (Memory.enqueue_sameResults _ _)
  | unresolved hr => exact .quiet (.refl _)
  | call hr => exact .quiet (.refl _)
  | finish =>
    rw [Session.finishNode_memory]
    exact .finish rfl rfl rfl
  | resume => exact .quiet (.refl _)

/-- Between evaluations a host leaves all results as they are. -/
theorem Move.sameResults (hs : Stacked [] [] m) (h : Move m m') :
    m.session.memory.SameResults m'.session.memory := by
  cases h with
  | equip => exact ⟨rfl, rfl, rfl⟩
  | @perform _ s op =>
    rcases op.run_cases s with hm | ⟨port, v, c, -, hc, -, hm⟩ | ⟨_, _, -, -, hm⟩ |
      ⟨_, _, _, -, -, -, hm⟩
    all_goals rw [hm]
    · exact .refl _
    · obtain ⟨frame, rest, -, hf, -⟩ := Session.current_eq_ok.mp hc
      obtain ⟨-, hnil, -⟩ := hs
      rw [hf] at hnil
      cases hnil
    · exact Memory.enqueue_sameResults _ _
    · exact Memory.enqueue_sameResults _ _
  | call scene' g entry => exact .refl _
  | collect => exact .refl _

/-- A cached output stays cached, if with another value. -/
theorem Effect.cached (h : Effect l μ μ') (hk : μ.cache.get? k = some v) :
    ∃ v', μ'.cache.get? k = some v' := by
  cases h with
  | quiet same => exact ⟨v, by rw [same.cache, hk]⟩
  | drop cache | finish cache => exact ⟨v, by rw [cache, hk]⟩
  | output cache =>
    rw [cache, Table.get?_insert]
    split
    · exact ⟨_, rfl⟩
    · exact ⟨v, hk⟩

theorem Effect.evaluated (h : Effect l μ μ') (hk : site ∈ μ.evaluated) : site ∈ μ'.evaluated := by
  cases h with
  | quiet same => rw [same.evaluated]; exact hk
  | drop _ evaluated | output _ evaluated => rw [evaluated]; exact hk
  | finish _ evaluated =>
    rw [evaluated]
    exact List.mem_insert_of_mem hk

theorem Step.finished_evaluated (h : Step m (.finished a result) m') :
    a.site ∈ m'.session.memory.evaluated := by
  cases h with
  | finish =>
    rw [Session.finishNode_memory]
    exact List.mem_insert_self

theorem Effect.dropped (h : Effect l μ μ') (hk : site ∈ μ.dropped) : site ∈ μ'.dropped := by
  cases h with
  | quiet same => rw [same.dropped]; exact hk
  | output _ _ dropped => rw [dropped]; exact hk
  | drop _ _ dropped =>
    rw [dropped]
    exact List.mem_insert_of_mem hk
  | finish _ _ dropped =>
    rw [dropped]
    exact Session.mem_droppedAfter.mpr (.inl hk)

/-- The bodies under way, the one that runs first. -/
def Machine.active (m : Machine) : List Activation :=
  match m.control with
  | .running a _ => a :: m.held
  | _ => m.held

/-- A step begins one body, ends the innermost one or leaves those under way. -/
theorem Step.active (h : Step m l m') :
    m'.active = m.active ∨ (∃ a, l = .started a ∧ m'.active = a :: m.active) ∨
      ∃ a result, l = .finished a result ∧ m.active = a :: m'.active := by
  cases h with
  | start => exact .inr (.inl ⟨_, rfl, rfl⟩)
  | finish => exact .inr (.inr ⟨_, _, rfl, rfl⟩)
  | _ => exact .inl rfl

theorem Move.active (h : Move m m') : m.active = [] ∧ m'.active = [] := by
  cases h <;> exact ⟨rfl, rfl⟩

theorem Levels.graph_mem (h : Levels fs cs as frames calls) (ha : a ∈ as) :
    a.graph ∈ frames.map (·.graph) := by
  induction h with
  | base => cases ha
  | level live graph below ih =>
    rw [List.map_cons]
    rcases List.mem_cons.mp ha with rfl | ha
    · exact graph ▸ List.mem_cons_self
    · exact List.mem_cons_of_mem _ (ih ha)

/-- Every body under way has its graph among those under evaluation. -/
theorem Stacked.graph_mem (hs : Stacked fs cs m) (ha : a ∈ m.active) :
    a.graph ∈ m.session.memory.graphs := by
  obtain ⟨scene, control, ws, s⟩ := m
  cases control with
  | idle =>
    obtain ⟨rfl, -, -⟩ := hs
    cases ha
  | entering g entry => exact Levels.graph_mem hs ha
  | returning result => exact Levels.graph_mem hs ha
  | running b rest => exact Levels.graph_mem hs ha
  | draining g =>
    obtain ⟨frame, rest, hf, -, hl⟩ := hs
    rw [Memory.graphs, hf]
    exact List.mem_cons_of_mem _ (hl.graph_mem ha)

end Flowgraph
