import Flowgraph.Proofs.Allowance
import Flowgraph.Proofs.Locality

namespace Flowgraph

namespace Session

/-- A session without its name, its step limit and the wording of its log. -/
def bare (s : Session) : Session :=
  { s with
    executionId := ""
    config := { s.config with maxSteps := none }
    events := s.events.map fun e => { e with executionId := "" }
    journal := { s.journal with records := #[] } }

/-- The two sessions differ in their name, their step limit and the wording of their log at most. -/
def Alike (s₁ s₂ : Session) : Prop := s₁.bare = s₂.bare

/-- Two answers are the same and come with sessions that are alike. -/
def Agree (r₁ r₂ : α × Session) : Prop := r₁.1 = r₂.1 ∧ r₁.2.Alike r₂.2

section

variable {s₁ s₂ : Session}

theorem Agree.of_eq {r₁ r₂ : α × Session} (h : Agree r₁ r₂) (he : r₂ = (a, s₂)) :
    ∃ s₁, r₁ = (a, s₁) ∧ s₁.Alike s₂ := by
  subst he
  exact ⟨r₁.2, Prod.ext h.1 rfl, h.2⟩

theorem Alike.read (h : s₁.Alike s₂) (f : Session → β) (hf : ∀ s : Session, f s.bare = f s) :
    f s₁ = f s₂ := by
  rw [← hf s₁, ← hf s₂]
  exact congrArg f h

theorem Alike.update (h : s₁.Alike s₂) (f : Session → Session)
    (hf : ∀ s : Session, (f s).bare = f s.bare) : (f s₁).Alike (f s₂) := by
  unfold Alike
  rw [hf, hf]
  exact congrArg f h

theorem Alike.emit (h : s₁.Alike s₂) (graph : GraphId) (o : Occurrence) :
    (s₁.emit graph o).Alike (s₂.emit graph o) := by
  have collected (s : Session) (hc : s.sink = .collect) : (s.emit graph o).bare =
      { s.bare with events := s.bare.events.push ⟨"", graph, o⟩ } := by
    simp [Session.emit, bare, hc]
  have uncollected (s : Session) (hc : s.sink ≠ .collect) : (s.emit graph o).bare = s.bare := by
    unfold Session.emit
    split
    · contradiction
    · rfl
    · rfl
  have hsink := h.read Session.sink fun _ => rfl
  unfold Alike at h ⊢
  by_cases hc : s₂.sink = .collect
  · rw [collected s₁ (hsink.trans hc), collected s₂ hc, h]
  · rw [uncollected s₁ (hsink ▸ hc), uncollected s₂ hc, h]

theorem Alike.report (h : s₁.Alike s₂) (graph : GraphId) (node : Handle) (e : Error) :
    (s₁.report graph node e).Alike (s₂.report graph node e) :=
  h.update (·.report graph node e) fun _ => rfl

theorem Alike.enqueue (h : s₁.Alike s₂) (nodes : List Handle) :
    (s₁.enqueue nodes).Alike (s₂.enqueue nodes) := by
  apply h.update (·.enqueue nodes)
  intro s
  unfold Session.enqueue
  cases hf : s.frames <;> simp [bare, hf]

theorem Alike.dequeue? {node : Handle} {s₂' : Session} (h : s₁.Alike s₂)
    (hd : s₂.dequeue? = some (node, s₂')) :
    ∃ s₁', s₁.dequeue? = some (node, s₁') ∧ s₁'.countStep.Alike s₂'.countStep := by
  have hframes := h.read Session.frames fun _ => rfl
  unfold Session.dequeue? at hd
  split at hd
  · cases hd
  · rename_i frame rest hf
    split at hd
    · cases hd
    · rename_i node queue hq
      cases hd
      refine ⟨{ s₁ with frames := { frame with queue } :: rest }, ?_, ?_⟩
      · simp [Session.dequeue?, hframes, hf, hq]
      · exact h.update (fun s => countStep { s with frames := { frame with queue } :: rest })
          fun _ => rfl

theorem Alike.dequeue?_none (h : s₁.Alike s₂) (hd : s₂.dequeue? = none) : s₁.dequeue? = none := by
  have hframes := h.read Session.frames fun _ => rfl
  unfold Session.dequeue? at hd ⊢
  rw [hframes]
  split at hd
  · rfl
  · split at hd
    · simp only
    · cases hd

theorem Alike.verdict (h : s₁.Alike s₂) (g : Graph) (node : Handle) :
    s₁.verdict g node = s₂.verdict g node := by
  have hcache := h.read Session.cache fun _ => rfl
  have hevaluated := h.read Session.evaluated fun _ => rfl
  have hdropped := h.read Session.dropped fun _ => rfl
  apply verdict_congr
  constructor <;> simp [memory, hcache, hevaluated, hdropped]

theorem Alike.settle (h : s₁.Alike s₂) (graph : GraphId) (node : Handle) (v : Verdict) :
    (s₁.settle graph node v).Alike (s₂.settle graph node v) := by
  cases v with
  | alreadyDropped | alreadyEvaluated | start d body => exact h
  | drop e =>
    apply Alike.report
    apply Alike.emit
    exact h.update (fun s => { s with
      dropped := s.dropped.insert ⟨graph, node⟩
      statistics := { s.statistics with dropped := s.statistics.dropped + 1 } }) fun _ => rfl
  | defer producers =>
    apply Alike.enqueue
    apply Alike.emit
    exact h.update (fun s => { s with
      statistics := { s.statistics with deferred := s.statistics.deferred + 1 } }) fun _ => rfl

theorem Alike.startNode (h : s₁.Alike s₂) (graph : GraphId) (node : Handle) (d : Definition) :
    (s₁.startNode graph node d).Alike (s₂.startNode graph node d) := by
  refine Alike.update ?_ (fun s => { s with calls := node :: s.calls }) fun _ => rfl
  apply Alike.emit
  exact h

theorem Alike.finishNode (h : s₁.Alike s₂) (graph : GraphId) (node : Handle) (d : Definition)
    (result : Except Error Unit) :
    (s₁.finishNode graph node d result).Alike (s₂.finishNode graph node d result) := by
  have hfinished := h.update (fun s => { s with
    calls := s.calls.tail
    evaluated := s.evaluated.insert ⟨graph, node⟩
    statistics := { s.statistics with evaluated := s.statistics.evaluated + 1 } }) fun _ => rfl
  cases result with
  | ok _ => exact hfinished.emit graph _
  | error e =>
    apply Alike.report
    apply Alike.emit
    cases d.isPure with
    | true =>
      exact hfinished.update (fun s => { s with dropped := s.dropped.insert ⟨graph, node⟩ })
        fun _ => rfl
    | false => exact hfinished

theorem Alike.checkDepth (h : s₁.Alike s₂) : Agree s₁.checkDepth s₂.checkDepth := by
  have hdepth := h.read Session.depth fun _ => rfl
  have hmax := h.read (·.config.maxGraphDepth) fun _ => rfl
  unfold Session.checkDepth
  dsimp only at hmax ⊢
  rw [hdepth, hmax]
  split
  · exact ⟨rfl, h⟩
  · exact ⟨rfl, h⟩

theorem Alike.openGraph (h : s₁.Alike s₂) (g : Graph) (entry : Entry) (queue : List Handle) :
    (s₁.openGraph g entry queue).Alike (s₂.openGraph g entry queue) := by
  have hframes := h.read (·.frames.isEmpty) fun _ => rfl
  have hopened : Alike
      (if s₁.frames.isEmpty then s₁.log .info s!"Evaluating graph '{g.name}' ({s₁.executionId})"
        else s₁.log .debug s!"Entering nested graph '{g.name}' at depth {s₁.depth}")
      (if s₂.frames.isEmpty then s₂.log .info s!"Evaluating graph '{g.name}' ({s₂.executionId})"
        else s₂.log .debug s!"Entering nested graph '{g.name}' at depth {s₂.depth}") := by
    rw [hframes]
    split <;> exact h
  exact (hopened.emit g.id (.evaluationStarted entry)).update
    (fun s => { s with frames := ⟨g, queue⟩ :: s.frames }) fun _ => rfl

theorem Alike.closeGraph (h : s₁.Alike s₂) : s₁.closeGraph.Alike s₂.closeGraph := by
  have hframes := h.read Session.frames fun _ => rfl
  cases hf : s₂.frames with
  | nil => simpa [Session.closeGraph, hframes, hf] using h
  | cons frame rest =>
    have hclosed := (h.update (fun s => { s with frames := rest }) fun _ => rfl).emit
      frame.graph.id .evaluationCompleted
    simp only [Session.closeGraph, hframes, hf]
    split
    · exact hclosed
    · exact hclosed

theorem Alike.seeds (h : s₁.Alike s₂) (g : Graph) (entry : Entry) :
    Agree (s₁.seeds g entry) (s₂.seeds g entry) := by
  have hchecked := h.checkDepth
  rcases hc₁ : s₁.checkDepth with ⟨result, t₁⟩
  rcases hc₂ : s₂.checkDepth with ⟨result', t₂⟩
  rw [hc₁, hc₂] at hchecked
  obtain ⟨rfl, ht⟩ := hchecked
  cases entry with
  | executionInput ordinal =>
    simp only [Session.seeds, Session.inputSeeds, hc₁, hc₂]
    cases g.inputTargets ordinal.toNat with
    | error e => exact ⟨rfl, h⟩
    | ok targets => cases result <;> exact ⟨rfl, ht⟩
  | root node =>
    simp only [Session.seeds, Session.rootSeeds, hc₁, hc₂]
    cases result with
    | error e => exact ⟨rfl, ht⟩
    | ok _ =>
      cases g.node node with
      | error e => exact ⟨rfl, ht⟩
      | ok n =>
        have hnoted := ht.emit g.id (.nonRootEntry node n.nodeType)
        have hstrict := hnoted.read (·.config.strictRoots) fun _ => rfl
        dsimp only at hstrict ⊢
        rw [hstrict]
        split
        · exact ⟨rfl, ht⟩
        · split
          · exact ⟨rfl, hnoted⟩
          · exact ⟨rfl, hnoted.report g.id node _⟩

theorem Alike.resolve (h : s₁.Alike s₂) (scene : Scene) (target : Target) :
    s₁.resolve scene target = s₂.resolve scene target := by
  apply h.read (·.resolve scene target)
  intro s
  cases target <;> rfl

theorem Alike.look_bind (h : s₁.Alike s₂) (x : Except Error α) {f₁ f₂ : α → Update Session β}
    (hf : ∀ a, Agree ((f₁ a).run s₁) ((f₂ a).run s₂)) :
    Agree (Update.run (liftM x >>= f₁) s₁) (Update.run (liftM x >>= f₂) s₂) := by
  cases x with
  | error e => exact ⟨rfl, h⟩
  | ok a => exact hf a

end

end Session

/-- No operation of a body tells sessions that are alike apart. -/
theorem Operation.run_alike (op : Operation) {s₁ s₂ : Session} (h : s₁.Alike s₂) :
    Session.Agree (op.run s₁) (op.run s₂) := by
  have hcurrent := h.read Session.current fun _ => rfl
  have hgraph := h.read Session.activeGraph fun _ => rfl
  cases op with
  | activeNode => exact ⟨h.read Session.activeNode fun _ => rfl, h⟩
  | activeGraph =>
    have hname := h.read (fun s => s.activeGraph.map fun g => (g.id, g.name)) fun _ => rfl
    exact ⟨hname, h⟩
  | field index => exact ⟨h.read (·.field index) fun _ => rfl, h⟩
  | inputCount => exact ⟨h.read Session.inputCount fun _ => rfl, h⟩
  | input port => exact ⟨h.read (·.input port) fun _ => rfl, h⟩
  | setOutput port v =>
    simp only [run, Session.setOutput, Update.run_get_bind, hcurrent]
    refine h.look_bind _ fun c => ?_
    refine h.look_bind _ fun _ => ?_
    exact ⟨rfl, h.update (fun s => { s with cache := s.cache.insert _ v }) fun _ => rfl⟩
  | fire port =>
    simp only [run, Session.fire, Update.run_get_bind, hcurrent]
    refine h.look_bind _ fun c => ?_
    refine h.look_bind _ fun _ => ?_
    refine ⟨rfl, ?_⟩
    apply Session.Alike.enqueue
    exact h
  | queue node =>
    simp only [run, Session.queueNode, Update.run_get_bind, hgraph]
    refine h.look_bind _ fun g => ?_
    refine h.look_bind _ fun _ => ?_
    exact ⟨rfl, h.enqueue _⟩
  | depth => exact ⟨h.read Session.depth fun _ => rfl, h⟩
  | cacheSize => exact ⟨h.read (·.cache.size) fun _ => rfl, h⟩
  | statistics => exact ⟨h.read Session.statistics fun _ => rfl, h⟩
  | cached graph output => exact ⟨h.read (·.cached? graph output) fun _ => rfl, h⟩
  | isEvaluated graph node => exact ⟨h.read (·.isEvaluated graph node) fun _ => rfl, h⟩
  | hasExtension key => exact ⟨h.read (·.extensions.has key) fun _ => rfl, h⟩
  | findGraph name =>
    exact ⟨h.read (fun s => (s.libraryGraph name).map fun _ => ()) fun _ => rfl, h⟩
  | print line =>
    exact ⟨rfl, h.update (fun s => { s with extensions := s.extensions.print line }) fun _ => rfl⟩
  | log level text => exact ⟨rfl, h⟩
  | note text =>
    exact ⟨rfl, h.update (fun s => { s with journal := s.journal.note text }) fun _ => rfl⟩
  | tick =>
    exact ⟨h.read (·.journal.tick.ticks) fun _ => rfl,
      h.update (fun s => { s with journal := s.journal.tick }) fun _ => rfl⟩

/-- Two machines in the same place, with sessions that are alike. -/
structure Machine.Alike (m₁ m₂ : Machine) : Prop where
  scene : m₁.scene = m₂.scene
  control : m₁.control = m₂.control
  suspended : m₁.suspended = m₂.suspended
  session : m₁.session.Alike m₂.session

/-- The first session is held to a limit that the second is not held below. -/
structure Session.Tighter (limit : UInt64) (s₁ s₂ : Session) : Prop where
  held : s₁.memory.config.maxSteps = some limit
  free : ∀ limit', s₂.memory.config.maxSteps = some limit' → limit ≤ limit'

section

variable {limit : UInt64} {m₁ m₁' m₂ m₂' : Machine}

/-- A node that keeps to the limit is taken on either side. -/
theorem Session.Alike.take {s₁ s₂ s₂' : Session} (h : s₁.Alike s₂)
    (hmax : s₁.memory.config.maxSteps = some limit) (hroom : s₂.statistics.steps + 1 ≤ limit)
    (hd : s₂.dequeue? = some (node, s₂')) :
    ∃ s₁', s₁.dequeue? = some (node, s₁') ∧ s₁'.countStep.exceeded? = none ∧
      s₁'.countStep.Alike s₂'.countStep := by
  obtain ⟨s₁', hd', h'⟩ := h.dequeue? hd
  have hsteps := h.read (·.statistics.steps) fun _ => rfl
  refine ⟨s₁', hd', ?_, h'⟩
  rw [dequeue?_exceeded hmax hd', hsteps, if_neg (UInt64.not_lt.mpr hroom)]

theorem Session.Tighter.not_exceeded {s₁ s₂ s₂' : Session} (h : Tighter limit s₁ s₂)
    (hroom : s₂.statistics.steps + 1 ≤ limit) (hd : s₂.dequeue? = some (node, s₂')) :
    s₂'.countStep.exceeded? = none := by
  cases hmax : s₂.memory.config.maxSteps with
  | none => exact exceeded?_dequeue hmax hd
  | some limit' =>
    have hle := UInt64.le_trans hroom (h.free limit' hmax)
    rw [dequeue?_exceeded hmax hd, if_neg (UInt64.not_lt.mpr hle)]

/-- What the second machine does within the limit the first one does as well. -/
theorem Machine.Alike.step (hm : Machine.Alike m₁ m₂) (hs : Stacked fs cs m₂)
    (ht : m₁.session.Tighter limit m₂.session) (h : Step m₂ l m₂')
    (hroom : m₂'.session.statistics.steps ≤ limit) :
    ∃ m₁', Step m₁ l m₁' ∧ Machine.Alike m₁' m₂' := by
  have hless : l.taken?.isSome → m₂.session.statistics.steps + 1 ≤ limit := by
    intro hl
    obtain ⟨taken, hl⟩ := Option.isSome_iff_exists.mp hl
    rw [← h.steps_of_taken hs hl]
    exact hroom
  obtain ⟨scene, control, suspended, s₁⟩ := m₁
  obtain ⟨hscene, hcontrol, hsuspended, hsession⟩ := hm
  dsimp only at hscene hcontrol hsuspended hsession ht
  subst hscene hcontrol hsuspended
  cases h with
  | refuse hseeds =>
    obtain ⟨s₁', hseeds', h'⟩ := (hsession.seeds _ _).of_eq hseeds
    exact ⟨_, .refuse hseeds', rfl, rfl, rfl, h'⟩
  | enter hseeds =>
    obtain ⟨s₁', hseeds', h'⟩ := (hsession.seeds _ _).of_eq hseeds
    exact ⟨_, .enter hseeds', rfl, rfl, rfl, h'.openGraph _ _ _⟩
  | drained hd =>
    exact ⟨_, .drained (hsession.dequeue?_none hd), rfl, rfl, rfl, hsession.closeGraph⟩
  | exhaust hd he =>
    -- The second machine is not held to less than the first.
    rw [ht.not_exceeded (hless rfl) hd] at he
    cases he
  | settle hd he hv hn =>
    obtain ⟨s₁', hd', he', h'⟩ := hsession.take ht.held (hless rfl) hd
    have hv' := (h'.verdict _ _).trans hv
    exact ⟨_, .settle hd' he' hv' hn, rfl, rfl, rfl, h'.settle _ _ _⟩
  | start hd he hv =>
    obtain ⟨s₁', hd', he', h'⟩ := hsession.take ht.held (hless rfl) hd
    have hv' := (h'.verdict _ _).trans hv
    exact ⟨_, .start hd' he' hv', rfl, rfl, rfl, h'.startNode _ _ _⟩
  | @perform _ a _ s₂ op next =>
    obtain ⟨hreply, h'⟩ := op.run_alike hsession
    refine ⟨_, .perform, rfl, ?_, rfl, h'⟩
    dsimp only
    rw [hreply]
  | unresolved hr => exact ⟨_, .unresolved ((hsession.resolve _ _).trans hr), rfl, rfl, rfl, hsession⟩
  | call hr => exact ⟨_, .call ((hsession.resolve _ _).trans hr), rfl, rfl, rfl, hsession⟩
  | finish => exact ⟨_, .finish, rfl, rfl, rfl, hsession.finishNode _ _ _ _⟩
  | resume => exact ⟨_, .resume, rfl, rfl, rfl, hsession⟩

/-- The first machine follows the second to the end, or to where the counter stands at the limit and
is about to pass it. -/
theorem Machine.Alike.steps (hm : Machine.Alike m₁ m₂) (hs : Stacked fs cs m₂)
    (ht : m₁.session.Tighter limit m₂.session) (h : Steps m₂ ls m₂')
    (hle : m₂.session.statistics.steps ≤ limit) :
    (∃ m₁', Steps m₁ ls m₁' ∧ Machine.Alike m₁' m₂') ∨
    ∃ pre l post n₁ n₂ m, ls = pre ++ l :: post ∧ Steps m₁ pre n₁ ∧ Steps m₂ pre n₂ ∧
      Machine.Alike n₁ n₂ ∧ n₂.session.statistics.steps = limit ∧ Step n₂ l m ∧
      limit < m.session.statistics.steps ∧ Steps m post m₂' := by
  induction h generalizing m₁ with
  | refl => exact .inl ⟨m₁, .refl m₁, hm⟩
  | @head m₂ l m₃ ls m₂' first rest ih =>
    by_cases hroom : m₃.session.statistics.steps ≤ limit
    · obtain ⟨m₁', first', hm'⟩ := hm.step hs ht first hroom
      have ht' : m₁'.session.Tighter limit m₃.session := by
        constructor
        · rw [first'.graphs.1]
          exact ht.held
        · rw [first.graphs.1]
          exact ht.free
      rcases ih hm' (hs.step first) ht' hroom with ⟨m₁'', rest', hm''⟩ |
        ⟨pre, l', post, n₁, n₂, m, rfl, hpre₁, hpre₂, hmid⟩
      · exact .inl ⟨m₁'', .head first' rest', hm''⟩
      · exact .inr ⟨l :: pre, l', post, n₁, n₂, m, rfl, .head first' hpre₁, .head first hpre₂, hmid⟩
    · have hpassed := UInt64.not_le.mp hroom
      have hreached : m₂.session.statistics.steps = limit := by
        cases hl : l.taken? with
        | none => exact absurd (first.steps_of_not_taken hs hl ▸ hle) hroom
        | some taken =>
          rw [first.steps_of_taken hs hl] at hpassed
          grind
      exact .inr ⟨[], l, ls, m₁, m₂, m₃, rfl, .refl _, .refl _, hm, hreached, first, hpassed, rest⟩

end

def Occurrence.isStart : Occurrence → Bool
  | .nodeStarted .. => true
  | _ => false

/-- The starts of bodies that were told. -/
def Session.starts (s : Session) : Story := s.told.filter (·.2.isStart)

theorem Session.Alike.told {s₁ s₂ : Session} (h : s₁.Alike s₂) : s₁.told = s₂.told := by
  apply h.read Session.told
  intro s
  simp [Session.told, bare, Function.comp_def]

theorem Label.account_starts {l : Label} (hl : ∀ a, l ≠ .started a) (config : Config)
    (depth : Nat) : (l.account config depth).occurrences.filter (·.2.isStart) = [] := by
  have hentry (g : Graph) (entry : Entry) :
      (Session.entryAccount config depth g entry).occurrences.filter (·.2.isStart) = [] := by
    unfold Session.entryAccount
    split
    · rfl
    · split
      · rfl
      · split <;> rfl
  cases l with
  | refused g entry => exact hentry g entry
  | entered g entry =>
    simp only [Label.account, Account.append_occurrences, List.filter_append, hentry]
    rfl
  | started a => exact absurd rfl (hl a)
  | settled g h v => cases v <;> rfl
  | finished a result => cases result <;> rfl
  | _ => rfl

/-- What has been told stays, and starts are told of steps that start a body only. -/
theorem Step.starts (hs : Stacked fs cs m) (h : Step m l m') :
    m.session.starts <+: m'.session.starts ∧
      ((∀ a, l ≠ .started a) → m'.session.starts = m.session.starts) := by
  have hreports := h.reports hs
  have htold : m'.session.told = m.session.told ++
      (m.session.delivered (l.account m.session.config m.session.depth).occurrences).map
        fun e => (e.graph, e.occurrence) := by
    simp only [Session.told, hreports.events, List.map_append]
  unfold Session.starts
  rw [htold, List.filter_append]
  refine ⟨List.prefix_append _ _, fun hl => ?_⟩
  have hnone := l.account_starts hl m.session.config m.session.depth
  unfold Session.delivered
  split
  · simpa [Function.comp_def] using hnone
  · simp

theorem Steps.starts_prefix (hs : Stacked fs cs m) (h : Steps m ls m') :
    m.session.starts <+: m'.session.starts := by
  induction h with
  | refl => exact List.prefix_rfl
  | head first _ ih => exact (first.starts hs).1.trans (ih (hs.step first))

/-- Once the counter stands at the limit no start is told any more. -/
theorem Steps.starts_eq (hs : Stacked fs cs m)
    (hmax : m.session.memory.config.maxSteps = some limit)
    (hle : limit ≤ m.session.statistics.steps) (h : Steps m ls m')
    (hfits : m.session.statistics.steps.toNat + dequeues ls < UInt64.size) :
    m'.session.starts = m.session.starts := by
  rw [UInt64.le_iff_toNat_le] at hle
  induction h with
  | refl => rfl
  | @head m l m' ls m'' first _ ih =>
    rw [dequeues_cons] at hfits
    have hcount := (Steps.one first).toNat_steps hs (by omega)
    rw [ih (hs.step first) (first.graphs.1 ▸ hmax) (by omega) (by omega)]
    apply (first.starts hs).2
    rintro a rfl
    rw [dequeues_of_taken rfl] at hfits
    rcases first.taken_cases hmax rfl (by omega) with hlt | hl
    · omega
    · cases hl

section

variable {scene : Scene} {g : Graph} {entry : Entry} {s₁ s₁' s₂ s₂' : Session} {limit : UInt64}

theorem Session.Alike.machine (h : s₁.Alike s₂) :
    Machine.Alike ⟨scene, .entering g entry, [], s₁⟩ ⟨scene, .entering g entry, [], s₂⟩ :=
  ⟨rfl, rfl, rfl, h⟩

/-- An evaluation that stays within the tighter limit is not touched by it. -/
theorem Session.Alike.call (h : s₁.Alike s₂) (ht : Tighter limit s₁ s₂)
    (hcall : Call scene s₂ g entry ls result s₂') (hroom : s₂'.statistics.steps ≤ limit)
    (hfits : s₂.statistics.steps.toNat + dequeues ls < UInt64.size) :
    ∃ s₁', Call scene s₁ g entry ls result s₁' ∧ s₁'.Alike s₂' := by
  have hs : Stacked s₂.frames s₂.calls ⟨scene, .entering g entry, [], s₂⟩ := Levels.base
  have hcount := hcall.toNat_steps hs hfits
  dsimp only at hcount
  rw [UInt64.le_iff_toNat_le] at hroom
  have hstart : s₂.statistics.steps ≤ limit := UInt64.le_iff_toNat_le.mpr (by omega)
  rcases h.machine.steps hs ht hcall hstart with ⟨⟨_, _, _, s₁'⟩, hsteps, hscene, hcontrol,
    hsuspended, h'⟩ | ⟨pre, l, post, _, n₂, m, rfl, -, hpre, -, -, hstep, hpassed, hpost⟩
  · dsimp only at hscene hcontrol hsuspended
    subst hscene hcontrol hsuspended
    exact ⟨s₁', hsteps, h'⟩
  · -- The counter would have to come back below the limit.
    have hmid := hpre.trans (.one hstep)
    have hrest := hpost.toNat_steps (hmid.stacked hs)
    have htaken := hmid.toNat_steps hs
    rw [UInt64.lt_iff_toNat_lt] at hpassed
    simp only [dequeues_append, dequeues_cons l post] at hfits htaken hcount
    dsimp only at hrest htaken
    omega

/-- Up to the moment at which the counter comes to the limit both evaluations go the same way, and
from then on the one that is held to it starts nothing. -/
theorem Session.Alike.starts_prefix (h : s₁.Alike s₂) (ht : Tighter limit s₁ s₂)
    (hcall₁ : Call scene s₁ g entry ls₁ result₁ s₁')
    (hcall₂ : Call scene s₂ g entry ls₂ result₂ s₂')
    (hfits : s₁.statistics.steps.toNat + dequeues ls₁ < UInt64.size) :
    s₁'.starts <+: s₂'.starts := by
  have hbase (s : Session) : Stacked s.frames s.calls ⟨scene, .entering g entry, [], s⟩ :=
    Levels.base
  have cut {pre post : List Label} {m₁ m₂ : Machine}
      (hpre₁ : Steps ⟨scene, .entering g entry, [], s₁⟩ pre m₁)
      (hpre₂ : Steps ⟨scene, .entering g entry, [], s₂⟩ pre m₂)
      (hpost : Steps m₂ post ⟨scene, .returning result₂, [], s₂'⟩) (hm : Machine.Alike m₁ m₂)
      (hreached : limit ≤ m₂.session.statistics.steps) : s₁'.starts <+: s₂'.starts := by
    have hsteps := hm.session.read (·.statistics.steps) fun _ => rfl
    have hmax : m₁.session.memory.config.maxSteps = some limit := by
      rw [hpre₁.config]
      exact ht.held
    obtain ⟨rest, rfl, hrest⟩ := Steps.continued hcall₁ (returning_ends _ _ _) hpre₁
    rw [dequeues_append] at hfits
    have hcount := hpre₁.toNat_steps (hbase s₁) (by dsimp only; omega)
    have hsame := hrest.starts_eq (hpre₁.stacked (hbase s₁)) hmax (hsteps ▸ hreached)
      (by dsimp only at hcount; omega)
    have hgrown := hpost.starts_prefix (hpre₂.stacked (hbase s₂))
    rw [Session.starts, ← hm.session.told] at hgrown
    dsimp only at hsame hgrown
    rw [hsame]
    exact hgrown
  by_cases hle : s₂.statistics.steps ≤ limit
  · rcases h.machine.steps (hbase s₂) ht hcall₂ hle with ⟨m₁, hsteps, hm⟩ |
      ⟨pre, l, post, n₁, n₂, m, -, hpre₁, hpre₂, hm, hreached, hstep, -, hpost⟩
    · obtain ⟨_, _, _, t⟩ := m₁
      obtain ⟨hscene, hcontrol, hsuspended, ht'⟩ := hm
      dsimp only at hscene hcontrol hsuspended
      subst hscene hcontrol hsuspended
      obtain ⟨-, -, rfl⟩ := Call.unique hcall₁ hsteps
      rw [Session.starts, ht'.told]
      exact List.prefix_rfl
    · exact cut hpre₁ hpre₂ (.head hstep hpost) hm (UInt64.le_of_eq hreached.symm)
  · exact cut (.refl _) (.refl _) hcall₂ h.machine (UInt64.le_of_lt (UInt64.not_le.mp hle))

end

/-- A step limit does no more than cut an evaluation short. Of two sessions that differ in their
limits alone, the one held to less starts the same bodies in the same order as the other, up to some
point. If the other stays within the lower limit, both return the same and are alike after it. The
one without any limit may fail to come to an end; each of the others comes to its own. All this is so
while the counter does not start over. -/
theorem step_limit_only_truncates (scene : Scene) (g : Graph) (entry : Entry) {s₁ s₂ : Session}
    {limit : UInt64} (halike : s₁.Alike s₂) (hmax : s₁.config.maxSteps = some limit)
    (hle : ∀ limit', s₂.config.maxSteps = some limit' → limit ≤ limit') :
    ((∃ fuel result s₁', ∀ fuel' ≥ fuel, s₁.evaluate scene fuel' g entry = some (result, s₁')) ∨
      ∃ ls m, Steps ⟨scene, .entering g entry, [], s₁⟩ ls m ∧
        UInt64.size ≤ max s₁.statistics.steps.toNat limit.toNat + ls.countP Label.exhausts + 1) ∧
    (∀ limit', s₂.config.maxSteps = some limit' →
      (∃ fuel result s₂', ∀ fuel' ≥ fuel, s₂.evaluate scene fuel' g entry = some (result, s₂')) ∨
      ∃ ls m, Steps ⟨scene, .entering g entry, [], s₂⟩ ls m ∧
        UInt64.size ≤ max s₂.statistics.steps.toNat limit'.toNat + ls.countP Label.exhausts + 1) ∧
    ∀ fuel₁ fuel₂ result₁ result₂ s₁' s₂',
      s₁.evaluate scene fuel₁ g entry = some (result₁, s₁') →
      s₂.evaluate scene fuel₂ g entry = some (result₂, s₂') →
      ∃ ls₁ ls₂, Call scene s₁ g entry ls₁ result₁ s₁' ∧ Call scene s₂ g entry ls₂ result₂ s₂' ∧
        (s₁.statistics.steps.toNat + dequeues ls₁ < UInt64.size → s₁'.starts <+: s₂'.starts) ∧
        (s₂.statistics.steps.toNat + dequeues ls₂ < UInt64.size →
          s₂'.statistics.steps ≤ limit → result₁ = result₂ ∧ s₁'.Alike s₂') := by
  have ht : Session.Tighter limit s₁ s₂ := ⟨hmax, hle⟩
  refine ⟨Session.evaluate_returns hmax scene g entry, ?_, ?_⟩
  · intro limit' hmax'
    exact Session.evaluate_returns hmax' scene g entry
  · intro fuel₁ fuel₂ result₁ result₂ s₁' s₂' he₁ he₂
    obtain ⟨ls₁, hcall₁⟩ := evaluate_iff_call.mp ⟨fuel₁, he₁⟩
    obtain ⟨ls₂, hcall₂⟩ := evaluate_iff_call.mp ⟨fuel₂, he₂⟩
    refine ⟨ls₁, ls₂, hcall₁, hcall₂, halike.starts_prefix ht hcall₁ hcall₂, ?_⟩
    intro hfits hroom
    obtain ⟨t, hcall, ht'⟩ := halike.call ht hcall₂ hroom hfits
    obtain ⟨fuel, he⟩ := evaluate_iff_call.mpr ⟨ls₂, hcall⟩
    obtain ⟨rfl, rfl⟩ := evaluate_unique he₁ he
    exact ⟨rfl, ht'⟩

/-- The session of the overrun under another name and with another limit. -/
def Overrun.limited (name : String) (maxSteps : Option UInt64) : Session :=
  { Overrun.session with executionId := name, sink := .collect, config := { maxSteps } }

/-- One call on that session. -/
def Overrun.limitedEntry (name : String) (maxSteps : Option UInt64) : Machine :=
  { Overrun.entry with session := Overrun.limited name maxSteps }

/-- One step is not enough for both bodies, and two steps are as good as any number. -/
theorem step_limit_only_truncates_overrun :
    ∃ s₁ s₂ s₃,
      (Overrun.limited "a" (some 1)).evaluate (fun _ => none) 9 Overrun.once (.executionInput 0) =
        some (.ok (), s₁) ∧
      (Overrun.limited "b" (some 2)).evaluate (fun _ => none) 9 Overrun.once (.executionInput 0) =
        some (.ok (), s₂) ∧
      (Overrun.limited "c" none).evaluate (fun _ => none) 9 Overrun.once (.executionInput 0) =
        some (.ok (), s₃) ∧
      s₁.starts.length = 1 ∧ s₂.starts.length = 2 ∧ s₁.starts <+: s₂.starts ∧ s₂.Alike s₃ := by
  have he₁ : (Overrun.limited "a" (some 1)).evaluate (fun _ => none) 9 Overrun.once
    (.executionInput 0) = some (.ok (), _) := rfl
  have he₂ : (Overrun.limited "b" (some 2)).evaluate (fun _ => none) 9 Overrun.once
    (.executionInput 0) = some (.ok (), _) := rfl
  have he₃ : (Overrun.limited "c" none).evaluate (fun _ => none) 9 Overrun.once
    (.executionInput 0) = some (.ok (), _) := rfl
  have halike (name name' : String) (limit limit' : Option UInt64) :
      (Overrun.limited name limit).Alike (Overrun.limited name' limit') := rfl
  obtain ⟨-, -, hless⟩ := step_limit_only_truncates (fun _ => none) Overrun.once
    (.executionInput 0) (halike "a" "b" (some 1) (some 2)) rfl (by rintro _ ⟨⟩; decide)
  obtain ⟨-, -, hmore⟩ := step_limit_only_truncates (fun _ => none) Overrun.once
    (.executionInput 0) (halike "b" "c" (some 2) none) rfl (by rintro _ ⟨⟩)
  obtain ⟨ls₁, _, hcall₁, -, hstarts, -⟩ := hless 9 9 _ _ _ _ he₁ he₂
  obtain ⟨_, ls₃, -, hcall₃, -, hsame⟩ := hmore 9 9 _ _ _ _ he₂ he₃
  have hlabels₁ := (hcall₁.unique ((Overrun.limitedEntry "a" (some 1)).advance_steps 20)).1
  have hlabels₃ := (hcall₃.unique ((Overrun.limitedEntry "c" none).advance_steps 20)).1
  have hfits₁ : dequeues ((Overrun.limitedEntry "a" (some 1)).advance 20).1 = 2 := rfl
  have hfits₃ : dequeues ((Overrun.limitedEntry "c" none).advance 20).1 = 2 := rfl
  rw [hlabels₁, hfits₁] at hstarts
  rw [hlabels₃, hfits₃] at hsame
  exact ⟨_, _, _, he₁, he₂, he₃, rfl, rfl, hstarts (by decide), (hsame (by decide) (by decide)).2⟩

end Flowgraph
