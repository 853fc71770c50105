import Flowgraph.Proofs.Stack

namespace Flowgraph

instance : Add Statistics where
  add a b := ⟨a.steps + b.steps, a.evaluated + b.evaluated, a.deferred + b.deferred,
    a.dropped + b.dropped⟩

theorem Statistics.add_eq (a b : Statistics) : a + b = ⟨a.steps + b.steps,
    a.evaluated + b.evaluated, a.deferred + b.deferred, a.dropped + b.dropped⟩ := rfl

theorem Statistics.add_empty (a : Statistics) : a + {} = a := by simp [Statistics.add_eq]

theorem Statistics.add_assoc (a b c : Statistics) : a + b + c = a + (b + c) := by
  change Statistics.mk _ _ _ _ = Statistics.mk _ _ _ _
  congr 1 <;> exact UInt64.add_assoc ..

/-- A sum that has 64 bits is what its word says. -/
theorem toNat_add_ofNat {w : UInt64} {n : Nat} (h : w.toNat + n < UInt64.size) :
    (w + .ofNat n).toNat = w.toNat + n := by
  rw [UInt64.toNat_add, UInt64.toNat_ofNat']
  unfold UInt64.size at h
  omega

theorem toNat_add_one {w : UInt64} (h : w.toNat + 1 < UInt64.size) : (w + 1).toNat = w.toNat + 1 :=
  toNat_add_ofNat h

/-- What a session tells about a piece of its work: what occurred, which problems there were, and
how much its counts have grown. -/
structure Account where
  occurrences : List (GraphId × Occurrence) := []
  diagnostics : List Diagnostic := []
  statistics : Statistics := {}

instance : Append Account where
  append a b := ⟨a.occurrences ++ b.occurrences, a.diagnostics ++ b.diagnostics,
    a.statistics + b.statistics⟩

namespace Session

/-- The events that reach the sink for what has occurred. -/
def delivered (s : Session) (occurrences : List (GraphId × Occurrence)) : List Event :=
  if s.sink = .collect then occurrences.map fun o => ⟨s.executionId, o.1, o.2⟩ else []

theorem delivered_append (s : Session) (os os' : List (GraphId × Occurrence)) :
    s.delivered (os ++ os') = s.delivered os ++ s.delivered os' := by
  unfold delivered
  split <;> simp

/-- All that a session tells between two moments. -/
structure Reports (s s' : Session) (r : Account) : Prop where
  executionId : s'.executionId = s.executionId
  sink : s'.sink = s.sink
  events : s'.events.toList = s.events.toList ++ s.delivered r.occurrences
  diagnostics : s'.diagnostics.toList = s.diagnostics.toList ++ r.diagnostics
  statistics : s'.statistics = s.statistics + r.statistics

section

variable {s s' s'' : Session} {r r' : Account}

theorem Reports.trans (h : s.Reports s' r) (h' : s'.Reports s'' r') : s.Reports s'' (r ++ r') where
  executionId := h'.executionId.trans h.executionId
  sink := h'.sink.trans h.sink
  events := by
    have hsame : s'.delivered r'.occurrences = s.delivered r'.occurrences := by
      simp only [delivered, h.sink, h.executionId]
    rw [h'.events, h.events, hsame, List.append_assoc, ← delivered_append]
    rfl
  diagnostics := by
    rw [h'.diagnostics, h.diagnostics, List.append_assoc]
    rfl
  statistics := by
    rw [h'.statistics, h.statistics, Statistics.add_assoc]
    rfl

/-- A change that shows in the counts at most. -/
theorem Reports.count {δ : Statistics} (executionId : s'.executionId = s.executionId)
    (sink : s'.sink = s.sink) (events : s'.events = s.events)
    (diagnostics : s'.diagnostics = s.diagnostics) (statistics : s'.statistics = s.statistics + δ) :
    s.Reports s' { statistics := δ } where
  executionId := executionId
  sink := sink
  events := by simp [events, delivered]
  diagnostics := by simp [diagnostics]
  statistics := statistics

/-- A change that does not show. -/
theorem Reports.silent (executionId : s'.executionId = s.executionId) (sink : s'.sink = s.sink)
    (events : s'.events = s.events) (diagnostics : s'.diagnostics = s.diagnostics)
    (statistics : s'.statistics = s.statistics) : s.Reports s' {} :=
  .count executionId sink events diagnostics (statistics.trans (Statistics.add_empty _).symm)

theorem log_reports (s : Session) (level : Level) (text : String) :
    s.Reports (s.log level text) {} := .silent rfl rfl rfl rfl rfl

theorem emit_reports (s : Session) (graph : GraphId) (o : Occurrence) :
    s.Reports (s.emit graph o) { occurrences := [(graph, o)] } := by
  unfold emit
  split
  all_goals
    rename_i hsink
    exact ⟨rfl, rfl, by simp [delivered, hsink, log], by simp [log],
      (Statistics.add_empty _).symm⟩

theorem report_reports (s : Session) (graph : GraphId) (h : Handle) (e : Error) :
    s.Reports (s.report graph h e) { diagnostics := [⟨graph, h, e⟩] } :=
  ⟨rfl, rfl, by simp [delivered, report], by simp [report], (Statistics.add_empty _).symm⟩

theorem enqueue_reports (s : Session) (nodes : List Handle) : s.Reports (s.enqueue nodes) {} := by
  unfold enqueue
  split <;> exact .silent rfl rfl rfl rfl rfl

/-- A node that is taken from a queue is counted. -/
theorem dequeue?_reports (hd : s.dequeue? = some (h, s')) :
    s.Reports s'.countStep { statistics := { steps := 1 } } := by
  unfold dequeue? at hd
  split at hd
  · cases hd
  · split at hd
    · cases hd
    · cases hd
      exact .count rfl rfl rfl rfl (by simp [countStep, Statistics.add_eq])

end

/-- What is told when a verdict is carried out. -/
def Verdict.account (graph : GraphId) (h : Handle) : Verdict → Account
  | .drop e => ⟨[(graph, .nodeDropped h e.message)], [⟨graph, h, e⟩], { dropped := 1 }⟩
  | .defer producers =>
    ⟨[(graph, .nodeDeferred h (UInt64.ofNat producers.length))], [], { deferred := 1 }⟩
  | .alreadyDropped | .alreadyEvaluated | .start .. => {}

theorem settle_reports (s : Session) (graph : GraphId) (h : Handle) (v : Verdict) :
    s.Reports (s.settle graph h v) (v.account graph h) := by
  cases v with
  | alreadyDropped => exact s.log_reports _ _
  | alreadyEvaluated => exact s.log_reports _ _
  | start d body => exact .silent rfl rfl rfl rfl rfl
  | drop e =>
    have hdropped (t : Session) : t.Reports { t with
        dropped := t.dropped.insert ⟨graph, h⟩
        statistics := { t.statistics with dropped := t.statistics.dropped + 1 } }
        { statistics := { dropped := 1 } } :=
      .count rfl rfl rfl rfl (by simp [Statistics.add_eq])
    exact (s.log_reports _ _).trans ((hdropped _).trans
      ((emit_reports _ _ _).trans (report_reports _ _ _ _)))
  | defer producers =>
    have hdeferred (t : Session) : t.Reports
        { t with statistics := { t.statistics with deferred := t.statistics.deferred + 1 } }
        { statistics := { deferred := 1 } } :=
      .count rfl rfl rfl rfl (by simp [Statistics.add_eq])
    exact (s.log_reports _ _).trans ((hdeferred _).trans
      ((emit_reports _ _ _).trans (enqueue_reports _ _)))

theorem startNode_reports (s : Session) (graph : GraphId) (h : Handle) (d : Definition) :
    s.Reports (s.startNode graph h d)
      { occurrences := [(graph, .nodeStarted h d.nodeType)] } := by
  have hcalls (t : Session) : t.Reports { t with calls := h :: t.calls } {} :=
    .silent rfl rfl rfl rfl rfl
  exact (s.log_reports _ _).trans ((emit_reports _ _ _).trans (hcalls _))

/-- What is told when a body has run. -/
def finishAccount (graph : GraphId) (h : Handle) (d : Definition) : Except Error Unit → Account
  | .ok () => ⟨[(graph, .nodeCompleted h d.nodeType)], [], { evaluated := 1 }⟩
  | .error e => ⟨[(graph, .nodeFailed h e.message)], [⟨graph, h, e⟩], { evaluated := 1 }⟩

theorem finishNode_reports (s : Session) (graph : GraphId) (h : Handle) (d : Definition)
    (result : Except Error Unit) :
    s.Reports (s.finishNode graph h d result) (finishAccount graph h d result) := by
  have hevaluated : s.Reports { s with
      calls := s.calls.tail
      evaluated := s.evaluated.insert ⟨graph, h⟩
      statistics := { s.statistics with evaluated := s.statistics.evaluated + 1 } }
      { statistics := { evaluated := 1 } } :=
    .count rfl rfl rfl rfl (by simp [Statistics.add_eq])
  match result with
  | .ok () => exact hevaluated.trans (emit_reports _ _ _)
  | .error e =>
    have hdropped (t : Session) : t.Reports
        (if d.isPure then { t with dropped := t.dropped.insert ⟨graph, h⟩ } else t) {} := by
      split <;> exact .silent rfl rfl rfl rfl rfl
    exact hevaluated.trans ((log_reports _ _ _).trans ((hdropped _).trans
      ((emit_reports _ _ _).trans (report_reports _ _ _ _))))

theorem checkDepth_reports {s s' : Session} {result : Except Error Unit}
    (hc : s.checkDepth = (result, s')) : s.Reports s' {} := by
  unfold checkDepth at hc
  dsimp only at hc
  split at hc <;> cases hc
  · exact .silent rfl rfl rfl rfl rfl
  · exact s.log_reports _ _

/-- What is told when an entry is looked at. -/
def entryAccount (config : Config) (depth : Nat) (g : Graph) : Entry → Account
  | .executionInput _ => {}
  | .root h =>
    match g.node h with
    | .error _ => {}
    | .ok n =>
      if depth < config.maxGraphDepth.toNat && !n.definition.isRoot then
        { occurrences := [(g.id, .nonRootEntry h n.nodeType)]
          diagnostics := if config.strictRoots then [] else [⟨g.id, h, .notRoot n.nodeType⟩] }
      else {}

theorem seeds_reports {s s' : Session} {g : Graph} {entry : Entry}
    {result : Except Error (List Handle)} (hs : s.seeds g entry = (result, s')) :
    s.Reports s' (entryAccount s.config s.depth g entry) := by
  cases entry with
  | executionInput ordinal =>
    simp only [seeds, inputSeeds] at hs
    split at hs
    · cases hs
      exact s.log_reports _ _
    · split at hs <;> rename_i hc <;> cases hs <;> exact checkDepth_reports hc
  | root h =>
    by_cases hd : s.depth < s.config.maxGraphDepth.toNat
    · simp only [seeds, rootSeeds, checkDepth_room hd] at hs
      simp only [entryAccount, hd]
      cases hn : g.node h with
      | error e =>
        rw [hn] at hs
        cases hs
        exact .silent rfl rfl rfl rfl rfl
      | ok n =>
        rw [hn] at hs
        dsimp only at hs ⊢
        cases hroot : n.definition.isRoot with
        | true =>
          simp only [hroot, ↓reduceIte] at hs
          cases hs
          exact .silent rfl rfl rfl rfl rfl
        | false =>
          have hemit := s.emit_reports g.id (.nonRootEntry h n.nodeType)
          have hconfig : (s.emit g.id (.nonRootEntry h n.nodeType)).config = s.config :=
            congrArg Memory.config (s.emit_memory _ _)
          simp only [hroot, Bool.false_eq_true, ↓reduceIte, hconfig] at hs
          cases hstrict : s.config.strictRoots with
          | true =>
            simp only [hstrict, ↓reduceIte] at hs
            cases hs
            exact hemit.trans (log_reports _ _ _)
          | false =>
            simp only [hstrict, Bool.false_eq_true, ↓reduceIte] at hs
            cases hs
            exact hemit.trans ((log_reports _ _ _).trans (report_reports _ _ _ _))
    · have hc : s.checkDepth = (.error (.graphDepthExceeded s.config.maxGraphDepth.toNat),
          s.log .error s!"Graph stack depth limit of {s.config.maxGraphDepth.toNat} reached") := by
        simp [checkDepth, hd]
      simp only [seeds, rootSeeds, hc] at hs
      cases hs
      have hnothing : entryAccount s.config s.depth g (.root h) = {} := by
        simp only [entryAccount]
        split <;> simp [hd]
      rw [hnothing]
      exact s.log_reports _ _

theorem openGraph_reports (s : Session) (g : Graph) (entry : Entry) (queue : List Handle) :
    s.Reports (s.openGraph g entry queue)
      { occurrences := [(g.id, .evaluationStarted entry)] } := by
  have hframes (t : Session) : t.Reports { t with frames := ⟨g, queue⟩ :: t.frames } {} :=
    .silent rfl rfl rfl rfl rfl
  have hlog : s.Reports (if s.frames.isEmpty then
        s.log .info s!"Evaluating graph '{g.name}' ({s.executionId})"
      else s.log .debug s!"Entering nested graph '{g.name}' at depth {s.depth}") {} := by
    split <;> exact s.log_reports _ _
  exact hlog.trans ((emit_reports _ _ _).trans (hframes _))

theorem closeGraph_reports {s : Session} {frame : Frame} {rest : List Frame}
    (hf : s.frames = frame :: rest) : s.Reports s.closeGraph
      { occurrences := [(frame.graph.id, .evaluationCompleted)] } := by
  have hframes : s.Reports { s with frames := rest } {} := .silent rfl rfl rfl rfl rfl
  have hemit := hframes.trans (emit_reports _ frame.graph.id .evaluationCompleted)
  simp only [closeGraph, hf]
  split
  · exact hemit.trans (log_reports _ _ _)
  · exact hemit

end Session

/-- Bodies tell nothing of their own. -/
theorem Operation.run_reports (op : Operation) (s : Session) : s.Reports (op.run s).2 {} := by
  have hsame : s.Reports s {} := .silent rfl rfl rfl rfl rfl
  cases op with
  | setOutput port v =>
    dsimp only [Operation.run]
    cases hc : s.current with
    | error e => rwa [Session.setOutput_idle hc]
    | ok c =>
      rw [Session.setOutput_run hc]
      split
      · exact .silent rfl rfl rfl rfl rfl
      · exact hsame
  | fire port =>
    dsimp only [Operation.run]
    cases hc : s.current with
    | error e => rwa [Session.fire_idle hc]
    | ok c =>
      obtain ⟨text, hfire⟩ := Session.fire_run hc port
      rw [hfire]
      split
      · exact (s.log_reports _ _).trans (Session.enqueue_reports _ _)
      · exact hsame
  | queue node =>
    dsimp only [Operation.run]
    cases hg : s.activeGraph with
    | error e => rwa [Session.queueNode_idle hg]
    | ok g =>
      rw [Session.queueNode_run hg]
      split
      · exact s.enqueue_reports _
      · exact hsame
  | _ => exact .silent rfl rfl rfl rfl rfl

/-- What a step tells. The configuration and the depth have a part in it only where an entry is
looked at. -/
def Label.account (config : Config) (depth : Nat) : Label → Account
  | .refused g entry => Session.entryAccount config depth g entry
  | .entered g entry =>
    Session.entryAccount config depth g entry ++
      { occurrences := [(g.id, .evaluationStarted entry)] }
  | .drained g => { occurrences := [(g.id, .evaluationCompleted)] }
  | .exhausted g _ =>
    { occurrences := [(g.id, .evaluationCompleted)], statistics := { steps := 1 } }
  | .settled g h v => { statistics := { steps := 1 } } ++ v.account g.id h
  | .started a =>
    { occurrences := [(a.graph.id, .nodeStarted a.handle a.definition.nodeType)]
      statistics := { steps := 1 } }
  | .finished a result => Session.finishAccount a.graph.id a.handle a.definition result
  | .performed .. | .unresolved .. | .called .. | .resumed _ => {}

/-- What a session tells is decided by the steps it makes. -/
theorem Step.reports (hs : Stacked fs cs m) (h : Step m l m') :
    m.session.Reports m'.session (l.account m.session.config m.session.depth) := by
  cases h with
  | refuse hseeds => exact Session.seeds_reports hseeds
  | enter hseeds => exact (Session.seeds_reports hseeds).trans (Session.openGraph_reports _ _ _ _)
  | drained hd =>
    obtain ⟨frame, rest, hf, rfl, -⟩ := hs
    exact Session.closeGraph_reports hf
  | exhaust hd he =>
    obtain ⟨frame, rest, hf, rfl, -⟩ := Atop.sameStacks hs (Session.dequeue?_sameStacks hd)
    exact ((Session.dequeue?_reports hd).trans (Session.log_reports _ _ _)).trans
      (Session.closeGraph_reports hf)
  | settle hd he hv hn => exact (Session.dequeue?_reports hd).trans (Session.settle_reports _ _ _ _)
  | start hd he hv => exact (Session.dequeue?_reports hd).trans (Session.startNode_reports _ _ _ _)
  | @perform _ _ _ s op _ => exact op.run_reports s
  | unresolved hr => exact .silent rfl rfl rfl rfl rfl
  | call hr => exact .silent rfl rfl rfl rfl rfl
  | finish => exact Session.finishNode_reports _ _ _ _ _
  | resume => exact .silent rfl rfl rfl rfl rfl

end Flowgraph
