import Flowgraph.Proofs.Memoization

namespace Flowgraph

/-- How many outputs the node under the handle has. -/
def Graph.outputCount (g : Graph) (h : Handle) : Nat := (g.node? h).elim 0 (·.outputCount)

/-- The nodes that a step activates, in the order in which they are queued: those of an entry, the
targets of an output that a body fires, or a node that a body queues. -/
def Label.activated : Label → List Handle
  | .entered _ (.root h) => [h]
  | .entered g (.executionInput ordinal) => (g.inputTargets ordinal.toNat).toOption.getD []
  | .performed a (.fire port) =>
    if port < a.graph.outputCount a.handle then a.graph.targets ⟨a.handle, port⟩ else []
  | .performed a (.queue h) => if (a.graph.node? h).isSome then [h] else []
  | _ => []

/-- All that a step puts in a queue. Besides what it activates, this is a node that has to wait,
behind the producers it waits for. -/
def Label.queued : Label → List Handle
  | .settled _ h (.defer producers) => producers ++ [h]
  | l => l.activated

/-- How many bodies are held up after a step when there were `level` before it. -/
def Label.level (level : Nat) : Label → Nat
  | .called .. => level + 1
  | .resumed _ => level - 1
  | _ => level

/-- The steps of an evaluation without those of the evaluations that its bodies ask for, of which
`level` are under way. -/
def outermost : Nat → List Label → List Label
  | _, [] => []
  | level, l :: ls =>
    if level = 0 then l :: outermost (l.level level) ls else outermost (l.level level) ls

theorem Step.level (h : Step m l m') : l.level m.suspended.length = m'.suspended.length := by
  cases h <;> rfl

/-- All that a step can do to the frames: nothing, put one on top, take one off, or serve and fill
the innermost queue. -/
inductive Shift : Label → List Frame → List Frame → Prop where
  | keep (untaken : l.taken? = none) (nothing : l.activated = []) : Shift l frames frames
  | enter : Shift (.entered g entry) frames (⟨g, (Label.entered g entry).activated⟩ :: frames)
  | drained : Shift (.drained g) (⟨g, []⟩ :: rest) rest
  | exhaust : Shift (.exhausted g h) (⟨g, h :: queue⟩ :: rest) rest
  | settle : Shift (.settled g h v) (⟨g, h :: queue⟩ :: rest)
      (⟨g, queue ++ (Label.settled g h v).queued⟩ :: rest)
  | start : Shift (.started ⟨g, h, d⟩) (⟨g, h :: queue⟩ :: rest) (⟨g, queue⟩ :: rest)
  | perform : Shift (.performed a op) (⟨a.graph, queue⟩ :: rest)
      (⟨a.graph, queue ++ (Label.performed a op).activated⟩ :: rest)

theorem Session.rootSeeds_ok {s s' : Session} (h : s.rootSeeds g r = (.ok queue, s')) :
    queue = [r] := by
  unfold rootSeeds at h
  split at h
  · cases h
  · split at h
    · cases h
    · dsimp only at h
      split at h
      · cases h
        rfl
      · split at h <;> cases h
        rfl

/-- An admitted entry activates the nodes it names. -/
theorem Session.seeds_activated {s s' : Session} (h : s.seeds g entry = (.ok queue, s')) :
    queue = (Label.entered g entry).activated := by
  cases entry with
  | root r => exact rootSeeds_ok h
  | executionInput ordinal =>
    simp only [seeds, inputSeeds] at h
    split at h
    · cases h
    · rename_i targets ht
      split at h <;> cases h
      simp [Label.activated, ht, Except.toOption]

theorem Memory.enqueue_frames {μ : Memory} (hf : μ.frames = ⟨g, queue⟩ :: rest)
    (nodes : List Handle) : (μ.enqueue nodes).frames = ⟨g, queue ++ nodes⟩ :: rest := by
  simp [Memory.enqueue, hf]

theorem Memory.settle_frames {μ : Memory} (hf : μ.frames = ⟨g, queue⟩ :: rest) (graph : GraphId)
    (h : Handle) (v : Session.Verdict) :
    (μ.settle graph h v).frames = ⟨g, queue ++ (Label.settled g h v).queued⟩ :: rest := by
  cases v with
  | defer producers => exact enqueue_frames hf _
  | alreadyDropped | alreadyEvaluated | drop e | start d body =>
    simp [Memory.settle, Label.queued, Label.activated, hf]

theorem Atop.dequeue {s s' : Session} (hs : Atop fs cs g as s.memory)
    (hd : s.dequeue? = some (h, s')) :
    ∃ queue rest, s.memory.frames = ⟨g, h :: queue⟩ :: rest ∧
      s'.memory.frames = ⟨g, queue⟩ :: rest := by
  obtain ⟨⟨_, _⟩, rest, hf, rfl, -⟩ := hs
  obtain ⟨frame, rest', queue, hf', hq, hm⟩ := Session.dequeue?_eq_some hd
  rw [hf] at hf'
  cases hf'
  rw [hm]
  dsimp only at hq
  subst hq
  exact ⟨queue, _, hf, rfl⟩

section

variable {s : Session} {a : Activation} {n : Node} {waiting : List Handle} {rest : List Frame}

theorem Session.fire_frames (hc : s.current = .ok ⟨a.handle, a.graph, n⟩)
    (hn : a.graph.node? a.handle = some n) (hf : s.memory.frames = ⟨a.graph, waiting⟩ :: rest)
    (port : Nat) : ((fire port).run s).2.memory.frames =
      ⟨a.graph, waiting ++ (Label.performed a (.fire port)).activated⟩ :: rest := by
  have hcount : a.graph.outputCount a.handle = n.outputCount := by
    rw [Graph.outputCount, hn]
    rfl
  obtain ⟨text, hfire⟩ := fire_run hc port
  rw [hfire, Label.activated, hcount]
  split
  · rw [enqueue_memory]
    exact Memory.enqueue_frames hf _
  · rw [List.append_nil]
    exact hf

theorem Session.queueNode_frames (hf : s.memory.frames = ⟨a.graph, waiting⟩ :: rest) (h : Handle) :
    ((queueNode h).run s).2.memory.frames =
      ⟨a.graph, waiting ++ (Label.performed a (.queue h)).activated⟩ :: rest := by
  have hactive : s.activeGraph = .ok a.graph := by
    have hf' : s.frames = ⟨a.graph, waiting⟩ :: rest := hf
    simp [activeGraph, hf']
  rw [queueNode_run hactive, Label.activated]
  cases hn : a.graph.node? h with
  | some n =>
    dsimp only
    rw [enqueue_memory]
    exact Memory.enqueue_frames hf _
  | none =>
    rw [Option.isSome_none, if_neg Bool.false_ne_true, List.append_nil]
    exact hf

/-- What an operation of the running body puts in its queue is what its label says. -/
theorem Operation.run_frames (op : Operation) (hc : s.current = .ok ⟨a.handle, a.graph, n⟩)
    (hn : a.graph.node? a.handle = some n) (hf : s.memory.frames = ⟨a.graph, waiting⟩ :: rest) :
    (op.run s).2.memory.frames =
      ⟨a.graph, waiting ++ (Label.performed a op).activated⟩ :: rest := by
  have other (hnone : (Label.performed a op).activated = [])
      (hkeep : (op.run s).2.memory.frames = s.memory.frames) :
      (op.run s).2.memory.frames =
        ⟨a.graph, waiting ++ (Label.performed a op).activated⟩ :: rest := by
    rw [hkeep, hf, hnone, List.append_nil]
  cases op with
  | fire port => exact Session.fire_frames hc hn hf port
  | queue h => exact Session.queueNode_frames hf h
  | setOutput port v =>
    refine other rfl ?_
    rw [Operation.run, Session.setOutput_run hc]
    split <;> rfl
  | _ => exact other rfl rfl

end

theorem Step.shift (hs : Stacked fs cs m) (h : Step m l m') :
    Shift l m.session.memory.frames m'.session.memory.frames := by
  cases h with
  | refuse hseeds =>
    rw [Session.seeds_memory hseeds]
    exact .keep rfl rfl
  | enter hseeds =>
    rw [Session.openGraph_memory, Session.seeds_memory hseeds, Session.seeds_activated hseeds]
    exact .enter
  | drained hd =>
    obtain ⟨⟨_, _⟩, rest, hf, rfl, -⟩ := hs
    obtain rfl := Session.dequeue?_eq_none hd hf
    rw [Session.closeGraph_memory]
    dsimp only
    rw [hf]
    exact .drained
  | exhaust hd he =>
    obtain ⟨queue, rest, hf, hf'⟩ := Atop.dequeue hs hd
    rw [Session.closeGraph_memory, Session.log_memory, Session.countStep_memory]
    dsimp only
    rw [hf, hf']
    exact .exhaust
  | settle hd he hv hn =>
    obtain ⟨queue, rest, hf, hf'⟩ := Atop.dequeue hs hd
    rw [Session.settle_memory, Session.countStep_memory, hf, Memory.settle_frames hf']
    exact .settle
  | start hd he hv =>
    obtain ⟨queue, rest, hf, hf'⟩ := Atop.dequeue hs hd
    rw [Session.startNode_memory, Session.countStep_memory]
    dsimp only
    rw [hf, hf']
    exact .start
  | @perform _ a _ s op next =>
    obtain ⟨n, hn, -, hc⟩ := hs.current rfl
    obtain ⟨⟨_, queue⟩, rest, hf, rfl, -⟩ := Levels.atop hs
    rw [Operation.run_frames op hc hn hf, hf]
    exact .perform
  | unresolved hr => exact .keep rfl rfl
  | call hr => exact .keep rfl rfl
  | finish =>
    rw [Session.finishNode_memory]
    exact .keep rfl rfl
  | resume => exact .keep rfl rfl

/-- How many frames a machine has laid on those that were there before. -/
def Machine.height (m : Machine) : Nat :=
  match m.control with
  | .idle => 0
  | .entering .. | .returning _ => m.suspended.length
  | .draining _ | .running .. => m.suspended.length + 1

theorem Levels.length_frames (h : Levels fs cs as frames calls) :
    frames.length = fs.length + as.length := by
  induction h with
  | base => rfl
  | level _ _ _ ih =>
    rw [List.length_cons, List.length_cons, ih]
    omega

theorem Stacked.length_frames (hs : Stacked fs cs m) :
    m.session.memory.frames.length = fs.length + m.height := by
  obtain ⟨scene, control, ws, s⟩ := m
  cases control with
  | idle =>
    obtain ⟨-, hf, -⟩ := hs
    rw [hf]
    rfl
  | entering g entry | returning result =>
    rw [Levels.length_frames hs]
    simp [Machine.height, Machine.held]
  | running a rest =>
    rw [Levels.length_frames hs]
    simp [Machine.height, Machine.held]
  | draining g =>
    obtain ⟨frame, rest, hf, -, hl⟩ := hs
    rw [hf, List.length_cons, hl.length_frames]
    simp [Machine.height, Machine.held]
    omega

/-- While a body is held up, the frame it runs on is left alone. -/
theorem Step.below (hs : Stacked fs cs m) (hw : m.suspended ≠ [])
    (hf : m.session.memory.frames = above ++ own :: fs) (h : Step m l m') :
    ∃ above', m'.session.memory.frames = above' ++ own :: fs := by
  have hshift := h.shift hs
  have hheight := hs.length_frames
  have hpos := List.length_pos_iff.mpr hw
  rw [hf, List.length_append, List.length_cons] at hheight
  have htop (hc : m.height = m.suspended.length + 1) : ∃ top rest, above = top :: rest := by
    refine List.exists_cons_of_length_pos ?_
    omega
  generalize m'.session.memory.frames = frames' at hshift
  rw [hf] at hshift
  generalize hall : above ++ own :: fs = frames at hshift
  cases hshift with
  | keep => exact ⟨above, hall.symm⟩
  | enter => exact ⟨_ :: above, by rw [← hall]; rfl⟩
  | drained | exhaust =>
    obtain ⟨top, rest, rfl⟩ := htop (by cases h; rfl)
    cases hall
    exact ⟨rest, rfl⟩
  | settle | start | perform =>
    obtain ⟨top, rest, rfl⟩ := htop (by cases h; rfl)
    cases hall
    exact ⟨_ :: rest, rfl⟩

/-- All that can happen to a queue in one step of its own evaluation: a node is taken and put back
behind its producers, passed over, given up or started, or some are activated. -/
inductive Turn (g : Graph) : List Handle → Label → List Handle → Prop where
  | defer (pulled : ∀ p ∈ producers, g.isPure p = true ∧ g.Feeds p h) :
      Turn g (h :: queue) (.settled g h (.defer producers)) (queue ++ (producers ++ [h]))
  | memoized (isPure : g.isPure h = true) :
      Turn g (h :: queue) (.settled g h .alreadyEvaluated) queue
  | dropped : Turn g (h :: queue) (.settled g h .alreadyDropped) queue
  | drop : Turn g (h :: queue) (.settled g h (.drop e)) queue
  | start : Turn g (h :: queue) (.started ⟨g, h, d⟩) queue
  | activate (untaken : l.taken? = none) : Turn g queue l (queue ++ l.activated)

inductive Turns (g : Graph) : List Handle → List Label → List Handle → Prop where
  | refl : Turns g queue [] queue
  | head (first : Turn g queue l queue') (rest : Turns g queue' ls queue'') :
      Turns g queue (l :: ls) queue''

theorem Step.settled_turn (h : Step m (.settled g node v) m') (queue : List Handle) :
    Turn g (node :: queue) (.settled g node v) (queue ++ (Label.settled g node v).queued) := by
  cases h with
  | settle hd he hv hn =>
    have pass (hq : (Label.settled g node v).queued = [])
        (ht : Turn g (node :: queue) (.settled g node v) queue) :
        Turn g (node :: queue) (.settled g node v)
          (queue ++ (Label.settled g node v).queued) := by
      rw [hq, List.append_nil]
      exact ht
    cases Session.verdict_judged hv with
    | alreadyDropped => exact pass rfl .dropped
    | alreadyEvaluated kept live isPure evaluated =>
      exact pass rfl (.memoized (by simpa [Graph.isPure, live] using isPure))
    | missing | stuck | bodiless => exact pass rfl .drop
    | early kept live new pending =>
      refine .defer ?_
      intro p hp
      obtain ⟨output, ho, ha⟩ := Session.pending_eq_ok pending hp
      obtain ⟨rfl, hpure, -, -⟩ := Session.awaitedProducer_eq_ok ha
      exact ⟨hpure, Session.feeds_of_awaited ho⟩
    | due => exact absurd rfl (hn _ _)

/-- A step of an evaluation itself serves its queue or ends it. -/
theorem Step.turn (hs : Stacked fs cs m) (hw : m.suspended = [])
    (hf : m.session.memory.frames = ⟨g, queue⟩ :: fs) (h : Step m l m') :
    (∃ queue', m'.session.memory.frames = ⟨g, queue'⟩ :: fs ∧ Turn g queue l queue') ∨
      m'.suspended = [] ∧ ((m'.control = .returning (.ok ()) ∧ queue = [] ∧ l = .drained g) ∨
        ∃ e, m'.control = .returning (.error e)) := by
  have hshift := h.shift hs
  have hheight := hs.length_frames
  rw [hf, List.length_cons] at hheight
  generalize m'.session.memory.frames = frames' at hshift ⊢
  rw [hf] at hshift
  cases hshift with
  | keep untaken nothing =>
    refine .inl ⟨queue, rfl, ?_⟩
    have ht : Turn g queue l (queue ++ l.activated) := .activate untaken
    rwa [nothing, List.append_nil] at ht
  | enter =>
    cases h with
    | enter =>
      -- The frame of this evaluation is not there before its entry.
      dsimp only at hw
      subst hw
      simp [Machine.height] at hheight
  | drained =>
    cases h
    exact .inr ⟨hw, .inl ⟨rfl, rfl, rfl⟩⟩
  | exhaust =>
    cases h
    exact .inr ⟨hw, .inr ⟨_, rfl⟩⟩
  | settle => exact .inl ⟨_, rfl, h.settled_turn _⟩
  | start => exact .inl ⟨_, rfl, .start⟩
  | perform => exact .inl ⟨_, rfl, .activate rfl⟩

/-- An evaluation that has returned has taken its frame off. -/
theorem Stacked.returned (hs : Stacked fs cs m) (hc : m.control = .returning result)
    (hw : m.suspended = []) : m.session.memory.frames ≠ above ++ own :: fs := by
  intro hf
  have hheight := hs.length_frames
  simp only [hf, Machine.height, hc, hw, List.length_append, List.length_cons,
    List.length_nil] at hheight
  omega

/-- As long as no body is held up the frame of an evaluation is the innermost. -/
theorem Stacked.innermost (hs : Stacked fs cs m) (hw : m.suspended = [])
    (hf : m.session.memory.frames = above ++ own :: fs) : above = [] := by
  have hheight := hs.length_frames
  have hle : m.height ≤ 1 := by
    unfold Machine.height
    split <;> simp [hw]
  rw [hf, List.length_append, List.length_cons] at hheight
  exact List.eq_nil_of_length_eq_zero (by omega)

theorem Steps.of_returning (h : Steps m ls m') (hc : m.control = .returning result)
    (hw : m.suspended = []) : ls = [] ∧ m' = m := by
  cases h with
  | refl => exact ⟨rfl, rfl⟩
  | head first rest =>
    obtain ⟨scene, control, ws, s⟩ := m
    dsimp only at hc hw
    subst hc hw
    exact absurd first (returning_ends _ _ _ _ _)

/-- The queue that an evaluation on `fs` has come to. Nothing is left in it when the evaluation has
returned in good order. -/
def Machine.Leaves (fs : List Frame) (g : Graph) (queue : List Handle) (m : Machine) : Prop :=
  (∃ above, m.session.memory.frames = above ++ ⟨g, queue⟩ :: fs) ∨
    m.control = .returning (.ok ()) ∧ m.suspended = [] ∧ queue = []

theorem Stacked.leaves_returned (hs : Stacked fs cs m) (hc : m.control = .returning result)
    (hw : m.suspended = []) (hleaves : m.Leaves fs g queue) : result = .ok () ∧ queue = [] := by
  rcases hleaves with ⟨above, hf⟩ | ⟨hok, -, hq⟩
  · exact absurd hf (hs.returned hc hw)
  · rw [hc] at hok
    cases hok
    exact ⟨rfl, hq⟩

/-- The steps of an evaluation itself serve its queue one after the other, whatever is evaluated in
between. -/
theorem Steps.turns (h : Steps m ls m') (hs : Stacked fs cs m)
    (hf : m.session.memory.frames = above ++ ⟨g, queue⟩ :: fs) (hleaves : m'.Leaves fs g queue') :
    Turns g queue (outermost m.suspended.length ls) queue' := by
  induction h generalizing above queue with
  | refl m =>
    rcases hleaves with ⟨above', hf'⟩ | ⟨hc, hw, -⟩
    · rw [hf] at hf'
      obtain ⟨-, hq⟩ := List.append_inj' hf' rfl
      cases hq
      exact .refl
    · exact absurd hf (hs.returned hc hw)
  | @head m l m₁ ls m' first rest ih =>
    have hs₁ := hs.step first
    rw [outermost, first.level]
    by_cases hw : m.suspended = []
    · rw [if_pos (by simp [hw])]
      obtain rfl := hs.innermost hw hf
      rcases first.turn hs hw hf with ⟨queue₁, hf₁, hturn⟩ | ⟨hw₁, ⟨hc, rfl, rfl⟩ | ⟨e, hc⟩⟩
      · have hf₁' : m₁.session.memory.frames = [] ++ ⟨g, queue₁⟩ :: fs := hf₁
        exact .head hturn (ih hs₁ hf₁' hleaves)
      · obtain ⟨rfl, rfl⟩ := rest.of_returning hc hw₁
        obtain ⟨-, rfl⟩ := hs₁.leaves_returned hc hw₁ hleaves
        exact .head (.activate rfl) .refl
      · obtain ⟨rfl, rfl⟩ := rest.of_returning hc hw₁
        obtain ⟨hok, -⟩ := hs₁.leaves_returned hc hw₁ hleaves
        cases hok
    · rw [if_neg (by simpa using hw)]
      obtain ⟨above', hf'⟩ := first.below hs hw hf
      exact ih hs₁ hf' hleaves

/-- Whether a step finds a node given up, or gives it up. -/
def Label.forsakes (h : Handle) : Label → Bool
  | .settled _ node .alreadyDropped => node = h
  | .settled _ node (.drop _) => node = h
  | _ => false

theorem Turns.graph (h : Turns g queue ls queue') (hl : l ∈ ls)
    (ht : l.taken? = some (g', node)) : g' = g := by
  induction h with
  | refl => cases hl
  | head first _ ih =>
    rcases List.mem_cons.mp hl with rfl | hl
    · cases first with
      | activate untaken =>
        rw [untaken] at ht
        cases ht
      | defer | memoized | dropped | drop | start =>
        cases ht
        rfl
    · exact ih hl

theorem outermost_sublist (level : Nat) (ls : List Label) : (outermost level ls).Sublist ls := by
  induction ls generalizing level with
  | nil => exact .slnil
  | cons l ls ih =>
    unfold outermost
    split
    · exact (ih _).cons_cons l
    · exact (ih _).cons l

theorem Turns.of_append (h : Turns g queue (pre ++ post) queue') :
    ∃ queue₁, Turns g queue pre queue₁ := by
  induction pre generalizing queue with
  | nil => exact ⟨queue, .refl⟩
  | cons l pre ih =>
    cases h with
    | head first rest =>
      obtain ⟨queue₁, h₁⟩ := ih rest
      exact ⟨queue₁, .head first h₁⟩

theorem Steps.dropped (h : Steps m ls m') (hs : Stacked fs cs m)
    (hd : site ∈ m.session.memory.dropped) : site ∈ m'.session.memory.dropped := by
  induction h with
  | refl => exact hd
  | head first _ ih => exact ih (hs.step first) ((first.effect hs).dropped hd)

theorem Step.forsaken (h : Step m (.settled g node v) m')
    (hl : (Label.settled g node v).forsakes node = true) :
    ⟨g.id, node⟩ ∈ m'.session.memory.dropped := by
  cases h with
  | settle hd he hv hn =>
    rw [Session.settle_memory]
    cases v with
    | drop e => exact List.mem_insert_self
    | alreadyDropped =>
      cases Session.verdict_judged hv with
      | alreadyDropped dropped => exact List.contains_iff_mem.mp dropped
    | alreadyEvaluated | defer producers | start d body => cases hl

namespace Reentry

def labels : List Label := (entry.advance 17).1

def after : Session := (entry.advance 17).2.session

theorem call : Call entry.scene entry.session graph (.root ⟨2, 1⟩) labels (.ok ()) after :=
  entry.advance_steps 17

end Reentry

end Flowgraph
