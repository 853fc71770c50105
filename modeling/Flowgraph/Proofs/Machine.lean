import Flowgraph.Session.Fuel

namespace Flowgraph

/-- A node whose body has begun: where it stands and what it is. -/
structure Activation where
  graph : Graph
  handle : Handle
  definition : Definition

def Activation.site (a : Activation) : Site := ⟨a.graph.id, a.handle⟩

/-- A body held up by an evaluation it asked for, with what it does once that has ended. -/
structure Suspended where
  activation : Activation
  next : Except Error Unit → Program Unit

/-- What a session is about to do. -/
inductive Control where
  | idle
  | entering (graph : Graph) (entry : Entry)
  | draining (graph : Graph)
  | running (activation : Activation) (rest : Program Unit)
  | returning (result : Except Error Unit)

/-- A session in the middle of its work. The bodies held up are listed with the innermost first. -/
structure Machine where
  scene : Scene
  control : Control
  suspended : List Suspended
  session : Session

/-- What one step of a machine does. -/
inductive Label where
  | entered (graph : Graph) (entry : Entry)
  | refused (graph : Graph) (entry : Entry)
  | drained (graph : Graph)
  | exhausted (graph : Graph) (node : Handle)
  | settled (graph : Graph) (node : Handle) (verdict : Session.Verdict)
  | started (activation : Activation)
  | performed (activation : Activation) (op : Operation)
  | unresolved (activation : Activation) (target : Target)
  | called (activation : Activation) (graph : Graph) (entry : Entry)
  | finished (activation : Activation) (result : Except Error Unit)
  | resumed (activation : Activation)

/-- The node a step takes from the queue of its graph. -/
def Label.taken? : Label → Option (Graph × Handle)
  | .exhausted g h => some (g, h)
  | .settled g h _ => some (g, h)
  | .started a => some (a.graph, a.handle)
  | _ => none

/-- How many nodes some steps take from queues. -/
def dequeues (ls : List Label) : Nat := ls.countP (·.taken?.isSome)

@[simp] theorem dequeues_nil : dequeues [] = 0 := rfl

@[simp] theorem dequeues_append (ls ls' : List Label) :
    dequeues (ls ++ ls') = dequeues ls + dequeues ls' := List.countP_append

theorem dequeues_cons (l : Label) (ls : List Label) :
    dequeues (l :: ls) = dequeues [l] + dequeues ls := dequeues_append [l] ls

theorem dequeues_of_taken {l : Label} (hl : l.taken? = some taken) : dequeues [l] = 1 := by
  simp [dequeues, hl]

theorem dequeues_of_not_taken {l : Label} (hl : l.taken? = none) : dequeues [l] = 0 := by
  simp [dequeues, hl]

theorem dequeues_singleton_le (l : Label) : dequeues [l] ≤ 1 := List.countP_le_length

theorem started_not_mem (h : dequeues ls = 0) (a : Activation) : .started a ∉ ls := by
  intro ha
  exact List.countP_eq_zero.mp h _ ha rfl

/-- The work of a session cut into its smallest pieces: one node taken from a queue, one operation of
a body, one entry or return of an evaluation. -/
inductive Step : Machine → Label → Machine → Prop where
  | refuse {s s' : Session} (hs : s.seeds g entry = (.error e, s')) :
      Step ⟨scene, .entering g entry, ws, s⟩ (.refused g entry)
        ⟨scene, .returning (.error e), ws, s'⟩
  | enter {s s' : Session} (hs : s.seeds g entry = (.ok queue, s')) :
      Step ⟨scene, .entering g entry, ws, s⟩ (.entered g entry)
        ⟨scene, .draining g, ws, s'.openGraph g entry queue⟩
  | drained {s : Session} (hd : s.dequeue? = none) :
      Step ⟨scene, .draining g, ws, s⟩ (.drained g) ⟨scene, .returning (.ok ()), ws, s.closeGraph⟩
  | exhaust {s s' : Session} (hd : s.dequeue? = some (h, s'))
      (he : s'.countStep.exceeded? = some limit) :
      Step ⟨scene, .draining g, ws, s⟩ (.exhausted g h)
        ⟨scene, .returning (.error (.stepLimitExceeded limit)), ws,
          (s'.countStep.log .error s!"Evaluation exceeded step limit of {limit}").closeGraph⟩
  | settle {s s' : Session} (hd : s.dequeue? = some (h, s'))
      (he : s'.countStep.exceeded? = none) (hv : s'.countStep.verdict g h = v)
      (hn : ∀ d body, v ≠ .start d body) :
      Step ⟨scene, .draining g, ws, s⟩ (.settled g h v)
        ⟨scene, .draining g, ws, s'.countStep.settle g.id h v⟩
  | start {g : Graph} {s s' : Session} (hd : s.dequeue? = some (h, s'))
      (he : s'.countStep.exceeded? = none) (hv : s'.countStep.verdict g h = .start d body) :
      Step ⟨scene, .draining g, ws, s⟩ (.started ⟨g, h, d⟩)
        ⟨scene, .running ⟨g, h, d⟩ body, ws, s'.countStep.startNode g.id h d⟩
  | perform {op : Operation} {next : op.Reply → Program Unit} :
      Step ⟨scene, .running a (.perform op next), ws, s⟩ (.performed a op)
        ⟨scene, .running a (next (op.run s).1), ws, (op.run s).2⟩
  | unresolved {s : Session} (hr : s.resolve scene target = .error e) :
      Step ⟨scene, .running a (.enter target entry next), ws, s⟩ (.unresolved a target)
        ⟨scene, .running a (next (.error e)), ws, s⟩
  | call {s : Session} (hr : s.resolve scene target = .ok g) :
      Step ⟨scene, .running a (.enter target entry next), ws, s⟩ (.called a g entry)
        ⟨scene, .entering g entry, ⟨a, next⟩ :: ws, s⟩
  | finish {a : Activation} {s : Session} :
      Step ⟨scene, .running a (.finish result), ws, s⟩ (.finished a result)
        ⟨scene, .draining a.graph, ws, s.finishNode a.graph.id a.handle a.definition result⟩
  | resume {w : Suspended} :
      Step ⟨scene, .returning result, w :: ws, s⟩ (.resumed w.activation)
        ⟨scene, .running w.activation (w.next result), ws, s⟩

/-- What a host may do with a session between evaluations, and how it begins and ends one. Graphs may
be edited meanwhile: each evaluation comes with its own graph and its own scene. -/
inductive Move : Machine → Machine → Prop where
  | equip {s : Session} (config : Config) (extensions : Extensions) (sink : Sink)
      (journal : Journal) :
      Move ⟨scene, .idle, [], s⟩
        ⟨scene, .idle, [], { s with config, extensions, sink, journal }⟩
  | perform (op : Operation) :
      Move ⟨scene, .idle, [], s⟩ ⟨scene, .idle, [], (op.run s).2⟩
  | call (scene' : Scene) (g : Graph) (entry : Entry) :
      Move ⟨scene, .idle, [], s⟩ ⟨scene', .entering g entry, [], s⟩
  | collect : Move ⟨scene, .returning result, [], s⟩ ⟨scene, .idle, [], s⟩

inductive Steps : Machine → List Label → Machine → Prop where
  | refl (m : Machine) : Steps m [] m
  | head (first : Step m l m') (rest : Steps m' ls m'') : Steps m (l :: ls) m''

/-- What can happen from a moment on, with all that the session and its host do. -/
inductive Run (m₀ : Machine) : List Label → Machine → Prop where
  | refl : Run m₀ [] m₀
  | step (before : Run m₀ ls m) (last : Step m l m') : Run m₀ (ls ++ [l]) m'
  | move (before : Run m₀ ls m) (last : Move m m') : Run m₀ ls m'

/-- A session on which nothing has been evaluated. -/
structure Session.Fresh (s : Session) : Prop where
  frames : s.frames = []
  calls : s.calls = []
  cache : s.cache = {}
  evaluated : s.evaluated = []
  dropped : s.dropped = []
  events : s.events = #[]
  diagnostics : s.diagnostics = #[]
  statistics : s.statistics = {}

/-- The life of a session from its making to some moment. -/
def Life (ls : List Label) (m : Machine) : Prop :=
  ∃ scene s, s.Fresh ∧ Run ⟨scene, .idle, [], s⟩ ls m

/-- One evaluation as a whole, from its entry to its return. -/
def Call (scene : Scene) (s : Session) (g : Graph) (entry : Entry) (ls : List Label)
    (result : Except Error Unit) (s' : Session) : Prop :=
  Steps ⟨scene, .entering g entry, [], s⟩ ls ⟨scene, .returning result, [], s'⟩

theorem Steps.one (h : Step m l m') : Steps m [l] m' := .head h (.refl m')

theorem Steps.trans (h : Steps m ls m') (h' : Steps m' ls' m'') : Steps m (ls ++ ls') m'' := by
  induction h with
  | refl => exact h'
  | head first _ ih => exact .head first (ih h')

theorem Run.trans (h : Run m₀ ls m) (h' : Run m ls' m') : Run m₀ (ls ++ ls') m' := by
  induction h' with
  | refl => simpa using h
  | step _ last ih =>
    rw [← List.append_assoc]
    exact .step ih last
  | move _ last ih => exact .move ih last

theorem Steps.run (h : Steps m ls m') : Run m ls m' := by
  induction h with
  | refl m => exact .refl
  | head first _ ih => exact Run.trans (Run.step .refl first) ih

theorem Life.run (h : Life ls m) (h' : Run m ls' m') : Life (ls ++ ls') m' := by
  obtain ⟨scene, s, hs, hrun⟩ := h
  exact ⟨scene, s, hs, hrun.trans h'⟩

theorem Life.step (h : Life ls m) (h' : Step m l m') : Life (ls ++ [l]) m' := h.run (.step .refl h')

theorem Life.move (h : Life ls m) (h' : Move m m') : Life ls m' := by
  simpa using h.run (.move .refl h')

/-- What holds of a fresh session and is kept by every step and move of a life holds all through
it. -/
theorem Life.keeps {P : List Label → Machine → Prop}
    (hfresh : ∀ scene s, s.Fresh → P [] ⟨scene, .idle, [], s⟩)
    (hstep : ∀ {ls m l m'}, Life ls m → P ls m → Step m l m' → P (ls ++ [l]) m')
    (hmove : ∀ {ls m m'}, Life ls m → P ls m → Move m m' → P ls m') (h : Life ls m) :
    P ls m := by
  obtain ⟨scene, s, hs, hrun⟩ := h
  induction hrun with
  | refl => exact hfresh scene s hs
  | step before last ih => exact hstep ⟨scene, s, hs, before⟩ ih last
  | move before last ih => exact hmove ⟨scene, s, hs, before⟩ ih last

/-- A label in the middle is a step between two moments. -/
theorem Run.split (h : Run m₀ ls m) (he : ls = pre ++ l :: post) :
    ∃ m₁ m₂, Run m₀ pre m₁ ∧ Step m₁ l m₂ ∧ Run m₂ post m := by
  induction h generalizing post with
  | refl => simp at he
  | step before last ih =>
    rcases List.eq_nil_or_concat post with rfl | ⟨post', l', rfl⟩
    · obtain ⟨rfl, hl⟩ := List.append_inj' he rfl
      cases hl
      exact ⟨_, _, before, last, .refl⟩
    · rw [List.concat_eq_append, ← List.cons_append, ← List.append_assoc] at he
      obtain ⟨hls, hl⟩ := List.append_inj' he rfl
      cases hl
      obtain ⟨m₁, m₂, h₁, hs, h₂⟩ := ih hls
      rw [List.concat_eq_append]
      exact ⟨m₁, m₂, h₁, hs, .step h₂ last⟩
  | move before last ih =>
    obtain ⟨m₁, m₂, h₁, hs, h₂⟩ := ih he
    exact ⟨m₁, m₂, h₁, hs, .move h₂ last⟩

theorem Steps.split (h : Steps m (pre ++ l :: post) m') :
    ∃ m₁ m₂, Steps m pre m₁ ∧ Step m₁ l m₂ ∧ Steps m₂ post m' := by
  induction pre generalizing m with
  | nil =>
    cases h with
    | head first rest => exact ⟨_, _, .refl _, first, rest⟩
  | cons l' pre ih =>
    cases h with
    | head first rest =>
      obtain ⟨m₁, m₂, h₁, hs, h₂⟩ := ih rest
      exact ⟨m₁, m₂, .head first h₁, hs, h₂⟩

theorem Life.split (h : Life ls m) (he : ls = pre ++ l :: post) :
    ∃ m₁ m₂, Life pre m₁ ∧ Step m₁ l m₂ ∧ Run m₂ post m := by
  obtain ⟨scene, s, hs, hrun⟩ := h
  obtain ⟨m₁, m₂, h₁, hl, h₂⟩ := hrun.split he
  exact ⟨m₁, m₂, ⟨scene, s, hs, h₁⟩, hl, h₂⟩

/-- What a machine does is not up to the bodies that wait for it. -/
theorem Step.under (h : Step m l m') (below : List Suspended) :
    Step { m with suspended := m.suspended ++ below } l
      { m' with suspended := m'.suspended ++ below } := by
  cases h with
  | refuse hs => exact .refuse hs
  | enter hs => exact .enter hs
  | drained hd => exact .drained hd
  | exhaust hd he => exact .exhaust hd he
  | settle hd he hv hn => exact .settle hd he hv hn
  | start hd he hv => exact .start hd he hv
  | perform => exact .perform
  | unresolved hr => exact .unresolved hr
  | call hr => exact .call hr
  | finish => exact .finish
  | resume => exact .resume

theorem Steps.under (h : Steps m ls m') (below : List Suspended) :
    Steps { m with suspended := m.suspended ++ below } ls
      { m' with suspended := m'.suspended ++ below } := by
  induction h with
  | refl m => exact .refl _
  | head first _ ih => exact .head (first.under below) ih

/-- An evaluation that a body asks for goes as it would on its own. -/
theorem Call.under (h : Call scene s g entry ls result s') (ws : List Suspended) :
    Steps ⟨scene, .entering g entry, ws, s⟩ ls ⟨scene, .returning result, ws, s'⟩ :=
  Steps.under h ws

/-- The next step, computed. There is none for a session that waits for its host. -/
def Machine.next? (m : Machine) : Option (Label × Machine) :=
  match m.control with
  | .idle => none
  | .entering g entry =>
    match m.session.seeds g entry with
    | (.error e, s) =>
      some (.refused g entry, { m with control := .returning (.error e), session := s })
    | (.ok queue, s) =>
      some (.entered g entry,
        { m with control := .draining g, session := s.openGraph g entry queue })
  | .draining g =>
    match m.session.dequeue? with
    | none =>
      some (.drained g,
        { m with control := .returning (.ok ()), session := m.session.closeGraph })
    | some (h, s) =>
      match s.countStep.exceeded? with
      | some limit =>
        some (.exhausted g h, { m with
          control := .returning (.error (.stepLimitExceeded limit))
          session := (s.countStep.log .error
            s!"Evaluation exceeded step limit of {limit}").closeGraph })
      | none =>
        match s.countStep.verdict g h with
        | .start d body =>
          some (.started ⟨g, h, d⟩, { m with
            control := .running ⟨g, h, d⟩ body, session := s.countStep.startNode g.id h d })
        | v => some (.settled g h v, { m with session := s.countStep.settle g.id h v })
  | .running a (.finish result) =>
    some (.finished a result, { m with
      control := .draining a.graph
      session := m.session.finishNode a.graph.id a.handle a.definition result })
  | .running a (.perform op next) =>
    some (.performed a op, { m with
      control := .running a (next (op.run m.session).1), session := (op.run m.session).2 })
  | .running a (.enter target entry next) =>
    match m.session.resolve m.scene target with
    | .error e => some (.unresolved a target, { m with control := .running a (next (.error e)) })
    | .ok g =>
      some (.called a g entry,
        { m with control := .entering g entry, suspended := ⟨a, next⟩ :: m.suspended })
  | .returning result =>
    match m.suspended with
    | [] => none
    | w :: ws =>
      some (.resumed w.activation,
        { m with control := .running w.activation (w.next result), suspended := ws })

theorem Step.next? (h : Step m l m') : m.next? = some (l, m') := by
  cases h with
  | refuse hs => simp [Machine.next?, hs]
  | enter hs => simp [Machine.next?, hs]
  | drained hd => simp [Machine.next?, hd]
  | exhaust hd he => simp [Machine.next?, hd, he]
  | settle hd he hv hn => simp only [Machine.next?, hd, he, hv]
  | start hd he hv => simp [Machine.next?, hd, he, hv]
  | perform => rfl
  | unresolved hr => simp [Machine.next?, hr]
  | call hr => simp [Machine.next?, hr]
  | finish => rfl
  | resume => rfl

/-- The session alone decides on its next step. -/
theorem Step.deterministic (h : Step m l m') (h' : Step m l' m'') : l = l' ∧ m' = m'' := by
  simpa using h.next?.symm.trans h'.next?

theorem Machine.step_of_next? {m m' : Machine} (h : m.next? = some (l, m')) : Step m l m' := by
  obtain ⟨scene, control, suspended, s⟩ := m
  cases control with
  | idle => cases h
  | entering g entry =>
    simp only [Machine.next?] at h
    split at h <;> cases h
    · exact .refuse (by assumption)
    · exact .enter (by assumption)
  | draining g =>
    simp only [Machine.next?] at h
    split at h
    · cases h
      exact .drained (by assumption)
    · rename_i hd
      split at h
      · cases h
        exact .exhaust hd (by assumption)
      · rename_i he
        split at h <;> cases h
        · exact .start hd he (by assumption)
        · rename_i hn
          exact .settle hd he rfl hn
  | running a rest =>
    cases rest with
    | finish result =>
      cases h
      exact .finish
    | perform op next =>
      cases h
      exact .perform
    | enter target entry next =>
      simp only [Machine.next?] at h
      split at h <;> cases h
      · exact .unresolved (by assumption)
      · exact .call (by assumption)
  | returning result =>
    cases suspended with
    | nil => cases h
    | cons w ws =>
      cases h
      exact .resume

/-- The labels of at most `n` steps and the machine after them. -/
def Machine.advance : Nat → Machine → List Label × Machine
  | 0, m => ([], m)
  | n + 1, m =>
    match m.next? with
    | none => ([], m)
    | some (l, m') => (l :: (m'.advance n).1, (m'.advance n).2)

theorem Machine.advance_steps (n : Nat) (m : Machine) :
    Steps m (m.advance n).1 (m.advance n).2 := by
  induction n generalizing m with
  | zero => exact .refl m
  | succ n ih =>
    unfold Machine.advance
    split
    · exact .refl m
    · rename_i hn
      exact .head (step_of_next? hn) (ih _)

/-- A fresh session that is handed a graph, and what it does in its first steps. -/
theorem Session.Fresh.life {s : Session} (hs : s.Fresh) (scene : Scene) (g : Graph) (entry : Entry)
    (n : Nat) : Life (Machine.advance n ⟨scene, .entering g entry, [], s⟩).1
      (Machine.advance n ⟨scene, .entering g entry, [], s⟩).2 :=
  ⟨scene, s, hs, Run.trans (.move .refl (.call scene g entry)) (Machine.advance_steps n _).run⟩

theorem Steps.length_le (h : Steps m ls m') (hend : ∀ l m'', ¬ Step m' l m'')
    (h' : Steps m ls' m'') : ls'.length ≤ ls.length := by
  induction h generalizing ls' with
  | refl m =>
    cases h' with
    | refl => simp
    | head first _ => exact absurd first (hend _ _)
  | head first _ ih =>
    cases h' with
    | refl => simp
    | head first' rest' =>
      obtain ⟨rfl, rfl⟩ := first.deterministic first'
      simpa using ih hend rest'

theorem Steps.unique (h : Steps m ls m') (hend : ∀ l m'', ¬ Step m' l m'')
    (h' : Steps m ls' m'') (hend' : ∀ l m', ¬ Step m'' l m') : ls = ls' ∧ m' = m'' := by
  induction h generalizing ls' with
  | refl m =>
    cases h' with
    | refl => exact ⟨rfl, rfl⟩
    | head first _ => exact absurd first (hend _ _)
  | head first _ ih =>
    cases h' with
    | refl => exact absurd first (hend' _ _)
    | head first' rest' =>
      obtain ⟨rfl, rfl⟩ := first.deterministic first'
      obtain ⟨rfl, rfl⟩ := ih hend rest'
      exact ⟨rfl, rfl⟩

/-- Whoever stops on the way can go on to the end. -/
theorem Steps.continued (h : Steps m ls m') (hend : ∀ l m'', ¬ Step m' l m'')
    (h' : Steps m ls' m'') : ∃ rest, ls = ls' ++ rest ∧ Steps m'' rest m' := by
  induction h' generalizing ls with
  | refl m => exact ⟨ls, rfl, h⟩
  | head first' _ ih =>
    cases h with
    | refl => exact absurd first' (hend _ _)
    | head first rest =>
      obtain ⟨rfl, rfl⟩ := first.deterministic first'
      obtain ⟨others, rfl, ho⟩ := ih rest
      exact ⟨others, rfl, ho⟩

/-- An evaluation that nobody waits for has ended when it returns. -/
theorem returning_ends (scene : Scene) (result : Except Error Unit) (s : Session) (l : Label)
    (m : Machine) : ¬ Step ⟨scene, .returning result, [], s⟩ l m := by
  intro h
  cases h

theorem Call.unique (h : Call scene s g entry ls result s')
    (h' : Call scene s g entry ls' result' s'') : ls = ls' ∧ result = result' ∧ s' = s'' := by
  obtain ⟨hls, hm⟩ := Steps.unique h (returning_ends _ _ _) h' (returning_ends _ _ _)
  cases hm
  exact ⟨hls, rfl, rfl⟩

end Flowgraph
