import Flowgraph.Proofs.Truncation

namespace Flowgraph

/-- The node whose body a step starts. -/
def Label.begun? : Label → Option Handle
  | .started a => some a.handle
  | _ => none

/-- A step that keeps to itself: nothing is activated by a body and no evaluation asked for, and a
body that ends has succeeded and left those outputs of its node that are among `reads`. -/
def Label.Tame (reads : List PortRef) (m : Machine) : Label → Prop
  | .performed a op => (Label.performed a op).activated = []
  | .called .. => False
  | .finished a result => result = .ok () ∧
    ∀ output ∈ reads, output.node = a.handle → m.session.isCached a.graph.id output = true
  | _ => True

instance (reads : List PortRef) (m : Machine) : (l : Label) → Decidable (l.Tame reads m)
  | .performed a op => inferInstanceAs (Decidable ((Label.performed a op).activated = []))
  | .called .. => inferInstanceAs (Decidable False)
  | .finished a result => inferInstanceAs (Decidable (result = .ok () ∧
    ∀ output ∈ reads, output.node = a.handle → m.session.isCached a.graph.id output = true))
  | .entered .. | .refused .. | .drained _ | .exhausted .. | .settled .. | .started _
  | .unresolved .. | .resumed _ => inferInstanceAs (Decidable True)

/-- All steps to come keep to themselves. -/
def Machine.Tame (reads : List PortRef) (m : Machine) : Prop :=
  ∀ ls l m', Steps m (ls ++ [l]) m' → l.Tame reads m'

theorem Machine.Tame.step (h : Machine.Tame reads m) (hs : Step m l m') :
    l.Tame reads m' ∧ Machine.Tame reads m' :=
  ⟨h [] l m' (.one hs), fun ls l' m'' hsteps => h (l :: ls) l' m'' (.head hs hsteps)⟩

theorem Machine.Tame.steps (h : Machine.Tame reads m) (hs : Steps m ls m') :
    Machine.Tame reads m' := by
  intro ls' l m'' hsteps
  apply h (ls ++ ls') l m''
  rw [List.append_assoc]
  exact hs.trans hsteps

theorem Machine.tame_of_invariant {I : Machine → Prop}
    (step : ∀ m l m', I m → Step m l m' → l.Tame reads m' ∧ I m') (h : I m) : m.Tame reads := by
  intro ls l m' hsteps
  induction ls generalizing m with
  | nil =>
    cases hsteps with
    | head first rest =>
      cases rest
      exact (step _ _ _ h first).1
  | cons l' ls ih =>
    cases hsteps with
    | head first rest => exact ih (step _ _ _ h first).2 rest

/-- Watches a machine to its end, for which so many steps are allowed. -/
def Machine.watch (reads : List PortRef) : Nat → Machine → Bool
  | 0, _ => false
  | room + 1, m =>
    match m.next? with
    | none => true
    | some (l, m') => decide (l.Tame reads m') && m'.watch reads room

theorem Machine.tame_of_watch {m : Machine} (h : m.watch reads room = true) : m.Tame reads := by
  apply Machine.tame_of_invariant (I := fun m => ∃ room, m.watch reads room = true) ?_ ⟨room, h⟩
  rintro m l m' ⟨room, h⟩ hstep
  cases room with
  | zero => cases h
  | succ room =>
    rw [Machine.watch, hstep.next?] at h
    obtain ⟨hl, hm'⟩ := Bool.and_eq_true_iff.mp h
    exact ⟨of_decide_eq_true hl, room, hm'⟩

/-- What some steps come to: the nodes whose bodies they start and end, and how many they take from
queues and put back. None is given up or one too many. -/
structure Costs (ls : List Label) (nodes : List Handle) (n k : Nat) : Prop where
  begun : ls.filterMap Label.begun? = nodes
  ended : ls.countP Label.ends = nodes.length
  taken : dequeues ls = n
  back : ls.countP Label.defers = k
  dropped : ls.countP Label.givesUp = 0
  exhausted : ls.countP Label.exhausts = 0

theorem Costs.nil : Costs [] [] 0 0 := ⟨rfl, rfl, rfl, rfl, rfl, rfl⟩

theorem Costs.append (h : Costs ls nodes n k) (h' : Costs ls' nodes' n' k') :
    Costs (ls ++ ls') (nodes ++ nodes') (n + n') (k + k') where
  begun := by rw [List.filterMap_append, h.begun, h'.begun]
  ended := by rw [List.countP_append, h.ended, h'.ended, List.length_append]
  taken := by rw [dequeues_append, h.taken, h'.taken]
  back := by rw [List.countP_append, h.back, h'.back]
  dropped := by rw [List.countP_append, h.dropped, h'.dropped]
  exhausted := by rw [List.countP_append, h.exhausted, h'.exhausted]

theorem Costs.statistics (h : Costs ls nodes n k) :
    Statistics.count ls = ⟨.ofNat n, .ofNat nodes.length, .ofNat k, 0⟩ := by
  rw [Statistics.count, h.taken, h.ended, h.back, h.dropped]
  rfl

theorem Costs.call_statistics {s : Session} (h : Costs ls nodes n k) (hs : s.Fresh)
    (hcall : Call scene s g entry ls result s') :
    s'.statistics = ⟨.ofNat n, .ofNat nodes.length, .ofNat k, 0⟩ := by
  have life : Life ls ⟨scene, .returning result, [], s'⟩ :=
    ⟨scene, s, hs, Run.trans (.move .refl (.call scene g entry)) hcall.run⟩
  rw [life.counts.1, h.statistics]

/-- What the body of an activation leaves of a session: all but the outputs of its node. -/
structure Session.Spared (a : Activation) (s s' : Session) : Prop where
  same : s.memory.SameStacks s'.memory
  frames : s'.memory.frames = s.memory.frames
  evaluated : s'.memory.evaluated = s.memory.evaluated
  dropped : s'.memory.dropped = s.memory.dropped
  cache : ∀ output : PortRef, output.node ≠ a.handle →
    s'.memory.cache.get? ⟨a.graph.id, output⟩ = s.memory.cache.get? ⟨a.graph.id, output⟩

theorem Session.Spared.refl (a : Activation) (s : Session) : s.Spared a s :=
  ⟨.refl _, rfl, rfl, rfl, fun _ _ => rfl⟩

theorem Session.Spared.trans {s s' s'' : Session} (h : s.Spared a s') (h' : s'.Spared a s'') :
    s.Spared a s'' where
  same := h.same.trans h'.same
  frames := h'.frames.trans h.frames
  evaluated := h'.evaluated.trans h.evaluated
  dropped := h'.dropped.trans h.dropped
  cache output hne := (h'.cache output hne).trans (h.cache output hne)

theorem Operation.run_spared {op : Operation} {next : op.Reply → Program Unit} {s : Session}
    (hs : Stacked fs cs ⟨scene, .running a (.perform op next), ws, s⟩)
    (hquiet : (Label.performed a op).activated = []) : s.Spared a (op.run s).2 := by
  have hstep : Step ⟨scene, .running a (.perform op next), ws, s⟩ (.performed a op)
    ⟨scene, .running a (next (op.run s).1), ws, (op.run s).2⟩ := .perform
  have hframes : (op.run s).2.memory.frames = s.memory.frames := by
    have hshift := hstep.shift hs
    generalize (op.run s).2.memory.frames = frames at hshift
    generalize s.memory.frames = frames' at hshift
    cases hshift with
    | keep => rfl
    | perform => rw [hquiet, List.append_nil]
  have hsame := op.run_sameStacks s
  cases hstep.effect hs with
  | quiet same =>
    exact ⟨hsame, hframes, same.evaluated, same.dropped, fun _ _ => by rw [same.cache]⟩
  | output cache evaluated dropped =>
    refine ⟨hsame, hframes, evaluated, dropped, ?_⟩
    intro output hne
    rw [cache, Table.get?_insert, if_neg]
    rintro he
    cases he
    exact hne rfl

/-- A tame body comes to its end, with success. -/
theorem Machine.Tame.body {scene : Scene} {p : Program Unit} {s : Session}
    (h : Machine.Tame reads ⟨scene, .running a p, ws, s⟩)
    (hs : Stacked fs cs ⟨scene, .running a p, ws, s⟩) :
    ∃ ls s', Steps ⟨scene, .running a p, ws, s⟩ ls ⟨scene, .running a (.finish (.ok ())), ws, s'⟩ ∧
      Costs ls [] 0 0 ∧ s.Spared a s' := by
  induction p generalizing s with
  | finish result =>
    obtain ⟨htame, -⟩ := h.step .finish
    obtain ⟨rfl, -⟩ := htame
    exact ⟨[], s, .refl _, .nil, .refl a s⟩
  | perform op next ih =>
    obtain ⟨htame, hnext⟩ := h.step .perform
    obtain ⟨ls, s', hsteps, hcosts, hspared⟩ := ih _ hnext (hs.step .perform)
    have hfirst : Costs [.performed a op] [] 0 0 := ⟨rfl, rfl, rfl, rfl, rfl, rfl⟩
    exact ⟨_, s', .head .perform hsteps, hfirst.append hcosts,
      (Operation.run_spared hs htame).trans hspared⟩
  | enter target entry next ih =>
    cases hr : s.resolve scene target with
    | error e =>
      obtain ⟨-, hnext⟩ := h.step (.unresolved hr)
      obtain ⟨ls, s', hsteps, hcosts, hspared⟩ := ih _ hnext (hs.step (.unresolved hr))
      have hfirst : Costs [.unresolved a target] [] 0 0 := ⟨rfl, rfl, rfl, rfl, rfl, rfl⟩
      exact ⟨_, s', .head (.unresolved hr) hsteps, hfirst.append hcosts, hspared⟩
    | ok g =>
      obtain ⟨htame, -⟩ := h.step (.call hr)
      exact htame.elim

/-- Nobody is held up where no evaluation is asked for. -/
theorem Machine.Tame.suspended (h : Machine.Tame reads m) (hw : m.suspended = [])
    (hs : Steps m ls m') : m'.suspended = [] := by
  induction hs with
  | refl => exact hw
  | @head m l m₁ ls m' first rest ih =>
    obtain ⟨htame, hnext⟩ := h.step first
    apply ih hnext
    have hlevel := first.level
    rw [hw, List.length_nil] at hlevel
    rw [← List.length_eq_zero_iff, ← hlevel]
    cases l with
    | called a g entry => exact htame.elim
    | _ => rfl

/-- The counter moves only where a node is taken from the queue. -/
theorem Step.dequeues (hs : Stacked fs cs m) (h : Step m l m')
    (hne : m'.session.statistics.steps ≠ m.session.statistics.steps) :
    m'.session.statistics.steps = m.session.statistics.steps + 1 ∧
    ∃ g node s', m.control = .draining g ∧ m.session.dequeue? = some (node, s') := by
  cases hl : l.taken? with
  | none => exact absurd (h.steps_of_not_taken hs hl) hne
  | some taken =>
    refine ⟨h.steps_of_taken hs hl, ?_⟩
    cases h with
    | exhaust hd | settle hd | start hd => exact ⟨_, _, _, rfl, hd⟩
    | refuse | enter | drained | perform | unresolved | call | finish | resume => cases hl

/-- A tame evaluation goes the same way under a limit, or else takes more nodes than the limit allows
and comes to an end there. -/
theorem Machine.Tame.limited {scene : Scene} {s₁ s₂ s₂' : Session}
    (h : Machine.Tame reads ⟨scene, .entering g entry, [], s₂⟩) (halike : s₁.Alike s₂)
    (ht : s₁.Tighter limit s₂) (hcall : Call scene s₂ g entry ls result s₂')
    (hle : s₂.statistics.steps ≤ limit) :
    (∃ s₁', Call scene s₁ g entry ls result s₁') ∨
    (∃ ls' s₁', Call scene s₁ g entry ls' (.error (.stepLimitExceeded limit.toNat)) s₁') ∧
      limit.toNat + 1 < UInt64.size ∧
      limit.toNat < s₂.statistics.steps.toNat + Flowgraph.dequeues ls := by
  have hbase : Stacked s₂.frames s₂.calls ⟨scene, .entering g entry, [], s₂⟩ := Levels.base
  rcases halike.machine.steps hbase ht hcall hle with ⟨⟨_, _, _, s₁'⟩, hsteps, hscene, hcontrol,
    hsuspended, -⟩ | ⟨pre, l, post, ⟨_, _, _, t₁⟩, n₂, m, rfl, hpre₁, hpre, ⟨hscene, hcontrol,
    hsuspended, hsession⟩, hreached, hstep, hpassed, -⟩
  · dsimp only at hscene hcontrol hsuspended
    subst hscene hcontrol hsuspended
    exact .inl ⟨s₁', hsteps⟩
  · right
    have hs := hpre.stacked hbase
    have hmoved : m.session.statistics.steps ≠ n₂.session.statistics.steps := by
      intro he
      rw [he, hreached] at hpassed
      exact UInt64.lt_irrefl _ hpassed
    obtain ⟨hnext, g', node, t₂, hdraining, hd⟩ := hstep.dequeues hs hmoved
    obtain ⟨t₁', hd₁, -⟩ := hsession.dequeue? hd
    have hsame : t₁.statistics.steps = n₂.session.statistics.steps :=
      hsession.read (·.statistics.steps) fun _ => rfl
    have hheld : t₁.memory.config.maxSteps = some limit := by
      rw [← ht.held]
      exact congrArg Config.maxSteps hpre₁.config
    have hexceeded : t₁'.countStep.exceeded? = some limit.toNat := by
      rw [Session.dequeue?_exceeded hheld hd₁, hsame, ← hnext, if_pos hpassed]
    have hcount := (hpre.trans (.one hstep)).steps hbase
    dsimp only at hscene hcontrol hsuspended
    rw [hdraining] at hcontrol
    rw [h.suspended rfl hpre] at hsuspended
    rw [hpre.same_scene] at hscene
    subst hscene hcontrol hsuspended
    refine ⟨⟨_, _, hpre₁.trans (.one (.exhaust hd₁ hexceeded))⟩, ?_, ?_⟩
    · have hsize := UInt64.toNat_lt_size m.session.statistics.steps
      rw [UInt64.lt_iff_toNat_lt] at hpassed
      omega
    · rw [UInt64.lt_iff_toNat_lt, hcount, UInt64.toNat_add, UInt64.toNat_ofNat'] at hpassed
      simp only [dequeues_append, dequeues_cons l post] at hpassed ⊢
      omega

end Flowgraph
