import Flowgraph.Proofs.Effects

namespace Flowgraph

/-- A node of `g` has its turn still to come, in a queue above the frames `fs`. -/
def Waiting (fs frames : List Frame) (g : Graph) (h : Handle) : Prop :=
  ∃ new, frames = new ++ fs ∧ ∃ frame ∈ new, frame.graph = g ∧ h ∈ frame.queue

/-- What has become of a node that was taken from a queue: it has run, was given up, waits for
another turn, or runs. -/
def Accounted (fs : List Frame) (m : Machine) (g : Graph) (h : Handle) : Prop :=
  ⟨g.id, h⟩ ∈ m.session.memory.evaluated ∨ ⟨g.id, h⟩ ∈ m.session.memory.dropped ∨
    Waiting fs m.session.memory.frames g h ∨ ∃ a ∈ m.active, a.graph = g ∧ a.handle = h

theorem waiting_self : ¬ Waiting fs fs g h := by
  rintro ⟨new, hf, frame, hm, -⟩
  rw [List.self_eq_append_left.mp hf] at hm
  cases hm

theorem waiting_cons (hr : rest = new ++ fs) :
    Waiting fs (frame :: rest) g h ↔
      frame.graph = g ∧ h ∈ frame.queue ∨ Waiting fs rest g h := by
  subst hr
  constructor
  · rintro ⟨new', hf, frame', hm, hg, hq⟩
    rw [← List.cons_append] at hf
    obtain rfl := List.append_cancel_right hf
    rcases List.mem_cons.mp hm with rfl | hm
    · exact .inl ⟨hg, hq⟩
    · exact .inr ⟨new, rfl, frame', hm, hg, hq⟩
  · rintro (⟨hg, hq⟩ | ⟨new', hf, frame', hm, hg, hq⟩)
    · exact ⟨frame :: new, rfl, frame, List.mem_cons_self, hg, hq⟩
    · obtain rfl := List.append_cancel_right hf
      exact ⟨frame :: new, rfl, frame', List.mem_cons_of_mem _ hm, hg, hq⟩

theorem waiting_enqueue {μ : Memory} (hf : μ.frames = frame :: rest) (hr : rest = new ++ fs) :
    Waiting fs (μ.enqueue nodes).frames g h ↔
      frame.graph = g ∧ h ∈ nodes ∨ Waiting fs μ.frames g h := by
  have he : (μ.enqueue nodes).frames = { frame with queue := frame.queue ++ nodes } :: rest := by
    simp [Memory.enqueue, hf]
  rw [he, hf, waiting_cons hr, waiting_cons hr]
  constructor
  · rintro (⟨hg, hq⟩ | hw)
    · rcases List.mem_append.mp hq with hq | hq
      · exact .inr (.inl ⟨hg, hq⟩)
      · exact .inl ⟨hg, hq⟩
    · exact .inr (.inr hw)
  · rintro (⟨hg, hq⟩ | ⟨hg, hq⟩ | hw)
    · exact .inl ⟨hg, List.mem_append_right _ hq⟩
    · exact .inl ⟨hg, List.mem_append_left _ hq⟩
    · exact .inr hw

theorem Levels.suffix (h : Levels fs cs as frames calls) : ∃ new, frames = new ++ fs := by
  induction h with
  | base => exact ⟨[], rfl⟩
  | level _ _ _ ih =>
    obtain ⟨new, rfl⟩ := ih
    exact ⟨_ :: new, rfl⟩

/-- The node that is taken from a queue leaves it, and no other does. -/
theorem Atop.waiting {s s' : Session} (hs : Atop fs cs g as s.memory)
    (hd : s.dequeue? = some (h, s')) (hw : Waiting fs s.memory.frames g' h') :
    g' = g ∧ h' = h ∨ Waiting fs s'.memory.frames g' h' := by
  obtain ⟨frame, rest, hf, hg, hl⟩ := hs
  obtain ⟨new, hr⟩ := hl.suffix
  obtain ⟨frame', rest', queue, hf', hq, hm⟩ := Session.dequeue?_eq_some hd
  rw [hf] at hf'
  cases hf'
  rw [hf, waiting_cons hr, hq] at hw
  rw [hm]
  dsimp only
  rw [waiting_cons hr]
  rcases hw with ⟨hg', hmem⟩ | hw
  · rcases List.mem_cons.mp hmem with rfl | hmem
    · exact .inl ⟨hg'.symm.trans hg, rfl⟩
    · exact .inr (.inl ⟨hg', hmem⟩)
  · exact .inr (.inr hw)

/-- What carrying out a verdict puts in the queue waits there, behind what has waited before. -/
theorem Atop.waiting_settle {μ : Memory} (hs : Atop fs cs g as μ) (h : Handle)
    (v : Session.Verdict) (hw : Waiting fs μ.frames g' h') :
    Waiting fs (μ.settle g.id h v).frames g' h' := by
  cases v with
  | defer producers =>
    obtain ⟨frame, rest, hf, -, hl⟩ := hs
    obtain ⟨new, hr⟩ := hl.suffix
    exact (waiting_enqueue hf hr).mpr (.inr hw)
  | alreadyDropped | alreadyEvaluated | drop e | start d body => exact hw

theorem Levels.waiting_run {s : Session}
    (hs : Levels fs cs (a :: as) s.memory.frames s.memory.calls) (op : Operation)
    (hw : Waiting fs s.memory.frames g h) : Waiting fs (op.run s).2.memory.frames g h := by
  obtain ⟨frame, rest, hf, -, hl⟩ := hs.atop
  obtain ⟨new, hr⟩ := hl.suffix
  rcases op.run_cases s with hm | ⟨_, _, _, -, -, -, hm⟩ | ⟨_, _, -, -, hm⟩ | ⟨_, _, _, -, -, -, hm⟩
  all_goals rw [hm]
  · exact hw
  · exact hw
  · exact (waiting_enqueue hf hr).mpr (.inr hw)
  · exact (waiting_enqueue hf hr).mpr (.inr hw)

/-- Without a step limit no step is one too many. -/
theorem Session.exceeded?_dequeue {s s' : Session} {h : Handle}
    (hmax : s.memory.config.maxSteps = none) (hd : s.dequeue? = some (h, s')) :
    s'.countStep.exceeded? = none := by
  have hc : s'.countStep.config.maxSteps = none := by
    rw [← (dequeue?_sameStacks hd).config] at hmax
    exact hmax
  simp [exceeded?, hc]

/-- A node waits until it is taken: without a step limit no queue is thrown away. -/
theorem Waiting.step (hs : Stacked fs cs m) (hmax : m.session.memory.config.maxSteps = none)
    (hw : Waiting fs m.session.memory.frames g h) (hstep : Step m l m') :
    l.taken? = some (g, h) ∨ Waiting fs m'.session.memory.frames g h := by
  cases hstep with
  | refuse hseeds =>
    rw [Session.seeds_memory hseeds]
    exact .inr hw
  | enter hseeds =>
    obtain ⟨new, hr⟩ := Levels.suffix hs
    rw [Session.openGraph_memory, Session.seeds_memory hseeds]
    exact .inr ((waiting_cons hr).mpr (.inr hw))
  | drained hd =>
    obtain ⟨frame, rest, hf, -, hl⟩ := hs
    obtain ⟨new, hr⟩ := hl.suffix
    have hempty := Session.dequeue?_eq_none hd hf
    rw [hf, waiting_cons hr, hempty] at hw
    rw [Session.closeGraph_memory]
    dsimp only
    rw [hf]
    rcases hw with ⟨-, hq⟩ | hw
    · cases hq
    · exact .inr hw
  | exhaust hd he =>
    -- The one step that takes a frame off with nodes in its queue.
    rw [Session.exceeded?_dequeue hmax hd] at he
    cases he
  | settle hd he hv hn =>
    rcases Atop.waiting hs hd hw with ⟨rfl, rfl⟩ | hw
    · exact .inl rfl
    · rw [Session.settle_memory]
      have htop := Atop.sameStacks hs (Session.dequeue?_sameStacks hd)
      exact .inr (htop.waiting_settle _ _ hw)
  | start hd he hv =>
    rcases Atop.waiting hs hd hw with ⟨rfl, rfl⟩ | hw
    · exact .inl rfl
    · rw [Session.startNode_memory]
      exact .inr hw
  | perform => exact .inr (Levels.waiting_run hs _ hw)
  | unresolved hr => exact .inr hw
  | call hr => exact .inr hw
  | finish =>
    rw [Session.finishNode_memory]
    exact .inr hw
  | resume => exact .inr hw

/-- A node that is taken from a queue is not lost sight of. -/
theorem Step.taken_accounted (hs : Stacked fs cs m)
    (hmax : m.session.memory.config.maxSteps = none) (hstep : Step m l m')
    (ht : l.taken? = some (g, h)) : Accounted fs m' g h := by
  cases hstep with
  | exhaust hd he =>
    rw [Session.exceeded?_dequeue hmax hd] at he
    cases he
  | settle hd he hv hn =>
    cases ht
    have htop := Atop.sameStacks hs (Session.dequeue?_sameStacks hd)
    cases Session.verdict_judged hv with
    | alreadyDropped dropped => exact .inr (.inl (List.contains_iff_mem.mp dropped))
    | alreadyEvaluated kept live isPure evaluated => exact .inl (List.contains_iff_mem.mp evaluated)
    | missing | stuck | bodiless =>
      refine .inr (.inl ?_)
      rw [Session.settle_memory]
      exact List.mem_insert_self
    | early kept live new pending =>
      refine .inr (.inr (.inl ?_))
      obtain ⟨frame, rest, hf, hg, hl⟩ := htop
      obtain ⟨base, hr⟩ := hl.suffix
      rw [Session.settle_memory]
      exact (waiting_enqueue hf hr).mpr (.inl ⟨hg, by simp⟩)
    | due => exact absurd rfl (hn _ _)
  | start hd he hv =>
    cases ht
    exact .inr (.inr (.inr ⟨_, List.mem_cons_self, rfl, rfl⟩))
  | refuse | enter | drained | perform | unresolved | call | finish | resume => cases ht

theorem Accounted.step (hs : Stacked fs cs m) (hmax : m.session.memory.config.maxSteps = none)
    (ha : Accounted fs m g h) (hstep : Step m l m') : Accounted fs m' g h := by
  rcases ha with he | hd | hw | ⟨a, ha, hg, hh⟩
  · exact .inl ((hstep.effect hs).evaluated he)
  · exact .inr (.inl ((hstep.effect hs).dropped hd))
  · rcases hw.step hs hmax hstep with ht | hw
    · exact hstep.taken_accounted hs hmax ht
    · exact .inr (.inr (.inl hw))
  · rcases hstep.active with heq | ⟨b, -, heq⟩ | ⟨b, result, rfl, heq⟩
    · exact .inr (.inr (.inr ⟨a, heq ▸ ha, hg, hh⟩))
    · exact .inr (.inr (.inr ⟨a, heq ▸ List.mem_cons_of_mem b ha, hg, hh⟩))
    · rw [heq] at ha
      rcases List.mem_cons.mp ha with rfl | ha
      · subst hg hh
        exact .inl hstep.finished_evaluated
      · exact .inr (.inr (.inr ⟨a, ha, hg, hh⟩))

theorem Steps.accounted (hsteps : Steps m ls m') (hs : Stacked fs cs m)
    (hmax : m.session.memory.config.maxSteps = none)
    (ha : Accounted fs m g h ∨ ∃ l ∈ ls, l.taken? = some (g, h)) : Accounted fs m' g h := by
  induction hsteps with
  | refl =>
    rcases ha with ha | ⟨l, hl, -⟩
    · exact ha
    · cases hl
  | head first _ ih =>
    refine ih (hs.step first) (first.graphs.1 ▸ hmax) ?_
    rcases ha with ha | ⟨l, hl, ht⟩
    · exact .inl (ha.step hs hmax first)
    · rcases List.mem_cons.mp hl with rfl | hl
      · exact .inl (first.taken_accounted hs hmax ht)
      · exact .inr ⟨l, hl, ht⟩

/-- Once an evaluation has returned, nothing waits or runs on its behalf. -/
theorem Accounted.returned {s s' : Session}
    (ha : Accounted s.frames ⟨scene, .returning result, [], s'⟩ g h)
    (hf : s'.frames = s.frames) : s'.isEvaluated g.id h = true ∨ s'.isDropped g.id h = true := by
  rcases ha with he | hd | hw | ⟨a, ha, -⟩
  · exact .inl (List.contains_iff_mem.mpr he)
  · exact .inr (List.contains_iff_mem.mpr hd)
  · have hf' : s'.memory.frames = s.frames := hf
    rw [hf'] at hw
    exact absurd hw waiting_self
  · cases ha

/-- Without a step limit, an evaluation that returns has run or given up every node that it took from
a queue. -/
theorem Call.settled (hc : Call scene s g₀ entry ls result s')
    (hmax : s.config.maxSteps = none) (hl : l ∈ ls) (ht : l.taken? = some (g, h)) :
    s'.isEvaluated g.id h = true ∨ s'.isDropped g.id h = true := by
  have hs : Stacked s.frames s.calls ⟨scene, .entering g₀ entry, [], s⟩ := Levels.base
  exact (Steps.accounted hc hs hmax (.inr ⟨l, hl, ht⟩)).returned hc.stacks.1

/-- The same holds of every node that waited in one of its queues at any time. -/
theorem Call.settled_waiting (hc : Call scene s g₀ entry ls result s')
    (hmax : s.config.maxSteps = none) (h : Steps ⟨scene, .entering g₀ entry, [], s⟩ ls' m)
    (hw : Waiting s.frames m.session.memory.frames g node) :
    s'.isEvaluated g.id node = true ∨ s'.isDropped g.id node = true := by
  have hs : Stacked s.frames s.calls ⟨scene, .entering g₀ entry, [], s⟩ := Levels.base
  obtain ⟨rest, -, hrest⟩ := Steps.continued hc (returning_ends _ _ _) h
  have hmax' : m.session.memory.config.maxSteps = none := by
    rw [h.config]
    exact hmax
  exact (hrest.accounted (h.stacked hs) hmax' (.inl (.inr (.inr (.inl hw))))).returned hc.stacks.1

end Flowgraph
