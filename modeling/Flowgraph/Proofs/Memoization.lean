import Flowgraph.Proofs.Resolution

namespace Flowgraph

/-- Whether a step starts a body at a node. -/
def Label.starts (site : Site) : Label → Bool
  | .started a => a.site = site
  | _ => false

/-- Whatever body has been started at the node is that of a pure definition. -/
def Site.PureIn (site : Site) (ls : List Label) : Prop :=
  ∀ a, .started a ∈ ls → a.site = site → a.definition.isPure = true

/-- What the labels of a life say about where it has come to: ended bodies are on record, those that
have not ended are under way, and those held up have asked for an evaluation. -/
structure Recorded (ls : List Label) (m : Machine) : Prop where
  finished : ∀ a result, .finished a result ∈ ls → a.site ∈ m.session.memory.evaluated
  started : ∀ a, .started a ∈ ls → a.site ∈ m.session.memory.evaluated ∨ a ∈ m.active
  called : ∀ a ∈ m.held, ∃ g entry, .called a g entry ∈ ls

/-- A body held up after a step was so before it or has just asked for an evaluation. -/
theorem Step.held (h : Step m l m') (ha : a ∈ m'.held) :
    a ∈ m.held ∨ ∃ g entry, l = .called a g entry := by
  cases h with
  | call hr =>
    rcases List.mem_cons.mp ha with rfl | ha
    · exact .inr ⟨_, _, rfl⟩
    · exact .inl ha
  | resume => exact .inl (List.mem_cons_of_mem _ ha)
  | _ => exact .inl ha

theorem Recorded.step (hr : Recorded ls m) (hs : Stacked fs cs m) (h : Step m l m') :
    Recorded (ls ++ [l]) m' := by
  have kept {site : Site} (he : site ∈ m.session.memory.evaluated) :
      site ∈ m'.session.memory.evaluated := (h.effect hs).evaluated he
  constructor
  · intro a result ha
    rcases List.mem_append.mp ha with ha | ha
    · exact kept (hr.finished a result ha)
    · rw [← List.mem_singleton.mp ha] at h
      exact h.finished_evaluated
  · intro a ha
    rcases List.mem_append.mp ha with ha | ha
    · rcases hr.started a ha with he | hb
      · exact .inl (kept he)
      · rcases h.active with heq | ⟨b, -, heq⟩ | ⟨b, result, hl, heq⟩
        · exact .inr (heq ▸ hb)
        · exact .inr (heq ▸ List.mem_cons_of_mem b hb)
        · rw [heq] at hb
          rcases List.mem_cons.mp hb with rfl | hb
          · subst hl
            exact .inl h.finished_evaluated
          · exact .inr hb
    · rw [← List.mem_singleton.mp ha] at h
      cases h with
      | start => exact .inr List.mem_cons_self
  · intro a ha
    rcases h.held ha with ha | ⟨g, entry, rfl⟩
    · obtain ⟨g, entry, hc⟩ := hr.called a ha
      exact ⟨g, entry, List.mem_append_left _ hc⟩
    · exact ⟨g, entry, by simp⟩

theorem Move.held (h : Move m m') : m'.held = [] := by
  cases h <;> rfl

theorem Recorded.move (hr : Recorded ls m) (hs : Stacked [] [] m) (h : Move m m') :
    Recorded ls m' := by
  have he := (h.sameResults hs).evaluated
  constructor
  · intro a result ha
    rw [he]
    exact hr.finished a result ha
  · intro a ha
    rw [he, h.active.2, ← h.active.1]
    exact hr.started a ha
  · intro a ha
    rw [h.held] at ha
    cases ha

theorem Life.recorded (h : Life ls m) : Recorded ls m := by
  refine h.keeps ?_ ?_ ?_
  · intro scene s hs
    refine ⟨?_, ?_, ?_⟩
    · intro a result ha
      cases ha
    · intro a ha
      cases ha
    · intro a ha
      cases ha
  · intro ls m l m' life hr h
    exact hr.step life.stacked.1 h
  · intro ls m m' life hr h
    exact hr.move life.stacked.1 h

/-- A pure body starts only where none has ended, and while a queue is drained. -/
theorem Step.started_pure (h : Step m (.started a) m') (hp : a.definition.isPure = true) :
    a.site ∉ m.session.memory.evaluated ∧ m.active = m.held := by
  cases h with
  | start hd he hv =>
    refine ⟨?_, rfl⟩
    intro hin
    rw [← (Session.dequeue?_sameResults hd).evaluated] at hin
    cases Session.verdict_judged hv with
    | due kept live new nothing body => exact new ⟨hp, List.contains_iff_mem.mpr hin⟩

/-- What is left of a node once no body of its own is under way any more: it stays evaluated, and
its outputs stay what they were on `μ`. -/
structure Closed (site : Site) (μ : Memory) (m : Machine) : Prop where
  evaluated : site ∈ m.session.memory.evaluated
  inactive : ∀ a ∈ m.active, a.site ≠ site
  outputs : ∀ port, m.session.memory.cache.get? ⟨site.graph, site.node, port⟩ =
    μ.cache.get? ⟨site.graph, site.node, port⟩

/-- A body sets outputs of its own node only. -/
theorem Effect.get?_of_ne (h : Effect l μ μ') (hl : ∀ a op, l = .performed a op → a.site ≠ site)
    (port : Nat) : μ'.cache.get? ⟨site.graph, site.node, port⟩ =
      μ.cache.get? ⟨site.graph, site.node, port⟩ := by
  cases h with
  | quiet same => rw [same.cache]
  | drop cache | finish cache => rw [cache]
  | output cache =>
    have hne := hl _ _ rfl
    rw [cache, Table.get?_insert]
    refine if_neg ?_
    intro he
    simp only [Outlet.mk.injEq, PortRef.mk.injEq] at he
    exact hne (Site.mk.injEq .. ▸ ⟨he.1, he.2.1⟩)

theorem Step.performed_active (h : Step m (.performed a op) m') : a ∈ m.active := by
  cases h with
  | perform => exact List.mem_cons_self

theorem Closed.step (hc : Closed site μ m) (hs : Stacked fs cs m) (hp : site.PureIn [l])
    (h : Step m l m') : Closed site μ m' := by
  refine ⟨(h.effect hs).evaluated hc.evaluated, ?_, ?_⟩
  · intro b hb
    rcases h.active with he | ⟨a, rfl, he⟩ | ⟨a, result, -, he⟩
    · exact hc.inactive b (he ▸ hb)
    · rw [he] at hb
      rcases List.mem_cons.mp hb with rfl | hb
      · intro hsite
        have hpure := hp b (List.mem_singleton.mpr rfl) hsite
        exact (h.started_pure hpure).1 (hsite ▸ hc.evaluated)
      · exact hc.inactive b hb
    · exact hc.inactive b (he ▸ List.mem_cons_of_mem a hb)
  · intro port
    rw [(h.effect hs).get?_of_ne ?_ port]
    · exact hc.outputs port
    · intro a op hl
      subst hl
      exact hc.inactive a h.performed_active

theorem Closed.move (hc : Closed site μ m) (hs : Stacked [] [] m) (h : Move m m') :
    Closed site μ m' := by
  obtain ⟨hcache, heval, -⟩ := h.sameResults hs
  refine ⟨heval ▸ hc.evaluated, ?_, ?_⟩
  · rw [h.active.2, ← h.active.1]
    exact hc.inactive
  · intro port
    rw [hcache]
    exact hc.outputs port

theorem Closed.run (hc : Closed site μ m) (life : Life ls m) (h : Run m ls' m')
    (hp : site.PureIn ls') : Closed site μ m' := by
  induction h with
  | refl => exact hc
  | step before last ih =>
    have hs := (life.run before).stacked.1
    refine (ih ?_).step hs ?_ last
    · intro a ha
      exact hp a (List.mem_append_left _ ha)
    · intro a ha
      exact hp a (List.mem_append_right _ ha)
  | move before last ih => exact (ih hp).move (life.run before).stacked.1 last

/-- Once a pure body has ended, none starts at its node. -/
theorem Life.no_start_after (h : Life ls m) (he : ls = pre ++ .finished a result :: post)
    (hb : .started b ∈ post) (hp : b.definition.isPure = true) : b.site ≠ a.site := by
  intro hsite
  obtain ⟨before, after, rfl⟩ := List.append_of_mem hb
  rw [← List.cons_append, ← List.append_assoc] at he
  obtain ⟨m₁, m₂, h₁, hstep, -⟩ := h.split he
  have hrec := h₁.recorded.finished a result (by simp)
  exact (hstep.started_pure hp).1 (hsite ▸ hrec)

/-- A pure body that starts where one has begun before finds that one held up. -/
theorem Life.started_held (h : Life ls m) (hstep : Step m (.started b) m')
    (hp : b.definition.isPure = true) (ha : .started a ∈ ls) (hsite : a.site = b.site) :
    a ∈ m.held := by
  obtain ⟨hnew, hactive⟩ := hstep.started_pure hp
  rcases h.recorded.started a ha with he | ha
  · exact absurd (hsite ▸ he) hnew
  · exact hactive ▸ ha

/-- No pure body has asked for an evaluation. -/
def PureUnnested (ls : List Label) : Prop :=
  ∀ a g entry, .called a g entry ∈ ls → a.definition.isPure = false

theorem Label.starts_iff {site : Site} {l : Label} :
    l.starts site = true ↔ ∃ a, l = .started a ∧ a.site = site := by
  cases l <;> simp [Label.starts]

theorem Life.starts_le_one (h : Life ls m) (hp : site.PureIn ls) (hn : PureUnnested ls) :
    ls.countP (·.starts site) ≤ 1 := by
  revert hp hn
  refine h.keeps
    (P := fun ls _ => site.PureIn ls → PureUnnested ls → ls.countP (·.starts site) ≤ 1) ?_ ?_ ?_
  · intro scene s hs hp hn
    exact Nat.zero_le _
  · intro ls m l m' life ih h hp hn
    rw [List.countP_append, List.countP_singleton]
    split
    · rename_i hl
      obtain ⟨b, rfl, hb⟩ := Label.starts_iff.mp hl
      -- An earlier start would be held up, by an evaluation that no pure body asks for.
      have hnone : ls.countP (·.starts site) = 0 := by
        refine List.countP_eq_zero.mpr ?_
        intro l' hmem hl'
        obtain ⟨a, rfl, ha⟩ := Label.starts_iff.mp hl'
        have hbp := hp b (List.mem_append_right _ (List.mem_singleton.mpr rfl)) hb
        have hheld := life.started_held h hbp hmem (ha.trans hb.symm)
        obtain ⟨g, entry, hc⟩ := life.recorded.called a hheld
        have hap := hp a (List.mem_append_left _ hmem) ha
        have hnp := hn a g entry (List.mem_append_left _ hc)
        rw [hap] at hnp
        cases hnp
      omega
    · refine ih ?_ ?_
      · intro a ha
        exact hp a (List.mem_append_left _ ha)
      · intro a g entry ha
        exact hn a g entry (List.mem_append_left _ ha)
  · intro ls m m' _ ih _
    exact ih

/-- A pure body that has ended is not run again. A second run can only begin inside the first, by way
of a nested evaluation, and once no body of the node is under way its outputs stay as they are. -/
theorem pure_node_memoization {ls : List Label} {m : Machine} {site : Site} (h : Life ls m)
    (hp : site.PureIn ls) :
    (∀ pre a result post, ls = pre ++ .finished a result :: post → a.site = site →
      ∀ b, .started b ∈ post → b.site ≠ site) ∧
    (∀ pre b post m₁ m₂, ls = pre ++ .started b :: post → Life pre m₁ →
      Step m₁ (.started b) m₂ → b.site = site →
        ∀ a, .started a ∈ pre → a.site = site → a ∈ m₁.held) ∧
    (PureUnnested ls → ls.countP (·.starts site) ≤ 1) ∧
    (∀ pre m₁ a result m₂ post, Life pre m₁ → Step m₁ (.finished a result) m₂ →
      Run m₂ post m → ls = pre ++ .finished a result :: post → a.site = site →
      (∀ b ∈ m₂.active, b.site ≠ site) →
        (∀ port, m.session.cached? site.graph ⟨site.node, port⟩ =
          m₂.session.cached? site.graph ⟨site.node, port⟩) ∧
        ∀ c rest n i port, m.control = .running c rest → c.graph.id = site.graph →
          c.graph.node? c.handle = some n → i < n.inputCount →
          c.graph.producer? ⟨c.handle, i⟩ = some ⟨site.node, port⟩ →
            ∃ v, m₂.session.cached? site.graph ⟨site.node, port⟩ = some v ∧
              m.session.input i = .ok v) := by
  refine ⟨?_, ?_, h.starts_le_one hp, ?_⟩
  · intro pre a result post he ha b hb hsite
    have hbp := hp b (by rw [he]; simp [hb]) hsite
    exact h.no_start_after he hb hbp (hsite.trans ha.symm)
  · intro pre b post m₁ m₂ he h₁ hstep hb a ha hsite
    have hbp := hp b (by rw [he]; simp) hb
    exact h₁.started_held hstep hbp ha (hsite.trans hb.symm)
  · intro pre m₁ a result m₂ post h₁ hstep h₂ he ha hinactive
    have hclosed : Closed site m₂.session.memory m₂ :=
      ⟨ha ▸ hstep.finished_evaluated, hinactive, fun _ => rfl⟩
    have hpost : site.PureIn post := by
      intro b hb
      exact hp b (by rw [he]; simp [hb])
    have houtputs := (hclosed.run (h₁.step hstep) h₂ hpost).outputs
    refine ⟨houtputs, ?_⟩
    intro c rest n i port hr hid hn hi hw
    obtain ⟨v, hv, hread⟩ := h.input_wired hr hn hi hw
    refine ⟨v, ?_, hread⟩
    rw [hid] at hv
    exact (houtputs port).symm.trans hv

namespace Reentry

def sourceRun : Activation := ⟨graph, ⟨1, 1⟩, seven⟩

def targetRun : Activation := ⟨graph, ⟨2, 1⟩, again⟩

/-- What happens until the second level reads what the first one has computed. -/
theorem entry_labels : (entry.advance 9).1 =
    [.entered graph (.root ⟨2, 1⟩), .settled graph ⟨2, 1⟩ (.defer [⟨1, 1⟩]), .started sourceRun,
      .performed sourceRun (.setOutput 0 (.int 7)), .finished sourceRun (.ok ()),
      .started targetRun, .called targetRun graph (.root ⟨2, 1⟩), .entered graph (.root ⟨2, 1⟩),
      .started targetRun] := rfl

end Reentry

theorem pure_node_memoization_reentry :
    Reentry.sourceRun.site.PureIn (Reentry.entry.advance 9).1 ∧
    PureUnnested (Reentry.entry.advance 9).1 ∧
    (Reentry.entry.advance 9).1.countP (·.starts Reentry.sourceRun.site) ≤ 1 ∧
    ∃ v, (Reentry.entry.advance 5).2.session.cached? Reentry.graph.id ⟨⟨1, 1⟩, 0⟩ = some v ∧
      (Reentry.entry.advance 9).2.session.input 0 = .ok v := by
  have hpure : Reentry.sourceRun.site.PureIn (Reentry.entry.advance 9).1 := by
    intro a ha hsite
    rw [Reentry.entry_labels] at ha
    simp only [List.mem_cons, reduceCtorEq, Label.started.injEq, false_or] at ha
    rcases ha with rfl | rfl | rfl | ha
    · rfl
    · exact absurd hsite (by decide)
    · exact absurd hsite (by decide)
    · cases ha
  have hnone : PureUnnested (Reentry.entry.advance 9).1 := by
    intro a g entry ha
    rw [Reentry.entry_labels] at ha
    simp only [List.mem_cons, reduceCtorEq, Label.called.injEq, false_or] at ha
    rcases ha with ⟨rfl, -, -⟩ | ha
    · rfl
    · cases ha
  obtain ⟨-, -, honce, hlater⟩ := pure_node_memoization (Reentry.entry_life 9) hpure
  refine ⟨hpure, hnone, honce hnone, ?_⟩
  have hstep : Step (Reentry.entry.advance 4).2 (.finished Reentry.sourceRun (.ok ()))
      (Reentry.entry.advance 5).2 := Machine.step_of_next? rfl
  have hrun : Run (Reentry.entry.advance 5).2 ((Reentry.entry.advance 5).2.advance 4).1
      (Reentry.entry.advance 9).2 := (Machine.advance_steps 4 _).run
  obtain ⟨-, hread⟩ := hlater _ _ _ _ _ _ (Reentry.entry_life 4) hstep hrun rfl rfl (by
    intro b hb
    cases hb)
  exact hread Reentry.targetRun (Program.evaluate (.named "loop") (.root ⟨2, 1⟩)) _ 0 0 rfl rfl rfl
    (by decide) rfl

end Flowgraph
