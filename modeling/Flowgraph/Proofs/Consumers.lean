import Flowgraph.Proofs.Activations
import Flowgraph.Proofs.Bookkeeping
import Flowgraph.Proofs.Dependencies

namespace Flowgraph

/-- The node reads the output, itself or by way of other nodes. Of their outputs on that way `gap`
holds. -/
inductive Graph.Consumes (g : Graph) (gap : PortRef → Prop) (output : PortRef) : Handle → Prop where
  | directly (fed : g.FedBy h output) : Consumes g gap output h
  | through (fed : g.FedBy h between) (missing : gap between)
      (behind : Consumes g gap output between.node) : Consumes g gap output h

/-- The node waits for the output, itself or by way of outputs that are missing as well. -/
def Session.Starves (s : Session) (g : Graph) (output : PortRef) (h : Handle) : Prop :=
  g.Consumes (fun between => s.cached? g.id between = none) output h

/-- The output has no value and will not have one: its node is given up, and none of its bodies is
under way. -/
structure Lost (graph : GraphId) (output : PortRef) (m : Machine) : Prop where
  dropped : ⟨graph, output.node⟩ ∈ m.session.memory.dropped
  inactive : ∀ a ∈ m.active, a.site ≠ ⟨graph, output.node⟩
  missing : m.session.cached? graph output = none

/-- An output changes only while a body of its node is under way. -/
theorem Step.cached_of_inactive (h : Step m l m') (hs : Stacked fs cs m)
    (hi : ∀ a ∈ m.active, a.site ≠ ⟨graph, output.node⟩) :
    m'.session.cached? graph output = m.session.cached? graph output := by
  have hl : ∀ a op, l = .performed a op → a.site ≠ ⟨graph, output.node⟩ := by
    rintro a op rfl
    exact hi a h.performed_active
  exact (h.effect hs).get?_of_ne hl output.port

theorem Step.finished_active (h : Step m (.finished a result) m') :
    m.active = a :: m.held ∧ m'.active = m.held := by
  cases h with
  | finish => exact ⟨rfl, rfl⟩

theorem Lost.step (hl : Lost graph output m) (hs : Stacked fs cs m) (h : Step m l m') :
    Lost graph output m' := by
  have hmissing := (h.cached_of_inactive hs hl.inactive).trans hl.missing
  refine ⟨(h.effect hs).dropped hl.dropped, ?_, hmissing⟩
  intro b hb
  rcases h.active with he | ⟨a, rfl, he⟩ | ⟨a, result, -, he⟩
  · exact hl.inactive b (he ▸ hb)
  · rw [he] at hb
    rcases List.mem_cons.mp hb with rfl | hb
    · intro hsite
      exact h.kept (.inl (Label.starts_iff.mpr ⟨b, rfl, hsite⟩)) hl.dropped
    · exact hl.inactive b hb
  · exact hl.inactive b (he ▸ List.mem_cons_of_mem a hb)

theorem Lost.move (hl : Lost graph output m) (hs : Stacked [] [] m) (h : Move m m') :
    Lost graph output m' := by
  obtain ⟨hcache, -, hdropped⟩ := h.sameResults hs
  refine ⟨hdropped ▸ hl.dropped, ?_, ?_⟩
  · rw [h.active.2]
    exact List.forall_mem_nil _
  · have hsame : m'.session.cache = m.session.cache := hcache
    rw [Session.cached?, hsame]
    exact hl.missing

theorem Lost.run (hl : Lost graph output m) (life : Life ls m) (h : Run m ls' m') :
    Lost graph output m' := by
  induction h with
  | refl => exact hl
  | step before last ih => exact ih.step (life.run before).stacked.1 last
  | move before last ih => exact ih.move (life.run before).stacked.1 last

/-- What feeds a body that is under way has a value. -/
theorem Activation.Supplied.fedBy {a : Activation} (ha : a.Supplied μ)
    (hf : a.graph.FedBy a.handle output) : ∃ v, μ.cache.get? ⟨a.graph.id, output⟩ = some v := by
  obtain ⟨port, ⟨n, hn, hlt⟩, hwired⟩ := hf
  exact ha n port output hn hlt hwired

theorem Session.Starves.lacks {s : Session} (hc : s.Starves g output c)
    (hmissing : s.cached? g.id output = none) :
    ∃ between, g.FedBy c between ∧ s.cached? g.id between = none := by
  cases hc with
  | directly fed => exact ⟨output, fed, hmissing⟩
  | through fed missing _ => exact ⟨_, fed, missing⟩

theorem Life.starved_inactive (h : Life ls m) (hk : m.session.memory.Keeps g)
    (hmissing : m.session.cached? g.id output = none) (hc : m.session.Starves g output c) :
    ∀ a ∈ m.active, a.site ≠ ⟨g.id, c⟩ := by
  intro a ha hsite
  rw [Activation.site, Site.mk.injEq] at hsite
  obtain ⟨hid, rfl⟩ := hsite
  obtain rfl := hk a.graph (h.stacked.1.graph_mem ha) hid
  obtain ⟨between, hfed, hgap⟩ := hc.lacks hmissing
  obtain ⟨v, hv⟩ := (h.supplied a ha).fedBy hfed
  have hvalue : m.session.cached? a.graph.id between = some v := hv
  rw [hgap] at hvalue
  cases hvalue

/-- A session at work on `g`, which nobody has edited since `s`, where the output was lost. The
nodes that starved then starve still, and none of their bodies has ended since. -/
structure Starving (g : Graph) (output : PortRef) (s : Session) (m : Machine) : Prop where
  lost : Lost g.id output m
  keeps : m.session.memory.Keeps g
  starves : ∀ c, s.Starves g output c → m.session.Starves g output c
  unrun : ∀ c, s.Starves g output c → m.session.isEvaluated g.id c = true →
    s.isEvaluated g.id c = true

theorem Starving.inactive (hg : Starving g output s m) (life : Life ls m)
    (hc : s.Starves g output c) : ∀ a ∈ m.active, a.site ≠ ⟨g.id, c⟩ :=
  life.starved_inactive hg.keeps hg.lost.missing (hg.starves c hc)

/-- The outputs missing on the way to a starving node belong to starving nodes, so they stay
missing. -/
theorem Session.Starves.step (hc : m.session.Starves g output c) (life : Life ls m)
    (hk : m.session.memory.Keeps g) (hmissing : m.session.cached? g.id output = none)
    (h : Step m l m') : m'.session.Starves g output c := by
  induction hc with
  | directly fed => exact .directly fed
  | through fed missing behind ih =>
    refine .through fed ?_ ih
    rw [h.cached_of_inactive life.stacked.1 (life.starved_inactive hk hmissing behind)]
    exact missing

theorem Starving.step (hg : Starving g output s m) (life : Life ls m) (h : Step m l m')
    (hl : ∀ g' entry, l = .entered g' entry → g'.id = g.id → g' = g) :
    Starving g output s m' where
  lost := hg.lost.step life.stacked.1 h
  keeps := hg.keeps.step h hl
  starves := by
    intro c hc
    exact (hg.starves c hc).step life hg.keeps hg.lost.missing h
  unrun := by
    intro c hc he
    rcases (h.evaluated_iff life.stacked.1).mp (List.contains_iff_mem.mp he) with
      he | ⟨a, result, rfl, hsite⟩
    · exact hg.unrun c hc (List.contains_iff_mem.mpr he)
    · have ha : a ∈ m.active := h.finished_active.1 ▸ List.mem_cons_self
      exact absurd hsite (hg.inactive life hc a ha)

theorem Starving.move (hg : Starving g output s m) (life : Life ls m) (h : Move m m') :
    Starving g output s m' := by
  have hs := life.stacked.1
  obtain ⟨hcache, hevaluated, -⟩ := h.sameResults hs
  refine ⟨hg.lost.move hs h, ?_, ?_, ?_⟩
  · unfold Memory.Keeps
    rw [h.graphs]
    exact hg.keeps
  · intro c hc
    have hsame : m'.session.cache = m.session.cache := hcache
    have hstarves := hg.starves c hc
    unfold Session.Starves Session.cached? at hstarves ⊢
    rw [hsame]
    exact hstarves
  · intro c hc he
    have hsame : m'.session.evaluated = m.session.evaluated := hevaluated
    unfold Session.isEvaluated at he
    rw [hsame] at he
    exact hg.unrun c hc he

theorem Graph.Unedited.of_append {g : Graph} (hu : g.Unedited (ls ++ ls')) : g.Unedited ls :=
  fun g' entry hm => hu g' entry (List.mem_append_left _ hm)

theorem Starving.run (hg : Starving g output s m) (life : Life ls m) (h : Run m ls' m')
    (hu : g.Unedited ls') : Starving g output s m' := by
  induction h with
  | refl => exact hg
  | step before last ih =>
    refine (ih hu.of_append).step (life.run before) last ?_
    rintro g' entry rfl
    exact hu g' entry (List.mem_append_right _ (List.mem_singleton.mpr rfl))
  | move before last ih => exact (ih hu).move (life.run before) last

theorem Starving.not_started (hg : Starving g output s m) (life : Life ls m) (h : Run m ls' m')
    (hu : g.Unedited ls') (hc : s.Starves g output c) (hb : .started b ∈ ls') :
    b.site ≠ ⟨g.id, c⟩ := by
  obtain ⟨pre, post, rfl⟩ := List.append_of_mem hb
  obtain ⟨m₁, m₂, h₁, hstep, -⟩ := h.split rfl
  rw [List.append_cons] at hu
  have hrun : Run m (pre ++ [.started b]) m₂ := .step h₁ hstep
  refine (hg.run life hrun hu.of_append).inactive (life.run hrun) hc b ?_
  cases hstep with
  | start => exact List.mem_cons_self

/-- A node leaves a queue for good as one whose value is known, as one given up or to be run. -/
theorem Turn.leaves (h : Turn g queue l queue') (hc : c ∈ queue) :
    c ∈ queue' ∨ l = .settled g c .alreadyEvaluated ∧ g.isPure c = true ∨
      (∃ v, l = .settled g c v ∧ l.forsakes c = true) ∨ ∃ d, l = .started ⟨g, c, d⟩ := by
  cases h with
  | defer =>
    rcases List.mem_cons.mp hc with rfl | hc
    · exact .inl (by simp)
    · exact .inl (List.mem_append_left _ hc)
  | memoized isPure =>
    rcases List.mem_cons.mp hc with rfl | hc
    · exact .inr (.inl ⟨rfl, isPure⟩)
    · exact .inl hc
  | dropped | drop =>
    rcases List.mem_cons.mp hc with rfl | hc
    · exact .inr (.inr (.inl ⟨_, rfl, by simp [Label.forsakes]⟩))
    · exact .inl hc
  | start =>
    rcases List.mem_cons.mp hc with rfl | hc
    · exact .inr (.inr (.inr ⟨_, rfl⟩))
    · exact .inl hc
  | activate => exact .inl (List.mem_append_left _ hc)

theorem Turns.leaves (h : Turns g queue ls []) (hc : c ∈ queue) :
    ∃ l ∈ ls, l = .settled g c .alreadyEvaluated ∧ g.isPure c = true ∨
      (∃ v, l = .settled g c v ∧ l.forsakes c = true) ∨ ∃ d, l = .started ⟨g, c, d⟩ := by
  generalize hq : ([] : List Handle) = last at h
  induction h with
  | refl =>
    subst hq
    cases hc
  | @head queue l queue' ls queue'' first rest ih =>
    rcases first.leaves hc with hc | hleft
    · obtain ⟨l', hl', hleft⟩ := ih hc hq
      exact ⟨l', List.mem_cons_of_mem _ hl', hleft⟩
    · exact ⟨l, List.mem_cons_self, hleft⟩

theorem Run.dropped (h : Run m ls' m') (life : Life ls m)
    (hd : site ∈ m.session.memory.dropped) : site ∈ m'.session.memory.dropped := by
  induction h with
  | refl => exact hd
  | step before last ih => exact (last.effect (life.run before).stacked.1).dropped ih
  | move before last ih =>
    rw [(last.sameResults (life.run before).stacked.1).dropped]
    exact ih

theorem Run.not_started (h : Run m ls' m') (life : Life ls m)
    (hd : site ∈ m.session.memory.dropped) (hb : .started b ∈ ls') : b.site ≠ site := by
  intro hsite
  obtain ⟨pre, post, rfl⟩ := List.append_of_mem hb
  obtain ⟨m₁, m₂, h₁, hstep, -⟩ := h.split rfl
  exact hstep.kept (.inl (Label.starts_iff.mpr ⟨b, rfl, hsite⟩)) (h₁.dropped life hd)

theorem Session.dequeue?_isEvaluated {s s' : Session} {taken : Handle}
    (hd : s.dequeue? = some (taken, s')) (graph : GraphId) (node : Handle) :
    s'.countStep.isEvaluated graph node = s.isEvaluated graph node := by
  have hsame : s'.evaluated = s.evaluated := (dequeue?_sameResults hd).evaluated
  exact congrArg (List.contains · ⟨graph, node⟩) hsame

theorem Step.settled_evaluated (h : Step m (.settled g node .alreadyEvaluated) m') :
    m.session.isEvaluated g.id node = true := by
  cases h with
  | settle hd he hv hn =>
    cases Session.verdict_judged hv with
    | alreadyEvaluated kept live isPure evaluated =>
      exact (Session.dequeue?_isEvaluated hd g.id node).symm.trans evaluated

/-- A starving node that an evaluation has in its queue is given up before the queue is empty. -/
theorem Starving.drained {m m' : Machine} (hg : Starving g output m.session m) (life : Life ls m)
    (hc : m.session.Starves g output c)
    (hnew : g.isPure c = true → m.session.isEvaluated g.id c = false)
    (h : Steps { m with suspended := [] } ls' m') (hu : g.Unedited ls')
    (hq : Turns g queue (outermost 0 ls') []) (hin : c ∈ queue) :
    ⟨g.id, c⟩ ∈ m'.session.memory.dropped := by
  -- Waiting puts the node back, so some step takes it from the queue for good.
  obtain ⟨l, hl, hleft⟩ := hq.leaves hin
  have hmem := (outermost_sublist 0 ls').subset hl
  obtain ⟨pre, post, rfl⟩ := List.append_of_mem hmem
  obtain ⟨m₁, m₂, h₁, hstep, h₂⟩ := h.split
  have hrun₁ := (h₁.under m.suspended).run
  have hstep' := hstep.under m.suspended
  rcases hleft with ⟨rfl, hp⟩ | ⟨v, rfl, hforsakes⟩ | ⟨d, rfl⟩
  · have hevaluated := (hg.run life hrun₁ hu.of_append).unrun c hc hstep'.settled_evaluated
    rw [hnew hp] at hevaluated
    cases hevaluated
  · have hrun₂ := (h₂.under m.suspended).run
    exact hrun₂.dropped ((life.run hrun₁).step hstep') (hstep'.forsaken hforsakes)
  · exact absurd rfl (hg.not_started life (h.under m.suspended).run hu hc hmem)

/-- As long as nobody edits `g`, no body of the node begins. An evaluation that has the node in its
queue and returns in good order has given it up by then, and no body of it begins after that,
whatever is edited. -/
structure Machine.Forfeits (m : Machine) (g : Graph) (c : Handle) : Prop where
  never : ∀ ls m' b, Run m ls m' → g.Unedited ls → .started b ∈ ls → b.site ≠ ⟨g.id, c⟩
  dropped : ∀ queue rest ls s', m.control = .draining g →
    m.session.frames = ⟨g, queue⟩ :: rest → c ∈ queue →
    Steps ⟨m.scene, .draining g, [], m.session⟩ ls ⟨m.scene, .returning (.ok ()), [], s'⟩ →
    g.Unedited ls → s'.isDropped g.id c = true ∧
      ∀ ls' m' b, Run ⟨m.scene, .returning (.ok ()), m.suspended, s'⟩ ls' m' →
        .started b ∈ ls' → b.site ≠ ⟨g.id, c⟩

theorem Lost.forfeits (hl : Lost g.id output m) (life : Life ls m)
    (hk : m.session.memory.Keeps g) (hc : m.session.Starves g output c)
    (hnew : g.isPure c = true → m.session.isEvaluated g.id c = false) : m.Forfeits g c := by
  have hg : Starving g output m.session m := ⟨hl, hk, fun _ => id, fun _ _ => id⟩
  refine ⟨?_, ?_⟩
  · intro ls' m' b h hu hb
    exact hg.not_started life h hu hc hb
  · intro queue rest ls' s' hcontrol hframes hin h hu
    obtain ⟨scene, control, ws, s⟩ := m
    dsimp only at hcontrol
    subst hcontrol
    have hs : Stacked rest s.calls ⟨scene, .draining g, [], s⟩ :=
      ⟨⟨g, queue⟩, rest, hframes, rfl, .base⟩
    have hf : s.memory.frames = [] ++ ⟨g, queue⟩ :: rest := hframes
    have hq : Turns g queue (outermost 0 ls') [] := h.turns hs hf (.inr ⟨rfl, rfl, rfl⟩)
    have hd := hg.drained life hc hnew h hu hq hin
    refine ⟨List.contains_iff_mem.mpr hd, ?_⟩
    intro ls'' m' b h' hb
    exact h'.not_started (life.run (h.under ws).run) hd hb

/-- In a graph that nobody edits, no body of a node has begun without what the node consumes. -/
theorem Life.consumer_unstarted {g : Graph} (h : Life ls m) (hu : g.Unedited ls)
    (hmissing : m.session.cached? g.id output = none) (hc : g.Consumes (fun _ => True) output c)
    (hb : .started b ∈ ls) : b.site ≠ ⟨g.id, c⟩ := by
  have hvalue {c : Handle} {b : Activation} {between : PortRef} (hb : .started b ∈ ls)
      (hsite : b.site = ⟨g.id, c⟩) (fed : g.FedBy c between) :
      ∃ v, m.session.cached? g.id between = some v := by
    obtain ⟨entry, hentry⟩ := h.booked.begun b hb
    rw [Activation.site, Site.mk.injEq] at hsite
    obtain ⟨hid, rfl⟩ := hsite
    obtain rfl := hu b.graph entry hentry hid
    exact (h.booked.due b hb).supplied.fedBy fed
  intro hsite
  -- A value on the way would come from a body that began without what its own node consumes.
  induction hc generalizing b with
  | directly fed =>
    obtain ⟨v, hv⟩ := hvalue hb hsite fed
    rw [hmissing] at hv
    cases hv
  | through fed _ _ ih =>
    obtain ⟨v, hv⟩ := hvalue hb hsite fed
    obtain ⟨b', -, hb', hsite', -⟩ := h.booked.cached _ v hv
    exact ih hb' hsite'

theorem Life.finished_started (h : Life ls m) (ha : .finished a result ∈ ls) :
    .started a ∈ ls := by
  obtain ⟨pre, post, rfl⟩ := List.append_of_mem ha
  obtain ⟨m₁, m₂, h₁, hstep, -⟩ := h.split rfl
  have hactive : a ∈ m₁.active := hstep.finished_active.1 ▸ List.mem_cons_self
  exact List.mem_append_left _ (h₁.booked.active a hactive)

theorem Life.consumer_starves {g : Graph} (h : Life ls m) (hu : g.Unedited ls)
    (hmissing : m.session.cached? g.id output = none) (hc : g.Consumes (fun _ => True) output c) :
    m.session.Starves g output c := by
  induction hc with
  | directly fed => exact .directly fed
  | @through _ between fed _ behind ih =>
    refine .through fed ?_ ih
    refine Option.eq_none_iff_forall_ne_some.mpr ?_
    intro v hv
    obtain ⟨b, -, hb, hsite, -⟩ := h.booked.cached ⟨g.id, between⟩ v hv
    exact h.consumer_unstarted hu hmissing behind hb hsite

/-- Where nobody has edited the graph, all that consume a lost output forfeit their runs. -/
theorem Lost.consumer_forfeits {g : Graph} (hl : Lost g.id output m) (life : Life ls m)
    (hu : g.Unedited ls) (hc : g.Consumes (fun _ => True) output c) : m.Forfeits g c := by
  refine hl.forfeits life ?_ (life.consumer_starves hu hl.missing hc) ?_
  · intro g' hg' hid
    obtain ⟨entry, hentry⟩ := life.booked.entered g' hg'
    exact hu g' entry hentry hid
  · intro _
    refine Bool.eq_false_iff.mpr ?_
    intro he
    obtain ⟨a, result, ha, hsite⟩ :=
      (life.booked.evaluated ⟨g.id, c⟩).mp (List.contains_iff_mem.mp he)
    exact life.consumer_unstarted hu hl.missing hc (life.finished_started ha) hsite

end Flowgraph
