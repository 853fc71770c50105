import Flowgraph.Proofs.Observation
import Flowgraph.Proofs.Refinement

namespace Flowgraph

/-- Whether a step gives a node up without running it. -/
def Label.drops (site : Site) : Label → Bool
  | .settled g h (.drop _) => (⟨g.id, h⟩ : Site) = site
  | _ => false

/-- No graph was edited between two of its evaluations. -/
def Unedited (ls : List Label) : Prop := ∀ g entry, .entered g entry ∈ ls → g.Unedited ls

theorem Label.drops_iff {site : Site} {l : Label} :
    l.drops site = true ↔ ∃ g h e, l = .settled g h (.drop e) ∧ (⟨g.id, h⟩ : Site) = site := by
  cases l with
  | settled g h v => cases v <;> simp [Label.drops, and_assoc]
  | _ => simp [Label.drops]

/-- The nodes whose bodies have returned grow by the one whose body returns. -/
theorem Step.evaluated_iff (hs : Stacked fs cs m) (h : Step m l m') :
    site ∈ m'.session.memory.evaluated ↔
      site ∈ m.session.memory.evaluated ∨ ∃ a result, l = .finished a result ∧ a.site = site := by
  constructor
  · intro hin
    cases h.effect hs with
    | quiet same => exact .inl (same.evaluated ▸ hin)
    | drop _ evaluated | output _ evaluated => exact .inl (evaluated ▸ hin)
    | finish _ evaluated =>
      rw [evaluated] at hin
      rcases List.mem_insert_iff.mp hin with rfl | hin
      · exact .inr ⟨_, _, rfl, rfl⟩
      · exact .inl hin
  · rintro (hin | ⟨a, result, rfl, rfl⟩)
    · exact (h.effect hs).evaluated hin
    · exact h.finished_evaluated

theorem Step.drops_dropped (h : Step m l m') (hl : l.drops site = true) :
    site ∈ m'.session.memory.dropped := by
  obtain ⟨g, node, e, rfl, rfl⟩ := Label.drops_iff.mp hl
  cases h with
  | settle =>
    rw [Session.settle_memory]
    exact List.mem_insert_self

theorem Step.failed_dropped (h : Step m (.finished a (.error e)) m')
    (hp : a.definition.isPure = true) : a.site ∈ m'.session.memory.dropped := by
  cases h with
  | finish =>
    rw [Session.finishNode_memory]
    exact Session.mem_droppedAfter.mpr (.inr ⟨rfl, hp, e, rfl⟩)

/-- The nodes given up grow by the one dropped from a queue or by a pure one whose body fails. -/
theorem Step.dropped_iff (hs : Stacked fs cs m) (h : Step m l m') :
    site ∈ m'.session.memory.dropped ↔ site ∈ m.session.memory.dropped ∨ l.drops site = true ∨
      ∃ a e, l = .finished a (.error e) ∧ a.definition.isPure = true ∧ a.site = site := by
  constructor
  · intro hin
    cases h.effect hs with
    | quiet same => exact .inl (same.dropped ▸ hin)
    | output _ _ dropped => exact .inl (dropped ▸ hin)
    | drop _ _ dropped =>
      rw [dropped] at hin
      rcases List.mem_insert_iff.mp hin with rfl | hin
      · exact .inr (.inl (Label.drops_iff.mpr ⟨_, _, _, rfl, rfl⟩))
      · exact .inl hin
    | finish _ _ dropped =>
      rw [dropped] at hin
      rcases Session.mem_droppedAfter.mp hin with hin | ⟨rfl, hp, e, rfl⟩
      · exact .inl hin
      · exact .inr (.inr ⟨_, e, rfl, hp, rfl⟩)
  · rintro (hin | hl | ⟨a, e, rfl, hp, rfl⟩)
    · exact (h.effect hs).dropped hin
    · exact h.drops_dropped hl
    · exact h.failed_dropped hp

/-- What a body is asked to put where its node has no output is not kept. -/
theorem Step.output_bound (hs : Stacked fs cs m)
    (h : Step m (.performed a (.setOutput port v)) m') :
    m'.session.memory.cache = m.session.memory.cache ∨
      ∃ n, a.graph.node? a.handle = some n ∧ port < n.outputCount := by
  cases h with
  | @perform _ _ _ s _ next =>
    obtain ⟨n, hn, -, hc⟩ := hs.current rfl
    rcases (Operation.setOutput port v).run_cases s with hm | ⟨port', v', c, he, hc', hp, -⟩ |
      ⟨_, _, he, -, -⟩ | ⟨_, _, _, he, -, -, -⟩
    · exact .inl (congrArg Memory.cache hm)
    · cases he
      rw [hc] at hc'
      cases hc'
      exact .inr ⟨n, hn, hp⟩
    · cases he
    · cases he

/-- An output new to the cache is one of the body that runs. -/
theorem Step.cached_cases (hs : Stacked fs cs m) (h : Step m l m')
    (hk : m'.session.memory.cache.get? key = some v) :
    (∃ v, m.session.memory.cache.get? key = some v) ∨ ∃ a n, a ∈ m.active ∧
      a.site = ⟨key.graph, key.port.node⟩ ∧ a.graph.node? a.handle = some n ∧
      key.port.port < n.outputCount := by
  cases h.effect hs with
  | quiet same => exact .inl ⟨v, same.cache ▸ hk⟩
  | drop cache | finish cache => exact .inl ⟨v, cache ▸ hk⟩
  | output cache =>
    rcases h.output_bound hs with hsame | ⟨n, hn, hp⟩
    · exact .inl ⟨v, hsame ▸ hk⟩
    · rw [cache, Table.get?_insert] at hk
      split at hk
      · rename_i he
        subst he
        exact .inr ⟨_, n, h.performed_active, rfl, hn, hp⟩
      · exact .inl ⟨v, hk⟩

/-- The node of the activation stands in its graph with a body, and nothing it reads is missing. -/
structure Activation.Due (a : Activation) (μ : Memory) : Prop where
  body : ∃ n b, a.graph.node? a.handle = some n ∧ n.definition.body = some b
  supplied : a.Supplied μ

theorem Step.started_due (h : Step m (.started a) m') : a.Due m'.session.memory := by
  refine ⟨?_, h.started_supplied⟩
  cases h with
  | start hd he hv =>
    cases Session.verdict_judged hv with
    | due kept live new nothing body => exact ⟨_, _, live, body⟩

/-- A node for which all is there is not given up. -/
theorem Activation.Due.not_dropped {a : Activation} {s : Session} (ha : a.Due s.memory)
    (e : Error) : s.verdict a.graph a.handle ≠ .drop e := by
  obtain ⟨⟨n, b, hn, hb⟩, hsupplied⟩ := ha
  have hnothing : s.awaited a.graph a.handle = [] := by
    refine List.eq_nil_iff_forall_not_mem.mpr ?_
    intro output hin
    obtain ⟨n', port, hn', hp, hw, hc⟩ := Session.mem_awaited.mp hin
    obtain ⟨v, hv⟩ := hsupplied n' port output hn' hp hw
    have hcached : s.cached? a.graph.id output = some v := hv
    simp [Session.isCached, hcached] at hc
  intro hv
  cases Session.verdict_judged hv with
  | missing kept none =>
    rw [hn] at none
    cases none
  | stuck kept live new vain =>
    rw [Session.pending_eq_nil.mpr hnothing] at vain
    cases vain
  | bodiless kept live new nothing body =>
    rw [hn] at live
    cases live
    rw [hb] at body
    cases body

/-- A step that takes a node from a queue for good finds that it was not given up before. -/
theorem Step.kept (h : Step m l m') (hl : l.starts site = true ∨ l.drops site = true) :
    site ∉ m.session.memory.dropped := by
  have hnot {s s' : Session} {g : Graph} {node taken : Handle}
      (hd : s.dequeue? = some (taken, s')) (kept : s'.countStep.isDropped g.id node = false) :
      (⟨g.id, node⟩ : Site) ∉ s.memory.dropped := by
    intro hin
    rw [← (Session.dequeue?_sameResults hd).dropped] at hin
    have hdropped : s'.countStep.isDropped g.id node = true := List.contains_iff_mem.mpr hin
    rw [kept] at hdropped
    cases hdropped
  rcases hl with hl | hl
  · obtain ⟨a, rfl, rfl⟩ := Label.starts_iff.mp hl
    cases h with
    | start hd he hv =>
      cases Session.verdict_judged hv with
      | due kept => exact hnot hd kept
  · obtain ⟨g, node, e, rfl, rfl⟩ := Label.drops_iff.mp hl
    cases h with
    | settle hd he hv hn =>
      cases Session.verdict_judged hv with
      | missing kept | stuck kept | bodiless kept => exact hnot hd kept

/-- A node is taken from the queue of a graph under evaluation. -/
theorem Step.taken_graph (hs : Stacked fs cs m) (h : Step m l m')
    (hl : l.taken? = some (g, node)) : g ∈ m.session.memory.graphs := by
  have htop {μ : Memory} {g' : Graph} {as : List Activation} (ha : Atop fs cs g' as μ) :
      g' ∈ μ.graphs := by
    obtain ⟨frame, rest, hf, hg, -⟩ := ha
    rw [Memory.graphs, hf, List.map_cons]
    exact hg ▸ List.mem_cons_self
  cases h with
  | exhaust | settle | start =>
    cases hl
    exact htop hs
  | _ => cases hl

/-- The books of a session say of its past what its labels say. -/
structure Booked (ls : List Label) (m : Machine) : Prop where
  evaluated : ∀ site, site ∈ m.session.memory.evaluated ↔
    ∃ a result, .finished a result ∈ ls ∧ a.site = site
  dropped : ∀ site, site ∈ m.session.memory.dropped ↔ (∃ l ∈ ls, l.drops site = true) ∨
    ∃ a e, .finished a (.error e) ∈ ls ∧ a.definition.isPure = true ∧ a.site = site
  cached : ∀ key v, m.session.memory.cache.get? key = some v → ∃ a n, .started a ∈ ls ∧
    a.site = ⟨key.graph, key.port.node⟩ ∧ a.graph.node? a.handle = some n ∧
    key.port.port < n.outputCount
  active : ∀ a ∈ m.active, .started a ∈ ls
  due : ∀ a, .started a ∈ ls → a.Due m.session.memory
  begun : ∀ a, .started a ∈ ls → ∃ entry, .entered a.graph entry ∈ ls
  entered : ∀ g ∈ m.session.memory.graphs, ∃ entry, .entered g entry ∈ ls

theorem Session.Fresh.booked {s : Session} (hs : s.Fresh) (scene : Scene) :
    Booked [] ⟨scene, .idle, [], s⟩ where
  evaluated := by
    intro site
    simp [Session.memory, hs.evaluated]
  dropped := by
    intro site
    simp [Session.memory, hs.dropped]
  cached := by
    intro key v hk
    simp only [Session.memory, hs.cache] at hk
    cases hk
  active := List.forall_mem_nil _
  due := by
    intro a ha
    cases ha
  begun := by
    intro a ha
    cases ha
  entered := by
    intro g hg
    simp only [Memory.graphs, Session.memory, hs.frames] at hg
    cases hg

theorem Booked.step (hb : Booked ls m) (hs : Stacked fs cs m) (h : Step m l m') :
    Booked (ls ++ [l]) m' where
  evaluated := by
    intro site
    rw [h.evaluated_iff hs, hb.evaluated]
    constructor
    · rintro (⟨a, result, ha, hsite⟩ | ⟨a, result, rfl, hsite⟩)
      · exact ⟨a, result, List.mem_append_left _ ha, hsite⟩
      · exact ⟨a, result, by simp, hsite⟩
    · rintro ⟨a, result, ha, hsite⟩
      rcases List.mem_append.mp ha with ha | ha
      · exact .inl ⟨a, result, ha, hsite⟩
      · exact .inr ⟨a, result, (List.mem_singleton.mp ha).symm, hsite⟩
  dropped := by
    intro site
    rw [h.dropped_iff hs, hb.dropped]
    constructor
    · rintro ((⟨l', hl', hd⟩ | ⟨a, e, ha, hrest⟩) | hd | ⟨a, e, rfl, hrest⟩)
      · exact .inl ⟨l', List.mem_append_left _ hl', hd⟩
      · exact .inr ⟨a, e, List.mem_append_left _ ha, hrest⟩
      · exact .inl ⟨l, by simp, hd⟩
      · exact .inr ⟨a, e, by simp, hrest⟩
    · rintro (⟨l', hl', hd⟩ | ⟨a, e, ha, hrest⟩)
      · rcases List.mem_append.mp hl' with hl' | hl'
        · exact .inl (.inl ⟨l', hl', hd⟩)
        · exact .inr (.inl (List.mem_singleton.mp hl' ▸ hd))
      · rcases List.mem_append.mp ha with ha | ha
        · exact .inl (.inr ⟨a, e, ha, hrest⟩)
        · exact .inr (.inr ⟨a, e, (List.mem_singleton.mp ha).symm, hrest⟩)
  cached := by
    intro key v hk
    rcases h.cached_cases hs hk with ⟨v', hk⟩ | ⟨a, n, ha, hrest⟩
    · obtain ⟨a, n, ha, hrest⟩ := hb.cached key v' hk
      exact ⟨a, n, List.mem_append_left _ ha, hrest⟩
    · exact ⟨a, n, List.mem_append_left _ (hb.active a ha), hrest⟩
  active := by
    intro a ha
    rcases h.active with he | ⟨b, rfl, he⟩ | ⟨b, result, -, he⟩
    · exact List.mem_append_left _ (hb.active a (he ▸ ha))
    · rw [he] at ha
      rcases List.mem_cons.mp ha with rfl | ha
      · simp
      · exact List.mem_append_left _ (hb.active a ha)
    · exact List.mem_append_left _ (hb.active a (he ▸ List.mem_cons_of_mem b ha))
  due := by
    intro a ha
    rcases List.mem_append.mp ha with ha | ha
    · obtain ⟨hbody, hsupplied⟩ := hb.due a ha
      exact ⟨hbody, hsupplied.effect (h.effect hs)⟩
    · rw [← List.mem_singleton.mp ha] at h
      exact h.started_due
  begun := by
    intro a ha
    have hin : ∃ entry, .entered a.graph entry ∈ ls := by
      rcases List.mem_append.mp ha with ha | ha
      · exact hb.begun a ha
      · rw [← List.mem_singleton.mp ha] at h
        exact hb.entered a.graph (h.taken_graph hs rfl)
    obtain ⟨entry, he⟩ := hin
    exact ⟨entry, List.mem_append_left _ he⟩
  entered := by
    intro g hg
    have kept (hg : g ∈ m.session.memory.graphs) : ∃ entry, .entered g entry ∈ ls ++ [l] := by
      obtain ⟨entry, he⟩ := hb.entered g hg
      exact ⟨entry, List.mem_append_left _ he⟩
    obtain ⟨-, hgraphs | hgraphs | ⟨g', entry, rfl, hgraphs, -⟩⟩ := h.graphs
    all_goals rw [hgraphs] at hg
    · exact kept hg
    · exact kept (List.mem_of_mem_tail hg)
    · rcases List.mem_cons.mp hg with rfl | hg
      · exact ⟨entry, by simp⟩
      · exact kept hg

theorem Move.graphs (h : Move m m') :
    m'.session.memory.graphs = m.session.memory.graphs := by
  cases h with
  | perform op => exact (op.run_sameStacks _).graphs
  | equip | call | collect => rfl

theorem Booked.move (hb : Booked ls m) (hs : Stacked [] [] m) (h : Move m m') : Booked ls m' := by
  obtain ⟨hcache, hevaluated, hdropped⟩ := h.sameResults hs
  constructor
  · rw [hevaluated]
    exact hb.evaluated
  · rw [hdropped]
    exact hb.dropped
  · rw [hcache]
    exact hb.cached
  · rw [h.active.2]
    exact List.forall_mem_nil _
  · intro a ha
    obtain ⟨hbody, hsupplied⟩ := hb.due a ha
    refine ⟨hbody, ?_⟩
    unfold Activation.Supplied
    rw [hcache]
    exact hsupplied
  · exact hb.begun
  · rw [h.graphs]
    exact hb.entered

theorem Life.booked (h : Life ls m) : Booked ls m := by
  refine h.keeps ?_ ?_ ?_
  · intro scene s hs
    exact hs.booked scene
  · intro ls m l m' life hb h
    exact hb.step life.stacked.1 h
  · intro ls m m' life hb h
    exact hb.move life.stacked.1 h

/-- What has been given up is neither started nor given up once more. -/
theorem Life.not_after_drop (h : Life ls m) (hstep : Step m l m')
    (hl : l.starts site = true ∨ l.drops site = true) {l' : Label} (hl' : l' ∈ ls) :
    l'.drops site = false := by
  refine Bool.eq_false_iff.mpr ?_
  intro hd
  exact hstep.kept hl ((h.booked.dropped site).mpr (.inl ⟨l', hl', hd⟩))

theorem Life.drops_le_one (h : Life ls m) (site : Site) : ls.countP (·.drops site) ≤ 1 := by
  refine h.keeps (P := fun ls _ => ls.countP (·.drops site) ≤ 1) ?_ ?_ ?_
  · intro scene s hs
    exact Nat.zero_le _
  · intro ls m l m' life ih h
    rw [List.countP_append, List.countP_singleton]
    split
    · rename_i hl
      have hnone : ls.countP (·.drops site) = 0 := by
        refine List.countP_eq_zero.mpr ?_
        intro l' hl' hd
        rw [life.not_after_drop h (.inr hl) hl'] at hd
        cases hd
      omega
    · exact ih
  · intro ls m m' _ ih _
    exact ih

theorem Life.no_start_after_drop (h : Life ls m) (he : ls = pre ++ l :: post)
    (hl : l.drops site = true) (ha : .started a ∈ post) : a.site ≠ site := by
  intro hsite
  obtain ⟨before, after, rfl⟩ := List.append_of_mem ha
  rw [← List.cons_append, ← List.append_assoc] at he
  obtain ⟨m₁, m₂, h₁, hstep, -⟩ := h.split he
  have hstart := Label.starts_iff.mpr ⟨a, rfl, hsite⟩
  rw [h₁.not_after_drop hstep (.inl hstart) (by simp)] at hl
  cases hl

/-- In a graph that nobody edits, what a node began with stays there: it is not given up later. -/
theorem Life.no_drop_after_start (h : Life ls m) (hu : Unedited ls) (ha : .started a ∈ ls)
    (hstep : Step m l m') : l.drops a.site = false := by
  refine Bool.eq_false_iff.mpr ?_
  intro hl
  obtain ⟨g, node, e, rfl, hsite⟩ := Label.drops_iff.mp hl
  obtain ⟨entry, hg⟩ := h.booked.entered g (hstep.taken_graph h.stacked.1 rfl)
  obtain ⟨entry', hag⟩ := h.booked.begun a ha
  rw [Activation.site, Site.mk.injEq] at hsite
  obtain ⟨hid, rfl⟩ := hsite
  -- The graph of the verdict is the one the body was started in, not one edited since.
  obtain rfl := hu a.graph entry' hag g entry hg hid
  cases hstep with
  | settle hd he hv hn =>
    obtain ⟨hbody, hsupplied⟩ := h.booked.due a ha
    refine Activation.Due.not_dropped ⟨hbody, ?_⟩ e hv
    unfold Activation.Supplied
    rw [Session.countStep_memory, (Session.dequeue?_sameResults hd).cache]
    exact hsupplied

theorem Unedited.of_append (hu : Unedited (ls ++ ls')) : Unedited ls := by
  intro g entry hg g' entry' hg'
  exact hu g entry (List.mem_append_left _ hg) g' entry' (List.mem_append_left _ hg')

/-- In graphs that nobody edits, a node is run or given up but never both. -/
theorem Life.started_not_dropped (h : Life ls m) (hu : Unedited ls) (ha : .started a ∈ ls)
    (hl : l ∈ ls) : l.drops a.site = false := by
  revert hu ha hl
  refine h.keeps (P := fun ls _ => Unedited ls → .started a ∈ ls → l ∈ ls →
    l.drops a.site = false) ?_ ?_ ?_
  · intro scene s hs hu ha
    cases ha
  · intro ls m l' m' life ih h hu ha hl
    rcases List.mem_append.mp ha with ha | ha
    · rcases List.mem_append.mp hl with hl | hl
      · exact ih hu.of_append ha hl
      · rw [List.mem_singleton.mp hl]
        exact life.no_drop_after_start hu.of_append ha h
    · rw [← List.mem_singleton.mp ha] at h hl
      rcases List.mem_append.mp hl with hl | hl
      · exact life.not_after_drop h (.inl (Label.starts_iff.mpr ⟨a, rfl, rfl⟩)) hl
      · rw [List.mem_singleton.mp hl]
        rfl
  · intro ls m m' _ ih _
    exact ih

theorem Run.cached (h : Run m ls' m') (life : Life ls m)
    (hk : ∃ v, m.session.memory.cache.get? key = some v) :
    ∃ v, m'.session.memory.cache.get? key = some v := by
  induction h with
  | refl => exact hk
  | step before last ih =>
    obtain ⟨v, hv⟩ := ih
    exact (last.effect (life.run before).stacked.1).cached hv
  | move before last ih =>
    rw [(last.sameResults (life.run before).stacked.1).cache]
    exact ih

/-- At every moment of its life a session knows which bodies have returned and which nodes it has
given up. None is given up twice or run afterwards, and where graphs stay as they are none that has
ever run. What is in the cache came from bodies that were started, and stays. -/
theorem bookkeeping_partitions_nodes {ls : List Label} {m : Machine} (h : Life ls m) :
    (∀ site, ls.countP (·.drops site) ≤ 1 ∧
      ∀ pre l post, ls = pre ++ l :: post → l.drops site = true →
        ∀ a, .started a ∈ post → a.site ≠ site) ∧
    (Unedited ls → ∀ a l, .started a ∈ ls → l ∈ ls → l.drops a.site = false) ∧
    (∀ site, site ∈ m.session.evaluated ↔ ∃ a result, .finished a result ∈ ls ∧ a.site = site) ∧
    (∀ site, site ∈ m.session.dropped ↔ (∃ l ∈ ls, l.drops site = true) ∨
      ∃ a e, .finished a (.error e) ∈ ls ∧ a.definition.isPure = true ∧ a.site = site) ∧
    (∀ graph output v, m.session.cached? graph output = some v →
      ∃ a n, .started a ∈ ls ∧ a.site = ⟨graph, output.node⟩ ∧
        a.graph.node? a.handle = some n ∧ output.port < n.outputCount) ∧
    ∀ ls' m' graph output v, Run m ls' m' → m.session.cached? graph output = some v →
      ∃ v', m'.session.cached? graph output = some v' := by
  have hb := h.booked
  refine ⟨?_, ?_, hb.evaluated, hb.dropped, ?_, ?_⟩
  · intro site
    refine ⟨h.drops_le_one site, ?_⟩
    intro pre l post he hl a ha
    exact h.no_start_after_drop he hl ha
  · intro hu a l ha hl
    exact h.started_not_dropped hu ha hl
  · intro graph output v hv
    exact hb.cached ⟨graph, output⟩ v hv
  · intro ls' m' graph output v hrun hv
    exact hrun.cached h ⟨v, hv⟩

namespace Losses

theorem labels_unedited : Unedited labels := by
  have hgraph (g : Graph) (e : Entry) (hm : .entered g e ∈ labels) : g = graph := by
    have hg : g ∈ labels.filterMap Sums.entered? := List.mem_filterMap.mpr ⟨_, hm, rfl⟩
    have hthree : labels.filterMap Sums.entered? = [graph, graph, graph] := rfl
    rw [hthree] at hg
    simpa using hg
  intro g e hm g' e' hm' _
  rw [hgraph g e hm, hgraph g' e' hm']

def failing : Site := ⟨graph.id, ⟨3, 1⟩⟩

def waiting : Site := ⟨graph.id, ⟨4, 1⟩⟩

end Losses

/-- The node that fails has run and is given up; the one that waits for it is given up, once, and
does not run. -/
theorem bookkeeping_partitions_nodes_losses :
    Unedited Losses.labels ∧
    Losses.final.dropped = [Losses.waiting, Losses.failing] ∧
    (∃ a result, .finished a result ∈ Losses.labels ∧ a.site = Losses.failing) ∧
    (∀ l ∈ Losses.labels, l.drops Losses.failing = false) ∧
    Losses.labels.countP (·.drops Losses.waiting) ≤ 1 ∧
    ∀ a, .started a ∈ Losses.labels → a.site ≠ Losses.waiting := by
  obtain ⟨hdrops, hapart, hevaluated, -, -, -⟩ := bookkeeping_partitions_nodes Losses.observed.life
  have hu := Losses.labels_unedited
  refine ⟨hu, rfl, ?_, ?_, (hdrops Losses.waiting).1, ?_⟩
  · exact (hevaluated Losses.failing).mp (List.mem_of_elem_eq_true rfl)
  · intro l hl
    exact hapart hu ⟨Losses.graph, ⟨3, 1⟩, Losses.broken⟩ l (List.mem_of_getElem? (i := 17) rfl) hl
  · intro a ha hsite
    have hdrop : Losses.labels[19]?.map (·.drops Losses.waiting) = some true := rfl
    obtain ⟨l, hl, hd⟩ := Option.map_eq_some_iff.mp hdrop
    rw [← hsite, hapart hu a l ha (List.mem_of_getElem? hl)] at hd
    cases hd

end Flowgraph
