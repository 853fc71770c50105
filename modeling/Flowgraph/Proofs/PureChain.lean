import Flowgraph.Proofs.TameBodies

namespace Flowgraph

/-- The outputs that are wired to the inputs of a node, in the order of its ports. -/
def Graph.wired (g : Graph) (h : Handle) : List PortRef :=
  match g.node? h with
  | none => []
  | some n => (List.range n.inputCount).filterMap fun port => g.producer? ⟨h, port⟩

/-- A node that is not pure at the end of a chain of pure ones: each node has one wired input, which
is fed by the next, and the last has none. -/
structure Graph.PureChain (g : Graph) (n : Nat) (node : Nat → Handle) (port : Nat → Nat) :
    Prop where
  live : ∀ i ≤ n, ∃ d, g.node? (node i) = some d ∧ d.definition.body ≠ none ∧
    d.isPure = decide (0 < i)
  distinct : ∀ i j, 0 < i → i ≤ n → 0 < j → j ≤ n → node i = node j → i = j
  next : ∀ i < n, g.wired (node i) = [⟨node (i + 1), port (i + 1)⟩]
  last : g.wired (node n) = []

theorem Session.awaited_eq_filter (s : Session) (g : Graph) (h : Handle) :
    s.awaited g h = (g.wired h).filter fun output => !s.isCached g.id output := by
  unfold awaited Graph.wired
  cases g.node? h with
  | none => rfl
  | some n =>
    rw [List.filter_filterMap]

theorem Graph.mem_wired {g : Graph} {h : Handle} {output : PortRef} :
    output ∈ g.wired h ↔ ∃ n port, g.node? h = some n ∧ port < n.inputCount ∧
      g.producer? ⟨h, port⟩ = some output := by
  unfold Graph.wired
  cases g.node? h with
  | none => simp
  | some n => simp

theorem Graph.Feeds.mem_wired {g : Graph} {p h : Handle} (hf : g.Feeds p h) :
    ∃ output ∈ g.wired h, output.node = p := by
  obtain ⟨n, port, output, hn, hp, hw, rfl⟩ := hf
  exact ⟨output, Graph.mem_wired.mpr ⟨n, port, hn, hp, hw⟩, rfl⟩

namespace Graph.PureChain

variable {g : Graph} {n : Nat} {node : Nat → Handle} {port : Nat → Nat}

theorem isPure_eq (c : g.PureChain n node port) (hi : i ≤ n) :
    g.isPure (node i) = decide (0 < i) := by
  obtain ⟨d, hd, -, hpure⟩ := c.live i hi
  rw [Graph.isPure, hd]
  simpa using hpure

/-- The first node is not pure and the others are, so it is none of them. -/
theorem inj (c : g.PureChain n node port) (hi : i ≤ n) (hj : j ≤ n) (h : node i = node j) :
    i = j := by
  have hpure : decide (0 < i) = decide (0 < j) := by rw [← c.isPure_eq hi, ← c.isPure_eq hj, h]
  by_cases hpos : 0 < i
  · have hpos' : 0 < j := by simpa [hpos] using hpure
    exact c.distinct i j hpos hi hpos' hj h
  · have hpos' : ¬ 0 < j := by simpa [hpos] using hpure
    omega

/-- Whatever feeds a node of the chain stands further back in it. -/
theorem behind (c : g.PureChain n node port) (hi : i ≤ n)
    (h : Relation.TransGen g.Feeds p (node i)) : ∃ j ≤ n, i < j ∧ p = node j := by
  have step {p : Handle} {i : Nat} (hi : i ≤ n) (hf : g.Feeds p (node i)) :
      i + 1 ≤ n ∧ p = node (i + 1) := by
    obtain ⟨output, hm, rfl⟩ := hf.mem_wired
    rcases Nat.lt_or_eq_of_le hi with hlt | rfl
    · rw [c.next i hlt, List.mem_singleton] at hm
      exact ⟨hlt, by rw [hm]⟩
    · rw [c.last] at hm
      cases hm
  induction h using Relation.TransGen.head_induction_on with
  | single hf =>
    obtain ⟨hle, rfl⟩ := step hi hf
    exact ⟨i + 1, hle, Nat.lt_succ_self i, rfl⟩
  | head hf _ ih =>
    obtain ⟨j, hj, hlt, rfl⟩ := ih
    obtain ⟨hle, rfl⟩ := step hj hf
    exact ⟨j + 1, hle, by omega, rfl⟩

theorem not_dependsOnItself (c : g.PureChain n node port) (hi : i ≤ n) (s : Session) :
    s.dependsOnItself g (node i) = false := by
  rw [Bool.eq_false_iff]
  intro hd
  obtain ⟨j, hj, hlt, he⟩ := c.behind hi (Session.dependsOnItself_sound hd)
  have := c.inj hi hj he
  omega

/-- The nodes from `m` on have run and left their outputs, and the others have not. -/
structure Resolved (c : g.PureChain n node port) (m : Nat) (μ : Memory) : Prop where
  kept : ∀ i ≤ n, ⟨g.id, node i⟩ ∉ μ.dropped
  evaluated : ∀ i ≤ n, (⟨g.id, node i⟩ ∈ μ.evaluated ↔ m ≤ i)
  cached : ∀ i < n,
    ((μ.cache.get? ⟨g.id, node (i + 1), port (i + 1)⟩).isSome = true ↔ m ≤ i + 1)

section

variable {c : g.PureChain n node port} {s : Session}

theorem Resolved.same {μ μ' : Memory} (h : c.Resolved m μ) (hs : μ.SameResults μ') :
    c.Resolved m μ' := by
  obtain ⟨hcache, hevaluated, hdropped⟩ := hs
  refine ⟨?_, ?_, ?_⟩
  · rw [hdropped]
    exact h.kept
  · rw [hevaluated]
    exact h.evaluated
  · rw [hcache]
    exact h.cached

theorem Resolved.isDropped (h : c.Resolved m s.memory) (hi : i ≤ n) :
    s.isDropped g.id (node i) = false := by
  rw [Bool.eq_false_iff]
  intro hd
  exact h.kept i hi (List.contains_iff_mem.mp hd)

theorem Resolved.isEvaluated (h : c.Resolved m s.memory) (hi : i ≤ n) :
    s.isEvaluated g.id (node i) = decide (m ≤ i) := by
  rw [Bool.eq_iff_iff, decide_eq_true_iff, ← h.evaluated i hi]
  exact List.contains_iff_mem

theorem Resolved.awaited_next (h : c.Resolved m s.memory) (hi : i < n) :
    s.awaited g (node i) = if m ≤ i + 1 then [] else [⟨node (i + 1), port (i + 1)⟩] := by
  have hcached : s.isCached g.id ⟨node (i + 1), port (i + 1)⟩ = decide (m ≤ i + 1) := by
    rw [Bool.eq_iff_iff, decide_eq_true_iff, ← h.cached i hi]
    rfl
  rw [s.awaited_eq_filter, c.next i hi]
  by_cases hm : m ≤ i + 1
  · simp [hcached, hm]
  · simp [hcached, hm]

/-- A pure node is not run again. -/
theorem Resolved.verdict_again (h : c.Resolved m s.memory) (hpos : 0 < i) (hi : i ≤ n)
    (hm : m ≤ i) : s.verdict g (node i) = .alreadyEvaluated := by
  obtain ⟨d, hd, -, hpure⟩ := c.live i hi
  rw [Session.verdict, h.isDropped hi, Graph.node_eq_ok.mpr hd]
  simp [hpure, hpos, h.isEvaluated hi, hm]

/-- A node whose producer has not run waits for it. -/
theorem Resolved.verdict_early (h : c.Resolved m s.memory) (hi : i < n) (hm : i + 1 < m) :
    s.verdict g (node i) = .defer [node (i + 1)] := by
  obtain ⟨d, hd, -, -⟩ := c.live i (Nat.le_of_lt hi)
  obtain ⟨d', hd', -, hpure'⟩ := c.live (i + 1) hi
  have hnew : s.isEvaluated g.id (node i) = false := by
    rw [h.isEvaluated (Nat.le_of_lt hi)]
    simpa using (by omega : i < m)
  have hnext : s.awaitedProducer g (node i) ⟨node (i + 1), port (i + 1)⟩ = .ok (node (i + 1)) := by
    have hevaluated : s.isEvaluated g.id (node (i + 1)) = false := by
      rw [h.isEvaluated hi]
      simpa using hm
    simp [Session.awaitedProducer, Graph.node_eq_ok.mpr hd', hpure', h.isDropped hi, hevaluated,
      bind, Except.bind]
  have hpending : s.pending g (node i) = .ok [node (i + 1)] := by
    rw [Session.pending, h.awaited_next hi, if_neg (Nat.not_le_of_lt hm)]
    simp [Session.producersOf, hnext, c.not_dependsOnItself (Nat.le_of_lt hi) s, bind, Except.bind]
  rw [Session.verdict, h.isDropped (Nat.le_of_lt hi), Graph.node_eq_ok.mpr hd]
  simp [hnew, hpending]

/-- A node whose producer was the last to run is next. -/
theorem Resolved.verdict_due (h : c.Resolved (i + 1) s.memory) (hi : i ≤ n) :
    ∃ d body, s.verdict g (node i) = .start d body := by
  obtain ⟨d, hd, hbody, -⟩ := c.live i hi
  obtain ⟨body, hbody⟩ := Option.ne_none_iff_exists'.mp hbody
  have hnew : s.isEvaluated g.id (node i) = false := by
    rw [h.isEvaluated hi]
    simp
  have hnothing : s.awaited g (node i) = [] := by
    rcases Nat.lt_or_eq_of_le hi with hlt | rfl
    · rw [h.awaited_next hlt, if_pos (Nat.le_refl _)]
    · rw [s.awaited_eq_filter, c.last, List.filter_nil]
  refine ⟨d.definition, body, ?_⟩
  rw [Session.verdict, h.isDropped hi, Graph.node_eq_ok.mpr hd]
  simp [hnew, Session.pending_eq_nil.mpr hnothing, hbody]

/-- The next node has run and left its output. -/
theorem Resolved.run {μ μ' : Memory} (h : c.Resolved (i + 1) μ) (hi : i ≤ n)
    (hdropped : μ'.dropped = μ.dropped)
    (hevaluated : μ'.evaluated = μ.evaluated.insert ⟨g.id, node i⟩)
    (hcache : ∀ output : PortRef, output.node ≠ node i →
      μ'.cache.get? ⟨g.id, output⟩ = μ.cache.get? ⟨g.id, output⟩)
    (hleft : ∀ j < n, j + 1 = i →
      (μ'.cache.get? ⟨g.id, node (j + 1), port (j + 1)⟩).isSome = true) : c.Resolved i μ' where
  kept := by
    rw [hdropped]
    exact h.kept
  evaluated j hj := by
    have hsite : (⟨g.id, node j⟩ : Site) = ⟨g.id, node i⟩ ↔ j = i :=
      ⟨fun he => c.inj hj hi (congrArg Site.node he), fun he => by rw [he]⟩
    rw [hevaluated, List.mem_insert_iff, hsite, h.evaluated j hj]
    omega
  cached j hj := by
    by_cases he : j + 1 = i
    · exact ⟨fun _ => Nat.le_of_eq he.symm, fun _ => hleft j hj he⟩
    · have hne : node (j + 1) ≠ node i := fun hn => he (c.inj hj hi hn)
      rw [hcache _ hne, h.cached j hj]
      omega

end

/-- The outputs that are read in the chain. -/
def outputs (n : Nat) (node : Nat → Handle) (port : Nat → Nat) : List PortRef :=
  (List.range n).map fun i => ⟨node (i + 1), port (i + 1)⟩

/-- The queue after a number of rounds, each of which puts every node behind the next one. -/
def queueAfter : Nat → List Nat
  | 0 => [0]
  | k + 1 => (queueAfter k).flatMap fun i => [i + 1, i]

theorem length_queueAfter (k : Nat) : (queueAfter k).length = 2 ^ k := by
  induction k with
  | zero => rfl
  | succ k ih => simp [queueAfter, ih, Nat.pow_succ]

/-- A round takes one node more than all those before it. -/
theorem taken_add_length (k : Nat) : 2 ^ k - 1 + (queueAfter k).length = 2 ^ (k + 1) - 1 := by
  have := Nat.two_pow_pos k
  rw [length_queueAfter]
  omega

theorem le_of_mem_queueAfter (hi : i ∈ queueAfter k) : i ≤ k := by
  induction k generalizing i with
  | zero => simpa [queueAfter] using hi
  | succ k ih =>
    simp only [queueAfter, List.mem_flatMap, List.mem_cons, List.not_mem_nil, or_false] at hi
    obtain ⟨j, hj, rfl | rfl⟩ := hi
    · exact Nat.succ_le_succ (ih hj)
    · exact Nat.le_succ_of_le (ih hj)

/-- A round is the one before it, moved on by one, followed by that one itself. -/
theorem queueAfter_succ (k : Nat) :
    queueAfter (k + 1) = (queueAfter k).map (· + 1) ++ queueAfter k := by
  induction k with
  | zero => rfl
  | succ k ih =>
    have hmap : ((queueAfter k).map (· + 1)).flatMap (fun i => [i + 1, i]) =
        (queueAfter (k + 1)).map (· + 1) := by
      simp [queueAfter, List.map_flatMap, List.flatMap_map]
    calc queueAfter (k + 1 + 1)
      _ = ((queueAfter k).map (· + 1)).flatMap (fun i => [i + 1, i]) ++
          (queueAfter k).flatMap (fun i => [i + 1, i]) := by
        rw [queueAfter, ih, List.flatMap_append]
      _ = (queueAfter (k + 1)).map (· + 1) ++ queueAfter (k + 1) := by rw [hmap, queueAfter]

/-- The first node stands at the end of every round and nowhere else. -/
theorem queueAfter_eq (k : Nat) : ∃ front, queueAfter k = front ++ [0] ∧ ∀ i ∈ front, 0 < i := by
  induction k with
  | zero => exact ⟨[], rfl, by simp⟩
  | succ k ih =>
    obtain ⟨front, hfront, hpos⟩ := ih
    refine ⟨(queueAfter k).map (· + 1) ++ front, ?_, ?_⟩
    · rw [queueAfter_succ, List.append_assoc, ← hfront]
    · intro i hi
      rcases List.mem_append.mp hi with hi | hi
      · obtain ⟨j, -, rfl⟩ := List.mem_map.mp hi
        exact Nat.succ_pos j
      · exact hpos i hi

/-- How a queue is worked off when the nodes from `m` on have run: each node either has run or is
the next to do so. The second list has those that run, and from the last number on all have run. -/
inductive Unwinds : Nat → List Nat → List Nat → Nat → Prop where
  | done : Unwinds m [] [] m
  | again (pos : 0 < i) (ran : m ≤ i) (rest : Unwinds m is js m') : Unwinds m (i :: is) js m'
  | next (rest : Unwinds i is js m') : Unwinds (i + 1) (i :: is) (i :: js) m'

theorem Unwinds.append (h : Unwinds m is js m') (h' : Unwinds m' is' js' m'') :
    Unwinds m (is ++ is') (js ++ js') m'' := by
  induction h with
  | done => exact h'
  | again pos ran _ ih => exact .again pos ran (ih h')
  | next _ ih => exact .next (ih h')

theorem Unwinds.shift (h : Unwinds m is js m') :
    Unwinds (m + 1) (is.map (· + 1)) (js.map (· + 1)) (m' + 1) := by
  induction h with
  | done => exact .done
  | again pos ran _ ih => exact .again (Nat.succ_pos _) (Nat.succ_le_succ ran) ih
  | next _ ih => exact .next ih

theorem unwinds_front {front : List Nat} (h : ∀ i ∈ front, 0 < i) : Unwinds 1 front [] 1 := by
  induction front with
  | nil => exact .done
  | cons i front ih =>
    obtain ⟨hi, hfront⟩ := List.forall_mem_cons.mp h
    exact .again hi hi (ih hfront)

/-- In the last round every node runs, from the back of the chain to its front. -/
theorem unwinds_queueAfter (k : Nat) :
    Unwinds (k + 1) (queueAfter k) (List.range (k + 1)).reverse 0 := by
  induction k with
  | zero => exact .next .done
  | succ k ih =>
    obtain ⟨front, hfront, hpos⟩ := queueAfter_eq k
    have hrange : (List.range (k + 1 + 1)).reverse =
        (List.range (k + 1)).reverse.map (· + 1) ++ [0] := by
      rw [List.range_succ_eq_map, List.reverse_cons, List.map_reverse]
    have hlast := (unwinds_front hpos).append (.next .done)
    rw [← hfront] at hlast
    rw [queueAfter_succ, hrange]
    exact ih.shift.append hlast

/-- A session in the middle of the chain: the nodes `is` are queued, and those from `m` on have
run. -/
structure Waits (c : g.PureChain n node port) (m : Nat) (is : List Nat) (s : Session) : Prop where
  frames : s.memory.frames = [⟨g, is.map node⟩]
  calls : s.memory.calls = []
  unlimited : s.memory.config.maxSteps = none
  resolved : c.Resolved m s.memory

section

variable {c : g.PureChain n node port} {s : Session}

theorem Waits.stacked (h : c.Waits m is s) (scene : Scene) :
    Stacked [] [] ⟨scene, .draining g, [], s⟩ := by
  refine ⟨_, _, h.frames, rfl, ?_⟩
  rw [h.calls]
  exact .base

/-- The first node of the queue is taken. -/
theorem Waits.take (h : c.Waits m (i :: is) s) :
    ∃ s', s.dequeue? = some (node i, s') ∧ s'.countStep.exceeded? = none ∧
      s'.memory = { s.memory with frames := [⟨g, is.map node⟩] } ∧
      c.Resolved m s'.countStep.memory := by
  obtain ⟨s', hd, hm⟩ := Session.dequeue?_frames h.frames
  refine ⟨s', hd, Session.exceeded?_dequeue h.unlimited hd, hm, ?_⟩
  rw [Session.countStep_memory]
  exact h.resolved.same (Session.dequeue?_sameResults hd)

/-- A node that has run is passed over. -/
theorem Waits.again (h : c.Waits m (i :: is) s) (hpos : 0 < i) (hi : i ≤ n) (hm : m ≤ i)
    (scene : Scene) :
    ∃ l s', Step ⟨scene, .draining g, [], s⟩ l ⟨scene, .draining g, [], s'⟩ ∧
      Costs [l] [] 1 0 ∧ c.Waits m is s' := by
  obtain ⟨s', hd, he, hmem, hr⟩ := h.take
  have hstep : Step ⟨scene, .draining g, [], s⟩ (.settled g (node i) .alreadyEvaluated) _ :=
    .settle hd he (hr.verdict_again hpos hi hm) (by simp)
  refine ⟨_, _, hstep, ⟨rfl, rfl, rfl, rfl, rfl, rfl⟩, ?_, ?_, ?_, ?_⟩
  · exact congrArg Memory.frames hmem
  · exact (congrArg Memory.calls hmem).trans h.calls
  · exact (congrArg (·.config.maxSteps) hmem).trans h.unlimited
  · exact hr

/-- A node whose producer has not run is put back behind it. -/
theorem Waits.early (h : c.Waits m (i :: is) s) (hi : i < n) (hm : i + 1 < m) (scene : Scene) :
    ∃ l s', Step ⟨scene, .draining g, [], s⟩ l ⟨scene, .draining g, [], s'⟩ ∧
      Costs [l] [] 1 1 ∧ c.Waits m (is ++ [i + 1, i]) s' := by
  obtain ⟨s', hd, he, hmem, hr⟩ := h.take
  have hstep : Step ⟨scene, .draining g, [], s⟩ (.settled g (node i) (.defer [node (i + 1)])) _ :=
    .settle hd he (hr.verdict_early hi hm) (by simp)
  have hsettled : (s'.countStep.settle g.id (node i) (.defer [node (i + 1)])).memory =
      { s.memory with frames := [⟨g, (is ++ [i + 1, i]).map node⟩] } := by
    rw [Session.settle_memory, Session.countStep_memory, hmem]
    simp [Memory.settle, Memory.enqueue]
  refine ⟨_, _, hstep, ⟨rfl, rfl, rfl, rfl, rfl, rfl⟩, ?_, ?_, ?_, ?_⟩
  · exact congrArg Memory.frames hsettled
  · exact (congrArg Memory.calls hsettled).trans h.calls
  · exact (congrArg (·.config.maxSteps) hsettled).trans h.unlimited
  · rw [hsettled]
    exact h.resolved.same ⟨rfl, rfl, rfl⟩

/-- The node that is next runs. -/
theorem Waits.due {scene : Scene} (h : c.Waits (i + 1) (i :: is) s) (hi : i ≤ n)
    (ht : Machine.Tame (outputs n node port) ⟨scene, .draining g, [], s⟩) :
    ∃ ls s', Steps ⟨scene, .draining g, [], s⟩ ls ⟨scene, .draining g, [], s'⟩ ∧
      Costs ls [node i] 1 0 ∧ c.Waits i is s' := by
  obtain ⟨s', hd, he, hmem, hr⟩ := h.take
  obtain ⟨d, body, hv⟩ := hr.verdict_due hi
  have hstart : Step ⟨scene, .draining g, [], s⟩ (.started ⟨g, node i, d⟩) _ := .start hd he hv
  have hs := (h.stacked scene).step hstart
  obtain ⟨ls, t, hbody, hcosts, hspared⟩ := (ht.step hstart).2.body hs
  have hfinish : Step ⟨scene, .running ⟨g, node i, d⟩ (.finish (.ok ())), [], t⟩
    (.finished ⟨g, node i, d⟩ (.ok ())) _ := .finish
  obtain ⟨htame, -⟩ := ((ht.step hstart).2.steps hbody).step hfinish
  obtain ⟨-, hleft⟩ := htame
  have hstarted : (s'.countStep.startNode g.id (node i) d).memory =
      { s.memory with frames := [⟨g, is.map node⟩], calls := [node i] } := by
    rw [Session.startNode_memory, Session.countStep_memory, hmem, h.calls]
  refine ⟨_, _, .head hstart (hbody.trans (.one hfinish)), ?_, ?_, ?_, ?_, ?_⟩
  · obtain ⟨hbegun, hended, htaken, hback, hdropped, hexhausted⟩ := hcosts
    have hstarts : dequeues [.started ⟨g, node i, d⟩] = 1 := rfl
    have hends : dequeues [.finished ⟨g, node i, d⟩ (.ok ())] = 0 := rfl
    refine ⟨?_, ?_, ?_, ?_, ?_, ?_⟩
    · simp [Label.begun?, hbegun]
    · simp [Label.ends, hended]
    · rw [dequeues_cons, dequeues_append, hstarts, htaken, hends]
    · simp [Label.defers, hback]
    · simp [Label.givesUp, hdropped]
    · simp [Label.exhausts, hexhausted]
  · rw [Session.finishNode_memory, hspared.frames, hstarted]
  · rw [Session.finishNode_memory, hspared.same.calls, hstarted]
    rfl
  · rw [Session.finishNode_memory, hspared.same.config, hstarted]
    exact h.unlimited
  · refine h.resolved.run hi ?_ ?_ ?_ ?_
    · rw [Session.finishNode_memory, Session.droppedAfter, hspared.dropped, hstarted]
    · rw [Session.finishNode_memory, hspared.evaluated, hstarted]
    · intro output hne
      rw [Session.finishNode_memory, hspared.cache output hne, hstarted]
    · intro j hj he
      exact hleft ⟨node (j + 1), port (j + 1)⟩
        (List.mem_map.mpr ⟨j, List.mem_range.mpr hj, rfl⟩) (congrArg node he)

/-- A round puts every node behind its producer. -/
theorem Waits.round (h : c.Waits m (is ++ later) s) (his : ∀ i ∈ is, i < n ∧ i + 1 < m)
    (scene : Scene) :
    ∃ ls s', Steps ⟨scene, .draining g, [], s⟩ ls ⟨scene, .draining g, [], s'⟩ ∧
      Costs ls [] is.length is.length ∧
      c.Waits m (later ++ is.flatMap fun i => [i + 1, i]) s' := by
  induction is generalizing later s with
  | nil => exact ⟨[], s, .refl _, .nil, by simpa using h⟩
  | cons i is ih =>
    obtain ⟨hi, his⟩ := List.forall_mem_cons.mp his
    obtain ⟨l, t, hstep, hl, ht⟩ := Waits.early h hi.1 hi.2 scene
    obtain ⟨ls, s', hsteps, hls, hs'⟩ := ih (List.append_assoc is later _ ▸ ht) his
    refine ⟨l :: ls, s', .head hstep hsteps, ?_, ?_⟩
    · rw [List.length_cons, Nat.add_comm]
      exact hl.append hls
    · rw [List.append_assoc] at hs'
      exact hs'

/-- The queue grows round by round, until the last node of the chain comes to stand in it. -/
theorem Waits.rounds (h : c.Waits (n + 1) [0] s) (hk : k ≤ n) (scene : Scene) :
    ∃ ls s', Steps ⟨scene, .draining g, [], s⟩ ls ⟨scene, .draining g, [], s'⟩ ∧
      Costs ls [] (2 ^ k - 1) (2 ^ k - 1) ∧ c.Waits (n + 1) (queueAfter k) s' := by
  induction k with
  | zero => exact ⟨[], s, .refl _, .nil, h⟩
  | succ k ih =>
    obtain ⟨ls, t, hsteps, hls, ht⟩ := ih (Nat.le_of_succ_le hk)
    have hqueued : ∀ i ∈ queueAfter k, i < n ∧ i + 1 < n + 1 := by
      intro i hi
      have := le_of_mem_queueAfter hi
      omega
    rw [← List.append_nil (queueAfter k)] at ht
    obtain ⟨ls', s', hsteps', hls', hs'⟩ := ht.round hqueued scene
    refine ⟨ls ++ ls', s', hsteps.trans hsteps', ?_, hs'⟩
    rw [← taken_add_length]
    exact hls.append hls'

/-- A queue that unwinds is worked off. -/
theorem Waits.unwinds {scene : Scene} (hu : Unwinds m is js m') (his : ∀ i ∈ is, i ≤ n)
    (h : c.Waits m is s)
    (ht : Machine.Tame (outputs n node port) ⟨scene, .draining g, [], s⟩) :
    ∃ ls s', Steps ⟨scene, .draining g, [], s⟩ ls ⟨scene, .draining g, [], s'⟩ ∧
      Costs ls (js.map node) is.length 0 ∧ c.Waits m' [] s' := by
  induction hu generalizing s with
  | done => exact ⟨[], s, .refl _, .nil, h⟩
  | again pos before _ ih =>
    obtain ⟨hi, his⟩ := List.forall_mem_cons.mp his
    obtain ⟨l, t, hstep, hl, hw⟩ := h.again pos hi before scene
    obtain ⟨ls, s', hsteps, hls, hs'⟩ := ih his hw (ht.step hstep).2
    refine ⟨l :: ls, s', .head hstep hsteps, ?_, hs'⟩
    rw [List.length_cons, Nat.add_comm]
    exact hl.append hls
  | next _ ih =>
    obtain ⟨hi, his⟩ := List.forall_mem_cons.mp his
    obtain ⟨ls, t, hsteps, hls, hw⟩ := h.due hi ht
    obtain ⟨ls', s', hsteps', hls', hs'⟩ := ih his hw (ht.steps hsteps)
    refine ⟨ls ++ ls', s', hsteps.trans hsteps', ?_, hs'⟩
    rw [List.length_cons, Nat.add_comm]
    exact hls.append hls'

theorem resolved_fresh (c : g.PureChain n node port) (hs : s.Fresh) :
    c.Resolved (n + 1) s.memory where
  kept i _ := by
    have hdropped : s.memory.dropped = [] := hs.dropped
    simp [hdropped]
  evaluated i hi := by
    have hevaluated : s.memory.evaluated = [] := hs.evaluated
    simp only [hevaluated, List.not_mem_nil, false_iff]
    omega
  cached i hi := by
    have hcache : s.memory.cache = .empty := hs.cache
    simp only [hcache, Table.get?_empty, Option.isSome_none, Bool.false_eq_true, false_iff]
    omega

/-- The whole evaluation of a chain: it is put back round by round, and then worked off. -/
theorem call (c : g.PureChain n node port) (hs : s.Fresh) (hmax : s.config.maxSteps = none)
    (hroom : 0 < s.config.maxGraphDepth.toNat) (hk : g.inputTargets k.toNat = .ok [node 0])
    (ht : Machine.Tame (outputs n node port) ⟨scene, .entering g (.executionInput k), [], s⟩) :
    ∃ ls s', Call scene s g (.executionInput k) ls (.ok ()) s' ∧
      Costs ls ((List.range (n + 1)).reverse.map node) (2 ^ (n + 1) - 1) (2 ^ n - 1) := by
  have hdepth : s.depth < s.config.maxGraphDepth.toNat := by
    rw [Session.depth, hs.frames]
    exact hroom
  have hseeds : s.seeds g (.executionInput k) = (.ok [node 0], s) := by
    rw [Session.seeds, Session.inputSeeds, hk, Session.checkDepth_room hdepth]
  have henter : Step ⟨scene, .entering g (.executionInput k), [], s⟩ _ _ := .enter hseeds
  have hframes : s.memory.frames = [] := hs.frames
  have hstart : c.Waits (n + 1) [0] (s.openGraph g (.executionInput k) [node 0]) := by
    refine ⟨?_, ?_, ?_, ?_⟩
    · rw [Session.openGraph_memory, hframes]
      rfl
    · rw [Session.openGraph_memory]
      exact hs.calls
    · rw [Session.openGraph_memory]
      exact hmax
    · rw [Session.openGraph_memory]
      exact (c.resolved_fresh hs).same ⟨rfl, rfl, rfl⟩
  obtain ⟨ls, t, hrounds, hls, hw⟩ := hstart.rounds (Nat.le_refl n) scene
  have ht' := (ht.step henter).2.steps hrounds
  obtain ⟨ls', t', hrun, hls', hw'⟩ := Waits.unwinds (unwinds_queueAfter n)
    (fun i hi => le_of_mem_queueAfter hi) hw ht'
  have hnone : t'.dequeue? = none := by
    have hframes : t'.frames = [⟨g, []⟩] := hw'.frames
    simp [Session.dequeue?, hframes]
  have hdrained : Step ⟨scene, .draining g, [], t'⟩ _ _ := .drained hnone
  refine ⟨_, _, .head henter (hrounds.trans (hrun.trans (.one hdrained))), ?_⟩
  have hfirst : Costs [.entered g (.executionInput k)] [] 0 0 := ⟨rfl, rfl, rfl, rfl, rfl, rfl⟩
  have hlast : Costs [.drained g] [] 0 0 := ⟨rfl, rfl, rfl, rfl, rfl, rfl⟩
  have hcosts := hfirst.append (hls.append (hls'.append hlast))
  simp only [List.nil_append, List.append_nil, Nat.zero_add, Nat.add_zero, taken_add_length]
    at hcosts
  exact hcosts

end

end Graph.PureChain

/-- The session held to a step limit. -/
def Session.limited (s : Session) (limit : UInt64) : Session :=
  { s with config := { s.config with maxSteps := some limit } }

/-- How a tame evaluation goes that takes so many nodes: under a limit it comes to its end in good
order exactly if the limit is no less than that, or the greatest there is. -/
theorem Machine.Tame.limited_iff {scene : Scene} {s s' : Session}
    (ht : Machine.Tame reads ⟨scene, .entering g entry, [], s⟩) (hs : s.Fresh)
    (hmax : s.config.maxSteps = none) (hcall : Call scene s g entry ls (.ok ()) s')
    (hcosts : Costs ls nodes n k) (limit : UInt64) :
    ∃ fuel result t, (∀ fuel' ≥ fuel,
        (s.limited limit).evaluate scene fuel' g entry = some (result, t)) ∧
      (result = .ok () ↔ n ≤ limit.toNat ∨ limit.toNat + 1 = UInt64.size) := by
  have hzero : s.statistics.steps.toNat = 0 := by
    rw [hs.statistics]
    rfl
  have hstart : s.statistics.steps ≤ limit := UInt64.le_iff_toNat_le.mpr (by omega)
  have halike : (s.limited limit).Alike s := rfl
  have htighter : (s.limited limit).Tighter limit s := by
    refine ⟨rfl, ?_⟩
    intro limit' hmax'
    cases hmax.symm.trans hmax'
  rcases ht.limited halike htighter hcall hstart with ⟨t, hcall'⟩ | ⟨⟨ls', t, hcall'⟩, hless, hmore⟩
  · obtain ⟨fuel, he⟩ := hcall'.evaluate
    refine ⟨fuel, _, t, he, iff_of_true rfl ?_⟩
    have hbase : Stacked s.frames s.calls ⟨scene, .entering g entry, [], s.limited limit⟩ :=
      Levels.base
    have hsize := UInt64.toNat_lt_size limit
    -- Nothing was one too many, so that a limit that can be passed was not.
    by_cases hfits : limit.toNat + 1 < UInt64.size
    · left
      obtain ⟨hcount, hle⟩ := hcall'.toNat_steps_le (n := 0) hbase rfl (Nat.le_refl _)
        (by rw [hcosts.exhausted]; omega) (UInt64.le_iff_toNat_le.mp hstart)
      rw [hcosts.taken] at hcount
      rw [hcosts.exhausted] at hle
      omega
    · exact .inr (by omega)
  · obtain ⟨fuel, he⟩ := hcall'.evaluate
    refine ⟨fuel, _, t, he, iff_of_false (by simp) ?_⟩
    rw [hcosts.taken] at hmore
    omega

/-- A chain of `n` pure nodes behind one that is not, evaluated on a fresh session by bodies that
succeed, leave what is read and keep to themselves: each node runs once, the furthest first. Every
node that waits is put back with its producer, so that the steps double with each node of the chain.
The counts say so exactly for chains of up to 63 nodes, and up to their 64 bits for longer ones. A
step limit lets the evaluation come to its end exactly if it is no less than the steps, or the
greatest there is, which no counter passes. -/
theorem pure_chain_cost {g : Graph} {n : Nat} {node : Nat → Handle} {port : Nat → Nat}
    (c : g.PureChain n node port) (scene : Scene) {s : Session} {k : UInt64} (hs : s.Fresh)
    (hmax : s.config.maxSteps = none) (hroom : 0 < s.config.maxGraphDepth.toNat)
    (hk : g.inputTargets k.toNat = .ok [node 0])
    (ht : Machine.Tame (Graph.PureChain.outputs n node port)
      ⟨scene, .entering g (.executionInput k), [], s⟩) :
    (∃ ls s', Call scene s g (.executionInput k) ls (.ok ()) s' ∧
      (∃ fuel, ∀ fuel' ≥ fuel,
        s.evaluate scene fuel' g (.executionInput k) = some (.ok (), s')) ∧
      ls.filterMap Label.begun? = (List.range (n + 1)).reverse.map node ∧
      dequeues ls = 2 ^ (n + 1) - 1 ∧
      s'.statistics = ⟨.ofNat (2 ^ (n + 1) - 1), .ofNat (n + 1), .ofNat (2 ^ n - 1), 0⟩ ∧
      (n ≤ 63 → s'.statistics.steps.toNat = 2 ^ (n + 1) - 1 ∧
        s'.statistics.evaluated.toNat = n + 1 ∧ s'.statistics.deferred.toNat = 2 ^ n - 1)) ∧
    ∀ limit : UInt64, ∃ fuel result s', (∀ fuel' ≥ fuel,
        (s.limited limit).evaluate scene fuel' g (.executionInput k) = some (result, s')) ∧
      (result = .ok () ↔ 2 ^ (n + 1) - 1 ≤ limit.toNat ∨ limit.toNat + 1 = UInt64.size) := by
  obtain ⟨ls, s', hcall, hcosts⟩ := c.call hs hmax hroom hk ht
  refine ⟨?_, ht.limited_iff hs hmax hcall hcosts⟩
  have hstatistics : s'.statistics =
      ⟨.ofNat (2 ^ (n + 1) - 1), .ofNat (n + 1), .ofNat (2 ^ n - 1), 0⟩ := by
    rw [hcosts.call_statistics hs hcall, List.length_map, List.length_reverse, List.length_range]
  refine ⟨ls, s', hcall, hcall.evaluate, hcosts.begun, hcosts.taken, hstatistics, ?_⟩
  intro hn
  have hpow : 2 ^ (n + 1) ≤ 2 ^ 64 := Nat.pow_le_pow_right (by decide) (by omega)
  have hsize : UInt64.size = 2 ^ 64 := rfl
  have hdouble : 2 ^ (n + 1) = 2 * 2 ^ n := Nat.pow_succ'
  have hpos := Nat.two_pow_pos n
  have hless := Nat.lt_two_pow_self (n := n)
  rw [hstatistics]
  exact ⟨UInt64.toNat_ofNat_of_lt' (by omega), UInt64.toNat_ofNat_of_lt' (by omega),
    UInt64.toNat_ofNat_of_lt' (by omega)⟩

namespace Relay

def number : Node := { Node.new Builtin.integer with fields := [.int 2] }

def sum : Node := { Node.new Builtin.add with inputs := [none, some (.int 3)] }

def nodes : Graph :=
  let g := ((Graph.new (.ofNat 1) "relay").addNode (.new Builtin.print)).2
  let g := ((g.addNode sum).2.addNode sum).2
  ((g.addNode number).2.addExecutionInput "in").2

/-- A number, two sums on top of it and a print. -/
def wiring : List Change :=
  [.wire ⟨⟨4, 1⟩, 0⟩ ⟨⟨3, 1⟩, 0⟩, .wire ⟨⟨3, 1⟩, 0⟩ ⟨⟨2, 1⟩, 0⟩, .wire ⟨⟨2, 1⟩, 0⟩ ⟨⟨1, 1⟩, 0⟩,
    .inputLink 0 ⟨1, 1⟩]

def graph : Graph := (Graph.attemptAll wiring).result nodes

def node (i : Nat) : Handle := ⟨.ofNat (i + 1), 1⟩

theorem node_inj (hi : i < 4294967295) (hj : j < 4294967295) (h : node i = node j) : i = j := by
  have hidx := congrArg (·.idx.toNat) h
  simp only [node, UInt32.toNat_ofNat'] at hidx
  omega

def session : Session := { executionId := "", extensions := .standard .empty }

theorem session_fresh : session.Fresh := ⟨rfl, rfl, rfl, rfl, rfl, rfl, rfl, rfl⟩

theorem chain : graph.PureChain 3 node fun _ => 0 where
  live i hi := by
    rcases (by omega : i = 0 ∨ i = 1 ∨ i = 2 ∨ i = 3) with rfl | rfl | rfl | rfl
    · exact ⟨.new Builtin.print, rfl, Option.some_ne_none _, rfl⟩
    · exact ⟨sum, rfl, Option.some_ne_none _, rfl⟩
    · exact ⟨sum, rfl, Option.some_ne_none _, rfl⟩
    · exact ⟨number, rfl, Option.some_ne_none _, rfl⟩
  distinct i j _ hi _ hj := node_inj (by omega) (by omega)
  next i hi := by
    rcases (by omega : i = 0 ∨ i = 1 ∨ i = 2) with rfl | rfl | rfl <;> rfl
  last := rfl

theorem tame : Machine.Tame (Graph.PureChain.outputs 3 node fun _ => 0)
    ⟨fun _ => none, .entering graph (.executionInput 0), [], session⟩ := by
  have hwatch : Machine.watch (Graph.PureChain.outputs 3 node fun _ => 0) 50
    ⟨fun _ => none, .entering graph (.executionInput 0), [], session⟩ = true := rfl
  exact Machine.tame_of_watch hwatch

end Relay

/-- Fifteen steps for a number, two sums and a print; with fourteen it does not come to its end. -/
theorem pure_chain_cost_relay :
    (∃ fuel s', Relay.session.evaluate (fun _ => none) fuel Relay.graph (.executionInput 0) =
      some (.ok (), s') ∧ s'.statistics = ⟨15, 4, 7, 0⟩) ∧
    (∃ fuel s', (Relay.session.limited 15).evaluate (fun _ => none) fuel Relay.graph
      (.executionInput 0) = some (.ok (), s')) ∧
    ∃ fuel result s', (Relay.session.limited 14).evaluate (fun _ => none) fuel Relay.graph
      (.executionInput 0) = some (result, s') ∧ result ≠ .ok () := by
  obtain ⟨⟨ls, s', -, ⟨fuel, he⟩, -, -, hcounts, -⟩, hlimited⟩ := pure_chain_cost Relay.chain
    (fun _ => none) (k := 0) Relay.session_fresh rfl (by decide) rfl Relay.tame
  refine ⟨⟨fuel, s', he fuel (Nat.le_refl _), hcounts⟩, ?_, ?_⟩
  · obtain ⟨fuel, result, s', he, hiff⟩ := hlimited 15
    obtain rfl := hiff.mpr (by decide)
    exact ⟨fuel, s', he fuel (Nat.le_refl _)⟩
  · obtain ⟨fuel, result, s', he, hiff⟩ := hlimited 14
    exact ⟨fuel, result, s', he fuel (Nat.le_refl _), fun hok => absurd (hiff.mp hok) (by decide)⟩

namespace Ladder

open Relay (node session session_fresh)

/-- A body that leaves an empty value and is told nothing. -/
def body : Program Unit := Program.setOutput 0 .null

def Rung (n : Node) : Prop := n.definition.body = some body ∧ n.outputCount = 1

/-- Whatever runs is the body of a rung. -/
inductive Climbing (g : Graph) : Control → Session → Prop where
  | entering : Climbing g (.entering g entry) s
  | draining : Climbing g (.draining g) s
  | running (ha : a.graph = g) : Climbing g (.running a body) s
  | left (ha : a.graph = g) (hs : s.isCached g.id ⟨a.handle, 0⟩ = true) :
      Climbing g (.running a (.finish (.ok ()))) s
  | returning : Climbing g (.returning result) s

theorem Climbing.step {m m' : Machine} (hg : g.nodes.All Rung)
    (hreads : ∀ output ∈ reads, output.port = 0) (hm : Climbing g m.control m.session)
    (hs : Stacked [] [] m) (hw : m.suspended = []) (h : Step m l m') :
    l.Tame reads m' ∧ Climbing g m'.control m'.session ∧ m'.suspended = [] := by
  cases h with
  | refuse | drained | exhaust => exact ⟨trivial, .returning, hw⟩
  | enter | settle =>
    cases hm
    exact ⟨trivial, .draining, hw⟩
  | start hd he hv =>
    cases hm
    cases Session.verdict_judged hv with
    | due kept live new nothing hb =>
      obtain ⟨hbody, -⟩ := hg.get? live
      cases hbody.symm.trans hb
      exact ⟨trivial, .running rfl, hw⟩
  | perform =>
    obtain ⟨n, hn, -, hc⟩ := hs.current rfl
    cases hm with
    | running ha =>
      obtain ⟨-, hcount⟩ := hg.get? (ha ▸ hn)
      refine ⟨rfl, ?_, hw⟩
      have hrun := Session.setOutput_run hc 0 .null
      rw [if_pos (by rw [hcount]; decide)] at hrun
      rw [Operation.run, hrun]
      refine .left ha ?_
      simp only [Session.isCached, Session.cached?, Table.get?_insert, ha, if_true,
        Option.isSome_some]
  | unresolved | call => cases hm
  | @finish _ _ _ a s =>
    cases hm with
    | left ha hleft =>
      refine ⟨⟨rfl, ?_⟩, ha ▸ .draining, hw⟩
      intro output ho hnode
      have hcache : (s.finishNode a.graph.id a.handle a.definition (.ok ())).memory.cache =
          s.memory.cache := by rw [Session.finishNode_memory]
      obtain ⟨node, port⟩ := output
      cases hnode
      cases hreads _ ho
      exact (congrArg (fun c => (c.get? ⟨a.graph.id, a.handle, 0⟩).isSome) hcache).trans
        (ha ▸ hleft)
  | resume => cases hw

def rung (isPure : Bool) : Definition where
  metadata := {
    nodeType := if isPure then "rung" else "top", category := .value, label := "Rung"
    description := "Leaves an empty value"
    inputs := [⟨"below", "Below", .data .any⟩], outputs := [⟨"value", "Value", .data .any⟩]
    isPure, isRoot := false }
  body := some body

def nodes (n : Nat) : Graph :=
  let g := ((Graph.new (.ofNat 1) "ladder").addNode (.new (rung false))).2
  let g := (List.range n).foldl (fun g _ => (g.addNode (.new (rung true))).2) g
  (g.addExecutionInput "in").2

/-- Every rung is fed by the next one. -/
def wiring (n : Nat) : List Change :=
  .inputLink 0 (node 0) ::
    (List.range n).map fun i => .wire ⟨node (i + 1), 0⟩ ⟨node i, 0⟩

def graph (n : Nat) : Graph := (Graph.attemptAll (wiring n)).result (nodes n)

/-- What makes it a chain, read off the graph of 64 rungs at one go. -/
theorem checked :
    (∀ i < 65, ((graph 64).node? (node i)).any fun n =>
      n.definition.body.isSome && n.isPure == decide (0 < i)) ∧
    (∀ i < 64, (graph 64).wired (node i) = [⟨node (i + 1), 0⟩]) ∧
    (graph 64).wired (node 64) = [] ∧ (graph 64).inputTargets 0 = .ok [node 0] := by
  decide +kernel

theorem chain : (graph 64).PureChain 64 node fun _ => 0 where
  live i hi := by
    obtain ⟨n, hn, h⟩ := Option.any_eq_true _ _ |>.mp (checked.1 i (by omega))
    obtain ⟨hbody, hpure⟩ := Bool.and_eq_true_iff.mp h
    exact ⟨n, hn, Option.isSome_iff_ne_none.mp hbody, eq_of_beq hpure⟩
  distinct i j _ hi _ hj := Relay.node_inj (by omega) (by omega)
  next := checked.2.1
  last := checked.2.2.1

theorem nodes_rungs (n : Nat) : (nodes n).nodes.All Rung := by
  have hadd {g : Graph} (hg : g.nodes.All Rung) (isPure : Bool) :
      (g.addNode (.new (rung isPure))).2.nodes.All Rung := hg.insert ⟨rfl, rfl⟩
  refine List.foldlRecOn (motive := fun g : Graph => g.nodes.All Rung) _ _ ?_ ?_
  · exact hadd Arena.All.empty false
  · exact fun _ hg _ _ => hadd hg true

theorem graph_rungs (n : Nat) : (graph n).nodes.All Rung := by
  have hchange (c : Change) : (Graph.attempt c).Keeps (·.nodes.All Rung) := by
    intro g answer g' hg h
    rcases Graph.attempt_cases h with rfl | ⟨hc, rfl⟩
    · exact hg
    · exact Graph.changed_all hg (fun _ _ h => h) (fun _ _ _ h _ => h) hc
  exact (Graph.Editor.Keeps.forM hchange (wiring n)).result Arena.All.empty (nodes_rungs n)

theorem tame : Machine.Tame (Graph.PureChain.outputs 64 node fun _ => 0)
    ⟨fun _ => none, .entering (graph 64) (.executionInput 0), [], session⟩ := by
  refine Machine.tame_of_invariant (I := fun m => Climbing (graph 64) m.control m.session ∧
    Stacked [] [] m ∧ m.suspended = []) ?_ ⟨.entering, Levels.base, rfl⟩
  rintro m l m' ⟨hm, hs, hw⟩ h
  have hreads : ∀ output ∈ Graph.PureChain.outputs 64 node fun _ => 0, output.port = 0 := by
    simp [Graph.PureChain.outputs]
  obtain ⟨htame, hm', hw'⟩ := hm.step (graph_rungs 64) hreads hs hw h
  exact ⟨htame, hm', hs.step h, hw'⟩

end Ladder

/-- The steps of a chain of 64 nodes are more than the counter can hold. It stands at the greatest
number when the evaluation comes to its end, and a limit of that number lets it. -/
theorem pure_chain_cost_ladder :
    ((Ladder.graph 64).PureChain 64 Relay.node fun _ => 0) ∧
    (Ladder.graph 64).inputTargets 0 = .ok [Relay.node 0] ∧
    Relay.session.Fresh ∧ Relay.session.config.maxSteps = none ∧
    Machine.Tame (Graph.PureChain.outputs 64 Relay.node fun _ => 0)
      ⟨fun _ => none, .entering (Ladder.graph 64) (.executionInput 0), [], Relay.session⟩ ∧
    (∃ fuel s', Relay.session.evaluate (fun _ => none) fuel (Ladder.graph 64) (.executionInput 0) =
      some (.ok (), s') ∧ s'.statistics.steps.toNat = 2 ^ 64 - 1 ∧
      s'.statistics.steps.toNat ≠ 2 ^ (64 + 1) - 1) ∧
    ∃ fuel s', (Relay.session.limited 18446744073709551615).evaluate (fun _ => none) fuel
      (Ladder.graph 64) (.executionInput 0) = some (.ok (), s') ∧
      ¬ 2 ^ (64 + 1) - 1 ≤ (18446744073709551615 : UInt64).toNat := by
  have hk := Ladder.checked.2.2.2
  obtain ⟨ls, s', hcall, hcosts⟩ := Ladder.chain.call (k := 0) Relay.session_fresh rfl (by decide)
    hk Ladder.tame
  obtain ⟨fuel, he⟩ := hcall.evaluate
  have hsteps : s'.statistics.steps.toNat = 2 ^ 64 - 1 := by
    rw [hcosts.call_statistics Relay.session_fresh hcall]
    rfl
  refine ⟨Ladder.chain, hk, Relay.session_fresh, rfl, Ladder.tame,
    ⟨fuel, s', he fuel (Nat.le_refl _), hsteps, by rw [hsteps]; decide⟩, ?_⟩
  obtain ⟨fuel, result, t, he, hiff⟩ :=
    Ladder.tame.limited_iff Relay.session_fresh rfl hcall hcosts 18446744073709551615
  obtain rfl := hiff.mpr (.inr rfl)
  exact ⟨fuel, t, he fuel (Nat.le_refl _), by decide⟩

end Flowgraph
