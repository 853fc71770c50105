import Flowgraph.Proofs.Effects

namespace Flowgraph

/-- Two memories hold the same results for one graph, whatever they hold for others. -/
structure Memory.SameOn (μ μ' : Memory) (id : GraphId) : Prop where
  cached : ∀ output, μ'.cache.get? ⟨id, output⟩ = μ.cache.get? ⟨id, output⟩
  evaluated : ∀ h, ⟨id, h⟩ ∈ μ'.evaluated ↔ ⟨id, h⟩ ∈ μ.evaluated
  dropped : ∀ h, ⟨id, h⟩ ∈ μ'.dropped ↔ ⟨id, h⟩ ∈ μ.dropped

theorem Memory.SameOn.refl (μ : Memory) (id : GraphId) : μ.SameOn μ id :=
  ⟨fun _ => rfl, fun _ => .rfl, fun _ => .rfl⟩

theorem Memory.SameOn.symm {μ μ' : Memory} {id : GraphId} (h : μ.SameOn μ' id) : μ'.SameOn μ id :=
  ⟨fun output => (h.cached output).symm, fun node => (h.evaluated node).symm,
    fun node => (h.dropped node).symm⟩

theorem Memory.SameOn.trans {μ μ' μ'' : Memory} {id : GraphId} (h : μ.SameOn μ' id)
    (h' : μ'.SameOn μ'' id) : μ.SameOn μ'' id :=
  ⟨fun output => (h'.cached output).trans (h.cached output),
    fun node => (h'.evaluated node).trans (h.evaluated node),
    fun node => (h'.dropped node).trans (h.dropped node)⟩

theorem Memory.SameResults.sameOn {μ μ' : Memory} (h : μ.SameResults μ') (id : GraphId) :
    μ.SameOn μ' id := by
  refine ⟨fun output => ?_, fun node => ?_, fun node => ?_⟩
  · rw [h.cache]
  · rw [h.evaluated]
  · rw [h.dropped]

/-- The graph that a step is about. -/
def Label.graph : Label → Graph
  | .entered g _ | .refused g _ | .drained g | .exhausted g _ | .settled g _ _ => g
  | .started a | .performed a _ | .unresolved a _ | .called a _ _ | .finished a _ | .resumed a =>
    a.graph

/-- A step leaves the results for all other graphs alone. -/
theorem Effect.elsewhere {id : GraphId} (h : Effect l μ μ') (hid : l.graph.id ≠ id) :
    μ.SameOn μ' id := by
  have other (site : Site) (hsite : site.graph ≠ id) (node : Handle) : ⟨id, node⟩ ≠ site :=
    fun he => hsite (congrArg Site.graph he).symm
  cases h with
  | quiet same => exact same.sameOn id
  | output cache evaluated dropped =>
    refine ⟨fun output => ?_, fun node => by rw [evaluated], fun node => by rw [dropped]⟩
    rw [cache, Table.get?_insert, if_neg]
    exact fun he => hid (congrArg Outlet.graph he)
  | drop cache evaluated dropped =>
    refine ⟨fun output => by rw [cache], fun node => by rw [evaluated], fun node => ?_⟩
    rw [dropped, List.mem_insert_iff]
    exact or_iff_right (other _ hid node)
  | finish cache evaluated dropped =>
    refine ⟨fun output => by rw [cache], fun node => ?_, fun node => ?_⟩
    · rw [evaluated, List.mem_insert_iff]
      exact or_iff_right (other _ hid node)
    · rw [dropped, Session.mem_droppedAfter]
      exact or_iff_left fun hsite => other _ hid node hsite.1

namespace Session

section

variable {s s' : Session} {g : Graph} {id : GraphId}

theorem cached?_congr (h : s.memory.SameOn s'.memory id) (output : PortRef) :
    s'.cached? id output = s.cached? id output := h.cached output

theorem isEvaluated_congr (h : s.memory.SameOn s'.memory id) (node : Handle) :
    s'.isEvaluated id node = s.isEvaluated id node := by
  refine Bool.eq_iff_iff.mpr ?_
  unfold isEvaluated
  rw [List.contains_iff_mem, List.contains_iff_mem]
  exact h.evaluated node

theorem isDropped_congr (h : s.memory.SameOn s'.memory id) (node : Handle) :
    s'.isDropped id node = s.isDropped id node := by
  refine Bool.eq_iff_iff.mpr ?_
  unfold isDropped
  rw [List.contains_iff_mem, List.contains_iff_mem]
  exact h.dropped node

theorem awaited_congr (h : s.memory.SameOn s'.memory g.id) (node : Handle) :
    s'.awaited g node = s.awaited g node := by
  have hcached (output : PortRef) : s'.isCached g.id output = s.isCached g.id output :=
    congrArg Option.isSome (cached?_congr h output)
  unfold awaited
  simp only [hcached]

theorem reaches_congr (h : s.memory.SameOn s'.memory g.id) (start : Handle) (room : Nat)
    (stack visited : List Handle) :
    s'.reaches g start room stack visited = s.reaches g start room stack visited := by
  induction room generalizing stack visited with
  | zero => rfl
  | succ room ih =>
    cases stack with
    | nil => rfl
    | cons node stack =>
      unfold reaches
      simp only [awaited_congr h, ih]

theorem awaitedProducer_congr (h : s.memory.SameOn s'.memory g.id) (node : Handle)
    (output : PortRef) : s'.awaitedProducer g node output = s.awaitedProducer g node output := by
  unfold awaitedProducer
  simp only [isDropped_congr h, isEvaluated_congr h]

theorem producersOf_congr (h : s.memory.SameOn s'.memory g.id) (node : Handle)
    (pending : List Handle) (outputs : List PortRef) :
    s'.producersOf g node pending outputs = s.producersOf g node pending outputs := by
  induction outputs generalizing pending with
  | nil => rfl
  | cons output rest ih =>
    unfold producersOf
    simp only [awaitedProducer_congr h, ih]

theorem pending_congr (h : s.memory.SameOn s'.memory g.id) (node : Handle) :
    s'.pending g node = s.pending g node := by
  unfold pending dependsOnItself
  simp only [awaited_congr h, producersOf_congr h, reaches_congr h]

/-- What is to be done with a node is decided by the results for its own graph alone. -/
theorem verdict_congr (h : s.memory.SameOn s'.memory g.id) (node : Handle) :
    s'.verdict g node = s.verdict g node := by
  unfold verdict
  simp only [isDropped_congr h, isEvaluated_congr h, pending_congr h]

end

end Session

end Flowgraph
