import Flowgraph.Proofs.Bodies
import Flowgraph.Proofs.CycleSearch

namespace Flowgraph

/-- The nodes of the graph are of built-in types, with the outputs of their types. -/
def Graph.IsBuiltin (g : Graph) : Prop :=
  ∀ h n, g.node? h = some n → n.definition ∈ Builtin.definitions ∧ n.Intact

theorem Graph.Built.isBuiltin {g : Graph} (hg : g.Built .builtins) : g.IsBuiltin := by
  intro h n hn
  exact ⟨hg.builtin hn, (hg.all.get? hn).intact⟩

/-- What is on record about the nodes of `g` agrees with what they are worth. -/
structure Memory.Agrees (μ : Memory) (g : Graph) : Prop where
  cached : ∀ h port v, μ.cache.get? ⟨g.id, h, port⟩ = some v → port = 0 ∧ g.Denotes h v
  evaluated : ∀ h, ⟨g.id, h⟩ ∈ μ.evaluated → g.Ready h
  delivered : ∀ h, g.isPure h = true → ⟨g.id, h⟩ ∈ μ.evaluated → ⟨g.id, h⟩ ∉ μ.dropped →
    ∃ v, μ.cache.get? ⟨g.id, h, 0⟩ = some v
  dropped : ∀ h n, g.node? h = some n → ⟨g.id, h⟩ ∈ μ.dropped →
    ¬ g.Ready h ∨ n.isPure = true ∧ (∀ v, ¬ g.Denotes h v) ∧ ⟨g.id, h⟩ ∈ μ.evaluated

/-- How the body of a pure node of `g` may end. -/
def Graph.Ends (g : Graph) (h : Handle) (cache : Table Outlet Value) : Except Error Unit → Prop
  | .ok () => ∃ v, cache.get? ⟨g.id, h, 0⟩ = some v
  | .error _ => ∀ v, ¬ g.Denotes h v

theorem Session.Fresh.agrees {s : Session} (hs : s.Fresh) (g : Graph) : s.memory.Agrees g := by
  have hcache : s.memory.cache = {} := hs.cache
  have hevaluated : s.memory.evaluated = [] := hs.evaluated
  have hdropped : s.memory.dropped = [] := hs.dropped
  constructor
  · rw [hcache]
    intro h port v hv
    cases hv
  · rw [hevaluated]
    intro h he
    cases he
  · rw [hevaluated]
    intro h _ he
    cases he
  · rw [hdropped]
    intro h n _ hd
    cases hd

namespace Memory.Agrees

theorem ready_of_supplied {μ : Memory} (hA : μ.Agrees g) {a : Activation} (hs : a.Supplied μ)
    (ha : a.graph = g) : g.Ready a.handle := by
  subst ha
  intro n port output hn hp hw
  obtain ⟨v, hv⟩ := hs n port output hn hp hw
  obtain ⟨hz, hd⟩ := hA.cached output.node output.port v hv
  exact ⟨hz, v, hd⟩

/-- A body that has its inputs reads what they are worth. -/
theorem reads {s : Session} (hA : s.memory.Agrees g) {a : Activation} (hs : a.Supplied s.memory)
    (ha : a.graph = g) (hn : g.node? a.handle = some n)
    (hc : s.current = .ok ⟨a.handle, g, n⟩) : g.Reads a.handle n (Builtin.readings s) := by
  subst ha
  have houtside (port : Nat) (hp : n.inputCount ≤ port) : Builtin.readings s port = none := by
    rw [Builtin.readings, Session.input_eq_of_le hc hp]
    rfl
  constructor
  · intro port output hp hw
    obtain ⟨v, hv⟩ := hs n port output hn hp hw
    obtain ⟨hz, hd⟩ := hA.cached output.node output.port v hv
    refine ⟨hz, v, hd, ?_⟩
    rw [Builtin.readings, Session.input_eq_of_wired hc hp hw hv]
    rfl
  · intro port hw
    by_cases hp : port < n.inputCount
    · have hi : n.inputs[port]? = some n.inputs[port] := List.getElem?_eq_getElem hp
      rw [Builtin.readings, Session.input_eq_of_unwired hc hi hw, hi]
      cases n.inputs[port] <;> rfl
    · have hp := Nat.le_of_not_lt hp
      have hi : n.inputs[port]? = none := List.getElem?_eq_none hp
      rw [houtside port hp, hi]
      rfl
  · exact houtside

/-- A producer that is worth something and yet not waited for has left its value behind. -/
theorem cached_of_error {s : Session} (hA : s.memory.Agrees g)
    (hw : s.awaitedProducer g h output = .error e) (hz : output.port = 0)
    (hd : g.Denotes output.node v) : s.isCached g.id output = true := by
  obtain ⟨⟨p, hpn, hpure⟩, hpready⟩ := hd.ready
  have hkept : ⟨g.id, output.node⟩ ∉ s.memory.dropped := by
    intro hdropped
    rcases hA.dropped _ p hpn hdropped with hnot | ⟨-, hnot, -⟩
    · exact hnot hpready
    · exact hnot v hd
  -- It is live, pure and not given up, so it must have run.
  rcases Session.awaitedProducer_eq_error hw with hnone | ⟨p', hp', himpure | hdropped | hran⟩
  · rw [hpn] at hnone
    cases hnone
  · rw [hpn] at hp'
    cases hp'
    rw [hpure] at himpure
    cases himpure
  · exact absurd (List.contains_iff_mem.mp hdropped) hkept
  · have hgpure : g.isPure output.node = true := by simp [Graph.isPure, hpn, hpure]
    obtain ⟨w, hleft⟩ := hA.delivered _ hgpure (List.contains_iff_mem.mp hran) hkept
    obtain ⟨node, port⟩ := output
    dsimp only at hz hleft
    subst hz
    exact Option.isSome_iff_exists.mpr ⟨w, hleft⟩

/-- Whatever a node is given up for, it lacks an input for good. -/
theorem not_ready {s : Session} (hA : s.memory.Agrees g) (hb : n.definition.body ≠ none)
    (hn : g.node? h = some n) (hv : s.verdict g h = .drop e) : ¬ g.Ready h := by
  intro hready
  cases Session.verdict_judged hv with
  | missing kept none =>
    rw [hn] at none
    cases none
  | bodiless kept live new nothing body =>
    rw [hn] at live
    cases live
    exact hb body
  | stuck kept live new vain =>
    rcases Session.pending_eq_error vain with ⟨output, ho, hw⟩ | ⟨hcycle, -⟩
    · obtain ⟨n₀, port, hn₀, hport, hwire, huncached⟩ := Session.mem_awaited.mp ho
      obtain ⟨hz, v, hd⟩ := hready n₀ port output hn₀ hport hwire
      have hcached := hA.cached_of_error hw hz hd
      rw [hcached] at huncached
      cases huncached
    · exact hready.not_cyclic (Session.dependsOnItself_sound hcycle)

theorem sameResults {μ μ' : Memory} (hA : μ.Agrees g) (h : μ.SameResults μ') : μ'.Agrees g := by
  obtain ⟨hc, he, hd⟩ := h
  constructor
  · rw [hc]
    exact hA.cached
  · rw [he]
    exact hA.evaluated
  · rw [hc, he, hd]
    exact hA.delivered
  · rw [he, hd]
    exact hA.dropped

/-- A body sets only outputs that hold what its node is worth. -/
theorem output {μ μ' : Memory} (hA : μ.Agrees g) {a : Activation}
    (hcache : μ'.cache = μ.cache.insert ⟨a.graph.id, a.handle, port⟩ v)
    (he : μ'.evaluated = μ.evaluated) (hd : μ'.dropped = μ.dropped)
    (hv : a.graph.id = g.id → port = 0 ∧ g.Denotes a.handle v) : μ'.Agrees g := by
  constructor
  · intro h port' v' hget
    rw [hcache, Table.get?_insert] at hget
    split at hget
    · rename_i heq
      simp only [Outlet.mk.injEq, PortRef.mk.injEq] at heq
      obtain ⟨hg, rfl, rfl⟩ := heq
      cases hget
      exact hv hg
    · exact hA.cached h port' v' hget
  · rw [he]
    exact hA.evaluated
  · intro h hp hev hdr
    rw [he] at hev
    rw [hd] at hdr
    obtain ⟨w, hw⟩ := hA.delivered h hp hev hdr
    rw [hcache, Table.get?_insert]
    split
    · exact ⟨v, rfl⟩
    · exact ⟨w, hw⟩
  · rw [he, hd]
    exact hA.dropped

/-- A node given up lacks an input. -/
theorem drop {μ μ' : Memory} (hA : μ.Agrees g) {site : Site} (hc : μ'.cache = μ.cache)
    (he : μ'.evaluated = μ.evaluated) (hd : μ'.dropped = μ.dropped.insert site)
    (hnot : site.graph = g.id → ∀ n, g.node? site.node = some n → ¬ g.Ready site.node) :
    μ'.Agrees g := by
  constructor
  · rw [hc]
    exact hA.cached
  · rw [he]
    exact hA.evaluated
  · intro h hp hev hdr
    rw [he] at hev
    rw [hd] at hdr
    rw [hc]
    exact hA.delivered h hp hev fun hin => hdr (List.mem_insert_of_mem hin)
  · intro h n hn hdr
    rw [hd] at hdr
    rw [he]
    rcases List.mem_insert_iff.mp hdr with hsite | hdr
    · subst hsite
      exact .inl (hnot rfl n hn)
    · exact hA.dropped h n hn hdr

/-- A body that has ended had its inputs, and has left its output or found none. -/
theorem finish {μ μ' : Memory} (hA : μ.Agrees g) {a : Activation} (hc : μ'.cache = μ.cache)
    (he : μ'.evaluated = μ.evaluated.insert a.site)
    (hd : μ'.dropped = Session.droppedAfter μ.dropped a.site a.definition.isPure result)
    (hlive : a.graph.id = g.id → ∃ n, g.node? a.handle = some n ∧ n.definition = a.definition)
    (hready : a.graph.id = g.id → g.Ready a.handle)
    (hends : a.graph.id = g.id → a.definition.isPure = true → g.Ends a.handle μ.cache result) :
    μ'.Agrees g := by
  have own {h : Handle} (hs : (⟨g.id, h⟩ : Site) = a.site) : a.graph.id = g.id ∧ h = a.handle := by
    simp only [Activation.site, Site.mk.injEq] at hs
    exact ⟨hs.1.symm, hs.2⟩
  have purity {n : Node} (hid : a.graph.id = g.id) (hn : g.node? a.handle = some n) :
      n.isPure = a.definition.isPure := by
    obtain ⟨n', hn', hdef⟩ := hlive hid
    rw [hn] at hn'
    cases hn'
    rw [Node.isPure, hdef]
  constructor
  · rw [hc]
    exact hA.cached
  · intro h hev
    rw [he] at hev
    rcases List.mem_insert_iff.mp hev with hs | hev
    · obtain ⟨hid, rfl⟩ := own hs
      exact hready hid
    · exact hA.evaluated h hev
  · intro h hp hev hdr
    rw [he] at hev
    rw [hd, Session.mem_droppedAfter] at hdr
    rw [hc]
    rcases List.mem_insert_iff.mp hev with hs | hev
    · obtain ⟨hid, rfl⟩ := own hs
      obtain ⟨n, hn, -⟩ := hlive hid
      have hpure : a.definition.isPure = true := by
        rw [← purity hid hn]
        simpa [Graph.isPure, hn] using hp
      have hends := hends hid hpure
      cases result with
      | ok u => exact hends
      | error e => exact absurd (.inr ⟨hs, hpure, e, rfl⟩) hdr
    · exact hA.delivered h hp hev fun hin => hdr (.inl hin)
  · intro h n hn hdr
    rw [hd, Session.mem_droppedAfter] at hdr
    rw [he]
    rcases hdr with hdr | ⟨hs, hpure, e, rfl⟩
    · rcases hA.dropped h n hn hdr with hnot | ⟨hp, hnot, hev⟩
      · exact .inl hnot
      · exact .inr ⟨hp, hnot, List.mem_insert_of_mem hev⟩
    · rw [hs]
      obtain ⟨hid, rfl⟩ := own hs
      have hends := hends hid hpure
      exact .inr ⟨(purity hid hn).trans hpure, hends, List.mem_insert_self⟩

/-- For a node that has run or was given up, the record says exactly what it is worth. -/
theorem settled {μ : Memory} (hA : μ.Agrees g) (hn : g.node? h = some n)
    (hs : ⟨g.id, h⟩ ∈ μ.evaluated ∨ ⟨g.id, h⟩ ∈ μ.dropped) :
    (⟨g.id, h⟩ ∈ μ.evaluated ↔ g.Ready h) ∧
    (⟨g.id, h⟩ ∈ μ.dropped ↔ if n.isPure then ∀ v, ¬ g.Denotes h v else ¬ g.Ready h) ∧
    (n.isPure = true → ∀ v, μ.cache.get? ⟨g.id, h, 0⟩ = some v ↔ g.Denotes h v) := by
  have hran (hready : g.Ready h) : ⟨g.id, h⟩ ∈ μ.evaluated := by
    rcases hs with he | hd
    · exact he
    · rcases hA.dropped h n hn hd with hnot | ⟨-, -, he⟩
      · exact absurd hready hnot
      · exact he
  have hworth {v : Value} (hv : g.Denotes h v) : ⟨g.id, h⟩ ∉ μ.dropped := by
    intro hd
    rcases hA.dropped h n hn hd with hnot | ⟨-, hnot, -⟩
    · exact hnot hv.ready.2
    · exact hnot v hv
  have hpure (hp : n.isPure = true) : g.isPure h = true := by simp [Graph.isPure, hn, hp]
  refine ⟨⟨hA.evaluated h, hran⟩, ?_, ?_⟩
  · cases hp : n.isPure with
    | true =>
      refine ⟨fun hd v hv => hworth hv hd, ?_⟩
      intro hnone
      by_cases hd : ⟨g.id, h⟩ ∈ μ.dropped
      · exact hd
      · obtain ⟨v, hv⟩ := hA.delivered h (hpure hp) (hs.resolve_right hd) hd
        exact absurd (hA.cached h 0 v hv).2 (hnone v)
    | false =>
      refine ⟨?_, fun hnot => hs.resolve_left fun he => hnot (hA.evaluated h he)⟩
      intro hd
      rcases hA.dropped h n hn hd with hnot | ⟨hp', -, -⟩
      · exact hnot
      · rw [hp] at hp'
        cases hp'
  · intro hp v
    refine ⟨fun hv => (hA.cached h 0 v hv).2, ?_⟩
    intro hv
    obtain ⟨w, hw⟩ := hA.delivered h (hpure hp) (hran hv.ready.2) (hworth hv)
    rw [hw, (hA.cached h 0 w hw).2.unique hv]

end Memory.Agrees

end Flowgraph
