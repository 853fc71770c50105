import Flowgraph.Proofs.Effects

namespace Flowgraph

/-- Every wired input of the activation finds a value in the cache. -/
def Activation.Supplied (a : Activation) (μ : Memory) : Prop :=
  ∀ n port output, a.graph.node? a.handle = some n → port < n.inputCount →
    a.graph.producer? ⟨a.handle, port⟩ = some output →
      ∃ v, μ.cache.get? ⟨a.graph.id, output⟩ = some v

/-- No body under way has lost an input it began with. -/
def Machine.Supplied (m : Machine) : Prop := ∀ a ∈ m.active, a.Supplied m.session.memory

theorem Activation.Supplied.effect {a : Activation} (ha : a.Supplied μ) (h : Effect l μ μ') :
    a.Supplied μ' := by
  intro n port output hn hp hw
  obtain ⟨v, hv⟩ := ha n port output hn hp hw
  exact h.cached hv

/-- A body starts with all its wired inputs in the cache. -/
theorem Step.started_supplied (h : Step m (.started a) m') : a.Supplied m'.session.memory := by
  cases h with
  | start hd he hv =>
    cases Session.verdict_judged hv with
    | due kept live new nothing body =>
      rw [Session.startNode_memory]
      intro n port output hn hp hw
      exact Session.cached_of_awaited_nil nothing hn hp hw

theorem Machine.Supplied.step {m m' : Machine} (hm : m.Supplied) (hs : Stacked fs cs m)
    (h : Step m l m') : m'.Supplied := by
  have kept {b : Activation} (hb : b ∈ m.active) : b.Supplied m'.session.memory :=
    (hm b hb).effect (h.effect hs)
  intro b hb
  rcases h.active with he | ⟨a, rfl, he⟩ | ⟨a, result, rfl, he⟩
  · exact kept (he ▸ hb)
  · rw [he, List.mem_cons] at hb
    rcases hb with rfl | hb
    · exact h.started_supplied
    · exact kept hb
  · exact kept (he ▸ List.mem_cons_of_mem a hb)

theorem Life.supplied (h : Life ls m) : m.Supplied := by
  refine h.keeps (P := fun _ m => m.Supplied) ?_ ?_ ?_
  · intro scene s hs a ha
    cases ha
  · intro ls m l m' life hm h
    exact hm.step life.stacked.1 h
  · intro ls m m' life hm h a ha
    rw [h.active.2] at ha
    cases ha

namespace Session

/-- An ordinal behind the inputs of the running node is out of range. -/
theorem input_eq_of_le {s : Session} {c : Current} {port : Nat} (hc : s.current = .ok c)
    (hp : c.node.inputCount ≤ port) :
    s.input port = .error (.portOutOfRange c.node.nodeType .input port c.node.inputCount) := by
  have hi : c.node.inputs[port]? = none := List.getElem?_eq_none hp
  simp [input, hc, Node.input, hi, bind, Except.bind]

/-- A wired input reads the cache and no constant. -/
theorem input_eq_of_wired {s : Session} {c : Current} {port : Nat} {output : PortRef} {v : Value}
    (hc : s.current = .ok c) (hp : port < c.node.inputCount)
    (hw : c.graph.producer? ⟨c.handle, port⟩ = some output)
    (hv : s.cached? c.graph.id output = some v) : s.input port = .ok v := by
  have hi : c.node.inputs[port]? = some c.node.inputs[port] := List.getElem?_eq_getElem hp
  simp [input, hc, Node.input, hi, hw, hv, bind, Except.bind]

/-- An input without a wire reads its constant. -/
theorem input_eq_of_unwired {s : Session} {c : Current} {port : Nat} {constant : Option Value}
    (hc : s.current = .ok c) (hi : c.node.inputs[port]? = some constant)
    (hw : c.graph.producer? ⟨c.handle, port⟩ = none) :
    s.input port = constant.elim (.error (.unboundInput c.handle port)) .ok := by
  cases constant <;> simp [input, hc, Node.input, hi, hw, bind, Except.bind]

end Session

/-- What a running body finds at its wired inputs. -/
theorem Life.input_wired (h : Life ls m) (hr : m.control = .running a rest)
    (hn : a.graph.node? a.handle = some n) (hp : port < n.inputCount)
    (hw : a.graph.producer? ⟨a.handle, port⟩ = some output) :
    ∃ v, m.session.cached? a.graph.id output = some v ∧ m.session.input port = .ok v := by
  obtain ⟨n', hn', -, hc⟩ := h.stacked.1.current hr
  rw [hn] at hn'
  cases hn'
  have ha : a ∈ m.active := by simp [Machine.active, hr]
  obtain ⟨v, hv⟩ := h.supplied a ha n port output hn hp hw
  exact ⟨v, hv, Session.input_eq_of_wired hc hp hw hv⟩

/-- What a running body is told about each of its inputs. One that is wired always has a value, and a
constant on it counts for nothing. -/
theorem input_resolution_exact {ls : List Label} {m : Machine} {a : Activation}
    {rest : Program Unit} (h : Life ls m) (hr : m.control = .running a rest) :
    ∃ n, a.graph.node? a.handle = some n ∧ ∀ port,
      (n.inputCount ≤ port ↔ ∃ nodeType side i count,
        m.session.input port = .error (.portOutOfRange nodeType side i count)) ∧
      (n.inputCount ≤ port →
        m.session.input port = .error (.portOutOfRange n.nodeType .input port n.inputCount)) ∧
      (∀ constant, n.inputs[port]? = some constant →
        (∀ output, a.graph.producer? ⟨a.handle, port⟩ = some output →
          ∃ v, m.session.cached? a.graph.id output = some v ∧ m.session.input port = .ok v) ∧
        (a.graph.producer? ⟨a.handle, port⟩ = none → m.session.input port =
          constant.elim (.error (.unboundInput a.handle port)) .ok)) := by
  obtain ⟨n, hn, -, hc⟩ := h.stacked.1.current hr
  refine ⟨n, hn, fun port => ?_⟩
  have hout (hp : n.inputCount ≤ port) := Session.input_eq_of_le hc hp
  have hin (constant : Option Value) (hi : n.inputs[port]? = some constant) :
      (∀ output, a.graph.producer? ⟨a.handle, port⟩ = some output →
        ∃ v, m.session.cached? a.graph.id output = some v ∧ m.session.input port = .ok v) ∧
      (a.graph.producer? ⟨a.handle, port⟩ = none → m.session.input port =
        constant.elim (.error (.unboundInput a.handle port)) .ok) := by
    obtain ⟨hp, -⟩ := List.getElem?_eq_some_iff.mp hi
    exact ⟨fun output hw => h.input_wired hr hn hp hw, Session.input_eq_of_unwired hc hi⟩
  refine ⟨⟨fun hp => ⟨_, _, _, _, hout hp⟩, ?_⟩, hout, hin⟩
  rintro ⟨nodeType, side, i, count, he⟩
  -- Within the range an answer is a value or the complaint that there is none.
  refine Nat.le_of_not_lt fun hp => ?_
  obtain ⟨hwired, hfree⟩ := hin _ (List.getElem?_eq_getElem hp)
  cases hw : a.graph.producer? ⟨a.handle, port⟩ with
  | some output =>
    obtain ⟨v, -, hv⟩ := hwired output hw
    rw [hv] at he
    cases he
  | none =>
    rw [hfree hw] at he
    cases hk : n.inputs[port] <;> rw [hk] at he <;> cases he

/-- The constant left behind on a wired input is not read. -/
theorem input_resolution_exact_reentry :
    (Reentry.graph.node? ⟨2, 1⟩).map (·.inputs) = some [some (.int 5)] ∧
    (Reentry.entry.advance 9).2.session.input 0 = .ok (.int 7) := by
  have hr : (Reentry.entry.advance 9).2.control = .running ⟨Reentry.graph, ⟨2, 1⟩, Reentry.again⟩
      (Program.evaluate (.named "loop") (.root ⟨2, 1⟩)) := rfl
  obtain ⟨n, hn, hports⟩ := input_resolution_exact (Reentry.entry_life 9) hr
  have hinputs : (Reentry.graph.node? ⟨2, 1⟩).map (·.inputs) = some [some (.int 5)] := rfl
  refine ⟨hinputs, ?_⟩
  rw [hn, Option.map_some, Option.some.injEq] at hinputs
  obtain ⟨hwired, -⟩ := (hports 0).2.2 (some (.int 5)) (by rw [hinputs]; rfl)
  obtain ⟨v, hv, hi⟩ := hwired ⟨⟨1, 1⟩, 0⟩ rfl
  have hseven : (Reentry.entry.advance 9).2.session.cached? Reentry.graph.id ⟨⟨1, 1⟩, 0⟩ =
      some (.int 7) := rfl
  rw [hseven] at hv
  cases hv
  exact hi

end Flowgraph
