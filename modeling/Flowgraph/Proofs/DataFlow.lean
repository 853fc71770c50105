import Flowgraph.Proofs.Bookkeeping
import Flowgraph.Proofs.Dependencies
import Flowgraph.Proofs.Locality

namespace Flowgraph

namespace Session

/-- The node lacks the output of a producer that is not pure, and at no lower port a value that can
never arrive. -/
structure Severed (s : Session) (g : Graph) (h : Handle) (output : PortRef) : Prop where
  impure : g.Activatable output.node
  lowest : ∃ port, s.Lacks g h port output ∧
    ∀ port' < port, ∀ output' e', s.Lacks g h port' output' → ¬ s.Hopeless g h output' e'

/-- The error that tells a producer which has run and left the output unset from one which has not
run. -/
def promisedError (s : Session) (g : Graph) (h : Handle) (output : PortRef) : Error :=
  if s.isEvaluated g.id output.node then .missingOutput output.node output.port
  else .invalidDataFlow h output.node

section

variable {s : Session} {g : Graph} {h : Handle}

/-- A node with a severed input has no other outcome. -/
theorem Severed.resolution (hv : s.Severed g h output) :
    s.Resolution g h (.error (.invalidDataFlow h output.node)) := by
  obtain ⟨⟨p, hp, himpure⟩, port, hlacks, hlowest⟩ := hv
  exact .vain hlacks (.impure hp himpure) hlowest

theorem verdict_of_severed (hd : s.verdict g h = .drop e) (hv : s.Severed g h output) :
    e = .invalidDataFlow h output.node := by
  have hr := hv.resolution
  obtain ⟨-, port, hlacks, -⟩ := hv
  obtain ⟨m, hm, -⟩ := hlacks.input
  cases verdict_judged hd with
  | missing kept none =>
    rw [hm] at none
    cases none
  | stuck kept live new vain => exact Except.error.inj (vain.symm.trans ((resolution_iff live).mp hr))
  | bodiless kept live new nothing body =>
    have hin := mem_awaited_iff.mpr ⟨port, hlacks⟩
    rw [nothing] at hin
    cases hin

theorem verdict_invalidDataFlow (hd : s.verdict g h = .drop (.invalidDataFlow h' p)) :
    h' = h ∧ ∃ output, s.Severed g h output ∧ output.node = p := by
  cases verdict_judged hd with
  | stuck kept live new vain =>
    cases (resolution_iff live).mpr vain with
    | vain lacks hopeless lowest =>
      cases hopeless with
      | impure hp himpure => exact ⟨rfl, _, ⟨⟨_, hp, himpure⟩, _, lacks, lowest⟩, rfl⟩

theorem verdict_missingOutput (hd : s.verdict g h = .drop (.missingOutput p port)) :
    g.isPure p = true ∧ s.isEvaluated g.id p = true ∧ ∃ input, s.Lacks g h input ⟨p, port⟩ := by
  cases verdict_judged hd with
  | stuck kept live new vain =>
    cases (resolution_iff live).mpr vain with
    | vain lacks hopeless lowest =>
      cases hopeless with
      | silent hp hpure kept ran =>
        exact ⟨Graph.isPure_eq_true.mpr ⟨_, hp, hpure⟩, ran, _, lacks⟩

end

end Session

/-- Taking a node from its queue leaves all that the verdict on it goes by. -/
theorem Step.settled_verdict (h : Step m (.settled g node v) m') : m.session.verdict g node = v := by
  cases h with
  | settle hd he hv hn =>
    rw [← hv]
    apply Session.verdict_congr
    rw [Session.countStep_memory]
    exact (Session.dequeue?_sameResults hd).sameOn g.id |>.symm

/-- A body of the node has returned, and none of its bodies has put a value on the output. -/
def Withheld (ls : List Label) (site : Site) (port : Nat) : Prop :=
  (∃ a result, .finished a result ∈ ls ∧ a.site = site) ∧
  ∀ a v n, .performed a (.setOutput port v) ∈ ls → a.site = site →
    a.graph.node? a.handle = some n → n.outputCount ≤ port

/-- What a body puts on an output that its node has is in the cache. -/
theorem Step.output_cached (hs : Stacked fs cs m)
    (h : Step m (.performed a (.setOutput port v)) m') (hn : a.graph.node? a.handle = some n)
    (hp : port < n.outputCount) :
    ∃ v, m'.session.memory.cache.get? ⟨a.graph.id, a.handle, port⟩ = some v := by
  cases h with
  | @perform _ _ _ s _ next =>
    obtain ⟨n', hn', -, hc⟩ := hs.current rfl
    cases hn.symm.trans hn'
    refine ⟨v, ?_⟩
    rw [Operation.run, Session.setOutput_run hc, if_pos hp]
    exact (Table.get?_insert _ _ _ _).trans (if_pos rfl)

theorem Life.output_cached (h : Life ls m) (ha : .performed a (.setOutput port v) ∈ ls)
    (hn : a.graph.node? a.handle = some n) (hp : port < n.outputCount) :
    ∃ v, m.session.cached? a.graph.id ⟨a.handle, port⟩ = some v := by
  obtain ⟨pre, post, rfl⟩ := List.append_of_mem ha
  obtain ⟨m₁, m₂, h₁, hstep, hrun⟩ := h.split rfl
  exact hrun.cached (h₁.step hstep) (hstep.output_cached h₁.stacked.1 hn hp)

/-- Of a producer whose output is missing the marks tell whether it has withheld it. -/
theorem Life.withheld_iff (h : Life ls m) (hmissing : m.session.cached? graph output = none) :
    Withheld ls ⟨graph, output.node⟩ output.port ↔
      m.session.isEvaluated graph output.node = true := by
  have hmark : m.session.isEvaluated graph output.node = true ↔
      ∃ a result, .finished a result ∈ ls ∧ a.site = ⟨graph, output.node⟩ :=
    List.contains_iff_mem.trans (h.booked.evaluated _)
  rw [hmark]
  constructor
  · exact And.left
  · intro hran
    refine ⟨hran, ?_⟩
    rintro ⟨g, node, d⟩ v n ha hsite hn
    cases hsite
    by_contra hlt
    -- What was set would be in the cache by now.
    obtain ⟨v', hv'⟩ := h.output_cached ha hn (Nat.lt_of_not_le hlt)
    rw [hmissing] at hv'
    cases hv'

/-- When a node is given up for an invalid data flow, and how true that is. The report comes exactly
when the lowest port with a value that can never arrive has a producer that is not pure. It names the
node and that producer. It tells a producer that has not run from one that has run without giving the
value exactly as long as no body of the producer has returned and left the output unset. A missing
output is only ever reported of pure nodes. -/
theorem invalid_data_flow_report_iff {ls : List Label} {m m' : Machine} {g : Graph} {node : Handle}
    {e : Error} (h : Life ls m) (hstep : Step m (.settled g node (.drop e)) m') :
    (∀ node' upstream, e = .invalidDataFlow node' upstream →
      node' = node ∧ ∃ output, m.session.Severed g node output ∧ output.node = upstream) ∧
    (∀ output, m.session.Severed g node output →
      e = .invalidDataFlow node output.node ∧
      (m.session.isEvaluated g.id output.node = true ↔
        ∃ a result, .finished a result ∈ ls ∧ a.site = ⟨g.id, output.node⟩) ∧
      (e = m.session.promisedError g node output ↔
        ¬ Withheld ls ⟨g.id, output.node⟩ output.port)) ∧
    ∀ upstream port, e = .missingOutput upstream port →
      g.isPure upstream = true ∧ m.session.isEvaluated g.id upstream = true ∧
      ∃ input, m.session.Lacks g node input ⟨upstream, port⟩ := by
  have hv := hstep.settled_verdict
  refine ⟨?_, ?_, ?_⟩
  · rintro node' upstream rfl
    exact Session.verdict_invalidDataFlow hv
  · intro output hsevered
    obtain rfl := Session.verdict_of_severed hv hsevered
    obtain ⟨-, port, hlacks, -⟩ := hsevered
    refine ⟨rfl, List.contains_iff_mem.trans (h.booked.evaluated _), ?_⟩
    rw [h.withheld_iff hlacks.missing, Session.promisedError]
    cases hran : m.session.isEvaluated g.id output.node with
    | true => simp
    | false => simp
  · rintro upstream port rfl
    exact Session.verdict_missingOutput hv

namespace Silence

/-- A node that goes on without giving its value. -/
def silent : Definition where
  metadata := {
    nodeType := "silent", category := .control, label := "Silent"
    description := "Goes on without a value"
    inputs := [], outputs := [⟨"next", "Next", .execution⟩, ⟨"value", "Value", .data .int⟩]
    isPure := false, isRoot := true }
  body := some (Program.fire 0)

/-- The value is to be printed when the node has run. -/
def printed : Graph.Editor Unit := do
  let source ← modifyGet (·.addRoot (.new silent))
  let target ← modifyGet (·.addNode (.new Builtin.print))
  Graph.addWire ⟨source, 1⟩ ⟨target, 0⟩
  Graph.addLink ⟨source, 0⟩ target

def graph : Graph := printed.result (.new (.ofNat 1) "silence")

def evaluation (h : Handle) : Machine :=
  ⟨fun _ => none, .entering graph (.root h), [], { executionId := "" }⟩

/-- The printing is asked for first, and is about to be taken from the queue. -/
def early : List Label × Machine := (evaluation ⟨2, 1⟩).advance 1

/-- The producer has run and has asked for the printing. -/
def returned : List Label × Machine := (evaluation ⟨1, 1⟩).advance 4

theorem life (h : Handle) (n : Nat) :
    Life ((evaluation h).advance n).1 ((evaluation h).advance n).2 :=
  Session.Fresh.life ⟨rfl, rfl, rfl, rfl, rfl, rfl, rfl, rfl⟩ _ _ _ n

end Silence

/-- The report is true of a producer that has not run. -/
theorem invalid_data_flow_report_iff_early :
    Life Silence.early.1 Silence.early.2 ∧
    Silence.early.2.session.Severed Silence.graph ⟨2, 1⟩ ⟨⟨1, 1⟩, 1⟩ ∧
    Step Silence.early.2
      (.settled Silence.graph ⟨2, 1⟩ (.drop (.invalidDataFlow ⟨2, 1⟩ ⟨1, 1⟩)))
      ((Silence.evaluation ⟨2, 1⟩).advance 2).2 ∧
    ¬ Withheld Silence.early.1 ⟨Silence.graph.id, ⟨1, 1⟩⟩ 1 := by
  have hlife : Life Silence.early.1 Silence.early.2 := Silence.life ⟨2, 1⟩ 1
  have hsevered : Silence.early.2.session.Severed Silence.graph ⟨2, 1⟩ ⟨⟨1, 1⟩, 1⟩ :=
    ⟨⟨_, rfl, rfl⟩, 0, ⟨⟨_, rfl, Nat.zero_lt_one⟩, rfl, rfl⟩, by simp⟩
  have hstep : Step Silence.early.2
      (.settled Silence.graph ⟨2, 1⟩ (.drop (.invalidDataFlow ⟨2, 1⟩ ⟨1, 1⟩)))
      ((Silence.evaluation ⟨2, 1⟩).advance 2).2 := Machine.step_of_next? rfl
  obtain ⟨-, hreport, -⟩ := invalid_data_flow_report_iff hlife hstep
  exact ⟨hlife, hsevered, hstep, (hreport _ hsevered).2.2.mp rfl⟩

/-- A producer whose body has returned is reported as one that has not run. -/
theorem invalid_data_flow_after_return :
    Life Silence.returned.1 Silence.returned.2 ∧
    Step Silence.returned.2
      (.settled Silence.graph ⟨2, 1⟩ (.drop (.invalidDataFlow ⟨2, 1⟩ ⟨1, 1⟩)))
      ((Silence.evaluation ⟨1, 1⟩).advance 5).2 ∧
    Silence.returned.2.session.isEvaluated Silence.graph.id ⟨1, 1⟩ = true ∧
    Silence.returned.2.session.promisedError Silence.graph ⟨2, 1⟩ ⟨⟨1, 1⟩, 1⟩ =
      .missingOutput ⟨1, 1⟩ 1 :=
  ⟨Silence.life ⟨1, 1⟩ 4, Machine.step_of_next? rfl, rfl, rfl⟩

end Flowgraph
