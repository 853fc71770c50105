import Flowgraph.Proofs.Effects
import Flowgraph.Proofs.Reports

namespace Flowgraph

/-- What occurred, and in which graph, in the order it was told. -/
abbrev Story := List (GraphId × Occurrence)

/-- What the collected events say, without the name of the execution. -/
def Session.told (s : Session) : Story :=
  s.events.toList.map fun e => (e.graph, e.occurrence)

/-- All that a session has told so far. -/
def Session.account (s : Session) : Account := ⟨s.told, s.diagnostics.toList, s.statistics⟩

theorem Account.append_empty (r : Account) : r ++ {} = r := by
  change Account.mk (r.occurrences ++ []) (r.diagnostics ++ []) (r.statistics + {}) = r
  rw [List.append_nil, List.append_nil, Statistics.add_empty]

theorem Session.Reports.account {s s' : Session} {r : Account} (h : s.Reports s' r)
    (hc : s.sink = .collect) : s'.account = s.account ++ r := by
  have htold : s'.told = s.told ++ r.occurrences := by
    rw [told, told, h.events, delivered, if_pos hc, List.map_append, List.map_map]
    exact congrArg _ (List.map_id _)
  rw [Session.account, htold, h.diagnostics, h.statistics]
  rfl

/-- A life under one configuration, all of whose events are collected. -/
inductive Observed (config : Config) : List Label → Machine → Prop where
  | fresh {s : Session} (new : s.Fresh) (collects : s.sink = .collect)
      (configured : s.config = config) : Observed config [] ⟨scene, .idle, [], s⟩
  | step (before : Observed config ls m) (last : Step m l m') : Observed config (ls ++ [l]) m'
  | move (before : Observed config ls m) (last : Move m m') (collects : m'.session.sink = .collect)
      (configured : m'.session.config = config) : Observed config ls m'

theorem Observed.life (h : Observed config ls m) : Life ls m := by
  induction h with
  | @fresh scene s new _ _ => exact ⟨scene, s, new, .refl⟩
  | step _ last ih => exact ih.step last
  | move _ last _ _ ih => exact ih.move last

theorem Observed.setting (h : Observed config ls m) :
    m.session.sink = .collect ∧ m.session.config = config := by
  induction h with
  | fresh _ collects configured => exact ⟨collects, configured⟩
  | step before last ih =>
    have hreports := last.reports before.life.stacked.1
    exact ⟨hreports.sink.trans ih.1, last.graphs.1.trans ih.2⟩
  | move _ _ collects configured => exact ⟨collects, configured⟩

/-- Every step adds its own account to what has been told. -/
theorem Observed.tells (h : Observed config ls m) (last : Step m l m') :
    m'.session.account = m.session.account ++ l.account config m.session.depth := by
  obtain ⟨hcollects, hconfig⟩ := h.setting
  rw [← hconfig]
  exact (last.reports h.life.stacked.1).account hcollects

/-- Between evaluations nothing is told. -/
theorem Observed.silent (h : Observed config ls m) (last : Move m m') :
    m'.session.account = m.session.account := by
  cases last with
  | @perform _ s op =>
    rw [(op.run_reports s).account h.setting.1, Account.append_empty]
  | equip | call | collect => rfl

theorem Observed.told_step (h : Observed config ls m) (last : Step m l m') :
    m'.session.told = m.session.told ++ (l.account config m.session.depth).occurrences :=
  congrArg Account.occurrences (h.tells last)

theorem Observed.told_move (h : Observed config ls m) (last : Move m m') :
    m'.session.told = m.session.told := congrArg Account.occurrences (h.silent last)

theorem Observed.steps (h : Observed config ls m) (rest : Steps m ls' m') :
    Observed config (ls ++ ls') m' := by
  induction rest generalizing ls with
  | refl => simpa using h
  | head first _ ih => simpa using ih (h.step first)

/-- One evaluation more belongs to what is observed. -/
theorem Observed.call (h : Observed config ls ⟨scene₀, .idle, [], s⟩)
    (hcall : Call scene s g entry ls' result s') :
    Observed config (ls ++ ls') ⟨scene, .idle, [], s'⟩ := by
  obtain ⟨hcollects, hconfig⟩ := h.setting
  have hreturned := (h.move (.call scene g entry) hcollects hconfig).steps hcall
  obtain ⟨hcollects', hconfig'⟩ := hreturned.setting
  exact hreturned.move .collect hcollects' hconfig'

theorem Observed.evaluate {scene : Scene} {s s' : Session} {g : Graph} {entry : Entry}
    (h : Observed config ls ⟨scene₀, .idle, [], s⟩)
    (he : s.evaluate scene fuel g entry = some (result, s')) :
    ∃ ls', Observed config (ls ++ ls') ⟨scene, .idle, [], s'⟩ := by
  obtain ⟨ls', hcall⟩ := evaluate_iff_call.mp ⟨fuel, he⟩
  exact ⟨ls', h.call hcall⟩

/-- Between evaluations no body is under way. -/
theorem Observed.inactive (h : Observed config ls m) (hi : m.control = .idle) : m.active = [] := by
  have hs := h.life.stacked.1
  simp only [Stacked, hi] at hs
  simp [Machine.active, Machine.held, hi, hs.1]

namespace Losses

/-- A pure node that fails. -/
def broken : Definition where
  metadata := {
    nodeType := "broken", category := .value, label := "Broken", description := "Fails"
    inputs := [], outputs := [⟨"out", "Out", .data .int⟩]
    isPure := true, isRoot := false }
  body := some (Program.fail (.evaluationFailed "broken"))

/-- A node with an input and nothing to do. -/
def reader : Definition where
  metadata := {
    nodeType := "reader", category := .output, label := "Reader", description := "Waits for a value"
    inputs := [⟨"in", "In", .data .int⟩], outputs := []
    isPure := false, isRoot := false }
  body := some (Program.finish (.ok ()))

/-- The graph that evaluates itself once more, with a reader of a node that fails beside it. -/
def wiring : Graph.Editor Unit := do
  let source ← modifyGet (·.addNode (.new broken))
  let target ← modifyGet (·.addNode (.new reader))
  Graph.addWire ⟨source, 0⟩ ⟨target, 0⟩
  let start ← modifyGet (·.addExecutionInput "start")
  Graph.addInputLink start ⟨2, 1⟩
  Graph.addInputLink start target

def graph : Graph := wiring.result Reentry.graph

def scene : Scene := fun _ => some graph

def fresh : Session :=
  { executionId := "", sink := .collect, config := { maxGraphDepth := 2 } }

theorem fresh_observed : Observed fresh.config [] ⟨scene, .idle, [], fresh⟩ :=
  .fresh ⟨rfl, rfl, rfl, rfl, rfl, rfl, rfl, rfl⟩ rfl rfl

/-- The graph under evaluation on a session that allows two levels. -/
def entry : Machine := ⟨scene, .entering graph (.executionInput 0), [], fresh⟩

def after : Session := (entry.advance 21).2.session

/-- The graph once more, from the reader that has been given up and is no root. -/
def retry : Machine := ⟨scene, .entering graph (.root ⟨4, 1⟩), [], after⟩

def final : Session := (retry.advance 3).2.session

def labels : List Label := (entry.advance 21).1 ++ (retry.advance 3).1

theorem first_call :
    Call scene fresh graph (.executionInput 0) (entry.advance 21).1 (.ok ()) after :=
  entry.advance_steps 21

theorem second_call : Call scene after graph (.root ⟨4, 1⟩) (retry.advance 3).1 (.ok ()) final :=
  retry.advance_steps 3

theorem observed : Observed fresh.config labels ⟨scene, .idle, [], final⟩ :=
  (fresh_observed.call first_call).call second_call

end Losses

end Flowgraph
