import Flowgraph.Proofs.Dependencies

namespace Flowgraph

open Relation (ReflTransGen)

namespace Graph

/-- The outputs name a way against the wires: the first feeds `h`, each other one feeds the node of
the one before it, and the node of the last is `last`. -/
def Route (g : Graph) (h : Handle) : List PortRef → Handle → Prop
  | [], last => h = last
  | output :: outputs, last => g.FedBy h output ∧ g.Route output.node outputs last

theorem route_append {g : Graph} {h last : Handle} {xs ys : List PortRef} :
    g.Route h (xs ++ ys) last ↔ ∃ middle, g.Route h xs middle ∧ g.Route middle ys last := by
  induction xs generalizing h with
  | nil => simp [Route]
  | cons output xs ih => simp [Route, ih, and_assoc]

end Graph

namespace Session

/-- The search without a bound. In each turn the node on top of the stack is looked at; the search
ends when one waits for `start` or none is left. -/
inductive Search (s : Session) (g : Graph) (start : Handle) :
    Nat → List Handle → List Handle → Bool → Prop where
  | exhausted : Search s g start 0 [] visited false
  | found (back : s.Awaits g start h) : Search s g start 1 (h :: stack) visited true
  | expand (on : ¬ s.Awaits g start h)
      (rest : Search s g start turns (s.freshProducers g visited h ++ stack)
        (s.freshProducers g visited h ++ visited) answer) :
      Search s g start (turns + 1) (h :: stack) visited answer

/-- The outputs lead from the node back to it. None of them is in the cache, and all nodes on the
way are pure. -/
structure Circuit (s : Session) (g : Graph) (h : Handle) (outputs : List PortRef) : Prop where
  nonempty : outputs ≠ []
  route : g.Route h outputs h
  missing : ∀ output ∈ outputs, s.cached? g.id output = none
  isPure : ∀ output ∈ outputs.dropLast, g.isPure output.node = true

section

variable {s : Session} {g : Graph} {h start : Handle} {stack visited : List Handle}

theorem Search.unique (hs : s.Search g start turns stack visited answer)
    (hs' : s.Search g start turns' stack visited answer') : turns = turns' ∧ answer = answer' := by
  induction hs generalizing turns' with
  | exhausted =>
    cases hs'
    exact ⟨rfl, rfl⟩
  | found back =>
    cases hs' with
    | found => exact ⟨rfl, rfl⟩
    | expand on => exact absurd back on
  | expand on _ ih =>
    cases hs' with
    | found back => exact absurd back on
    | expand _ rest =>
      obtain ⟨rfl, rfl⟩ := ih rest
      exact ⟨rfl, rfl⟩

/-- A search with room for the nodes that it has yet to look at ends before the room is used up. -/
theorem Searching.ends (hs : s.Searching g start stack visited searched)
    (hroom : stack.length + g.size ≤ room + visited.length) :
    ∃ turns ≤ room, s.Search g start turns stack visited
      (s.reaches g start room stack visited) := by
  induction room generalizing stack visited searched with
  | zero =>
    have hsize := Graph.length_le_size hs.nodup hs.isPure
    obtain rfl : stack = [] := List.length_eq_zero_iff.mp (by omega)
    exact ⟨0, Nat.le_refl 0, .exhausted⟩
  | succ room ih =>
    cases stack with
    | nil => exact ⟨0, Nat.zero_le _, .exhausted⟩
    | cons h stack =>
      unfold reaches
      dsimp only
      split
      · rename_i hfound
        rw [List.contains_iff_mem, mem_awaitedNodes] at hfound
        exact ⟨1, by omega, .found hfound⟩
      · rename_i hnot
        rw [List.contains_iff_mem, mem_awaitedNodes] at hnot
        obtain ⟨turns, hle, hsearch⟩ := ih (hs.expand hnot)
          (by simp only [List.length_append, List.length_cons] at hroom ⊢; omega)
        exact ⟨turns + 1, by omega, .expand hnot hsearch⟩

theorem dependsOnItself_search (s : Session) (g : Graph) (h : Handle) :
    ∃ turns ≤ g.size + 1, s.Search g h turns [h] [] (s.dependsOnItself g h) := by
  have hinit : s.Searching g h [h] [] [] :=
    ⟨List.nodup_nil, List.forall_mem_nil _, List.forall_mem_nil _, List.forall_mem_nil _⟩
  refine hinit.ends ?_
  simp only [List.length_cons, List.length_nil]
  omega

/-- The nodes from which pure producers lead to another are those on a way of missing outputs. -/
theorem reflTransGen_draws_iff {x : Handle} : ReflTransGen (s.Draws g) x h ↔
    ∃ outputs, g.Route h outputs x ∧ ∀ output ∈ outputs,
      s.cached? g.id output = none ∧ g.isPure output.node = true := by
  constructor
  · intro hpath
    induction hpath using ReflTransGen.head_induction_on with
    | refl => exact ⟨[], rfl, List.forall_mem_nil _⟩
    | head hstep _ ih =>
      obtain ⟨outputs, hroute, hopen⟩ := ih
      obtain ⟨⟨output, hawaited, rfl⟩, hpure⟩ := hstep
      obtain ⟨hfed, hmissing⟩ := mem_awaited_iff_fedBy.mp hawaited
      refine ⟨outputs ++ [output], Graph.route_append.mpr ⟨_, hroute, hfed, rfl⟩, ?_⟩
      exact List.forall_mem_append.mpr ⟨hopen, List.forall_mem_singleton.mpr ⟨hmissing, hpure⟩⟩
  · rintro ⟨outputs, hroute, hopen⟩
    induction outputs generalizing h with
    | nil =>
      obtain rfl : h = x := hroute
      exact .refl
    | cons output outputs ih =>
      obtain ⟨hfed, hroute⟩ := hroute
      obtain ⟨⟨hmissing, hpure⟩, hopen⟩ := List.forall_mem_cons.mp hopen
      have hdraws : s.Draws g output.node h :=
        ⟨⟨output, mem_awaited_iff_fedBy.mpr ⟨hfed, hmissing⟩, rfl⟩, hpure⟩
      exact (ih hroute hopen).tail hdraws

/-- The last output of a circuit is the node's own, and the others lead to a node that awaits it. -/
theorem circuit_iff : (∃ outputs, s.Circuit g h outputs) ↔
    ∃ x, ReflTransGen (s.Draws g) x h ∧ s.Awaits g h x := by
  simp only [reflTransGen_draws_iff]
  constructor
  · rintro ⟨outputs, hsome, hroute, hmissing, hpure⟩
    obtain ⟨outputs, output, rfl⟩ := (List.eq_nil_or_concat outputs).resolve_left hsome
    rw [List.concat_eq_append] at hroute hmissing hpure
    rw [List.dropLast_concat] at hpure
    obtain ⟨x, hroute, hfed, hback⟩ := Graph.route_append.mp hroute
    obtain ⟨hmissing, hlast⟩ := List.forall_mem_append.mp hmissing
    refine ⟨x, ⟨outputs, hroute, fun o ho => ⟨hmissing o ho, hpure o ho⟩⟩, output, ?_, hback⟩
    exact mem_awaited_iff_fedBy.mpr ⟨hfed, hlast output List.mem_cons_self⟩
  · rintro ⟨x, ⟨outputs, hroute, hopen⟩, output, hawaited, hback⟩
    obtain ⟨hfed, hmissing⟩ := mem_awaited_iff_fedBy.mp hawaited
    refine ⟨outputs ++ [output], by simp, Graph.route_append.mpr ⟨x, hroute, hfed, hback⟩, ?_, ?_⟩
    · exact List.forall_mem_append.mpr
        ⟨fun o ho => (hopen o ho).1, List.forall_mem_singleton.mpr hmissing⟩
    · rw [List.dropLast_concat]
      exact fun o ho => (hopen o ho).2

end

end Session

/-- The search for a cycle, on any graph and session. It comes to an end after as many turns as the
graph has nodes and one more at most, so that the bound it is given is never what ends it. What it
finds are the nodes on a circuit of missing outputs with pure nodes in between. Ways that come back
over an output in the cache or a node that is not pure make no difference, and no more do cycles
that the node is not on. -/
theorem cycle_search_exact (s : Session) (g : Graph) (h : Handle) :
    (∃ turns ≤ g.size + 1, s.Search g h turns [h] [] (s.dependsOnItself g h)) ∧
    (∀ turns answer, s.Search g h turns [h] [] answer → answer = s.dependsOnItself g h) ∧
    (s.dependsOnItself g h = true ↔ ∃ outputs, s.Circuit g h outputs) ∧
    ((∀ outputs, outputs ≠ [] → g.Route h outputs h →
      (∃ output ∈ outputs, ∃ v, s.cached? g.id output = some v) ∨
        ∃ output ∈ outputs.dropLast, g.isPure output.node = false) →
      s.dependsOnItself g h = false) := by
  obtain ⟨turns, hle, hsearch⟩ := s.dependsOnItself_search g h
  have hiff : s.dependsOnItself g h = true ↔ ∃ outputs, s.Circuit g h outputs :=
    Session.dependsOnItself_iff.trans Session.circuit_iff.symm
  refine ⟨⟨turns, hle, hsearch⟩, ?_, hiff, ?_⟩
  · intro turns' answer hsearch'
    exact (hsearch'.unique hsearch).2
  · intro hbarred
    rw [← Bool.not_eq_true, hiff]
    rintro ⟨outputs, hsome, hroute, hmissing, hpure⟩
    rcases hbarred outputs hsome hroute with ⟨output, ho, v, hv⟩ | ⟨output, ho, himpure⟩
    · rw [hmissing output ho] at hv
      cases hv
    · rw [hpure output ho] at himpure
      cases himpure

namespace Feedback

/-- A node that is not pure, with a value in and a value out. -/
def relay : Definition where
  metadata := {
    nodeType := "relay", category := .control, label := "Relay", description := "Hands a value on"
    inputs := [⟨"in", "In", .data .int⟩], outputs := [⟨"out", "Out", .data .int⟩]
    isPure := false, isRoot := false }
  body := some do Program.setOutput 0 (← Program.input 0)

/-- A sum of what the relay hands on, handed back to the relay. -/
def wiring : Graph.Editor Unit := do
  let source ← modifyGet (·.addNode (.new relay))
  let sum ← modifyGet (·.addNode (.new Builtin.add))
  Graph.addWire ⟨source, 0⟩ ⟨sum, 0⟩
  Graph.addWire ⟨sum, 0⟩ ⟨source, 0⟩

def graph : Graph := wiring.result (.new (.ofNat 1) "feedback")

def session : Session := { executionId := "" }

/-- The relay has handed a value on. -/
def later : Session :=
  { executionId := "", cache := ⟨[(⟨graph.id, ⟨⟨1, 1⟩, 0⟩⟩, .int 1)]⟩ }

theorem circuit : session.Circuit graph ⟨1, 1⟩ [⟨⟨2, 1⟩, 0⟩, ⟨⟨1, 1⟩, 0⟩] where
  nonempty := by simp
  route := ⟨⟨0, ⟨_, rfl, by decide⟩, rfl⟩, ⟨0, ⟨_, rfl, by decide⟩, rfl⟩, rfl⟩
  missing output _ := rfl
  isPure := List.forall_mem_singleton.mpr rfl

end Feedback

/-- The relay waits for itself by way of the sum, until its value is in the cache. The sum is on the
same circle but not found, for the relay on its way is not pure. -/
theorem cycle_search_exact_feedback :
    Feedback.session.dependsOnItself Feedback.graph ⟨1, 1⟩ = true ∧
    (¬ ∃ outputs, Feedback.later.Circuit Feedback.graph ⟨1, 1⟩ outputs) ∧
    ¬ ∃ outputs, Feedback.session.Circuit Feedback.graph ⟨2, 1⟩ outputs := by
  have hrelay := (cycle_search_exact Feedback.session Feedback.graph ⟨1, 1⟩).2.2.1
  have hlater := (cycle_search_exact Feedback.later Feedback.graph ⟨1, 1⟩).2.2.1
  have hsum := (cycle_search_exact Feedback.session Feedback.graph ⟨2, 1⟩).2.2.1
  refine ⟨hrelay.mpr ⟨_, Feedback.circuit⟩, ?_, ?_⟩
  · rw [← hlater]
    decide
  · rw [← hsum]
    decide

end Flowgraph
