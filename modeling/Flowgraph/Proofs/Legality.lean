import Flowgraph.Proofs.Removal

namespace Flowgraph

namespace View

/-- One node is changed. -/
def revise (v : View) (h : Handle) (f : Node → Node) : View where
  id := v.id
  name := v.name
  node? := Function.update v.node? h ((v.node? h).map f)
  listing := v.listing.map fun e => if e.1 = h then (h, f e.2) else e
  producer? := v.producer?
  targets := v.targets
  executionInputs := v.executionInputs
  roots := v.roots

/-- What a call is to do. A wire takes the place of a constant, and a target comes last. -/
def change (v : View) : Change → View
  | .wire source target =>
    { v.revise target.node (·.clearConstant target.port) with
      producer? := Function.update v.producer? target (some source) }
  | .link source target =>
    { v with targets := Function.update v.targets source (v.targets source ++ [target]) }
  | .inputLink ordinal target =>
    { v with executionInputs :=
        v.executionInputs.modify ordinal fun i => { i with targets := i.targets ++ [target] } }
  | .constant input value =>
    v.revise input.node fun n => { n with inputs := n.inputs.set input.port (some value) }
  | .removal h => v.without h

end View

namespace Graph

section

variable {g : Graph} {h : Handle} {n : Node}

theorem Edited.declared (hg : g.Edited) (c : Condition) : ¬ c.Undeclared g := by
  intro hc
  obtain ⟨h, n, hn, hbroken⟩ := hc.not_intact
  exact hbroken (hg.all_intact.get? hn)

end

end Graph

end Flowgraph
