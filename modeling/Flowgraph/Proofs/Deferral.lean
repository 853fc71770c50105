import Flowgraph.Proofs.CycleSearch
import Flowgraph.Proofs.Locality
import Mathlib.Data.FinEnum
import Mathlib.Data.Fintype.Card
import Mathlib.Order.WellFounded

namespace Flowgraph

open Relation (TransGen ReflTransGen)

instance : Finite Handle :=
  Finite.of_injective (fun h : Handle => (h.idx, h.version)) fun a b h => by
    cases a
    cases b
    cases h
    rfl

/-- A relation without cycles between nodes has no endless descent, as handles are finitely many. -/
theorem wellFounded_of_acyclic {r : Handle → Handle → Prop} (h : ∀ x, ¬ TransGen r x x) :
    WellFounded r := by
  have : IsTrans Handle (TransGen r) := ⟨fun _ _ _ => TransGen.trans⟩
  have : Std.Irrefl (TransGen r) := ⟨h⟩
  exact Subrelation.wf TransGen.single (Finite.wellFounded_of_trans_of_irrefl (TransGen r))

namespace Session

/-- The first node is one of those that the second is put back behind. -/
def Defers (s : Session) (g : Graph) (p h : Handle) : Prop :=
  ∃ producers, s.verdict g h = .defer producers ∧ p ∈ producers

/-- Nothing is to be done with the node any more. -/
def Skips (s : Session) (g : Graph) (h : Handle) : Prop :=
  s.verdict g h = .alreadyDropped ∨ s.verdict g h = .alreadyEvaluated

/-- The node is run or given up at its turn, or behind a producer of which the same can be said. -/
inductive Resolves (s : Session) (g : Graph) : Handle → Prop where
  | now (notSkipped : ¬ s.Skips g h) (due : ∀ producers, s.verdict g h ≠ .defer producers) :
      Resolves s g h
  | later (defers : s.Defers g p h) (before : Resolves s g p) : Resolves s g h

section

variable {s : Session} {g : Graph} {h p : Handle}

/-- A node that others are put back behind is pure, awaited, and not yet run or given up. -/
theorem Defers.producer (hd : s.Defers g p h) :
    s.Awaits g p h ∧ g.isPure p = true ∧ s.isDropped g.id p = false ∧
      s.isEvaluated g.id p = false := by
  obtain ⟨producers, hv, hp⟩ := hd
  cases verdict_judged hv with
  | early kept live new pending =>
    obtain ⟨output, ho, ha⟩ := pending_eq_ok pending hp
    obtain ⟨rfl, hpure, hdropped, hevaluated⟩ := awaitedProducer_eq_ok ha
    exact ⟨⟨output, ho, rfl⟩, hpure, hdropped, hevaluated⟩

theorem Defers.not_skips (hd : s.Defers g p h) : ¬ s.Skips g p := by
  obtain ⟨-, -, hdropped, hevaluated⟩ := hd.producer
  rintro (hv | hv)
  · cases verdict_judged hv with
    | alreadyDropped dropped => simp [hdropped] at dropped
  · cases verdict_judged hv with
    | alreadyEvaluated kept live isPure evaluated => simp [hevaluated] at evaluated

/-- A pure node that is put back was found to wait for itself nowhere. -/
theorem Defers.not_dependsOnItself (hd : s.Defers g p h) (hpure : g.isPure h = true) :
    s.dependsOnItself g h = false := by
  obtain ⟨producers, hv, -⟩ := hd
  cases verdict_judged hv with
  | early kept live new pending =>
    obtain ⟨named, hnamed, hp⟩ := bind_eq_ok.mp pending
    split at hp
    · cases hp
    · rename_i hc
      cases hp
      simpa [hpure] using hc

theorem defers_acyclic (s : Session) (g : Graph) (h : Handle) : ¬ TransGen (s.Defers g) h h := by
  intro hcycle
  obtain ⟨x, hback, hpath⟩ := TransGen.head'_iff.mp hcycle
  obtain ⟨y, -, hfirst⟩ := TransGen.tail'_iff.mp hcycle
  obtain ⟨hawaits, hpure, -⟩ := hback.producer
  have hself : s.dependsOnItself g h = true := by
    refine dependsOnItself_complete ?_ hawaits
    refine ReflTransGen.mono ?_ _ _ hpath
    exact fun p q hd => ⟨hd.producer.1, hd.producer.2.1⟩
  rw [hfirst.not_dependsOnItself hpure] at hself
  cases hself

/-- Deferral never goes round in circles: whatever a node is put back behind, at the end of the line
stands one that is run or given up at its turn. -/
theorem skips_or_resolves (s : Session) (g : Graph) (h : Handle) :
    s.Skips g h ∨ s.Resolves g h := by
  induction h using (wellFounded_of_acyclic (s.defers_acyclic g)).induction with
  | _ h ih =>
    by_cases hskip : s.Skips g h
    · exact .inl hskip
    · by_cases hd : ∃ p, s.Defers g p h
      · obtain ⟨p, hd⟩ := hd
        exact .inr (.later hd ((ih p hd).resolve_left hd.not_skips))
      · refine .inr (.now hskip fun producers hv => ?_)
        cases verdict_judged hv with
        | early kept live new pending => exact hd ⟨_, _, hv, List.mem_cons_self⟩

end

end Session

end Flowgraph
