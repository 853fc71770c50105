import Flowgraph.Proofs.Memory

namespace Flowgraph.Session

theorem mem_awaited {s : Session} {g : Graph} {h : Handle} {output : PortRef} :
    output ∈ s.awaited g h ↔ ∃ n port, g.node? h = some n ∧ port < n.inputCount ∧
      g.producer? ⟨h, port⟩ = some output ∧ s.isCached g.id output = false := by
  unfold awaited
  cases g.node? h with
  | none => simp
  | some n =>
    simp only [List.mem_filterMap, List.mem_range, Option.filter_eq_some_iff, Bool.not_eq_true',
      Option.some.injEq]
    constructor
    · rintro ⟨port, hp, hw, hc⟩
      exact ⟨n, port, rfl, hp, hw, hc⟩
    · rintro ⟨_, port, rfl, hp, hw, hc⟩
      exact ⟨port, hp, hw, hc⟩

/-- A node that waits for nothing has every wired input in the cache. -/
theorem cached_of_awaited_nil {s : Session} {g : Graph} {h : Handle} {n : Node} {port : Nat}
    {output : PortRef} (ha : s.awaited g h = []) (hn : g.node? h = some n)
    (hp : port < n.inputCount) (hw : g.producer? ⟨h, port⟩ = some output) :
    ∃ v, s.cached? g.id output = some v := by
  cases hc : s.cached? g.id output with
  | some v => exact ⟨v, rfl⟩
  | none =>
    have hm : output ∈ s.awaited g h :=
      mem_awaited.mpr ⟨n, port, hn, hp, hw, by simp [isCached, hc]⟩
    simp [ha] at hm

/-- Naming a producer once more never shortens the list of them. -/
theorem producersOf_ne_nil {s : Session} {g : Graph} {h : Handle} {outputs : List PortRef}
    {pending producers : List Handle} (hr : s.producersOf g h pending outputs = .ok producers)
    (hp : pending ≠ []) : producers ≠ [] := by
  induction outputs generalizing pending with
  | nil =>
    cases hr
    exact hp
  | cons output rest ih =>
    obtain ⟨producer, -, hr⟩ := bind_eq_ok.mp hr
    refine ih hr ?_
    split
    · exact hp
    · simp

theorem pending_eq_nil {s : Session} {g : Graph} {h : Handle} :
    s.pending g h = .ok [] ↔ s.awaited g h = [] := by
  constructor
  · intro hp
    obtain ⟨producers, hr, hp⟩ := bind_eq_ok.mp hp
    split at hp
    · cases hp
    · cases hp
      cases ha : s.awaited g h with
      | nil => rfl
      | cons output rest =>
        rw [ha] at hr
        obtain ⟨producer, -, hr⟩ := bind_eq_ok.mp hr
        exact absurd rfl (producersOf_ne_nil hr (by simp))
  · intro ha
    simp [pending, ha, producersOf, bind, Except.bind]

/-- Why the value of an awaited output cannot arrive any more. -/
theorem awaitedProducer_eq_error {s : Session} {g : Graph} {h : Handle} {output : PortRef}
    {e : Error} (ha : s.awaitedProducer g h output = .error e) :
    g.node? output.node = none ∨ ∃ n, g.node? output.node = some n ∧
      (n.isPure = false ∨ s.isDropped g.id output.node = true ∨
        s.isEvaluated g.id output.node = true) := by
  unfold awaitedProducer at ha
  cases hn : g.node output.node with
  | error e => exact .inl (Graph.node_eq_error.mp hn).1
  | ok n =>
    refine .inr ⟨n, Graph.node_eq_ok.mp hn, ?_⟩
    simp only [hn, bind, Except.bind] at ha
    split at ha
    · rename_i hp
      exact .inl (by simpa using hp)
    · split at ha
      · rename_i hd
        exact .inr (.inl hd)
      · split at ha
        · rename_i he
          exact .inr (.inr he)
        · cases ha

theorem producersOf_eq_error {s : Session} {g : Graph} {h : Handle} {outputs : List PortRef}
    {pending : List Handle} {e : Error} (hr : s.producersOf g h pending outputs = .error e) :
    ∃ output ∈ outputs, s.awaitedProducer g h output = .error e := by
  induction outputs generalizing pending with
  | nil => cases hr
  | cons output rest ih =>
    cases ha : s.awaitedProducer g h output with
    | error e =>
      simp only [producersOf, ha, bind, Except.bind] at hr
      cases hr
      exact ⟨output, List.mem_cons_self, ha⟩
    | ok producer =>
      simp only [producersOf, ha, bind, Except.bind] at hr
      obtain ⟨other, hm, he⟩ := ih hr
      exact ⟨other, List.mem_cons_of_mem _ hm, he⟩

theorem pending_eq_error {s : Session} {g : Graph} {h : Handle} {e : Error}
    (hp : s.pending g h = .error e) :
    (∃ output ∈ s.awaited g h, s.awaitedProducer g h output = .error e) ∨
      s.dependsOnItself g h = true ∧ e = .cyclicDependency h := by
  unfold pending at hp
  cases hr : s.producersOf g h [] (s.awaited g h) with
  | error e =>
    simp only [hr, bind, Except.bind] at hp
    cases hp
    exact .inl (producersOf_eq_error hr)
  | ok producers =>
    simp only [hr, bind, Except.bind] at hp
    split at hp
    · rename_i hc
      cases hp
      simp only [Bool.and_eq_true] at hc
      exact .inr ⟨hc.2, rfl⟩
    · cases hp

/-- A producer whose value can still arrive is live and pure, and has neither run nor been given up. -/
theorem awaitedProducer_eq_ok {s : Session} {g : Graph} {h p : Handle} {output : PortRef}
    (ha : s.awaitedProducer g h output = .ok p) :
    p = output.node ∧ g.isPure p = true ∧ s.isDropped g.id p = false ∧
      s.isEvaluated g.id p = false := by
  unfold awaitedProducer at ha
  cases hn : g.node output.node with
  | error e => simp [hn, bind, Except.bind] at ha
  | ok n =>
    have hlive := Graph.node_eq_ok.mp hn
    simp only [hn, bind, Except.bind] at ha
    split at ha
    · cases ha
    · rename_i hp
      split at ha
      · cases ha
      · rename_i hd
        split at ha
        · cases ha
        · rename_i he
          cases ha
          refine ⟨rfl, ?_, by simpa using hd, by simpa using he⟩
          simpa [Graph.isPure, hlive] using hp

/-- Every producer that is named comes from an awaited output, or was named before. -/
theorem producersOf_eq_ok {s : Session} {g : Graph} {h p : Handle} {outputs : List PortRef}
    {pending producers : List Handle} (hr : s.producersOf g h pending outputs = .ok producers)
    (hp : p ∈ producers) :
    p ∈ pending ∨ ∃ output ∈ outputs, s.awaitedProducer g h output = .ok p := by
  induction outputs generalizing pending with
  | nil =>
    cases hr
    exact .inl hp
  | cons output rest ih =>
    obtain ⟨producer, ha, hr⟩ := bind_eq_ok.mp hr
    rcases ih hr with hold | ⟨other, hm, ho⟩
    · split at hold
      · exact .inl hold
      · rcases List.mem_append.mp hold with hold | hnew
        · exact .inl hold
        · rw [List.mem_singleton.mp hnew]
          exact .inr ⟨output, List.mem_cons_self, ha⟩
    · exact .inr ⟨other, List.mem_cons_of_mem _ hm, ho⟩

theorem pending_eq_ok {s : Session} {g : Graph} {h p : Handle} {producers : List Handle}
    (hr : s.pending g h = .ok producers) (hp : p ∈ producers) :
    ∃ output ∈ s.awaited g h, s.awaitedProducer g h output = .ok p := by
  obtain ⟨named, hnamed, hr⟩ := bind_eq_ok.mp hr
  split at hr
  · cases hr
  · cases hr
    exact (producersOf_eq_ok hnamed hp).resolve_left List.not_mem_nil

/-- Why a node taken from a queue is treated as it is. -/
inductive Judged (s : Session) (g : Graph) (h : Handle) : Verdict → Prop where
  | alreadyDropped (dropped : s.isDropped g.id h = true) : Judged s g h .alreadyDropped
  | missing (kept : s.isDropped g.id h = false) (none : g.node? h = none) :
      Judged s g h (.drop (.nodeNotFound h))
  | alreadyEvaluated (kept : s.isDropped g.id h = false) (live : g.node? h = some n)
      (isPure : n.isPure = true) (evaluated : s.isEvaluated g.id h = true) :
      Judged s g h .alreadyEvaluated
  | stuck (kept : s.isDropped g.id h = false) (live : g.node? h = some n)
      (new : ¬ (n.isPure = true ∧ s.isEvaluated g.id h = true)) (vain : s.pending g h = .error e) :
      Judged s g h (.drop e)
  | early (kept : s.isDropped g.id h = false) (live : g.node? h = some n)
      (new : ¬ (n.isPure = true ∧ s.isEvaluated g.id h = true))
      (pending : s.pending g h = .ok (p :: producers)) : Judged s g h (.defer (p :: producers))
  | bodiless (kept : s.isDropped g.id h = false) (live : g.node? h = some n)
      (new : ¬ (n.isPure = true ∧ s.isEvaluated g.id h = true)) (nothing : s.awaited g h = [])
      (body : n.definition.body = none) : Judged s g h (.drop (.missingEvaluation n.nodeType))
  | due (kept : s.isDropped g.id h = false) (live : g.node? h = some n)
      (new : ¬ (n.isPure = true ∧ s.isEvaluated g.id h = true)) (nothing : s.awaited g h = [])
      (body : n.definition.body = some b) : Judged s g h (.start n.definition b)

theorem verdict_judged {s : Session} {g : Graph} {h : Handle} {v : Verdict}
    (hv : s.verdict g h = v) : s.Judged g h v := by
  subst hv
  unfold verdict
  cases hd : s.isDropped g.id h with
  | true => exact .alreadyDropped hd
  | false =>
    rw [if_neg (by simp)]
    cases hn : g.node h with
    | error e =>
      obtain ⟨hnone, rfl⟩ := Graph.node_eq_error.mp hn
      exact .missing hd hnone
    | ok n =>
      have hlive := Graph.node_eq_ok.mp hn
      dsimp only
      split
      · rename_i hdone
        obtain ⟨hp, he⟩ := Bool.and_eq_true_iff.mp hdone
        exact .alreadyEvaluated hd hlive hp he
      · rename_i hnew
        rw [Bool.and_eq_true] at hnew
        cases hp : s.pending g h with
        | error e => exact .stuck hd hlive hnew hp
        | ok producers =>
          cases producers with
          | cons p rest => exact .early hd hlive hnew hp
          | nil =>
            have hnothing := pending_eq_nil.mp hp
            cases hb : n.definition.body with
            | none => exact .bodiless hd hlive hnew hnothing hb
            | some body => exact .due hd hlive hnew hnothing hb

end Flowgraph.Session

namespace Flowgraph

/-- The first node is wired to an input of the second. -/
def Graph.Feeds (g : Graph) (producer h : Handle) : Prop :=
  ∃ n port output, g.node? h = some n ∧ port < n.inputCount ∧
    g.producer? ⟨h, port⟩ = some output ∧ output.node = producer

theorem Session.feeds_of_awaited {s : Session} {g : Graph} {h : Handle} {output : PortRef}
    (ha : output ∈ s.awaited g h) : g.Feeds output.node h := by
  obtain ⟨n, port, hn, hp, hw, -⟩ := mem_awaited.mp ha
  exact ⟨n, port, output, hn, hp, hw, rfl⟩

end Flowgraph
