import Flowgraph.Proofs.Allowance

namespace Flowgraph

namespace Session

/-- Why a session does not let an evaluation in. -/
inductive Refusal (s : Session) (g : Graph) : Entry → Error → Prop where
  | outOfRange {ordinal : UInt64} (beyond : g.executionInputs.length ≤ ordinal.toNat) :
      Refusal s g (.executionInput ordinal)
        (.executionInputOutOfRange ordinal.toNat g.executionInputs.length)
  | inputTooDeep {ordinal : UInt64} (declared : ordinal.toNat < g.executionInputs.length)
      (full : s.config.maxGraphDepth.toNat ≤ s.depth) :
      Refusal s g (.executionInput ordinal) (.graphDepthExceeded s.config.maxGraphDepth.toNat)
  | rootTooDeep (full : s.config.maxGraphDepth.toNat ≤ s.depth) :
      Refusal s g (.root r) (.graphDepthExceeded s.config.maxGraphDepth.toNat)
  | missing (room : s.depth < s.config.maxGraphDepth.toNat) (gone : g.node? r = none) :
      Refusal s g (.root r) (.nodeNotFound r)
  | notRoot (room : s.depth < s.config.maxGraphDepth.toNat) (live : g.node? r = some n)
      (other : n.definition.isRoot = false) (strict : s.config.strictRoots = true) :
      Refusal s g (.root r) (.notRoot n.nodeType)

/-- What the sink hears of a refusal. -/
def notice (g : Graph) : Entry → Error → List (GraphId × Occurrence)
  | .root r, .notRoot nodeType => [(g.id, .nonRootEntry r nodeType)]
  | _, _ => []

/-- Nothing has become of a session but that something was logged and something told. -/
def Told (s s' : Session) (occurrences : List (GraphId × Occurrence)) : Prop :=
  s' = { s with
    journal := s'.journal, events := s.events ++ (s.delivered occurrences).toArray }

theorem Told.refl (s : Session) : s.Told s [] := by
  have hnone : s.delivered [] = [] := by simp [delivered]
  rw [Told, hnone]
  simp

theorem Told.log {s s' : Session} (h : s.Told s' os) (level : Level) (text : String) :
    s.Told (s'.log level text) os := by
  unfold Told at h ⊢
  rw [h]
  rfl

theorem told_emit (s : Session) (graph : GraphId) (o : Occurrence) :
    s.Told (s.emit graph o) [(graph, o)] := by
  unfold emit
  cases hs : s.sink with
  | collect =>
    have hone : s.delivered [(graph, o)] = [⟨s.executionId, graph, o⟩] := by simp [delivered, hs]
    rw [Told, hone]
    simp [hs]
  | discard =>
    have hnone : s.delivered [(graph, o)] = [] := by simp [delivered, hs]
    rw [Told, hnone]
    simp
  | refuse message =>
    have hnone : s.delivered [(graph, o)] = [] := by simp [delivered, hs]
    rw [Told, hnone]
    simp [Session.log]

/-- There is no room for one more graph. -/
theorem checkDepth_full {s : Session} (h : s.config.maxGraphDepth.toNat ≤ s.depth) :
    ∃ s', s.checkDepth = (.error (.graphDepthExceeded s.config.maxGraphDepth.toNat), s') ∧
      s.Told s' [] := by
  rw [checkDepth]
  exact ⟨_, if_neg (Nat.not_lt_of_le h), (Told.refl s).log _ _⟩

/-- A refused entry is answered with the reason. -/
theorem seeds_of_refusal {s : Session} {g : Graph} {entry : Entry} {e : Error}
    (h : s.Refusal g entry e) :
    ∃ s', s.seeds g entry = (.error e, s') ∧ s.Told s' (notice g entry e) := by
  cases h with
  | @outOfRange ordinal beyond =>
    have hnone : g.executionInputs[ordinal.toNat]? = none := List.getElem?_eq_none beyond
    rw [seeds, inputSeeds, Graph.inputTargets, hnone]
    exact ⟨_, rfl, (Told.refl s).log _ _⟩
  | @inputTooDeep ordinal declared full =>
    have hsome := List.getElem?_eq_getElem declared
    obtain ⟨s', hc, htold⟩ := checkDepth_full full
    rw [seeds, inputSeeds, Graph.inputTargets, hsome, hc]
    exact ⟨s', rfl, htold⟩
  | rootTooDeep full =>
    obtain ⟨s', hc, htold⟩ := checkDepth_full full
    rw [seeds, rootSeeds, hc]
    exact ⟨s', rfl, htold⟩
  | missing room gone =>
    rw [seeds, rootSeeds, checkDepth_room room, Graph.node_eq_error.mpr ⟨gone, rfl⟩]
    exact ⟨s, rfl, Told.refl s⟩
  | @notRoot r n room live other strict =>
    have hconfig : (s.emit g.id (.nonRootEntry r n.nodeType)).config = s.config :=
      congrArg Memory.config (s.emit_memory _ _)
    rw [seeds, rootSeeds, checkDepth_room room, Graph.node_eq_ok.mpr live]
    simp only [other, hconfig, strict, Bool.false_eq_true, ↓reduceIte]
    exact ⟨_, rfl, (s.told_emit _ _).log _ _⟩

/-- An entry that nothing speaks against is let in. -/
theorem seeds_of_not_refusal {s : Session} {g : Graph} {entry : Entry}
    (h : ∀ e, ¬ s.Refusal g entry e) : ∃ queue s', s.seeds g entry = (.ok queue, s') := by
  cases entry with
  | executionInput ordinal =>
    have declared : ordinal.toNat < g.executionInputs.length :=
      Nat.lt_of_not_le fun beyond => h _ (.outOfRange beyond)
    have room : s.depth < s.config.maxGraphDepth.toNat :=
      Nat.lt_of_not_le fun full => h _ (.inputTooDeep declared full)
    have hsome := List.getElem?_eq_getElem declared
    rw [seeds, inputSeeds, Graph.inputTargets, hsome, checkDepth_room room]
    exact ⟨_, _, rfl⟩
  | root r =>
    have room : s.depth < s.config.maxGraphDepth.toNat :=
      Nat.lt_of_not_le fun full => h _ (.rootTooDeep full)
    cases hn : g.node? r with
    | none => exact (h _ (.missing room hn)).elim
    | some n =>
      rw [seeds, rootSeeds, checkDepth_room room, Graph.node_eq_ok.mpr hn]
      cases hr : n.definition.isRoot with
      | true =>
        simp only [hr, ↓reduceIte]
        exact ⟨_, _, rfl⟩
      | false =>
        have hlax : s.config.strictRoots = false :=
          Bool.eq_false_iff.mpr fun strict => h _ (.notRoot room hn hr strict)
        have hconfig : (s.emit g.id (.nonRootEntry r n.nodeType)).config = s.config :=
          congrArg Memory.config (s.emit_memory _ _)
        simp only [hr, hconfig, hlax, Bool.false_eq_true, ↓reduceIte]
        exact ⟨_, _, rfl⟩

end Session

/-- What an evaluation may return once it was let in. -/
def Config.Allows (c : Config) (result : Except Error Unit) : Prop :=
  result = .ok () ∨
    ∃ limit, c.maxSteps = some limit ∧ result = .error (.stepLimitExceeded limit.toNat)

/-- An evaluation that was let in. Refused are only entries that its bodies ask for, and those
errors go to the bodies. -/
def Machine.LetIn (m : Machine) : Prop :=
  match m.control with
  | .entering .. => m.suspended ≠ []
  | .returning result => m.suspended = [] → m.session.memory.config.Allows result
  | .idle | .draining _ | .running .. => True

theorem Session.exceeded?_eq_some {s : Session} {n : Nat} (h : s.exceeded? = some n) :
    ∃ limit, s.memory.config.maxSteps = some limit ∧ n = limit.toNat := by
  unfold exceeded? at h
  obtain ⟨limit, hlimit, rfl⟩ := Option.map_eq_some_iff.mp h
  exact ⟨limit, (Option.filter_eq_some_iff.mp hlimit).1, rfl⟩

theorem Machine.LetIn.step (hm : m.LetIn) (h : Step m l m') : m'.LetIn := by
  cases h with
  | refuse hs => exact fun hw => absurd hw hm
  | drained hd => exact fun _ => .inl rfl
  | exhaust hd he =>
    intro hw
    obtain ⟨limit, hmax, rfl⟩ := Session.exceeded?_eq_some he
    rw [Session.closeGraph_memory]
    exact .inr ⟨limit, hmax, rfl⟩
  | call hr => exact List.cons_ne_nil _ _
  | enter | settle | start | perform | unresolved | finish | resume => trivial

theorem Steps.letIn (h : Steps m ls m') (hm : m.LetIn) : m'.LetIn := by
  induction h with
  | refl => exact hm
  | head first _ ih => exact ih (hm.step first)

/-- The graph whose queue is emptied is the innermost one under evaluation. -/
theorem Stacked.activeGraph (hs : Stacked fs cs m) (hc : m.control = .draining g) :
    m.session.activeGraph = .ok g := by
  simp only [Stacked, hc] at hs
  obtain ⟨frame, rest, hf, hg, -⟩ := hs
  have hframes : m.session.frames = frame :: rest := hf
  rw [Session.activeGraph, hframes, ← hg]

theorem evaluate_of_refusal {s : Session} {g : Graph} {entry : Entry} {e : Error}
    (h : s.Refusal g entry e) (scene : Scene) (fuel : Nat) :
    ∃ s', s.evaluate scene fuel g entry = some (.error e, s') ∧
      s.Told s' (Session.notice g entry e) := by
  obtain ⟨s', hs, htold⟩ := Session.seeds_of_refusal h
  refine ⟨s', ?_, htold⟩
  rw [Session.evaluate, Session.evaluateWith, hs]

theorem evaluate_allows {s s' : Session} {g : Graph} {entry : Entry} {result : Except Error Unit}
    (h : ∀ e, ¬ s.Refusal g entry e) (he : s.evaluate scene fuel g entry = some (result, s')) :
    s.config.Allows result := by
  obtain ⟨queue, t, hs⟩ := Session.seeds_of_not_refusal h
  obtain ⟨ls, hcall⟩ := evaluate_iff_call.mp ⟨fuel, he⟩
  have hconfig : s'.memory.config = s.memory.config := Steps.config hcall
  cases hcall with
  | head first rest =>
    obtain ⟨-, rfl⟩ := first.deterministic (.enter hs)
    have hend : s'.memory.config.Allows result := rest.letIn trivial rfl
    rw [hconfig] at hend
    exact hend

/-- An error other than the step limit is the reason of a refusal. -/
theorem refusal_of_evaluate {s s' : Session} {g : Graph} {entry : Entry} {e : Error}
    (hlimit : ∀ n, e ≠ .stepLimitExceeded n)
    (he : s.evaluate scene fuel g entry = some (.error e, s')) : s.Refusal g entry e := by
  by_cases h : ∃ e', s.Refusal g entry e'
  · obtain ⟨e', hrefusal⟩ := h
    obtain ⟨t, ht, -⟩ := evaluate_of_refusal hrefusal scene fuel
    cases he.symm.trans ht
    exact hrefusal
  · rcases evaluate_allows (not_exists.mp h) he with hok | ⟨limit, -, herror⟩
    · cases hok
    · cases herror
      exact absurd rfl (hlimit _)

/-- An evaluation is refused exactly if there is a reason, and with that reason; the session is then
as it was but for its journal and the notice that a node is no root. One that is let in returns
nothing but success or the step limit, whatever its bodies return, and works on the innermost graph
all the time. Under a step limit it does return, unless so many nodes are one too many that the
counter may start over. The evaluations that bodies ask for are no different. -/
theorem entry_errors_exact_and_atomic (scene : Scene) (s : Session) (g : Graph) (entry : Entry) :
    (∀ fuel e, (∀ n, e ≠ .stepLimitExceeded n) →
      ((∃ s', s.evaluate scene fuel g entry = some (.error e, s')) ↔ s.Refusal g entry e)) ∧
    (∀ fuel e s', (∀ n, e ≠ .stepLimitExceeded n) →
      s.evaluate scene fuel g entry = some (.error e, s') →
      s.Told s' (Session.notice g entry e)) ∧
    (∀ fuel result s', (∀ e, ¬ s.Refusal g entry e) →
      s.evaluate scene fuel g entry = some (result, s') → s.config.Allows result) ∧
    (∀ limit, s.config.maxSteps = some limit →
      (∃ fuel result s', ∀ fuel' ≥ fuel, s.evaluate scene fuel' g entry = some (result, s')) ∨
      ∃ ls m, Steps ⟨scene, .entering g entry, [], s⟩ ls m ∧
        UInt64.size ≤ max s.statistics.steps.toNat limit.toNat + ls.countP Label.exhausts + 1) ∧
    (∀ fuel target, s.resolve scene target = .ok g →
      Session.callWith (Session.drain scene fuel) scene target entry s =
        s.evaluate scene fuel g entry) ∧
    ∀ ls m g', Steps ⟨scene, .entering g entry, [], s⟩ ls m → m.control = .draining g' →
      m.session.activeGraph = .ok g' := by
  refine ⟨?_, ?_, ?_, ?_, ?_, ?_⟩
  · intro fuel e hlimit
    constructor
    · rintro ⟨s', he⟩
      exact refusal_of_evaluate hlimit he
    · intro h
      obtain ⟨s', he, -⟩ := evaluate_of_refusal h scene fuel
      exact ⟨s', he⟩
  · intro fuel e s' hlimit he
    obtain ⟨t, ht, htold⟩ := evaluate_of_refusal (refusal_of_evaluate hlimit he) scene fuel
    cases he.symm.trans ht
    exact htold
  · intro fuel result s' h he
    exact evaluate_allows h he
  · intro limit hmax
    exact Session.evaluate_returns hmax scene g entry
  · intro fuel target hr
    rw [Session.callWith, hr]
    rfl
  · intro ls m g' hsteps hc
    have hs : Stacked s.frames s.calls ⟨scene, .entering g entry, [], s⟩ := Levels.base
    exact (hsteps.stacked hs).activeGraph hc

/-- The session of the overrun, strict about roots. -/
def Overrun.strict : Session :=
  { Overrun.session with sink := .collect, config := { maxSteps := some 1, strictRoots := true } }

theorem entry_errors_exact_and_atomic_strict :
    ∃ s', Overrun.strict.evaluate (fun _ => none) 0 Overrun.once (.root ⟨1, 1⟩) =
        some (.error (.notRoot "call-graph"), s') ∧
      Overrun.strict.Refusal Overrun.once (.root ⟨1, 1⟩) (.notRoot "call-graph") ∧
      Overrun.strict.Told s' [(.ofNat 2, .nonRootEntry ⟨1, 1⟩ "call-graph")] ∧
      (∀ fuel result s', Overrun.strict.evaluate (fun _ => none) fuel Overrun.once
        (.executionInput 0) = some (result, s') →
        result = .ok () ∨ result = .error (.stepLimitExceeded 1)) := by
  obtain ⟨hexact, htold, -, -, -, -⟩ :=
    entry_errors_exact_and_atomic (fun _ => none) Overrun.strict Overrun.once (.root ⟨1, 1⟩)
  obtain ⟨-, -, hallows, -, -, -⟩ :=
    entry_errors_exact_and_atomic (fun _ => none) Overrun.strict Overrun.once (.executionInput 0)
  have he : Overrun.strict.evaluate (fun _ => none) 0 Overrun.once (.root ⟨1, 1⟩) =
    some (.error (.notRoot "call-graph"), _) := rfl
  have hlimit (n : Nat) : Error.notRoot "call-graph" ≠ .stepLimitExceeded n := by simp
  have hadmitted (e : Error) : ¬ Overrun.strict.Refusal Overrun.once (.executionInput 0) e := by
    rintro (⟨beyond⟩ | ⟨-, full⟩)
    · exact absurd beyond (by decide)
    · exact absurd full (by decide)
  refine ⟨_, he, (hexact 0 _ hlimit).mp ⟨_, he⟩, htold 0 _ _ hlimit he, ?_⟩
  intro fuel result s' hr
  rcases hallows fuel result s' hadmitted hr with hok | ⟨limit, hmax, herror⟩
  · exact .inl hok
  · cases hmax
    exact .inr herror

end Flowgraph
