import Flowgraph.Proofs.Activations
import Flowgraph.Proofs.Bodies
import Flowgraph.Proofs.Correspondence
import Flowgraph.Proofs.Coverage
import Flowgraph.Proofs.Deferral
import Mathlib.Data.Set.Card
import Mathlib.Logic.Hydra

namespace Flowgraph

open Relation (TransGen CutExpand)

/-- A link leads from the first node to the second. -/
def Graph.Activates (g : Graph) (a b : Handle) : Prop := ∃ port, b ∈ g.targets ⟨a, port⟩

/-- Execution passes along links only, and no chain of links comes back to where it began. -/
structure Graph.Orderly (g : Graph) : Prop where
  acyclic : ∀ h, ¬ TransGen g.Activates h h
  linked : ∀ h n body, g.node? h = some n → n.definition.body = some body → body.Linked

/-- There is no step limit, and every graph that a body can call is orderly. -/
structure Memory.Orderly (μ : Memory) : Prop where
  unlimited : μ.config.maxSteps = none
  library : ∀ l name g, μ.library = some l → l.get name = .ok g → g.Orderly

/-- Nothing that was run or given up is taken back, and the host's settings stay. -/
structure Memory.Grows (μ μ' : Memory) : Prop where
  config : μ'.config = μ.config
  library : μ'.library = μ.library
  evaluated : ∀ site ∈ μ.evaluated, site ∈ μ'.evaluated
  dropped : ∀ site ∈ μ.dropped, site ∈ μ'.dropped

theorem Memory.Grows.refl (μ : Memory) : μ.Grows μ := ⟨rfl, rfl, fun _ => id, fun _ => id⟩

theorem Memory.Grows.trans {μ μ' μ'' : Memory} (h : μ.Grows μ') (h' : μ'.Grows μ'') :
    μ.Grows μ'' :=
  ⟨h'.config.trans h.config, h'.library.trans h.library,
    fun site hs => h'.evaluated site (h.evaluated site hs),
    fun site hs => h'.dropped site (h.dropped site hs)⟩

theorem Step.grows (hs : Stacked fs cs m) (h : Step m l m') :
    m.session.memory.Grows m'.session.memory :=
  ⟨h.graphs.1, h.library, fun _ => (h.effect hs).evaluated, fun _ => (h.effect hs).dropped⟩

theorem Steps.grows (h : Steps m ls m') (hs : Stacked fs cs m) :
    m.session.memory.Grows m'.session.memory := by
  induction h with
  | refl => exact .refl _
  | head first _ ih => exact (first.grows hs).trans (ih (hs.step first))

theorem Memory.Orderly.congr {μ μ' : Memory} (ho : μ.Orderly) (hconfig : μ'.config = μ.config)
    (hlibrary : μ'.library = μ.library) : μ'.Orderly :=
  ⟨hconfig ▸ ho.unlimited, fun l name g hl hg => ho.library l name g (hlibrary ▸ hl) hg⟩

theorem Memory.Orderly.grows {μ μ' : Memory} (ho : μ.Orderly) (h : μ.Grows μ') : μ'.Orderly :=
  ho.congr h.config h.library

/-- From here the evaluation comes to its end. -/
def Returns (scene : Scene) (control : Control) (s : Session) : Prop :=
  ∃ ls result s', Steps ⟨scene, control, [], s⟩ ls ⟨scene, .returning result, [], s'⟩

theorem Returns.after {c c' : Control} (hr : Returns scene c' s')
    (h : Steps ⟨scene, c, [], s⟩ ls ⟨scene, c', [], s'⟩) : Returns scene c s := by
  obtain ⟨ls', result, t, h'⟩ := hr
  exact ⟨_, result, t, h.trans h'⟩

/-- Every evaluation that a body can ask for at this depth comes to its end. -/
def CallsReturn (scene : Scene) (μ : Memory) : Prop :=
  ∀ t g entry, t.memory.config = μ.config → t.memory.library = μ.library →
    t.memory.frames.length = μ.frames.length → g.Orderly → Returns scene (.entering g entry) t

theorem CallsReturn.grows {μ μ' : Memory} (hc : CallsReturn scene μ) (h : μ.Grows μ')
    (hl : μ'.frames.length = μ.frames.length) : CallsReturn scene μ' :=
  fun t g entry hconfig hlibrary hlength =>
    hc t g entry (hconfig.trans h.config) (hlibrary.trans h.library) (hlength.trans hl)

/-- What a linked body activates are targets of its own node. -/
theorem Label.performed_activates {a : Activation} {op : Operation} (hop : ∀ h, op ≠ .queue h)
    (ht : t ∈ (Label.performed a op).activated) : a.graph.Activates a.handle t := by
  cases op with
  | fire port =>
    simp only [Label.activated] at ht
    split at ht
    · exact ⟨port, ht⟩
    · cases ht
  | queue h => exact absurd rfl (hop h)
  | _ => cases ht

/-- A graph that a linked body is given is orderly. -/
theorem Memory.Orderly.resolve {s : Session} (ho : s.memory.Orderly)
    (hr : s.resolve scene (.library name) = .ok g) : g.Orderly := by
  obtain ⟨l, hl, hg⟩ := Session.libraryGraph_eq_ok.mp hr
  exact ho.library l name g hl hg

/-- A linked body runs to its end if its calls return. It adds targets of its own node to the queue
and nothing else. -/
theorem running_finishes {a : Activation} {p : Program Unit} {s : Session} (hp : p.Linked)
    (hs : Stacked fs cs ⟨scene, .running a p, [], s⟩)
    (hf : s.memory.frames = ⟨a.graph, queue⟩ :: fs) (ho : s.memory.Orderly)
    (hc : CallsReturn scene s.memory) :
    ∃ ls result s' new, Steps ⟨scene, .running a p, [], s⟩ ls
        ⟨scene, .running a (.finish result), [], s'⟩ ∧ s.memory.Grows s'.memory ∧
      s'.memory.frames = ⟨a.graph, queue ++ new⟩ :: fs ∧
      ∀ t ∈ new, a.graph.Activates a.handle t := by
  induction p generalizing s queue with
  | finish result => exact ⟨[], result, s, [], .refl _, .refl _, by simpa using hf, nofun⟩
  | perform op next ih =>
    have hstep : Step ⟨scene, .running a (.perform op next), [], s⟩ (.performed a op)
        ⟨scene, .running a (next (op.run s).1), [], (op.run s).2⟩ := .perform
    obtain ⟨n, hn, -, hcurrent⟩ := hs.current rfl
    have hf' := op.run_frames hcurrent hn hf
    have hgrows := hstep.grows hs
    obtain ⟨ls, result, s', new, h, hg, hf'', hnew⟩ := ih _ (hp.2 _) (hs.step hstep) hf'
      (ho.grows hgrows) (hc.grows hgrows (by rw [hf', hf]; rfl))
    refine ⟨_, result, s', (Label.performed a op).activated ++ new, .head hstep h,
      hgrows.trans hg, ?_, ?_⟩
    · rw [hf'', List.append_assoc]
    · intro t ht
      rcases List.mem_append.mp ht with ht | ht
      · exact Label.performed_activates hp.1 ht
      · exact hnew t ht
  | enter target entry next ih =>
    obtain ⟨⟨name, rfl⟩, hnext⟩ := hp
    cases hr : s.resolve scene (.library name) with
    | error e =>
      have hstep : Step ⟨scene, .running a (.enter (.library name) entry next), [], s⟩
          (.unresolved a (.library name)) ⟨scene, .running a (next (.error e)), [], s⟩ :=
        .unresolved hr
      obtain ⟨ls, result, s', new, h, hrest⟩ := ih _ (hnext _) (hs.step hstep) hf ho hc
      exact ⟨_, result, s', new, .head hstep h, hrest⟩
    | ok g =>
      obtain ⟨ls₁, result₁, s₁, hcall⟩ := hc s g entry rfl rfl rfl (ho.resolve hr)
      have hframes : s₁.memory.frames = s.memory.frames := (Call.stacks hcall).1
      have hbase : Stacked s.frames s.calls ⟨scene, .entering g entry, [], s⟩ := Levels.base
      have hgrows : s.memory.Grows s₁.memory := Steps.grows hcall hbase
      have hsteps : Steps ⟨scene, .running a (.enter (.library name) entry next), [], s⟩ _
          ⟨scene, .running a (next result₁), [], s₁⟩ :=
        .head (.call hr) ((Call.under hcall [⟨a, next⟩]).trans (.one .resume))
      obtain ⟨ls, result, s', new, h, hg, hrest⟩ := ih _ (hnext _) (hsteps.stacked hs)
        (hframes.trans hf) (ho.grows hgrows) (hc.grows hgrows (by rw [hframes]))
      exact ⟨_, result, s', new, hsteps.trans h, hgrows.trans hg, hrest⟩

/-- The pure nodes of a graph that have neither run nor been given up. -/
def Memory.unresolved (μ : Memory) (g : Graph) : Set Handle :=
  {h | g.isPure h = true ∧ ⟨g.id, h⟩ ∉ μ.evaluated ∧ ⟨g.id, h⟩ ∉ μ.dropped}

/-- The turns in a queue that are not those of pure nodes. -/
def Graph.effects (g : Graph) (queue : List Handle) : Multiset Handle :=
  ↑(queue.filter fun h => !g.isPure h)

theorem Graph.effects_append (g : Graph) (queue queue' : List Handle) :
    g.effects (queue ++ queue') = g.effects queue + g.effects queue' := by
  simp [Graph.effects]

theorem Graph.effects_singleton {g : Graph} {h : Handle} (hh : g.isPure h = false) :
    g.effects [h] = {h} := by
  simp [Graph.effects, hh]

theorem Graph.effects_eq_zero {g : Graph} {queue : List Handle}
    (hpure : ∀ h ∈ queue, g.isPure h = true) : g.effects queue = 0 := by
  simpa [Graph.effects] using hpure

/-- What an evaluation has before it. Deferral adds nothing to it. -/
noncomputable def Memory.ahead (μ : Memory) (g : Graph) (queue : List Handle) :
    Nat × Multiset Handle :=
  ((μ.unresolved g).ncard, g.effects queue)

/-- Less is ahead when a pure node is settled, or when an effect gives way to effects that it leads
to. -/
def Graph.Less (g : Graph) : Nat × Multiset Handle → Nat × Multiset Handle → Prop :=
  Prod.Lex (· < ·) (CutExpand fun b a => g.Activates a b)

theorem Graph.Orderly.less_wellFounded {g : Graph} (hg : g.Orderly) : WellFounded g.Less := by
  have hlinks : WellFounded fun b a => g.Activates a b :=
    wellFounded_of_acyclic fun h hcycle => hg.acyclic h (Relation.transGen_swap.mp hcycle)
  exact WellFounded.prod_lex wellFounded_lt hlinks.cutExpand

theorem Memory.Grows.unresolved_subset {μ μ' : Memory} (h : μ.Grows μ') (g : Graph) :
    μ'.unresolved g ⊆ μ.unresolved g :=
  fun _ ⟨hpure, he, hd⟩ => ⟨hpure, mt (h.evaluated _) he, mt (h.dropped _) hd⟩

theorem Memory.Grows.less_of_resolved {μ μ' : Memory} (h : μ.Grows μ')
    (hbefore : node ∈ μ.unresolved g) (hafter : node ∉ μ'.unresolved g)
    (queue queue' : List Handle) : g.Less (μ'.ahead g queue') (μ.ahead g queue) := by
  have hssub : μ'.unresolved g ⊂ μ.unresolved g :=
    ⟨h.unresolved_subset g, fun hsub => hafter (hsub hbefore)⟩
  exact .left _ _ (Set.ncard_lt_ncard hssub (Set.toFinite _))

theorem Memory.Grows.less_of_effect {μ μ' : Memory} {g : Graph} (h : μ.Grows μ')
    (hnode : g.isPure node = false) (queue : List Handle) {new : List Handle}
    (hnew : ∀ t ∈ new, g.Activates node t) :
    g.Less (μ'.ahead g (queue ++ new)) (μ.ahead g (node :: queue)) := by
  have hcut : CutExpand (fun b a => g.Activates a b) (g.effects (queue ++ new))
      (g.effects ([node] ++ queue)) := by
    refine ⟨g.effects new, node, ?_, ?_⟩
    · intro t ht
      exact hnew t (List.mem_filter.mp (Multiset.mem_coe.mp ht)).1
    · rw [g.effects_append, g.effects_append, Graph.effects_singleton hnode]
      rw [add_comm _ ({node} : Multiset Handle), add_assoc]
  rcases (Set.ncard_le_ncard (h.unresolved_subset g) (Set.toFinite _)).lt_or_eq with hlt | heq
  · exact .left _ _ hlt
  · unfold Memory.ahead
    rw [heq]
    exact .right _ hcut

/-- What a turn of the node `h` at the head of a queue comes to: less is ahead, or results are as
they were and a pure node has left the queue or some node has gone to its end. -/
inductive Turned (s : Session) (g : Graph) (h : Handle) (queue : List Handle) (s' : Session) :
    List Handle → Prop where
  | less (less : g.Less (s'.memory.ahead g queue') (s.memory.ahead g (h :: queue))) :
      Turned s g h queue s' queue'
  | skip (skips : s.Skips g h) (isPure : g.isPure h = true)
      (same : s.memory.SameResults s'.memory) : Turned s g h queue s' queue
  | defer (verdict : s.verdict g h = .defer producers)
      (same : s.memory.SameResults s'.memory) : Turned s g h queue s' (queue ++ (producers ++ [h]))

theorem Memory.SameResults.unresolved {μ μ' : Memory} (h : μ.SameResults μ') (g : Graph) :
    μ'.unresolved g = μ.unresolved g := by
  simp only [Memory.unresolved, h.evaluated, h.dropped]

/-- A turn that resolves nothing leaves as much ahead as there was. -/
theorem Turned.ahead {s s' : Session} {g : Graph} (h : Turned s g node queue s' queue') :
    g.Less (s'.memory.ahead g queue') (s.memory.ahead g (node :: queue)) ∨
      s'.memory.ahead g queue' = s.memory.ahead g ([node] ++ queue) := by
  cases h with
  | less less => exact .inl less
  | skip skips isPure same =>
    have hnone : g.effects [node] = 0 := Graph.effects_eq_zero (by simpa using isPure)
    right
    unfold Memory.ahead
    rw [same.unresolved, g.effects_append, hnone, zero_add]
  | @defer producers verdict same =>
    have hnone : g.effects producers = 0 :=
      Graph.effects_eq_zero fun p hp => (Session.Defers.producer ⟨producers, verdict, hp⟩).2.1
    right
    unfold Memory.ahead
    rw [same.unresolved, g.effects_append, g.effects_append, g.effects_append, hnone, zero_add,
      add_comm]

/-- A pure node that is not skipped has neither run nor been given up. -/
theorem Session.unresolved_of_not_skips {s : Session} (hn : ¬ s.Skips g h)
    (hp : g.isPure h = true) : h ∈ s.memory.unresolved g := by
  obtain ⟨n, hlive, hpure⟩ := Graph.isPure_eq_true.mp hp
  have hdropped : s.isDropped g.id h = false := by
    refine Bool.eq_false_iff.mpr fun hd => hn (.inl ?_)
    rw [verdict, if_pos hd]
  have hevaluated : s.isEvaluated g.id h = false := by
    refine Bool.eq_false_iff.mpr fun he => hn (.inr ?_)
    simp [verdict, hdropped, Graph.node_eq_ok.mpr hlive, hpure, he]
  refine ⟨hp, fun he => ?_, fun hd => ?_⟩
  · rw [← List.contains_iff_mem] at he
    exact absurd he (Bool.eq_false_iff.mp hevaluated)
  · rw [← List.contains_iff_mem] at hd
    exact absurd hd (Bool.eq_false_iff.mp hdropped)

/-- A node that is run or given up leaves less ahead, if it activates only nodes it is linked to. -/
theorem Memory.Grows.less {s : Session} {μ : Memory} {g : Graph} (hgrows : s.memory.Grows μ)
    (hn : ¬ s.Skips g h) (hdone : ⟨g.id, h⟩ ∈ μ.evaluated ∨ ⟨g.id, h⟩ ∈ μ.dropped)
    (queue : List Handle) {new : List Handle} (hnew : ∀ t ∈ new, g.Activates h t) :
    g.Less (μ.ahead g (queue ++ new)) (s.memory.ahead g (h :: queue)) := by
  cases hp : g.isPure h with
  | true =>
    refine hgrows.less_of_resolved (Session.unresolved_of_not_skips hn hp) ?_ _ _
    rintro ⟨-, he, hd⟩
    exact hdone.elim he hd
  | false => exact hgrows.less_of_effect hp queue hnew

theorem Memory.settle_sameResults (μ : Memory) (graph : GraphId) (h : Handle)
    {v : Session.Verdict} (hv : ∀ e, v ≠ .drop e) : μ.SameResults (μ.settle graph h v) := by
  cases v with
  | drop e => exact absurd rfl (hv e)
  | defer producers => exact μ.enqueue_sameResults _
  | alreadyDropped | alreadyEvaluated | start d body => exact .refl μ

section

variable {scene : Scene} {s : Session} {g : Graph} {h : Handle} {queue : List Handle}
  {fs : List Frame} {cs : List Handle}

/-- A turn that runs no body. The queue has been served, and the verdict is carried out. -/
theorem Turned.settle {s₁ : Session} {v : Session.Verdict}
    (hm : s₁.memory = { s.memory with frames := ⟨g, queue⟩ :: fs }) (hv : s.verdict g h = v)
    (hn : ∀ d body, v ≠ .start d body) (hgrows : s.memory.Grows (s₁.settle g.id h v).memory) :
    Turned s g h queue (s₁.settle g.id h v) (queue ++ (Label.settled g h v).queued) := by
  have hquiet (hd : ∀ e, v ≠ .drop e) : s.memory.SameResults (s₁.settle g.id h v).memory := by
    have hsame := Memory.settle_sameResults s₁.memory g.id h hd
    rw [← Session.settle_memory] at hsame
    exact ⟨by rw [hsame.cache, hm], by rw [hsame.evaluated, hm], by rw [hsame.dropped, hm]⟩
  cases v with
  | alreadyDropped =>
    cases hp : g.isPure h with
    | true =>
      simpa [Label.queued, Label.activated] using Turned.skip (.inl hv) hp (hquiet (by simp))
    | false => exact .less (hgrows.less_of_effect hp queue (List.forall_mem_nil _))
  | alreadyEvaluated =>
    cases Session.verdict_judged hv with
    | alreadyEvaluated kept live isPure evaluated =>
      have hp := Graph.isPure_eq_true.mpr ⟨_, live, isPure⟩
      simpa [Label.queued, Label.activated] using Turned.skip (.inr hv) hp (hquiet (by simp))
  | drop e =>
    have hskip : ¬ s.Skips g h := by simp [Session.Skips, hv]
    refine .less (hgrows.less hskip (.inr ?_) queue (List.forall_mem_nil _))
    rw [Session.settle_memory]
    exact List.mem_insert_self
  | defer producers => exact .defer hv (hquiet (by simp))
  | start d body => exact absurd rfl (hn d body)

/-- The queue of an orderly graph is drained, and the bodies on the way can rely on their calls. -/
structure Underway (scene : Scene) (fs : List Frame) (cs : List Handle) (g : Graph)
    (queue : List Handle) (s : Session) : Prop where
  graph : g.Orderly
  stacked : Stacked fs cs ⟨scene, .draining g, [], s⟩
  frames : s.memory.frames = ⟨g, queue⟩ :: fs
  memory : s.memory.Orderly
  calls : CallsReturn scene s.memory

theorem Underway.after {s' : Session} {queue' : List Handle} (hu : Underway scene fs cs g queue s)
    (h : Steps ⟨scene, .draining g, [], s⟩ ls ⟨scene, .draining g, [], s'⟩)
    (hf : s'.memory.frames = ⟨g, queue'⟩ :: fs) : Underway scene fs cs g queue' s' where
  graph := hu.graph
  stacked := h.stacked hu.stacked
  frames := hf
  memory := hu.memory.grows (h.grows hu.stacked)
  calls := hu.calls.grows (h.grows hu.stacked) (by rw [hf, hu.frames]; rfl)

/-- A turn that runs a body. -/
theorem Underway.start {s₁ : Session} {d : Definition} {body : Program Unit}
    (hu : Underway scene fs cs g (h :: queue) s) (hv : s.verdict g h = .start d body)
    (hm : s₁.memory = { s.memory with frames := ⟨g, queue⟩ :: fs })
    (hstep : Step ⟨scene, .draining g, [], s⟩ (.started ⟨g, h, d⟩)
      ⟨scene, .running ⟨g, h, d⟩ body, [], s₁.startNode g.id h d⟩) :
    ∃ ls s' queue', Steps ⟨scene, .draining g, [], s⟩ ls ⟨scene, .draining g, [], s'⟩ ∧
      s'.memory.frames = ⟨g, queue'⟩ :: fs ∧ Turned s g h queue s' queue' := by
  have hgrows₁ := hstep.grows hu.stacked
  have hf₁ : (s₁.startNode g.id h d).memory.frames = ⟨g, queue⟩ :: fs := by
    rw [Session.startNode_memory, hm]
  have hlinked : body.Linked := by
    cases Session.verdict_judged hv with
    | due kept live new nothing body => exact hu.graph.linked _ _ _ live body
  obtain ⟨ls, result, s₂, new, hrun, hgrows₂, hf₂, hnew⟩ :=
    running_finishes hlinked (hu.stacked.step hstep) hf₁ (hu.memory.grows hgrows₁)
      (hu.calls.grows hgrows₁ (by rw [hf₁, hu.frames]; rfl))
  have hfinish : Step ⟨scene, .running ⟨g, h, d⟩ (.finish result), [], s₂⟩
      (.finished ⟨g, h, d⟩ result)
      ⟨scene, .draining g, [], s₂.finishNode g.id h d result⟩ := .finish
  have hgrows₃ := hfinish.grows (hrun.stacked (hu.stacked.step hstep))
  refine ⟨_, _, queue ++ new, .head hstep (hrun.trans (.one hfinish)), ?_, .less ?_⟩
  · rw [Session.finishNode_memory]
    exact hf₂
  · have hskip : ¬ s.Skips g h := by simp [Session.Skips, hv]
    exact ((hgrows₁.trans hgrows₂).trans hgrows₃).less hskip (.inl hfinish.finished_evaluated)
      queue hnew

/-- One turn at the queue comes to its end. -/
theorem Underway.turned (hu : Underway scene fs cs g (h :: queue) s) :
    ∃ ls s' queue', Steps ⟨scene, .draining g, [], s⟩ ls ⟨scene, .draining g, [], s'⟩ ∧
      s'.memory.frames = ⟨g, queue'⟩ :: fs ∧ Turned s g h queue s' queue' := by
  obtain ⟨s₁, hd, hm⟩ := Session.dequeue?_frames hu.frames
  have hm' : s₁.countStep.memory = { s.memory with frames := ⟨g, queue⟩ :: fs } := hm
  have he := Session.exceeded?_dequeue hu.memory.unlimited hd
  have hverdict : s₁.countStep.verdict g h = s.verdict g h := by
    refine Session.verdict_congr (Memory.SameResults.sameOn ?_ g.id) h
    rw [hm']
    exact ⟨rfl, rfl, rfl⟩
  have settled {v : Session.Verdict} (hv : s.verdict g h = v) (hn : ∀ d body, v ≠ .start d body) :
      ∃ ls s' queue', Steps ⟨scene, .draining g, [], s⟩ ls ⟨scene, .draining g, [], s'⟩ ∧
        s'.memory.frames = ⟨g, queue'⟩ :: fs ∧ Turned s g h queue s' queue' := by
    have hstep : Step ⟨scene, .draining g, [], s⟩ (.settled g h v)
        ⟨scene, .draining g, [], s₁.countStep.settle g.id h v⟩ :=
      .settle hd he (hverdict.trans hv) hn
    refine ⟨_, _, _, .one hstep, ?_, .settle hm' hv hn (hstep.grows hu.stacked)⟩
    rw [Session.settle_memory]
    exact Memory.settle_frames (by rw [hm']) g.id h v
  cases hv : s.verdict g h with
  | start d body => exact hu.start hv hm' (.start hd he (hverdict.trans hv))
  | alreadyDropped | alreadyEvaluated | drop e | defer producers => exact settled hv (by simp)

end

/-- An evaluation that has come no further: as much is ahead as `x` says, and results for the graph
are those of `s₀`. -/
structure Stalled (scene : Scene) (fs : List Frame) (cs : List Handle) (g : Graph)
    (x : Nat × Multiset Handle) (s₀ : Session) (queue : List Handle) (s : Session) : Prop where
  underway : Underway scene fs cs g queue s
  ahead : s.memory.ahead g queue = x
  same : s₀.memory.SameOn s.memory g.id

section

variable {scene : Scene} {fs : List Frame} {cs : List Handle} {g : Graph}
  {x : Nat × Multiset Handle} {s₀ s : Session} {h : Handle} {queue : List Handle}

/-- Evaluations with less ahead than `x` return. -/
def LessReturns (scene : Scene) (fs : List Frame) (cs : List Handle) (g : Graph)
    (x : Nat × Multiset Handle) : Prop :=
  ∀ s queue, Underway scene fs cs g queue s → g.Less (s.memory.ahead g queue) x →
    Returns scene (.draining g) s

/-- At its turn a node leaves less ahead, or the evaluation stays where it is without the node at
the head of the queue. -/
theorem Stalled.turn (hx : LessReturns scene fs cs g x)
    (hst : Stalled scene fs cs g x s₀ (h :: queue) s)
    (hskip : s₀.Skips g h → ∀ s', Stalled scene fs cs g x s₀ queue s' →
      Returns scene (.draining g) s')
    (hdefer : ∀ producers s', s₀.verdict g h = .defer producers →
      Stalled scene fs cs g x s₀ (queue ++ (producers ++ [h])) s' →
      Returns scene (.draining g) s') : Returns scene (.draining g) s := by
  obtain ⟨ls, s', queue', hsteps, hf, hturned⟩ := hst.underway.turned
  have hu := hst.underway.after hsteps hf
  have hverdict := Session.verdict_congr hst.same h
  refine Returns.after ?_ hsteps
  rcases hturned.ahead with hless | heq
  · exact hx s' queue' hu (hst.ahead ▸ hless)
  · have hahead : s'.memory.ahead g queue' = x := heq.trans hst.ahead
    cases hturned with
    | less less => exact hx s' queue' hu (hst.ahead ▸ less)
    | skip skips isPure same =>
      rw [Session.Skips, hverdict] at skips
      exact hskip skips s' ⟨hu, hahead, hst.same.trans (same.sameOn g.id)⟩
    | defer verdict same =>
      exact hdefer _ s' (hverdict ▸ verdict) ⟨hu, hahead, hst.same.trans (same.sameOn g.id)⟩

/-- What is in the queue comes to its turn. -/
theorem Stalled.returns_of_head (hx : LessReturns scene fs cs g x)
    (hhead : ∀ post s, Stalled scene fs cs g x s₀ (h :: post) s → Returns scene (.draining g) s)
    (hm : h ∈ queue) (hst : Stalled scene fs cs g x s₀ queue s) :
    Returns scene (.draining g) s := by
  obtain ⟨pre, post, rfl⟩ := List.append_of_mem hm
  clear hm
  -- Whoever stands before the node leaves or goes to the end of the queue.
  induction pre generalizing s post with
  | nil => exact hhead post s hst
  | cons a pre ih =>
    rw [List.cons_append] at hst
    refine hst.turn hx ?_ ?_
    · intro _ s' hst'
      exact ih post hst'
    · intro producers s' _ hst'
      rw [List.append_assoc] at hst'
      exact ih _ hst'

/-- A queue that holds a node of which something will come is drained. -/
theorem Stalled.returns_of_resolves (hx : LessReturns scene fs cs g x) (hr : s₀.Resolves g h)
    (hm : h ∈ queue) (hst : Stalled scene fs cs g x s₀ queue s) :
    Returns scene (.draining g) s := by
  induction hr generalizing s queue with
  | now notSkipped due =>
    refine hst.returns_of_head hx ?_ hm
    intro post s' hst'
    exact hst'.turn hx (fun hskip => absurd hskip notSkipped)
      (fun producers _ hv => absurd hv (due producers))
  | later defers before ih =>
    refine hst.returns_of_head hx ?_ hm
    intro post s' hst'
    obtain ⟨producers, hv, hp⟩ := defers
    refine hst'.turn hx ?_ ?_
    · rintro (hskip | hskip) <;> rw [hv] at hskip <;> cases hskip
    · intro producers' s'' hv' hst''
      rw [hv] at hv'
      cases hv'
      exact ih (by simp [hp]) hst''

/-- A queue that holds only nodes with which nothing is to be done is drained. -/
theorem Stalled.returns_of_skips (hx : LessReturns scene fs cs g x)
    (hskips : ∀ h ∈ queue, s₀.Skips g h) (hst : Stalled scene fs cs g x s₀ queue s) :
    Returns scene (.draining g) s := by
  induction queue generalizing s with
  | nil =>
    have hf : s.frames = ⟨g, []⟩ :: fs := hst.underway.frames
    exact ⟨_, _, _, .one (.drained (by simp [Session.dequeue?, hf]))⟩
  | cons h queue ih =>
    rw [List.forall_mem_cons] at hskips
    refine hst.turn hx (fun _ s' => ih hskips.2) ?_
    intro producers s' hv
    rcases hskips.1 with hskip | hskip <;> rw [hv] at hskip <;> cases hskip

theorem Underway.returns (hu : Underway scene fs cs g queue s) :
    Returns scene (.draining g) s := by
  -- As long as no turn leaves less ahead, verdicts stay those of `s`: either one of the nodes in the
  -- queue is bound to be run or given up, or all of them are skipped and the queue runs empty.
  generalize hahead : s.memory.ahead g queue = x
  induction x using hu.graph.less_wellFounded.induction generalizing s queue with
  | _ x ih =>
    have hx : LessReturns scene fs cs g x := fun s' queue' hu' hless => ih _ hless hu' rfl
    have hst : Stalled scene fs cs g x s queue s := ⟨hu, hahead, .refl _ _⟩
    by_cases hr : ∃ h ∈ queue, s.Resolves g h
    · obtain ⟨h, hm, hr⟩ := hr
      exact hst.returns_of_resolves hx hr hm
    · refine hst.returns_of_skips hx fun h hm => ?_
      exact (s.skips_or_resolves g h).resolve_right fun hres => hr ⟨h, hm, hres⟩

end

theorem Returns.enter {s : Session} (h : ∀ queue s', s.seeds g entry = (.ok queue, s') →
    Returns scene (.draining g) (s'.openGraph g entry queue)) :
    Returns scene (.entering g entry) s := by
  cases hseeds : s.seeds g entry with
  | mk result s' =>
    cases result with
    | error e => exact ⟨_, _, _, .one (.refuse hseeds)⟩
    | ok queue => exact (h queue s' hseeds).after (.one (.enter hseeds))

/-- With the depth of nesting bounded, every evaluation of an orderly graph comes to its end. -/
theorem entering_returns (scene : Scene) (room : Nat) {s : Session} {g : Graph} (entry : Entry)
    (hroom : s.memory.config.maxGraphDepth.toNat ≤ s.memory.frames.length + room)
    (ho : s.memory.Orderly) (hg : g.Orderly) : Returns scene (.entering g entry) s := by
  induction room generalizing s g entry with
  | zero =>
    refine .enter fun queue s' hseeds => ?_
    have hdepth := Session.seeds_depth hseeds
    omega
  | succ room ih =>
    refine .enter fun queue s' hseeds => ?_
    have hstep : Step ⟨scene, .entering g entry, [], s⟩ (.entered g entry)
        ⟨scene, .draining g, [], s'.openGraph g entry queue⟩ := .enter hseeds
    have hbase : Stacked s.frames s.calls ⟨scene, .entering g entry, [], s⟩ := Levels.base
    have hgrows := hstep.grows hbase
    have hf : (s'.openGraph g entry queue).memory.frames = ⟨g, queue⟩ :: s.memory.frames := by
      rw [Session.openGraph_memory, Session.seeds_memory hseeds]
    have hu : Underway scene s.frames s.calls g queue (s'.openGraph g entry queue) := by
      refine ⟨hg, hbase.step hstep, hf, ho.grows hgrows, ?_⟩
      intro t g' entry' hconfig hlibrary hlength hg'
      have hconfig := hconfig.trans hgrows.config
      refine ih entry' ?_ (ho.congr hconfig (hlibrary.trans hgrows.library)) hg'
      rw [hconfig, hlength, hf, List.length_cons]
      dsimp only
      omega
    exact hu.returns

theorem Graph.Built.orderly {g : Graph} (hg : g.Built .builtins)
    (hacyclic : ∀ h, ¬ TransGen g.Activates h h) : g.Orderly :=
  ⟨hacyclic, fun _ _ _ hn hb => Builtin.linked (hg.builtin hn) hb⟩

/-- Links that lead to ever higher ranks close no cycle. -/
theorem Graph.acyclic_of_rank {g : Graph} (rank : Handle → Nat)
    (hrank : ∀ link ∈ g.links.entries, ∀ target ∈ link.2, rank link.1.node < rank target)
    (h : Handle) : ¬ TransGen g.Activates h h := by
  have climbs {a b : Handle} (hab : g.Activates a b) : rank a < rank b := by
    obtain ⟨port, hb⟩ := hab
    unfold Graph.targets at hb
    cases hl : g.links.get? ⟨a, port⟩ with
    | none => simp [hl] at hb
    | some targets =>
      rw [hl] at hb
      exact hrank _ (Table.mem_of_lookup hl) b hb
  have path {a b : Handle} (hab : TransGen g.Activates a b) : rank a < rank b := by
    induction hab with
    | single hab => exact climbs hab
    | tail _ hbc ih => exact ih.trans (climbs hbc)
  exact fun hcycle => (path hcycle).false

/-- Without a step limit, a graph of built-in nodes without cycles among its links is evaluated to
the end from any session whose library is made of such graphs, however they call each other and
wherever their wires lead. Then every node that has waited in a queue has run or was given up. -/
theorem acyclic_evaluation_returns {s : Session} {g : Graph} (hg : g.Built .builtins)
    (hacyclic : ∀ h, ¬ TransGen g.Activates h h)
    (hlibrary : ∀ name g', s.libraryGraph name = .ok g' →
      g'.Built .builtins ∧ ∀ h, ¬ TransGen g'.Activates h h)
    (hmax : s.config.maxSteps = none) (scene : Scene) (entry : Entry) :
    ∃ fuel result s', s.evaluate scene fuel g entry = some (result, s') ∧
      ∀ ls m new frame h, Steps ⟨scene, .entering g entry, [], s⟩ ls m →
        m.session.frames = new ++ s.frames → frame ∈ new → h ∈ frame.queue →
        s'.isEvaluated frame.graph.id h = true ∨ s'.isDropped frame.graph.id h = true := by
  have ho : s.memory.Orderly := by
    refine ⟨hmax, fun l name g' hl hg' => ?_⟩
    obtain ⟨hbuilt, hcycles⟩ := hlibrary name g' (Session.libraryGraph_eq_ok.mpr ⟨l, hl, hg'⟩)
    exact hbuilt.orderly hcycles
  obtain ⟨ls, result, s', hcall⟩ := entering_returns scene _ entry
    (Nat.le_add_left s.memory.config.maxGraphDepth.toNat _) ho (hg.orderly hacyclic)
  obtain ⟨fuel, he⟩ := evaluate_iff_call.mpr ⟨ls, hcall⟩
  refine ⟨fuel, result, s', he, ?_⟩
  intro ls' m new frame h hsteps hf hframe hq
  exact Call.settled_waiting hcall hmax hsteps ⟨new, hf, frame, hframe, rfl, hq⟩

namespace Recursion

def caller : Node := { Node.new Builtin.callGraph with fields := [.string "loop", .int 0] }

def nodes : Graph :=
  let g := ((Graph.new (.ofNat 1) "loop").addNode caller).2
  let g := ((g.addNode (.new Builtin.print)).2.addNode (.new Builtin.add)).2
  (g.addExecutionInput "in").2

/-- A call of the graph itself, and then a print of a sum that feeds itself. -/
def wiring : List Change :=
  [.wire ⟨⟨3, 1⟩, 0⟩ ⟨⟨3, 1⟩, 0⟩, .wire ⟨⟨3, 1⟩, 0⟩ ⟨⟨2, 1⟩, 0⟩, .link ⟨⟨1, 1⟩, 0⟩ ⟨2, 1⟩,
    .inputLink 0 ⟨1, 1⟩]

def graph : Graph := (Graph.attemptAll wiring).result nodes

def session : Session :=
  { executionId := "", config := { maxGraphDepth := 2 }
    extensions := .standard (Library.empty.insert graph) }

def entry : Machine := ⟨fun _ => none, .entering graph (.executionInput 0), [], session⟩

theorem nodes_built : nodes.Built .builtins := by
  have made (d : Definition) (h : Registry.builtins.create d.nodeType = .ok (.new d)) :
      (Node.new d).Made .builtins := .create h
  have hcaller : caller.Made .builtins :=
    .setField (i := 0) (v := .string "loop") (made Builtin.callGraph rfl)
  exact .addExecutionInput (.addNode (.addNode (.addNode (.new _ _) hcaller)
    (made Builtin.print rfl)) (made Builtin.add rfl))

theorem graph_built : graph.Built .builtins := nodes_built.changes wiring

theorem graph_acyclic (h : Handle) : ¬ TransGen graph.Activates h h :=
  Graph.acyclic_of_rank (fun h => h.idx.toNat) (by decide) h

theorem library_graph (h : session.libraryGraph name = .ok g) : g = graph :=
  Session.libraryGraph_single rfl h

end Recursion

/-- The graph calls itself, and the sum waits for itself. Both come to an end, and the sum, which
waits in the queue before the print, with them. -/
theorem acyclic_evaluation_returns_recursion :
    Recursion.session.libraryGraph "loop" = .ok Recursion.graph ∧
    Recursion.graph.Feeds ⟨3, 1⟩ ⟨3, 1⟩ ∧
    ∃ fuel result s', Recursion.session.evaluate (fun _ => none) fuel Recursion.graph
        (.executionInput 0) = some (result, s') ∧
      (s'.isEvaluated Recursion.graph.id ⟨3, 1⟩ = true ∨
        s'.isDropped Recursion.graph.id ⟨3, 1⟩ = true) := by
  obtain ⟨fuel, result, s', he, hall⟩ := acyclic_evaluation_returns Recursion.graph_built
    Recursion.graph_acyclic (s := Recursion.session)
    (fun _ g' hg => Recursion.library_graph hg ▸ ⟨Recursion.graph_built, Recursion.graph_acyclic⟩)
    rfl (fun _ => none) (.executionInput 0)
  refine ⟨rfl, ⟨_, 0, _, rfl, by decide, rfl, rfl⟩, fuel, result, s', he, ?_⟩
  have hframes : (Recursion.entry.advance 24).2.session.frames =
      [⟨Recursion.graph, [⟨3, 1⟩, ⟨2, 1⟩]⟩] ++ Recursion.session.frames := rfl
  exact hall _ _ _ _ ⟨3, 1⟩ (Recursion.entry.advance_steps 24) hframes List.mem_cons_self
    List.mem_cons_self

end Flowgraph
