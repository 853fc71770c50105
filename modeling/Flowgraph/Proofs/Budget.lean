import Flowgraph.Proofs.Activations
import Flowgraph.Proofs.Agreement
import Flowgraph.Proofs.Correspondence
import Flowgraph.Proofs.Tally

namespace Flowgraph

/-- The counter counts the nodes taken from queues. -/
theorem Step.steps (hs : Stacked fs cs m) (h : Step m l m') :
    m'.session.statistics.steps = m.session.statistics.steps + .ofNat (dequeues [l]) := by
  rw [h.counts hs]
  rfl

theorem Steps.steps (h : Steps m ls m') (hs : Stacked fs cs m) :
    m'.session.statistics.steps = m.session.statistics.steps + .ofNat (dequeues ls) := by
  induction h with
  | refl => exact (UInt64.add_zero _).symm
  | @head m l _ ls _ first _ ih =>
    rw [ih (hs.step first), first.steps hs, dequeues_cons l ls, UInt64.ofNat_add, UInt64.add_assoc]

theorem Step.steps_of_taken (hs : Stacked fs cs m) (h : Step m l m')
    (hl : l.taken? = some taken) :
    m'.session.statistics.steps = m.session.statistics.steps + 1 := by
  rw [h.steps hs, dequeues_of_taken hl]
  rfl

theorem Step.steps_of_not_taken (hs : Stacked fs cs m) (h : Step m l m')
    (hl : l.taken? = none) : m'.session.statistics.steps = m.session.statistics.steps := by
  rw [h.steps hs, dequeues_of_not_taken hl]
  exact UInt64.add_zero _

/-- The node taken next is one too many if the counter then stands beyond the limit. -/
theorem Session.dequeue?_exceeded {s s' : Session} {h : Handle} {limit : UInt64}
    (hmax : s.memory.config.maxSteps = some limit) (hd : s.dequeue? = some (h, s')) :
    s'.countStep.exceeded? =
      if limit < s.statistics.steps + 1 then some limit.toNat else none := by
  have hconfig : s'.countStep.config.maxSteps = some limit := by
    rw [← hmax]
    exact congrArg Config.maxSteps (dequeue?_sameStacks hd).config
  have hsteps : s'.countStep.statistics.steps = s.statistics.steps + 1 := by
    rw [(dequeue?_reports hd).statistics]
    rfl
  simp only [exceeded?, hconfig, hsteps, Option.filter, decide_eq_true_eq]
  split <;> rfl

/-- The step at which the counter passes the limit ends the innermost evaluation with an error. -/
theorem Step.passes (hs : Stacked fs cs m) (h : Step m l m')
    (hmax : m.session.memory.config.maxSteps = some limit)
    (hle : m.session.statistics.steps ≤ limit)
    (hlt : limit < m'.session.statistics.steps) :
    m.session.statistics.steps = limit ∧ m'.session.statistics.steps = limit + 1 ∧
    ∃ s, m' = ⟨m.scene, .returning (.error (.stepLimitExceeded limit.toNat)), m.suspended, s⟩ := by
  cases hl : l.taken? with
  | none =>
    rw [h.steps_of_not_taken hs hl] at hlt
    exact absurd hlt (UInt64.not_lt.mpr hle)
  | some taken =>
    have hcount := h.steps_of_taken hs hl
    rw [hcount] at hlt
    have hlimit : m.session.statistics.steps = limit := by grind
    refine ⟨hlimit, hlimit ▸ hcount, ?_⟩
    cases h with
    | exhaust hd he =>
      rw [Session.dequeue?_exceeded hmax hd, if_pos hlt] at he
      cases he
      exact ⟨_, rfl⟩
    | settle hd he | start hd he =>
      rw [Session.dequeue?_exceeded hmax hd, if_pos hlt] at he
      cases he
    | _ => cases hl

/-- Whoever comes to have passed the limit has done so at some step. -/
theorem Steps.passes {limit : UInt64} (h : Steps m ls m')
    (hle : m.session.statistics.steps ≤ limit) (hlt : limit < m'.session.statistics.steps) :
    ∃ pre l post m₁ m₂, ls = pre ++ l :: post ∧ Steps m pre m₁ ∧
      m₁.session.statistics.steps ≤ limit ∧ Step m₁ l m₂ ∧
      limit < m₂.session.statistics.steps ∧ Steps m₂ post m' := by
  induction h with
  | refl => exact absurd hlt (UInt64.not_lt.mpr hle)
  | @head m l m₁ ls m' first rest ih =>
    by_cases hpass : limit < m₁.session.statistics.steps
    · exact ⟨[], l, ls, m, m₁, rfl, .refl m, hle, first, hpass, rest⟩
    · obtain ⟨pre, l', post, m₂, m₃, rfl, hpre, h₂, hstep, h₃, hpost⟩ :=
        ih (UInt64.not_lt.mp hpass) hlt
      exact ⟨l :: pre, l', post, m₂, m₃, rfl, .head first hpre, h₂, hstep, h₃, hpost⟩

/-- After a nested evaluation the program does nothing more than hand an error on, or else fire its
first output. -/
def Program.Relays : Program Unit → Prop
  | .finish _ => True
  | .perform _ next => ∀ reply, (next reply).Relays
  | .enter target _ next => (∃ name, target = .library name) ∧
    (∀ e, next (.error e) = .finish (.error e)) ∧ next (.ok ()) = Program.fire 0

theorem Program.Relays.bind {p : Program α} {f : α → Program Unit} (hp : p.Flat)
    (hf : ∀ a, (f a).Relays) : (p >>= f).Relays := by
  induction p with
  | finish result =>
    cases result with
    | ok a => exact hf a
    | error e => trivial
  | perform op next ih => exact fun reply => ih reply (hp.2 reply)
  | enter target entry next ih => exact hp.1.elim

theorem Program.Flat.relays {p : Program Unit} (hp : p.Flat) : p.Relays := by
  induction p with
  | finish result => trivial
  | perform op next ih => exact fun reply => ih reply (hp.2 reply)
  | enter target entry next ih => exact hp.1.elim

theorem Builtin.callGraph_relays (hb : callGraph.body = some body) : body.Relays := by
  cases hb
  refine .bind (.bind ⟨nofun, fun _ => trivial⟩ fun _ => trivial) fun name => ?_
  refine .bind (.bind ⟨nofun, fun _ => trivial⟩ fun _ => trivial) fun entry => ?_
  dsimp only
  split
  · trivial
  · refine .bind ⟨nofun, fun _ => trivial⟩ fun _ => ?_
    refine .bind ⟨nofun, fun _ => trivial⟩ fun _ => ?_
    refine .bind ⟨nofun, fun _ => trivial⟩ fun _ => ?_
    exact ⟨⟨name, rfl⟩, fun _ => rfl, rfl⟩

theorem Builtin.relays {d : Definition} (hd : d ∈ definitions) (hb : d.body = some body) :
    body.Relays := by
  rcases flat_or_callGraph hd hb with hflat | rfl
  · exact hflat.relays
  · exact callGraph_relays hb

structure Activation.IsBuiltin (a : Activation) : Prop where
  graph : a.graph.IsBuiltin
  definition : a.definition ∈ Builtin.definitions

/-- A body held up by a nested evaluation will do no more than hand its outcome on. -/
structure Suspended.Relays (w : Suspended) : Prop where
  activation : w.activation.IsBuiltin
  failure : ∀ e, w.next (.error e) = .finish (.error e)
  success : w.next (.ok ()) = Program.fire 0

def Control.IsBuiltin : Control → Prop
  | .idle | .returning _ => True
  | .entering g _ | .draining g => g.IsBuiltin
  | .running a rest => a.IsBuiltin ∧ rest.Relays

/-- All that is under way or can be called is made of built-in nodes. -/
structure Machine.IsBuiltin (m : Machine) : Prop where
  control : m.control.IsBuiltin
  suspended : ∀ w ∈ m.suspended, w.Relays
  library : ∀ l name g, m.session.memory.library = some l → l.get name = .ok g → g.IsBuiltin

theorem Suspended.Relays.resumed {w : Suspended} (hw : w.Relays) (result : Except Error Unit) :
    (w.next result).Relays := by
  cases result with
  | error e =>
    rw [hw.failure]
    trivial
  | ok u =>
    rw [hw.success]
    exact fun _ => trivial

theorem Machine.IsBuiltin.step {m m' : Machine} (hm : m.IsBuiltin) (h : Step m l m') :
    m'.IsBuiltin := by
  have hlibrary := hm.library
  rw [← h.library] at hlibrary
  obtain ⟨hcontrol, hsuspended, -⟩ := hm
  cases h with
  | refuse hseeds => exact ⟨trivial, hsuspended, hlibrary⟩
  | enter hseeds => exact ⟨hcontrol, hsuspended, hlibrary⟩
  | drained hd => exact ⟨trivial, hsuspended, hlibrary⟩
  | exhaust hd he => exact ⟨trivial, hsuspended, hlibrary⟩
  | settle hd he hv hn => exact ⟨hcontrol, hsuspended, hlibrary⟩
  | start hd he hv =>
    cases Session.verdict_judged hv with
    | due kept live new nothing body =>
      have hd := (hcontrol _ _ live).1
      exact ⟨⟨⟨hcontrol, hd⟩, Builtin.relays hd body⟩, hsuspended, hlibrary⟩
  | perform => exact ⟨⟨hcontrol.1, hcontrol.2 _⟩, hsuspended, hlibrary⟩
  | unresolved hr =>
    obtain ⟨ha, -, herror, -⟩ := hcontrol
    refine ⟨⟨ha, ?_⟩, hsuspended, hlibrary⟩
    rw [herror]
    trivial
  | call hr =>
    obtain ⟨ha, ⟨name, rfl⟩, herror, hok⟩ := hcontrol
    obtain ⟨l, hl, hg⟩ := Session.libraryGraph_eq_ok.mp hr
    exact ⟨hlibrary l name _ hl hg,
      List.forall_mem_cons.mpr ⟨⟨ha, herror, hok⟩, hsuspended⟩, hlibrary⟩
  | finish => exact ⟨hcontrol.1.graph, hsuspended, hlibrary⟩
  | resume =>
    rw [List.forall_mem_cons] at hsuspended
    exact ⟨⟨hsuspended.1.activation, hsuspended.1.resumed _⟩, hsuspended.2, hlibrary⟩

theorem Steps.isBuiltin (h : Steps m ls m') (hm : m.IsBuiltin) : m'.IsBuiltin := by
  induction h with
  | refl => exact hm
  | head first _ ih => exact ih (hm.step first)

/-- Whether an evaluation that has passed the limit comes to nothing as a whole. Each body held up
on the way out, the innermost first, fails or fires its first output; what its queue then holds is
one node too many again, and an empty queue ends its evaluation in good order. -/
def aborts : List (Activation × List Handle) → Bool → Bool
  | [], failed => failed
  | (a, queue) :: rest, failed =>
    aborts rest !(if failed then queue else queue ++ a.graph.targets ⟨a.handle, 0⟩).isEmpty

/-- The bodies held up, each with the queue of its graph. -/
def Machine.levels (m : Machine) : List (Activation × List Handle) :=
  m.held.zip (m.session.frames.map (·.queue))

/-- How an evaluation returns once the limit is passed. -/
def outcome (limit : UInt64) (failed : Bool) : Except Error Unit :=
  if failed then .error (.stepLimitExceeded limit.toNat) else .ok ()

theorem outcome_eq_error {limit : UInt64} {failed : Bool} :
    outcome limit failed = .error (.stepLimitExceeded limit.toNat) ↔ failed = true := by
  cases failed <;> simp [outcome]

theorem outcome_eq_ok {limit : UInt64} {failed : Bool} :
    outcome limit failed = .ok () ↔ failed = false := by
  cases failed <;> simp [outcome]

/-- The limit is passed, and the counter has room for some nodes more before it starts over. -/
structure Session.Spent (s : Session) (limit : UInt64) (room : Nat) : Prop where
  maxSteps : s.memory.config.maxSteps = some limit
  passed : limit < s.statistics.steps
  fits : s.statistics.steps.toNat + room < UInt64.size

/-- A node more stays beyond the limit. -/
theorem Session.Spent.next {s : Session} (hs : s.Spent limit (room + 1)) :
    limit < s.statistics.steps + 1 := by
  have hnext : (s.statistics.steps + 1).toNat = s.statistics.steps.toNat + 1 :=
    toNat_add_one (by have := hs.fits; omega)
  have hpassed := hs.passed
  rw [UInt64.lt_iff_toNat_lt] at hpassed ⊢
  omega

/-- The nodes that are taken use the room up. -/
theorem Session.Spent.step {m m' : Machine} (hm : m.session.Spent limit room)
    (hs : Stacked fs cs m) (h : Step m l m') (hroom : dequeues [l] + room' ≤ room) :
    m'.session.Spent limit room' := by
  obtain ⟨hmax, hpassed, hfits⟩ := hm
  have hcount : m'.session.statistics.steps.toNat =
      m.session.statistics.steps.toNat + dequeues [l] := by
    rw [h.steps hs]
    exact toNat_add_ofNat (by omega)
  refine ⟨h.graphs.1 ▸ hmax, ?_, by omega⟩
  rw [UInt64.lt_iff_toNat_lt] at hpassed ⊢
  omega

theorem Steps.spent (h : Steps m ls m') (hs : Stacked fs cs m) (hm : m.session.Spent limit room)
    (hroom : dequeues ls + room' ≤ room) : m'.session.Spent limit room' := by
  induction h generalizing room with
  | refl => exact ⟨hm.maxSteps, hm.passed, by have := hm.fits; omega⟩
  | @head m l m₁ ls _ first _ ih =>
    rw [dequeues_cons, Nat.add_assoc] at hroom
    exact ih (hs.step first) (hm.step hs first hroom) (Nat.le_refl _)

theorem Builtin.outputs_pos {d : Definition} (hd : d ∈ definitions) :
    0 < d.metadata.outputs.length :=
  (by decide : ∀ d ∈ definitions, 0 < d.metadata.outputs.length) d hd

section

variable {scene : Scene} {fs rest : List Frame} {cs queue : List Handle} {ws : List Suspended}
  {s : Session} {limit : UInt64}

/-- Past the limit the next node of a queue is one too many. -/
theorem Session.Spent.drains {g : Graph} (hspent : s.Spent limit (room + 1))
    (hf : s.memory.frames = ⟨g, queue⟩ :: rest) (scene : Scene) (ws : List Suspended) :
    ∃ l s', Step ⟨scene, .draining g, ws, s⟩ l
        ⟨scene, .returning (outcome limit !queue.isEmpty), ws, s'⟩ ∧
      s'.memory.frames = rest ∧ ∀ a, l ≠ .started a := by
  have hf' : s.frames = ⟨g, queue⟩ :: rest := hf
  cases queue with
  | nil =>
    have hd : s.dequeue? = none := by simp [dequeue?, hf']
    refine ⟨_, _, .drained hd, ?_, by simp⟩
    rw [closeGraph_memory, hf]
    rfl
  | cons h queue =>
    obtain ⟨s', hd, hm⟩ := dequeue?_frames hf
    have he := dequeue?_exceeded hspent.maxSteps hd
    rw [if_pos hspent.next] at he
    refine ⟨_, _, .exhaust hd he, ?_, by simp⟩
    rw [closeGraph_memory, log_memory, countStep_memory, hm]
    rfl

/-- A body that was held up hands the outcome on. -/
theorem Suspended.Relays.resumes {w : Suspended} (hw : w.Relays) {failed : Bool}
    (hs : Stacked fs cs ⟨scene, .returning (outcome limit failed), w :: ws, s⟩)
    (hf : s.memory.frames = ⟨w.activation.graph, queue⟩ :: rest) :
    ∃ ls s', Steps ⟨scene, .returning (outcome limit failed), w :: ws, s⟩ ls
        ⟨scene, .draining w.activation.graph, ws, s'⟩ ∧
      s'.memory.frames = ⟨w.activation.graph, if failed then queue
        else queue ++ w.activation.graph.targets ⟨w.activation.handle, 0⟩⟩ :: rest ∧
      dequeues ls = 0 := by
  have hresume : Step ⟨scene, .returning (outcome limit failed), w :: ws, s⟩
      (.resumed w.activation)
      ⟨scene, .running w.activation (w.next (outcome limit failed)), ws, s⟩ := .resume
  have hfinish (t : Session) (result : Except Error Unit) : (t.finishNode w.activation.graph.id
      w.activation.handle w.activation.definition result).memory.frames = t.memory.frames := by
    rw [Session.finishNode_memory]
  cases failed with
  | true =>
    have hnext : w.next (outcome limit true) = .finish (outcome limit true) := hw.failure _
    rw [hnext] at hresume
    exact ⟨_, _, .head hresume (.one .finish), (hfinish _ _).trans hf, rfl⟩
  | false =>
    have hnext : w.next (outcome limit false) = Program.fire 0 := hw.success
    rw [hnext] at hresume
    obtain ⟨n, hn, -, hcurrent⟩ := (hs.step hresume).current rfl
    have hfire := (Operation.fire 0).run_frames hcurrent hn hf
    obtain ⟨hbuiltin, hintact⟩ := hw.activation.graph _ _ hn
    have hout : 0 < w.activation.graph.outputCount w.activation.handle := by
      rw [Graph.outputCount, hn, Option.elim_some, hintact]
      exact Builtin.outputs_pos hbuiltin
    simp only [Label.activated, if_pos hout] at hfire
    exact ⟨_, _, .head hresume (.head .perform (.one .finish)), (hfinish _ _).trans hfire, rfl⟩

/-- On the way out each body held up hands the outcome on, and each queue decides it anew. -/
theorem Session.Spent.unwinds {failed : Bool} (hspent : s.Spent limit ws.length)
    (hw : ∀ w ∈ ws, w.Relays)
    (hs : Stacked fs cs ⟨scene, .returning (outcome limit failed), ws, s⟩) :
    ∃ ls s', Steps ⟨scene, .returning (outcome limit failed), ws, s⟩ ls
        ⟨scene, .returning (outcome limit (aborts ((ws.map (·.activation)).zip
          (s.memory.frames.map (·.queue))) failed)), [], s'⟩ ∧ ∀ a, .started a ∉ ls := by
  induction ws generalizing s failed with
  | nil => exact ⟨[], s, .refl _, by simp⟩
  | cons w ws ih =>
    rw [List.forall_mem_cons] at hw
    -- The body held up ends, the queue of its graph is served once at most, and the level is left.
    obtain ⟨⟨_, queue⟩, rest, hf, rfl, -⟩ := Levels.atop hs
    obtain ⟨ls, s₁, hbody, hf₁, hnone⟩ := hw.1.resumes hs hf
    have hspent₁ : s₁.Spent limit (ws.length + 1) :=
      hbody.spent hs hspent (by simp [hnone])
    obtain ⟨l, s₂, hdrain, hf₂, hl⟩ := hspent₁.drains hf₁ scene ws
    have hlevel := hbody.trans (.one hdrain)
    have hspent₂ : s₂.Spent limit ws.length := by
      have hone := dequeues_singleton_le l
      exact hspent₁.step (hbody.stacked hs) hdrain (by omega)
    obtain ⟨ls', s', hrest, hstarts'⟩ := ih hspent₂ hw.2 (hlevel.stacked hs)
    rw [hf, List.map_cons, List.map_cons, List.zip_cons_cons, aborts, ← hf₂]
    refine ⟨_, s', hlevel.trans hrest, ?_⟩
    intro a ha
    simp only [List.mem_append, List.mem_singleton] at ha
    rcases ha with (ha | ha) | ha
    · exact started_not_mem hnone a ha
    · exact hl a ha.symm
    · exact hstarts' a ha

end

/-- Something left in the outermost queue is one node too many in the end. -/
theorem Levels.aborts (h : Levels [] cs as frames calls) (hlast : frames.getLast? = some frame)
    (hq : frame.queue ≠ []) (failed : Bool) :
    Flowgraph.aborts (as.zip (frames.map (·.queue))) failed = true := by
  induction h generalizing failed with
  | base => cases hlast
  | level live graph below ih =>
    rw [List.map_cons, List.zip_cons_cons, Flowgraph.aborts]
    cases below with
    | base =>
      rw [List.getLast?_singleton, Option.some.injEq] at hlast
      subst hlast
      cases failed <;> simp [Flowgraph.aborts, hq]
    | level => exact ih (by simpa using hlast) _

theorem Session.checkDepth_eq_error {s s' : Session} (h : s.checkDepth = (.error e, s')) :
    e = .graphDepthExceeded s.config.maxGraphDepth.toNat := by
  unfold checkDepth at h
  dsimp only at h
  split at h <;> cases h
  rfl

/-- No entry is refused for the step limit. -/
theorem Session.seeds_ne_stepLimit {s s' : Session} {g : Graph} {entry : Entry} {n : Nat} :
    s.seeds g entry ≠ (.error (.stepLimitExceeded n), s') := by
  intro h
  cases entry with
  | root r =>
    simp only [seeds, rootSeeds] at h
    split at h
    · rename_i hc
      cases h
      cases checkDepth_eq_error hc
    · split at h
      · rename_i hn
        cases h
        cases (Graph.node_eq_error.mp hn).2
      · split at h
        · cases h
        · split at h <;> cases h
  | executionInput ordinal =>
    simp only [seeds, inputSeeds, Graph.inputTargets] at h
    split at h
    · rename_i hi
      cases h
      split at hi <;> cases hi
    · split at h
      · rename_i hc
        cases h
        cases checkDepth_eq_error hc
      · cases h

/-- An evaluation that returns the error has passed the limit. -/
theorem Step.exceeds (hs : Stacked fs cs m)
    (h : Step m l ⟨scene, .returning (.error (.stepLimitExceeded n)), ws, s⟩)
    (hmax : m.session.memory.config.maxSteps = some limit) : limit < s.statistics.steps := by
  cases h with
  | exhaust hd he =>
    have hcount := Step.steps_of_taken hs (.exhaust hd he) rfl
    rw [Session.dequeue?_exceeded hmax hd] at he
    split at he
    · rw [hcount]
      assumption
    · cases he
  | refuse hseeds => exact absurd hseeds Session.seeds_ne_stepLimit

theorem Call.exceeds (h : Call scene s g entry ls (.error (.stepLimitExceeded n)) s')
    (hmax : s.config.maxSteps = some limit) : limit < s'.statistics.steps := by
  have hs : Stacked s.frames s.calls ⟨scene, .entering g entry, [], s⟩ := Levels.base
  rcases List.eq_nil_or_concat ls with rfl | ⟨pre, l, rfl⟩
  · cases h
  · rw [List.concat_eq_append] at h
    obtain ⟨m₁, m₂, hpre, hstep, hpost⟩ := Steps.split h
    cases hpost
    refine hstep.exceeds (hpre.stacked hs) ?_
    rw [hpre.config]
    exact hmax

/-- What becomes of an evaluation of built-in nodes under a step limit. An evaluation that keeps to
the limit does not return its error. Once the counter has passed the limit, at whatever depth, the
evaluation is about to return and starts no body any more; the error reaches the caller exactly if
it survives the way out, and else the evaluation returns in good order. It does survive if the limit
was passed outside of any nested evaluation, or with something left in the outermost queue. The
counter must not start over on the way out, where each body held up may see one node more taken. -/
theorem exhausted_budget_aborts_iff {scene : Scene} {s : Session} {g : Graph} {entry : Entry}
    {limit : UInt64} (hfresh : s.Fresh) (hg : g.Built .builtins)
    (hlibrary : ∀ name g', s.libraryGraph name = .ok g' → g'.Built .builtins)
    (hmax : s.config.maxSteps = some limit) :
    (∀ fuel result s', s.evaluate scene fuel g entry = some (result, s') →
      s'.statistics.steps ≤ limit → result ≠ .error (.stepLimitExceeded limit.toNat)) ∧
    ∀ ls m, Steps ⟨scene, .entering g entry, [], s⟩ ls m →
      limit < m.session.statistics.steps →
      ∃ pre l m₁ m₂, Steps ⟨scene, .entering g entry, [], s⟩ pre m₁ ∧
        m₁.session.statistics.steps = limit ∧ Step m₁ l m₂ ∧
        m₂.session.statistics.steps = limit + 1 ∧
        m₁.suspended.length ≤ s.config.maxGraphDepth.toNat ∧
        (m₁.suspended = [] → aborts m₂.levels true = true) ∧
        (∀ frame, m₂.session.frames.getLast? = some frame → frame.queue ≠ [] →
          aborts m₂.levels true = true) ∧
        (limit.toNat + 1 + m₁.suspended.length < UInt64.size → ∃ post fuel result s',
          Steps m₂ post ⟨scene, .returning result, [], s'⟩ ∧ (∀ a, .started a ∉ post) ∧
          (∀ fuel' ≥ fuel, s.evaluate scene fuel' g entry = some (result, s')) ∧
          (result = .error (.stepLimitExceeded limit.toNat) ↔ aborts m₂.levels true = true) ∧
          (result = .ok () ↔ aborts m₂.levels true = false)) := by
  refine ⟨?_, ?_⟩
  · rintro fuel result s' he hle rfl
    obtain ⟨ls, hcall⟩ := evaluate_iff_call.mp ⟨fuel, he⟩
    exact absurd (hcall.exceeds hmax) (UInt64.not_lt.mpr hle)
  · intro ls m hsteps hpassed
    have hnew : Life [] ⟨scene, .entering g entry, [], s⟩ :=
      ⟨scene, s, hfresh, .move .refl (.call scene g entry)⟩
    have hb : Machine.IsBuiltin ⟨scene, .entering g entry, [], s⟩ := by
      refine ⟨hg.isBuiltin, List.forall_mem_nil _, fun l name g' hl hg' => ?_⟩
      exact (hlibrary name g' (Session.libraryGraph_eq_ok.mpr ⟨l, hl, hg'⟩)).isBuiltin
    have hstart : s.statistics.steps ≤ limit := by
      rw [hfresh.statistics]
      exact UInt64.zero_le
    obtain ⟨pre, l, -, m₁, m₂, -, hpre, hle, hstep, hlt, -⟩ := hsteps.passes hstart hpassed
    have hmax' : m₁.session.memory.config.maxSteps = some limit := by
      rw [hpre.config]
      exact hmax
    have hscene : m₁.scene = scene := hpre.same_scene
    have life := (hnew.run hpre.run).step hstep
    obtain ⟨hlimit, hnext, t, rfl⟩ := hstep.passes (hnew.run hpre.run).stacked.1 hmax' hle hlt
    have hfailed : Stacked [] [] ⟨m₁.scene, .returning (outcome limit true), m₁.suspended, t⟩ :=
      life.stacked.1
    refine ⟨pre, l, m₁, _, hpre, hlimit, hstep, hnext, ?_, ?_, ?_, ?_⟩
    · have hbounded := life.stacked.2
      have hlength := (Levels.length_eq hfailed).1
      rw [Machine.Bounded, Memory.graphs, List.length_map, hstep.graphs.1, hpre.config] at hbounded
      rw [Machine.held, List.length_map] at hlength
      exact hlength ▸ hbounded
    · intro hw
      simp [Machine.levels, Machine.held, hw, aborts]
    · intro frame hlast hq
      exact Levels.aborts hfailed hlast hq true
    · intro hfits
      have hspent : t.Spent limit m₁.suspended.length := by
        refine ⟨hstep.graphs.1 ▸ hmax', hlt, ?_⟩
        rw [show t.statistics.steps = limit + 1 from hnext, toNat_add_one (by omega)]
        exact hfits
      obtain ⟨post, s', hpost, hstarts⟩ := hspent.unwinds (hpre.isBuiltin hb).suspended hfailed
      rw [hscene] at hpost hstep
      obtain ⟨fuel, he⟩ := Call.evaluate (hpre.trans (.head hstep hpost))
      exact ⟨post, fuel, _, s', hscene ▸ hpost, hstarts, he, outcome_eq_error, outcome_eq_ok⟩

namespace Overrun

def start : Graph :=
  (((Graph.new (.ofNat 1) "inner").addRoot (.new Builtin.onStart)).2.addExecutionInput "in").2

/-- A start that leads nowhere. -/
def inner : Graph := (Graph.addInputLink 0 ⟨1, 1⟩).result start

def caller : Node := { Node.new Builtin.callGraph with fields := [.string "inner", .int 0] }

def call : Graph :=
  (((Graph.new (.ofNat 2) "outer").addNode caller).2.addExecutionInput "in").2

/-- One call of the start. -/
def once : Graph := (Graph.addInputLink 0 ⟨1, 1⟩).result call

/-- Two calls of the start. -/
def twice : Graph := (Graph.addInputLink 0 ⟨1, 1⟩).result once

def session : Session :=
  { executionId := "", config := { maxSteps := some 1 }
    extensions := .standard (Library.empty.insert inner) }

theorem session_fresh : session.Fresh := ⟨rfl, rfl, rfl, rfl, rfl, rfl, rfl, rfl⟩

/-- The one call under evaluation. -/
def entry : Machine := ⟨fun _ => none, .entering once (.executionInput 0), [], session⟩

theorem inner_built : inner.Built .builtins := by
  have hnode : Registry.builtins.create "on-start" = .ok (.new Builtin.onStart) := rfl
  have hstart : start.Built .builtins := .addExecutionInput (.addRoot (.new _ _) (.create hnode))
  have hinner : (Graph.addInputLink 0 ⟨1, 1⟩).run start = some (.ok (), inner) := rfl
  exact .change (.inputLink 0 ⟨1, 1⟩) hstart hinner

theorem once_built : once.Built .builtins := by
  have hnode : Registry.builtins.create "call-graph" = .ok (.new Builtin.callGraph) := rfl
  have hcaller : caller.Made .builtins :=
    .setField (i := 0) (v := .string "inner") (.create hnode)
  have hcall : call.Built .builtins := .addExecutionInput (.addNode (.new _ _) hcaller)
  have honce : (Graph.addInputLink 0 ⟨1, 1⟩).run call = some (.ok (), once) := rfl
  exact .change (.inputLink 0 ⟨1, 1⟩) hcall honce

theorem twice_built : twice.Built .builtins := by
  have htwice : (Graph.addInputLink 0 ⟨1, 1⟩).run once = some (.ok (), twice) := rfl
  exact .change (.inputLink 0 ⟨1, 1⟩) once_built htwice

theorem library_built (name : String) (g : Graph) (h : session.libraryGraph name = .ok g) :
    g.Built .builtins := by
  cases Session.libraryGraph_single rfl h
  exact inner_built

/-- The counter does not start over on the way out of few levels. -/
theorem fits {n : Nat} (h : n ≤ session.config.maxGraphDepth.toNat) :
    UInt64.toNat 1 + 1 + n < UInt64.size := by
  have hdepth : session.config.maxGraphDepth.toNat < 1000 := by decide
  rw [UInt64.size, UInt64.toNat_one]
  omega

end Overrun

/-- The limit of one step is passed in the inner graph, and the outer evaluation returns in good
order all the same. -/
theorem exhausted_budget_returns_ok :
    Overrun.session.Fresh ∧ Overrun.once.Built .builtins ∧ Overrun.inner.Built .builtins ∧
    Overrun.session.config.maxSteps = some 1 ∧
    ∃ s', Overrun.session.evaluate (fun _ => none) 9 Overrun.once (.executionInput 0) =
        some (.ok (), s') ∧ s'.statistics.steps = 2 :=
  ⟨Overrun.session_fresh, Overrun.once_built, Overrun.inner_built, rfl, _, rfl, rfl⟩

/-- With one call alone the error is lost on the way out, and with a second one in the queue it
comes through. -/
theorem exhausted_budget_aborts_iff_overrun :
    (∃ pre l m₁ m₂,
      Steps ⟨fun _ => none, .entering Overrun.once (.executionInput 0), [], Overrun.session⟩ pre
        m₁ ∧
      Step m₁ l m₂ ∧ m₂.session.statistics.steps = 2 ∧ aborts m₂.levels true = false) ∧
    ∃ pre l m₁ m₂,
      Steps ⟨fun _ => none, .entering Overrun.twice (.executionInput 0), [], Overrun.session⟩ pre
        m₁ ∧
      Step m₁ l m₂ ∧ m₂.session.statistics.steps = 2 ∧ aborts m₂.levels true = true := by
  constructor
  · have he : Overrun.session.evaluate (fun _ => none) 9 Overrun.once (.executionInput 0) =
      some (.ok (), _) := rfl
    obtain ⟨ls, hcall⟩ := evaluate_iff_call.mp ⟨9, he⟩
    obtain ⟨-, hpassed⟩ := exhausted_budget_aborts_iff Overrun.session_fresh Overrun.once_built
      Overrun.library_built rfl
    obtain ⟨pre, l, m₁, m₂, hpre, -, hstep, hsteps, hdepth, -, -, hout⟩ :=
      hpassed ls _ hcall (by decide)
    obtain ⟨_, _, _, _, -, -, he', -, hok⟩ := hout (Overrun.fits hdepth)
    exact ⟨pre, l, m₁, m₂, hpre, hstep, hsteps,
      hok.mp (evaluate_unique (he' _ (Nat.le_refl _)) he).1⟩
  · have he : Overrun.session.evaluate (fun _ => none) 9 Overrun.twice (.executionInput 0) =
      some (.error (.stepLimitExceeded 1), _) := rfl
    obtain ⟨ls, hcall⟩ := evaluate_iff_call.mp ⟨9, he⟩
    obtain ⟨-, hpassed⟩ := exhausted_budget_aborts_iff Overrun.session_fresh Overrun.twice_built
      Overrun.library_built rfl
    obtain ⟨pre, l, m₁, m₂, hpre, -, hstep, hsteps, hdepth, -, -, hout⟩ :=
      hpassed ls _ hcall (by decide)
    obtain ⟨_, _, _, _, -, -, he', herror, -⟩ := hout (Overrun.fits hdepth)
    exact ⟨pre, l, m₁, m₂, hpre, hstep, hsteps,
      herror.mp (evaluate_unique (he' _ (Nat.le_refl _)) he).1⟩

end Flowgraph
