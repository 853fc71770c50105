import Flowgraph.Proofs.Budget
import Flowgraph.Proofs.Tally
import Flowgraph.Proofs.Termination

namespace Flowgraph

/-- What can happen from a moment on while the step limit stays the same. -/
inductive Limited (limit : UInt64) (m₀ : Machine) : List Label → Machine → Prop where
  | refl : Limited limit m₀ [] m₀
  | step (before : Limited limit m₀ ls m) (last : Step m l m') : Limited limit m₀ (ls ++ [l]) m'
  | move (before : Limited limit m₀ ls m) (last : Move m m')
      (kept : m'.session.config.maxSteps = some limit) : Limited limit m₀ ls m'

theorem Limited.run (h : Limited limit m₀ ls m) : Run m₀ ls m := by
  induction h with
  | refl => exact .refl
  | step _ last ih => exact .step ih last
  | move _ last _ ih => exact .move ih last

theorem Limited.steps (before : Limited limit m₀ ls₀ m) (h : Steps m ls m') :
    Limited limit m₀ (ls₀ ++ ls) m' := by
  induction h generalizing ls₀ with
  | refl =>
    rw [List.append_nil]
    exact before
  | @head m l _ ls _ first _ ih =>
    rw [← List.singleton_append, ← List.append_assoc]
    exact ih (before.step first)

theorem Limited.maxSteps (h : Limited limit m₀ ls m)
    (hmax : m₀.session.config.maxSteps = some limit) :
    m.session.memory.config.maxSteps = some limit := by
  induction h with
  | refl => exact hmax
  | step _ last ih =>
    rw [last.graphs.1]
    exact ih
  | move _ _ kept => exact kept

/-- The counter does not start over, however the machine goes on. -/
def Machine.Ample (m : Machine) : Prop :=
  ∀ ls m', Steps m ls m' → m.session.statistics.steps.toNat + dequeues ls < UInt64.size

theorem Steps.toNat_steps (h : Steps m ls m') (hs : Stacked fs cs m)
    (hfits : m.session.statistics.steps.toNat + dequeues ls < UInt64.size) :
    m'.session.statistics.steps.toNat = m.session.statistics.steps.toNat + dequeues ls := by
  rw [h.steps hs]
  exact toNat_add_ofNat hfits

theorem Machine.Ample.after (ha : m.Ample) (hs : Stacked fs cs m) (h : Steps m ls m') :
    m'.Ample := by
  intro ls' m'' h'
  have hfits := ha _ _ (h.trans h')
  rw [dequeues_append] at hfits
  rw [h.toNat_steps hs (by omega)]
  omega

/-- The bodies held up have no part in it. -/
theorem Machine.Ample.alone {scene : Scene} {control : Control}
    (ha : Machine.Ample ⟨scene, control, ws, s⟩) : Machine.Ample ⟨scene, control, [], s⟩ :=
  fun ls _ h => ha ls _ (h.under ws)

/-- A node that waits in the queue can be counted. -/
theorem Machine.Ample.next {scene : Scene} {g : Graph}
    (ha : Machine.Ample ⟨scene, .draining g, ws, s⟩) (hd : s.dequeue? = some (node, s')) :
    s.statistics.steps.toNat + 1 < UInt64.size := by
  have counted {l : Label} {m : Machine} (h : Step ⟨scene, .draining g, ws, s⟩ l m)
      (hl : l.taken? = some (g, node)) : s.statistics.steps.toNat + 1 < UInt64.size := by
    have hfits := ha _ _ (.one h)
    rwa [dequeues_of_taken hl] at hfits
  cases he : s'.countStep.exceeded? with
  | some limit => exact counted (.exhaust hd he) rfl
  | none =>
    cases hv : s'.countStep.verdict g node with
    | start d body => exact counted (.start hd he hv) rfl
    | alreadyDropped | alreadyEvaluated | drop e | defer producers =>
      exact counted (.settle hd he hv (by simp)) rfl

/-- At most `room` more nodes may be taken from queues. -/
structure Machine.Room (m : Machine) (limit : UInt64) (room : Nat) : Prop where
  maxSteps : m.session.memory.config.maxSteps = some limit
  passed : limit.toNat < m.session.statistics.steps.toNat + room
  ample : m.Ample

theorem Machine.Room.after {m m' : Machine} (hr : m.Room limit room) (hs : Stacked fs cs m)
    (h : Steps m ls m') : m'.Room limit room := by
  have hpassed := hr.passed
  refine ⟨?_, ?_, hr.ample.after hs h⟩
  · rw [h.config]
    exact hr.maxSteps
  · rw [h.toNat_steps hs (hr.ample _ _ h)]
    omega

/-- A step that takes a node leaves room for one less. -/
theorem Machine.Room.taken {m m' : Machine} (hr : m.Room limit (room + 1)) (hs : Stacked fs cs m)
    (h : Step m l m') (hl : l.taken? = some (g, node)) : m'.Room limit room := by
  have hpassed := hr.passed
  refine ⟨h.graphs.1 ▸ hr.maxSteps, ?_, hr.ample.after hs (.one h)⟩
  rw [(Steps.one h).toNat_steps hs (hr.ample _ _ (.one h)), dequeues_of_taken hl]
  omega

theorem Machine.Room.alone {scene : Scene} {control : Control}
    (hr : Machine.Room ⟨scene, control, ws, s⟩ limit room) :
    Machine.Room ⟨scene, control, [], s⟩ limit room := ⟨hr.maxSteps, hr.passed, hr.ample.alone⟩

/-- Queues are drained to the end from wherever at most `room` more nodes may be taken. -/
def DrainsReturn (scene : Scene) (limit : UInt64) (room : Nat) : Prop :=
  ∀ s g fs cs, Stacked fs cs ⟨scene, .draining g, [], s⟩ →
    Machine.Room ⟨scene, .draining g, [], s⟩ limit room → Returns scene (.draining g) s

section

variable {scene : Scene} {limit : UInt64} {s : Session} {g : Graph} {room : Nat}

theorem Session.room_of_not_exceeded (hmax : s.memory.config.maxSteps = some limit)
    (hd : s.dequeue? = some (node, s')) (he : s'.countStep.exceeded? = none)
    (hfits : s.statistics.steps.toNat + 1 < UInt64.size) :
    s.statistics.steps.toNat < limit.toNat := by
  rw [Session.dequeue?_exceeded hmax hd] at he
  split at he
  · cases he
  · rename_i hle
    rw [UInt64.lt_iff_toNat_lt, toNat_add_one hfits] at hle
    omega

/-- A node is taken while there is room for it, or is one too many. -/
theorem Step.taken_cases (h : Step m l m') (hmax : m.session.memory.config.maxSteps = some limit)
    (hl : l.taken? = some (g, node))
    (hfits : m.session.statistics.steps.toNat + 1 < UInt64.size) :
    m.session.statistics.steps.toNat < limit.toNat ∨ l = .exhausted g node := by
  cases h with
  | exhaust hd he =>
    cases hl
    exact .inr rfl
  | settle hd he | start hd he =>
    cases hl
    exact .inl (Session.room_of_not_exceeded hmax hd he hfits)
  | _ => cases hl

theorem Returns.drain
    (h : ∀ node s', s.dequeue? = some (node, s') → s'.countStep.exceeded? = none →
      Returns scene (.draining g) s) :
    Returns scene (.draining g) s := by
  cases hd : s.dequeue? with
  | none => exact ⟨_, _, _, .one (.drained hd)⟩
  | some next =>
    obtain ⟨node, s'⟩ := next
    cases he : s'.countStep.exceeded? with
    | some _ => exact ⟨_, _, _, .one (.exhaust hd he)⟩
    | none => exact h node s' hd he

theorem DrainsReturn.entering (hr : DrainsReturn scene limit room)
    (hroom : Machine.Room ⟨scene, .entering g entry, [], s⟩ limit room) :
    Returns scene (.entering g entry) s := by
  apply Returns.enter
  intro queue s' hseeds
  have hbase : Stacked s.frames s.calls ⟨scene, .entering g entry, [], s⟩ := Levels.base
  have hstep : Steps ⟨scene, .entering g entry, [], s⟩ _ _ := .one (.enter hseeds)
  exact hr _ _ _ _ (hstep.stacked hbase) (hroom.after hbase hstep)

/-- A body comes to its end if the evaluations it asks for do. -/
theorem DrainsReturn.running {a : Activation} {p : Program Unit}
    (hr : DrainsReturn scene limit room) (hs : Stacked fs cs ⟨scene, .running a p, [], s⟩)
    (hroom : Machine.Room ⟨scene, .running a p, [], s⟩ limit room) :
    ∃ ls result s', Steps ⟨scene, .running a p, [], s⟩ ls
      ⟨scene, .running a (.finish result), [], s'⟩ := by
  induction p generalizing s with
  | finish result => exact ⟨[], result, s, .refl _⟩
  | perform op next ih =>
    have hstep : Steps ⟨scene, .running a (.perform op next), [], s⟩ _ _ := .one .perform
    obtain ⟨ls, result, t, hrest⟩ := ih _ (hstep.stacked hs) (hroom.after hs hstep)
    exact ⟨_, result, t, hstep.trans hrest⟩
  | enter target entry next ih =>
    cases hg : s.resolve scene target with
    | error e =>
      have hstep : Steps ⟨scene, .running a (.enter target entry next), [], s⟩ _
          ⟨scene, .running a (next (.error e)), [], s⟩ := .one (.unresolved hg)
      obtain ⟨ls, result, t, hrest⟩ := ih _ (hstep.stacked hs) (hroom.after hs hstep)
      exact ⟨_, result, t, hstep.trans hrest⟩
    | ok g =>
      have hcalled : Steps ⟨scene, .running a (.enter target entry next), [], s⟩ _
          ⟨scene, .entering g entry, [⟨a, next⟩], s⟩ := .one (.call hg)
      obtain ⟨_, result, t, hcall⟩ := hr.entering (hroom.after hs hcalled).alone
      have hsteps := hcalled.trans ((Call.under hcall [⟨a, next⟩]).trans (.one .resume))
      obtain ⟨ls, result, t, hrest⟩ := ih _ (hsteps.stacked hs) (hroom.after hs hsteps)
      exact ⟨_, result, t, hsteps.trans hrest⟩

theorem DrainsReturn.succ (hr : DrainsReturn scene limit room) :
    DrainsReturn scene limit (room + 1) := by
  intro s g fs cs hs hroom
  apply Returns.drain
  intro node s' hd he
  have settled {v : Session.Verdict} (hv : s'.countStep.verdict g node = v)
      (hn : ∀ d body, v ≠ .start d body) : Returns scene (.draining g) s := by
    have hstep : Step ⟨scene, .draining g, [], s⟩ (.settled g node v) _ := .settle hd he hv hn
    apply Returns.after _ (.one hstep)
    exact hr _ _ _ _ (hs.step hstep) (hroom.taken hs hstep rfl)
  cases hv : s'.countStep.verdict g node with
  | start d body =>
    have hstep : Step ⟨scene, .draining g, [], s⟩ (.started ⟨g, node, d⟩) _ := .start hd he hv
    have hless := hroom.taken hs hstep rfl
    obtain ⟨ls, result, t, hrun⟩ := hr.running (hs.step hstep) hless
    have hbody := hrun.trans (.one .finish)
    apply Returns.after _ (.head hstep hbody)
    exact hr _ _ _ _ (hbody.stacked (hs.step hstep)) (hless.after (hs.step hstep) hbody)
  | alreadyDropped | alreadyEvaluated | drop e | defer producers => exact settled hv (by simp)

theorem drainsReturn (scene : Scene) (limit : UInt64) (room : Nat) :
    DrainsReturn scene limit room := by
  induction room with
  | zero =>
    intro s g fs cs hs hroom
    apply Returns.drain
    intro node s' hd he
    have hlt := Session.room_of_not_exceeded hroom.maxSteps hd he (hroom.ample.next hd)
    have hpassed := hroom.passed
    omega
  | succ room ih => exact ih.succ

end

theorem Step.toNat_steps_le (hs : Stacked fs cs m) (h : Step m l m')
    (hmax : m.session.memory.config.maxSteps = some limit) (hle : limit.toNat ≤ top)
    (hfits : top + (n + [l].countP Label.exhausts) + 1 < UInt64.size)
    (hn : m.session.statistics.steps.toNat ≤ top + n) :
    m'.session.statistics.steps.toNat = m.session.statistics.steps.toNat + dequeues [l] ∧
    m'.session.statistics.steps.toNat ≤ top + (n + [l].countP Label.exhausts) := by
  have hcount := (Steps.one h).toNat_steps hs
  cases hl : l.taken? with
  | none =>
    rw [dequeues_of_not_taken hl] at hcount ⊢
    omega
  | some taken =>
    rw [dequeues_of_taken hl] at hcount ⊢
    rcases h.taken_cases hmax hl (by omega) with hlt | rfl
    · omega
    · simp only [List.countP_singleton, Label.exhausts, if_true] at hfits ⊢
      omega

/-- The counter goes beyond the limit only by nodes that were one too many, and counts exactly while
there are not so many of these that it would start over. -/
theorem Limited.toNat_steps (life : Life ls₀ m₀) (hmax : m₀.session.config.maxSteps = some limit)
    (hle : limit.toNat ≤ top) (hstart : m₀.session.statistics.steps.toNat ≤ top)
    (h : Limited limit m₀ ls m) (hfits : top + ls.countP Label.exhausts + 1 < UInt64.size) :
    m.session.statistics.steps.toNat = m₀.session.statistics.steps.toNat + dequeues ls ∧
    m.session.statistics.steps.toNat ≤ top + ls.countP Label.exhausts := by
  induction h with
  | refl => exact ⟨rfl, hstart⟩
  | step before last ih =>
    rw [List.countP_append] at hfits ⊢
    obtain ⟨hcount, hn⟩ := ih (by omega)
    obtain ⟨hlast, hn'⟩ := last.toNat_steps_le (life.run before.run).stacked.1
      (before.maxSteps hmax) hle hfits hn
    rw [dequeues_append]
    omega
  | move before last _ ih =>
    rw [last.statistics]
    exact ih hfits

theorem Steps.toNat_steps_le (h : Steps m ls m') (hs : Stacked fs cs m)
    (hmax : m.session.memory.config.maxSteps = some limit) (hle : limit.toNat ≤ top)
    (hfits : top + (n + ls.countP Label.exhausts) + 1 < UInt64.size)
    (hn : m.session.statistics.steps.toNat ≤ top + n) :
    m'.session.statistics.steps.toNat = m.session.statistics.steps.toNat + dequeues ls ∧
    m'.session.statistics.steps.toNat ≤ top + (n + ls.countP Label.exhausts) := by
  induction h generalizing n with
  | refl => exact ⟨rfl, hn⟩
  | @head m l m₁ ls m' first rest ih =>
    rw [← List.singleton_append, List.countP_append, ← Nat.add_assoc n] at hfits ⊢
    obtain ⟨hfirst, hn₁⟩ := first.toNat_steps_le hs hmax hle (by omega) hn
    obtain ⟨hrest, hn'⟩ := ih (hs.step first) (first.graphs.1 ▸ hmax) hfits hn₁
    rw [dequeues_append]
    exact ⟨by omega, hn'⟩

/-- Under a step limit every evaluation comes to its end, whatever the bodies do, unless it takes so
many nodes that are one too many that the counter may start over. -/
theorem Session.evaluate_returns {s : Session} {limit : UInt64}
    (hmax : s.config.maxSteps = some limit) (scene : Scene) (g : Graph) (entry : Entry) :
    (∃ fuel result s', ∀ fuel' ≥ fuel, s.evaluate scene fuel' g entry = some (result, s')) ∨
    ∃ ls m, Steps ⟨scene, .entering g entry, [], s⟩ ls m ∧
      UInt64.size ≤ max s.statistics.steps.toNat limit.toNat + ls.countP Label.exhausts + 1 := by
  by_cases hover : ∃ ls m, Steps ⟨scene, .entering g entry, [], s⟩ ls m ∧
    UInt64.size ≤ max s.statistics.steps.toNat limit.toNat + ls.countP Label.exhausts + 1
  · exact .inr hover
  · left
    have hbase : Stacked s.frames s.calls ⟨scene, .entering g entry, [], s⟩ := Levels.base
    have hample : Machine.Ample ⟨scene, .entering g entry, [], s⟩ := by
      intro ls m h
      have hfits := Nat.lt_of_not_le fun hsize => hover ⟨ls, m, h, hsize⟩
      have htop := Nat.le_max_right s.statistics.steps.toNat limit.toNat
      obtain ⟨hcount, hle⟩ := h.toNat_steps_le (n := 0) hbase hmax htop (by omega)
        (Nat.le_max_left _ _)
      dsimp only at hcount ⊢
      omega
    have hroom : Machine.Room ⟨scene, .entering g entry, [], s⟩ limit (limit.toNat + 1) :=
      ⟨hmax, by omega, hample⟩
    obtain ⟨ls, result, s', hcall⟩ := (drainsReturn scene limit _).entering hroom
    obtain ⟨fuel, he⟩ := Call.evaluate hcall
    exact ⟨fuel, result, s', he⟩

/-- So few nodes were one too many that the counter has not started over. -/
def Fits (limit : UInt64) (ls : List Label) : Prop :=
  limit.toNat + ls.countP Label.exhausts + 1 < UInt64.size

/-- No body has begun between two moments, and outputs were set by those under way at the first. -/
structure Wanes (m m' : Machine) : Prop where
  active : ∀ a ∈ m'.active, a ∈ m.active
  outputs : ∀ site : Site, (∀ a ∈ m.active, a.site ≠ site) → ∀ port,
    m'.session.memory.cache.get? ⟨site.graph, site.node, port⟩ =
      m.session.memory.cache.get? ⟨site.graph, site.node, port⟩

theorem Wanes.refl (m : Machine) : Wanes m m := ⟨fun _ => id, fun _ _ _ => rfl⟩

theorem Wanes.step (hw : Wanes m₀ m) (hs : Stacked fs cs m) (h : Step m l m')
    (hl : ∀ a, l ≠ .started a) : Wanes m₀ m' := by
  constructor
  · intro a ha
    apply hw.active a
    rcases h.active with he | ⟨b, rfl, -⟩ | ⟨b, result, -, he⟩
    · exact he ▸ ha
    · exact absurd rfl (hl b)
    · exact he ▸ List.mem_cons_of_mem b ha
  · intro site hsite port
    rw [(h.effect hs).get?_of_ne _ port]
    · exact hw.outputs site hsite port
    · rintro a op rfl
      exact hsite a (hw.active a h.performed_active)

theorem Wanes.move (hw : Wanes m₀ m) (hs : Stacked [] [] m) (h : Move m m') : Wanes m₀ m' := by
  constructor
  · rw [h.active.2]
    exact List.forall_mem_nil _
  · intro site hsite port
    rw [(h.sameResults hs).cache]
    exact hw.outputs site hsite port

/-- Once the counter stands at the limit every node that is taken is one too many. -/
theorem Limited.wanes (life : Life ls₀ m₀) (hmax : m₀.session.config.maxSteps = some limit)
    (hle : limit ≤ m₀.session.statistics.steps) (h : Limited limit m₀ ls m)
    (hfits : m₀.session.statistics.steps.toNat + ls.countP Label.exhausts + 1 < UInt64.size) :
    Wanes m₀ m ∧ ∀ l ∈ ls, (∀ taken, l.taken? = some taken → l.exhausts = true) ∧
      ∀ a op, l = .performed a op → a ∈ m₀.active := by
  rw [UInt64.le_iff_toNat_le] at hle
  induction h with
  | refl => exact ⟨.refl _, List.forall_mem_nil _⟩
  | @step ls m l m' before last ih =>
    rw [List.countP_append] at hfits
    obtain ⟨hw, hls⟩ := ih (by omega)
    obtain ⟨hcount, hn⟩ := before.toNat_steps life hmax hle (Nat.le_refl _) (by omega)
    have htaken (taken : Graph × Handle) (hl : l.taken? = some taken) : l.exhausts = true := by
      rcases last.taken_cases (before.maxSteps hmax) hl (by omega) with hlt | rfl
      · omega
      · rfl
    constructor
    · apply hw.step (life.run before.run).stacked.1 last
      rintro a rfl
      cases htaken _ rfl
    · simp only [List.forall_mem_append, List.forall_mem_singleton]
      refine ⟨hls, htaken, ?_⟩
      rintro a op rfl
      exact hw.active a last.performed_active
  | move before last _ ih =>
    obtain ⟨hw, hls⟩ := ih hfits
    exact ⟨hw.move (life.run before.run).stacked.1 last, hls⟩

/-- What a step limit does over the life of a session. Every evaluation comes to its end, at every
moment and whatever graphs and bodies there are. All evaluations together start no more bodies than
the limit allows, and evaluate, defer and drop no more nodes. Once the counter has passed the limit
no body is started and no node deferred or dropped; what is still done is done by bodies that were
under way. All this is so unless the counter has started over, which takes nodes beyond the limit
that are as many as the limit falls short of the greatest number. -/
theorem step_limit_bounds_life {scene : Scene} {s : Session} {limit : UInt64} {ls : List Label}
    {m : Machine} (hfresh : s.Fresh) (hmax : s.config.maxSteps = some limit)
    (h : Limited limit ⟨scene, .idle, [], s⟩ ls m) :
    (∀ scene' g entry,
      (∃ fuel result s', ∀ fuel' ≥ fuel,
        m.session.evaluate scene' fuel' g entry = some (result, s')) ∨
      ∃ ls' m', Steps ⟨scene', .entering g entry, [], m.session⟩ ls' m' ∧
        ¬ Fits limit (ls ++ ls')) ∧
    (Fits limit ls →
      m.session.statistics.steps.toNat = dequeues ls ∧
      dequeues ls ≤ limit.toNat + ls.countP Label.exhausts ∧
      ls.countP Label.begins ≤ limit.toNat ∧
      m.session.statistics.evaluated.toNat + m.session.statistics.deferred.toNat +
        m.session.statistics.dropped.toNat ≤ limit.toNat ∧
      (limit < m.session.statistics.steps → ∀ ls' m', Limited limit m ls' m' →
        Fits limit (ls ++ ls') →
        (∀ a, .started a ∉ ls') ∧ (∀ g node v, .settled g node v ∉ ls') ∧
        (∀ a op, .performed a op ∈ ls' → a ∈ m.active) ∧
        ∀ graph output, m'.session.cached? graph output ≠ m.session.cached? graph output →
          ∃ a ∈ m.active, a.site = ⟨graph, output.node⟩)) := by
  have hnew : Life [] ⟨scene, .idle, [], s⟩ := ⟨scene, s, hfresh, .refl⟩
  have life : Life ls m := hnew.run h.run
  have hmax' := h.maxSteps hmax
  have hcounts (hfits : Fits limit ls) : m.session.statistics.steps.toNat = dequeues ls ∧
      m.session.statistics.steps.toNat ≤ limit.toNat + ls.countP Label.exhausts := by
    have hstart : s.statistics.steps.toNat = 0 := by rw [hfresh.statistics]; rfl
    obtain ⟨hcount, hle⟩ := h.toNat_steps hnew hmax (Nat.le_refl _) (by dsimp only; omega) hfits
    dsimp only at hcount
    exact ⟨by omega, hle⟩
  refine ⟨?_, ?_⟩
  · intro scene' g entry
    rcases Session.evaluate_returns hmax' scene' g entry with hreturns | ⟨ls', m', hsteps, hover⟩
    · exact .inl hreturns
    · right
      by_cases hfits : Fits limit ls
      · refine ⟨ls', m', hsteps, fun hfits' => ?_⟩
        have hle := (hcounts hfits).2
        rw [Fits, List.countP_append] at hfits'
        omega
      · exact ⟨[], _, .refl _, by rwa [List.append_nil]⟩
  · intro hfits
    obtain ⟨hcount, hle⟩ := hcounts hfits
    obtain ⟨hstatistics, htaken⟩ := life.counts
    have hbegins := life.begins_eq
    rw [Fits] at hfits
    refine ⟨hcount, by omega, by omega, ?_, ?_⟩
    · have hsmall {n : Nat} (hn : n ≤ dequeues ls) : (UInt64.ofNat n).toNat = n :=
        UInt64.toNat_ofNat_of_lt' (by omega)
      rw [hstatistics, Statistics.count]
      dsimp only
      rw [hsmall (by omega), hsmall (by omega), hsmall (by omega)]
      omega
    · intro hpassed ls' m' h' hfits'
      rw [Fits, List.countP_append] at hfits'
      obtain ⟨hw, hls⟩ := h'.wanes life hmax' (UInt64.le_of_lt hpassed) (by omega)
      refine ⟨?_, ?_, fun a op ha => (hls _ ha).2 a op rfl, ?_⟩
      · intro a ha
        cases (hls _ ha).1 _ rfl
      · intro g node v hv
        cases (hls _ hv).1 _ rfl
      · intro graph output hne
        by_contra hnone
        apply hne
        apply hw.outputs ⟨graph, output.node⟩
        exact fun a ha hsite => hnone ⟨a, ha, hsite⟩

/-- One evaluation passes the limit of one step; from then on nothing is started, and evaluations
come to their end all the same. -/
theorem step_limit_bounds_life_overrun :
    ∃ ls m, Limited 1 ⟨fun _ => none, .idle, [], Overrun.session⟩ ls m ∧ Fits 1 ls ∧
      m.session.statistics.steps = 2 ∧ ls.countP Label.begins ≤ 1 ∧
      ∀ ls' m', Limited 1 m ls' m' → Fits 1 (ls ++ ls') → ∀ a, .started a ∉ ls' := by
  have hmove : Move ⟨fun _ => none, .idle, [], Overrun.session⟩ Overrun.entry :=
    .call (fun _ => none) Overrun.once (.executionInput 0)
  have h := (Limited.refl.move hmove rfl).steps (Overrun.entry.advance_steps 12)
  have hfits : Fits 1 ([] ++ (Overrun.entry.advance 12).1) := by
    rw [Fits]
    decide
  obtain ⟨-, hbounds⟩ := step_limit_bounds_life Overrun.session_fresh rfl h
  obtain ⟨-, -, hbegins, -, hpassed⟩ := hbounds hfits
  refine ⟨_, _, h, hfits, rfl, hbegins, fun ls' m' h' hfits' => ?_⟩
  exact (hpassed (by decide) ls' m' h' hfits').1

namespace Spinning

def start : Handle := ⟨1, 1⟩

/-- A start that leads to itself. -/
def graph : Graph :=
  (Graph.addLink ⟨start, 0⟩ start).result
    ((Graph.new (.ofNat 1) "spinning").addRoot (.new Builtin.onStart)).2

/-- Its limit is the greatest number the counter can hold. -/
def session : Session := { executionId := "", config := { maxSteps := some 18446744073709551615 } }

theorem session_fresh : session.Fresh := by constructor <;> rfl

/-- What a turn keeps of the session, apart from the queue and the call. -/
structure Spins (queue calls : List Handle) (s : Session) : Prop where
  frames : s.memory.frames = [⟨graph, queue⟩]
  calls : s.memory.calls = calls
  maxSteps : s.memory.config.maxSteps = some 18446744073709551615
  dropped : s.memory.dropped = []

/-- The start waits, runs, has fired to itself, and waits again. -/
inductive Turning : Machine → Prop where
  | entering : Turning ⟨scene, .entering graph (.root start), [], session⟩
  | waiting (h : Spins [start] [] s) : Turning ⟨scene, .draining graph, [], s⟩
  | firing (h : Spins [] [start] s) :
      Turning ⟨scene, .running ⟨graph, start, Builtin.onStart⟩ (Program.fire 0), [], s⟩
  | fired (h : Spins [start] [start] s) :
      Turning ⟨scene, .running ⟨graph, start, Builtin.onStart⟩ (.finish (.ok ())), [], s⟩

theorem verdict_start {s : Session} (h : s.memory.dropped = []) :
    s.verdict graph start = .start Builtin.onStart (Program.fire 0) := by
  have hkept : s.isDropped graph.id start = false := by
    rw [Session.isDropped, show s.dropped = [] from h]
    rfl
  rw [Session.verdict, hkept]
  rfl

theorem Spins.dequeue {s : Session} (h : Spins [start] [] s) :
    ∃ s', s.dequeue? = some (start, s') ∧ s'.countStep.exceeded? = none ∧ Spins [] [] s' := by
  obtain ⟨s', hd, hm⟩ := Session.dequeue?_frames h.frames
  refine ⟨s', hd, ?_, ?_⟩
  · rw [Session.dequeue?_exceeded h.maxSteps hd, if_neg]
    have hlt := (s.statistics.steps + 1).toNat_lt_size
    rw [UInt64.lt_iff_toNat_lt]
    exact Nat.not_lt.mpr (Nat.le_sub_one_of_lt hlt)
  · constructor <;> rw [hm]
    exacts [h.calls, h.maxSteps, h.dropped]

theorem Spins.fire {s : Session} (h : Spins [] [start] s) :
    ∃ s', (Operation.fire 0).run s = (.ok (), s') ∧ Spins [start] [start] s' := by
  have hc : s.current = .ok ⟨start, graph, .new Builtin.onStart⟩ :=
    Session.current_eq_ok.mpr ⟨_, _, _, h.frames, h.calls, rfl, rfl⟩
  obtain ⟨text, hfire⟩ := Session.fire_run hc 0
  refine ⟨_, hfire, ?_⟩
  have hm : ((s.log .debug text).enqueue [start]).memory =
      { s.memory with frames := [⟨graph, [start]⟩] } := by
    rw [Session.enqueue_memory, Session.log_memory, Memory.enqueue, h.frames]
    rfl
  constructor
  · exact congrArg Memory.frames hm
  · exact (congrArg Memory.calls hm).trans h.calls
  · exact (congrArg (·.config.maxSteps) hm).trans h.maxSteps
  · exact (congrArg Memory.dropped hm).trans h.dropped

theorem Turning.progress {m : Machine} (hm : Turning m) : ∃ l m', Step m l m' ∧ Turning m' := by
  cases hm with
  | entering => exact ⟨_, _, Machine.step_of_next? rfl, .waiting ⟨rfl, rfl, rfl, rfl⟩⟩
  | waiting h =>
    obtain ⟨s', hd, he, h'⟩ := h.dequeue
    refine ⟨_, _, .start hd he (verdict_start h'.dropped), .firing ?_⟩
    constructor <;> simp [h'.frames, h'.calls, h'.maxSteps, h'.dropped]
  | firing h =>
    obtain ⟨s', hrun, h'⟩ := h.fire
    refine ⟨_, _, .perform, ?_⟩
    rw [hrun]
    exact .fired h'
  | fired h =>
    refine ⟨_, _, .finish, .waiting ?_⟩
    constructor <;>
      simp [h.frames, h.calls, h.maxSteps, h.dropped, Session.droppedAfter]

end Spinning

/-- A limit that the counter cannot pass ends nothing: a start that leads to itself goes on for
ever. -/
theorem step_limit_spinning :
    Spinning.session.Fresh ∧
    Spinning.session.config.maxSteps = some 18446744073709551615 ∧
    ∀ fuel, Spinning.session.evaluate (fun _ => none) fuel Spinning.graph
      (.root Spinning.start) = none :=
  ⟨Spinning.session_fresh, rfl, evaluate_eq_none (fun _ => Spinning.Turning.progress) .entering⟩

end Flowgraph
