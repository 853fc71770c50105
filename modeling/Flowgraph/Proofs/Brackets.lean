import Flowgraph.Proofs.Observation

namespace Flowgraph

/-- What comes right before an evaluation: nothing, or, where sessions are not strict about roots,
the remark that it starts at a node that is none. -/
inductive Lead (strict : Bool) (g : GraphId) : Entry → Story → Prop where
  | plain : Lead strict g entry []
  | remark (lenient : strict = false) : Lead strict g (.root h) [(g, .nonRootEntry h nodeType)]

/-- What is told of a node whose body does not run. -/
inductive Occurrence.Aside : Occurrence → Prop where
  | deferred : Aside (.nodeDeferred h dependencies)
  | dropped : Aside (.nodeDropped h reason)

/-- The two ends that a body which has been started can come to. -/
inductive Occurrence.Closes (h : Handle) (nodeType : String) : Occurrence → Prop where
  | completed : Closes h nodeType (.nodeCompleted h nodeType)
  | failed : Closes h nodeType (.nodeFailed h error)

mutual

/-- Whole evaluations one after another, with no more than `room` of them open at once. Strict
sessions remark on the ones they refuse. -/
inductive Visits (strict : Bool) : Nat → Story → Prop where
  | none : Visits strict room []
  | refused (before : Visits strict (room + 1) w) (strictly : strict = true) :
      Visits strict (room + 1) (w ++ [(g, .nonRootEntry h nodeType)])
  | visit (before : Visits strict (room + 1) w) (lead : Lead strict g entry w₀)
      (inside : Work strict room g w₁) : Visits strict (room + 1)
        (w ++ (w₀ ++ (g, .evaluationStarted entry) :: w₁ ++ [(g, .evaluationCompleted)]))

/-- What goes on in an evaluation of `g`: nodes are put off, given up, or run, and only those that
run have evaluations inside them. -/
inductive Work (strict : Bool) : Nat → GraphId → Story → Prop where
  | none : Work strict room g []
  | aside (before : Work strict room g w) (aside : o.Aside) : Work strict room g (w ++ [(g, o)])
  | body (before : Work strict room g w) (inside : Visits strict room w₁)
      (closes : o.Closes h nodeType) :
      Work strict room g (w ++ ((g, .nodeStarted h nodeType) :: w₁ ++ [(g, o)]))

end

mutual

/-- A story told so far, at a moment between the evaluations of the innermost of some bodies. -/
inductive InBodies (strict : Bool) :
    Nat → List Activation → Story → Prop where
  | outside (whole : Visits strict room w) : InBodies strict room [] w
  | body (graph : InGraph strict room a.graph.id as w) (visits : Visits strict room w₁) :
      InBodies strict room (a :: as)
        (w ++ (a.graph.id, .nodeStarted a.handle a.definition.nodeType) :: w₁)

/-- A story told so far, at a moment between the bodies of an evaluation of `g` that the innermost
of some bodies has asked for. -/
inductive InGraph (strict : Bool) :
    Nat → GraphId → List Activation → Story → Prop where
  | graph (bodies : InBodies strict (room + 1) as w) (lead : Lead strict g entry w₀)
      (work : Work strict room g w₁) :
      InGraph strict room g as (w ++ (w₀ ++ (g, .evaluationStarted entry) :: w₁))

end

section

variable {strict : Bool} {room : Nat} {as : List Activation} {w x : Story}

/-- Where whole evaluations may go on, a story may. -/
theorem InBodies.extend (h : InBodies strict room as w)
    (hx : ∀ {v}, Visits strict room v → Visits strict room (v ++ x)) :
    InBodies strict room as (w ++ x) := by
  cases h with
  | outside whole => exact .outside (hx whole)
  | body graph visits =>
    rw [List.append_assoc, List.cons_append]
    exact .body graph (hx visits)

theorem InGraph.extend {g : GraphId} (h : InGraph strict room g as w)
    (hx : ∀ {v}, Work strict room g v → Work strict room g (v ++ x)) :
    InGraph strict room g as (w ++ x) := by
  cases h with
  | graph bodies lead work =>
    rw [List.append_assoc, List.append_assoc, List.cons_append]
    exact .graph bodies lead (hx work)

theorem InGraph.leave {g : GraphId} (h : InGraph strict room g as w) :
    InBodies strict (room + 1) as (w ++ [(g, .evaluationCompleted)]) := by
  cases h with
  | graph bodies lead work =>
    rw [List.append_assoc]
    exact bodies.extend fun whole => .visit whole lead work

theorem InBodies.finish {a : Activation} {o : Occurrence} (h : InBodies strict room (a :: as) w)
    (closes : o.Closes a.handle a.definition.nodeType) :
    InGraph strict room a.graph.id as (w ++ [(a.graph.id, o)]) := by
  cases h with
  | body graph visits =>
    rw [List.append_assoc]
    exact graph.extend fun work => .body work visits closes

end

namespace Session

/-- An entry is remarked on where there is room for it and its node is no root. -/
theorem entryAccount_occurrences (config : Config) (depth : Nat) (g : Graph) (entry : Entry) :
    (entryAccount config depth g entry).occurrences = [] ∨
      ∃ h n, entry = .root h ∧ g.node h = .ok n ∧ depth < config.maxGraphDepth.toNat ∧
        n.definition.isRoot = false ∧ (entryAccount config depth g entry).occurrences =
          [(g.id, .nonRootEntry h n.nodeType)] := by
  cases entry with
  | executionInput ordinal => exact .inl rfl
  | root h =>
    simp only [entryAccount]
    cases hn : g.node h with
    | error e => exact .inl rfl
    | ok n =>
      dsimp only
      split
      · rename_i hremark
        simp only [Bool.and_eq_true, decide_eq_true_eq, Bool.not_eq_true'] at hremark
        exact .inr ⟨h, n, rfl, hn, hremark.1, hremark.2, rfl⟩
      · exact .inl rfl

/-- Strictness about roots decides on an entry that is remarked on. -/
theorem seeds_of_not_root {s : Session} {g : Graph} {h : Handle} {n : Node}
    (hd : s.depth < s.config.maxGraphDepth.toNat) (hn : g.node h = .ok n)
    (hr : n.definition.isRoot = false) : (s.seeds g (.root h)).1 =
      if s.config.strictRoots then .error (.notRoot n.nodeType) else .ok [h] := by
  have hconfig : (s.emit g.id (.nonRootEntry h n.nodeType)).config = s.config :=
    congrArg Memory.config (s.emit_memory _ _)
  simp only [seeds, rootSeeds, checkDepth_room hd, hn, hr, Bool.false_eq_true, ↓reduceIte, hconfig]
  split <;> rfl

theorem seeds_lead {s s' : Session} {g : Graph} {entry : Entry} {queue : List Handle}
    (hs : s.seeds g entry = (.ok queue, s')) : Lead s.config.strictRoots g.id entry
      (entryAccount s.config s.depth g entry).occurrences := by
  rcases entryAccount_occurrences s.config s.depth g entry with hnone |
    ⟨h, n, rfl, hn, hd, hr, hone⟩
  · rw [hnone]
    exact .plain
  · rw [hone]
    refine .remark ?_
    have hresult := seeds_of_not_root hd hn hr
    rw [hs] at hresult
    split at hresult
    · cases hresult
    · rename_i hstrict
      exact Bool.eq_false_iff.mpr hstrict

theorem seeds_refused {s s' : Session} {g : Graph} {entry : Entry} {e : Error}
    (hs : s.seeds g entry = (.error e, s')) :
    (entryAccount s.config s.depth g entry).occurrences = [] ∨
      s.config.strictRoots = true ∧ s.depth < s.config.maxGraphDepth.toNat ∧
      ∃ h nodeType, (entryAccount s.config s.depth g entry).occurrences =
        [(g.id, .nonRootEntry h nodeType)] := by
  rcases entryAccount_occurrences s.config s.depth g entry with hnone |
    ⟨h, n, rfl, hn, hd, hr, hone⟩
  · exact .inl hnone
  · refine .inr ⟨?_, hd, h, n.nodeType, hone⟩
    have hresult := seeds_of_not_root hd hn hr
    rw [hs] at hresult
    split at hresult
    · assumption
    · cases hresult

end Session

theorem Levels.depth (h : Levels [] [] as frames calls) : frames.length = as.length := by
  induction h with
  | base => rfl
  | level _ _ _ ih => rw [List.length_cons, List.length_cons, ih]

/-- As long as the limit is not reached there is room for one evaluation more. -/
theorem Levels.room_left (h : Levels [] [] as frames calls) (hroom : room + as.length = limit)
    (hd : frames.length < limit) : ∃ room', room = room' + 1 := by
  rw [h.depth] at hd
  exact Nat.exists_eq_add_one.mpr (by omega)

/-- A remark on a verdict is made inside the evaluation it belongs to. -/
theorem InGraph.settle (h : InGraph strict room g as w) (node : Handle) (v : Session.Verdict) :
    InGraph strict room g as (w ++ (v.account g node).occurrences) := by
  have quiet : InGraph strict room g as (w ++ []) := by
    rw [List.append_nil]
    exact h
  cases v with
  | drop e => exact h.extend fun work => .aside work .dropped
  | defer producers => exact h.extend fun work => .aside work .deferred
  | alreadyDropped | alreadyEvaluated | start d body => exact quiet

theorem Occurrence.closes_of_finish (a : Activation) (result : Except Error Unit) :
    ∃ o : Occurrence, o.Closes a.handle a.definition.nodeType ∧
      (Session.finishAccount a.graph.id a.handle a.definition result).occurrences =
        [(a.graph.id, o)] := by
  match result with
  | .ok () => exact ⟨_, .completed, rfl⟩
  | .error e => exact ⟨_, .failed, rfl⟩

/-- What has been told fits what is under way. The room that is left and the evaluations that are
open make up the limit. -/
def Machine.Bracketed (config : Config) (m : Machine) : Prop :=
  match m.control with
  | .draining g => ∃ room, room + m.held.length + 1 = config.maxGraphDepth.toNat ∧
      InGraph config.strictRoots room g.id m.held m.session.told
  | _ => ∃ room, room + m.active.length = config.maxGraphDepth.toNat ∧
      InBodies config.strictRoots room m.active m.session.told

theorem Machine.Bracketed.step {m m' : Machine} (hb : m.Bracketed m.session.config)
    (hs : Stacked [] [] m) (h : Step m l m') (htold : m'.session.told = m.session.told ++
      (l.account m.session.config m.session.depth).occurrences) :
    m'.Bracketed m.session.config := by
  cases h with
  | refuse hseeds =>
    obtain ⟨room, hroom, hin⟩ := hb
    refine Exists.intro room ⟨hroom, ?_⟩
    rw [htold]
    rcases Session.seeds_refused hseeds with hnone | ⟨hstrict, hdepth, h, nodeType, hone⟩
    · rw [Label.account, hnone, List.append_nil]
      exact hin
    · obtain ⟨room, rfl⟩ := Levels.room_left hs hroom hdepth
      rw [Label.account, hone]
      exact hin.extend fun whole => .refused whole hstrict
  | enter hseeds =>
    obtain ⟨room, hroom, hin⟩ := hb
    obtain ⟨room, rfl⟩ := Levels.room_left hs hroom (Session.seeds_depth hseeds)
    refine Exists.intro room ⟨?_, ?_⟩
    · rw [← hroom]
      exact Nat.add_right_comm room _ 1
    · rw [htold]
      exact .graph hin (Session.seeds_lead hseeds) .none
  | drained | exhaust =>
    obtain ⟨room, hroom, hin⟩ := hb
    refine Exists.intro (room + 1) ⟨?_, ?_⟩
    · rw [← hroom]
      exact Nat.add_right_comm room 1 _
    · rw [htold]
      exact hin.leave
  | settle hd he hv hn =>
    obtain ⟨room, hroom, hin⟩ := hb
    refine Exists.intro room ⟨hroom, ?_⟩
    rw [htold]
    exact hin.settle _ _
  | start hd he hv =>
    obtain ⟨room, hroom, hin⟩ := hb
    refine Exists.intro room ⟨hroom, ?_⟩
    rw [htold]
    exact .body hin .none
  | perform | unresolved | call | resume =>
    -- A body that waits for an evaluation is as much under way as one that runs.
    rw [Label.account, List.append_nil] at htold
    obtain ⟨room, hroom, hin⟩ := hb
    refine Exists.intro room ⟨hroom, ?_⟩
    rw [htold]
    exact hin
  | @finish _ _ _ a s =>
    obtain ⟨room, hroom, hin⟩ := hb
    obtain ⟨o, hcloses, ho⟩ := Occurrence.closes_of_finish a _
    refine Exists.intro room ⟨hroom, ?_⟩
    rw [htold, Label.account, ho]
    exact hin.finish hcloses

theorem Observed.bracketed (h : Observed config ls m) : m.Bracketed config := by
  induction h with
  | fresh new collects configured =>
    refine Exists.intro config.maxGraphDepth.toNat ⟨rfl, ?_⟩
    rw [Session.told, new.events]
    exact .outside .none
  | step before last ih =>
    obtain ⟨-, hconfig⟩ := before.setting
    rw [← hconfig] at ih ⊢
    refine ih.step before.life.stacked.1 last ?_
    rw [hconfig]
    exact before.told_step last
  | move before last _ _ ih =>
    have htold := before.told_move last
    cases last with
    | perform op =>
      obtain ⟨room, hroom, hin⟩ := ih
      refine Exists.intro room ⟨hroom, ?_⟩
      rw [htold]
      exact hin
    | equip | call | collect => exact ih

/-- How many evaluations begin in a story. -/
def entries (w : Story) : Nat := w.countP fun | (_, .evaluationStarted _) => true | _ => false

/-- How many evaluations end in a story. -/
def exits (w : Story) : Nat := w.countP fun | (_, .evaluationCompleted) => true | _ => false

@[simp] theorem entries_append (w w' : Story) : entries (w ++ w') = entries w + entries w' :=
  List.countP_append

@[simp] theorem exits_append (w w' : Story) : exits (w ++ w') = exits w + exits w' :=
  List.countP_append

/-- As many evaluations end as begin, and at no point are more than `room` of them open. -/
structure Nests (room : Nat) (w : Story) : Prop where
  level : entries w = exits w
  bound : ∀ p, p <+: w → entries p ≤ exits p + room

/-- A beginning of two words together ends in the first or in the second. -/
theorem prefix_append_cases {p a b : List α} (h : p <+: a ++ b) :
    p <+: a ∨ ∃ q, q <+: b ∧ p = a ++ q := by
  rcases List.prefix_or_prefix_of_prefix h (List.prefix_append a b) with hp | ⟨q, rfl⟩
  · exact .inl hp
  · exact .inr ⟨q, (List.prefix_append_right_inj a).mp h, rfl⟩

namespace Nests

theorem nil : Nests room [] := by
  refine ⟨rfl, ?_⟩
  intro p hp
  rw [List.prefix_nil.mp hp]
  exact Nat.zero_le _

theorem append (h : Nests room w) (h' : Nests room w') : Nests room (w ++ w') := by
  refine ⟨?_, ?_⟩
  · rw [entries_append, exits_append, h.level, h'.level]
  · intro p hp
    rcases prefix_append_cases hp with hp | ⟨q, hq, rfl⟩
    · exact h.bound p hp
    · have hbound := h'.bound q hq
      have hlevel := h.level
      rw [entries_append, exits_append]
      omega

/-- What neither begins nor ends an evaluation may stand anywhere. -/
theorem other (h : Nests room w) (he : entries [o] = 0) (hx : exits [o] = 0) :
    Nests room (w ++ [o]) := by
  refine ⟨?_, ?_⟩
  · rw [entries_append, exits_append, he, hx, h.level]
  · intro p hp
    rcases List.prefix_concat_iff.mp hp with rfl | hp
    · rw [entries_append, exits_append, he, hx]
      exact h.bound w (List.prefix_refl w)
    · exact h.bound p hp

/-- An evaluation takes up one place while it is open. -/
theorem visit (h : Nests room w) (g : GraphId) (entry : Entry) :
    Nests (room + 1) ((g, .evaluationStarted entry) :: w ++ [(g, .evaluationCompleted)]) := by
  have hentries (q : Story) : entries ((g, .evaluationStarted entry) :: q) = entries q + 1 :=
    List.countP_cons_of_pos rfl
  have hexits (q : Story) : exits ((g, .evaluationStarted entry) :: q) = exits q :=
    List.countP_cons_of_neg Bool.false_ne_true
  have hwhole : entries ((g, .evaluationStarted entry) :: w ++ [(g, .evaluationCompleted)]) =
      exits ((g, .evaluationStarted entry) :: w ++ [(g, .evaluationCompleted)]) := by
    rw [entries_append, exits_append, hentries, hexits, h.level]
    rfl
  refine ⟨hwhole, ?_⟩
  intro p hp
  rcases List.prefix_concat_iff.mp hp with rfl | hp
  · rw [hwhole]
    exact Nat.le_add_right _ _
  · rcases List.prefix_cons_iff.mp hp with rfl | ⟨q, rfl, hq⟩
    · exact Nat.zero_le _
    · have hbound := h.bound q hq
      rw [hentries, hexits]
      omega

end Nests

theorem Lead.nests (h : Lead strict g entry w) : Nests room w := by
  cases h with
  | plain => exact .nil
  | remark => exact Nests.nil.other rfl rfl

mutual

theorem Visits.nests {room : Nat} {w : Story} (h : Visits strict room w) : Nests room w :=
  match h with
  | .none => .nil
  | .refused before _ => before.nests.other rfl rfl
  | .visit before lead inside => by
    rw [List.append_assoc]
    exact before.nests.append (lead.nests.append (inside.nests.visit _ _))

theorem Work.nests {room : Nat} {w : Story} (h : Work strict room g w) : Nests room w :=
  match h with
  | .none => .nil
  | .aside before aside => before.nests.other (by cases aside <;> rfl) (by cases aside <;> rfl)
  | .body before inside closes => by
    have hopen (h : Handle) (nodeType : String) : Nests room [(g, .nodeStarted h nodeType)] :=
      Nests.nil.other rfl rfl
    refine before.nests.append (((hopen _ _).append inside.nests).other ?_ ?_)
    all_goals cases closes <;> rfl

end

/-- Whether an evaluation or a body begins. -/
def Occurrence.opens : Occurrence → Bool
  | .evaluationStarted _ | .nodeStarted .. => true
  | _ => false

/-- The beginning of an evaluation or of a body, as it is told. -/
def Label.opening? : Label → Option (GraphId × Occurrence)
  | .entered g entry => some (g.id, .evaluationStarted entry)
  | .started a => some (a.graph.id, .nodeStarted a.handle a.definition.nodeType)
  | _ => none

theorem Label.account_opens (l : Label) (config : Config) (depth : Nat) :
    (l.account config depth).occurrences.filter (·.2.opens) = l.opening?.toList := by
  have hentry (g : Graph) (entry : Entry) :
      (Session.entryAccount config depth g entry).occurrences.filter (·.2.opens) = [] := by
    rcases Session.entryAccount_occurrences config depth g entry with hnone |
      ⟨h, n, -, -, -, -, hone⟩
    · rw [hnone]
      rfl
    · rw [hone]
      rfl
  cases l with
  | entered g entry =>
    change List.filter _ (_ ++ [_]) = _
    rw [List.filter_append, hentry]
    rfl
  | refused g entry => exact hentry g entry
  | settled g h v => cases v <;> rfl
  | finished a result => cases result <;> rfl
  | _ => rfl

theorem Observed.openings (h : Observed config ls m) :
    m.session.told.filter (·.2.opens) = ls.filterMap Label.opening? := by
  induction h with
  | fresh new =>
    rw [Session.told, new.events]
    rfl
  | @step ls m l m' before last ih =>
    rw [before.told_step last, List.filter_append, ih, Label.account_opens, List.filterMap_append]
    cases ho : l.opening? <;> simp [ho]
  | move before last _ _ ih =>
    rw [before.told_move last]
    exact ih

theorem Observed.visits (h : Observed config ls m) (hi : m.control = .idle) :
    Visits config.strictRoots config.maxGraphDepth.toNat m.session.told := by
  have hb := h.bracketed
  simp only [Machine.Bracketed, hi, h.inactive hi] at hb
  obtain ⟨room, hroom, hin⟩ := hb
  rw [← hroom]
  cases hin with
  | outside whole => exact whole

/-- Between evaluations the story of a session is a row of whole evaluations, each with whole bodies
inside and each body with whole evaluations, as deep as there is room. Every evaluation and every
body has its place in it, and one evaluation more makes a story of the same kind. -/
theorem events_well_bracketed {config : Config} {ls : List Label} {scene : Scene} {s : Session}
    (h : Observed config ls ⟨scene, .idle, [], s⟩) :
    Visits config.strictRoots config.maxGraphDepth.toNat s.told ∧
    (∀ p, p <+: s.told → entries p ≤ exits p + config.maxGraphDepth.toNat) ∧
    s.told.filter (·.2.opens) = ls.filterMap Label.opening? ∧
    ∀ scene' fuel g entry result s', s.evaluate scene' fuel g entry = some (result, s') →
      Visits config.strictRoots config.maxGraphDepth.toNat s'.told := by
  have hwhole := h.visits rfl
  refine ⟨hwhole, hwhole.nests.bound, h.openings, ?_⟩
  intro scene' fuel g entry result s' he
  obtain ⟨ls', hafter⟩ := h.evaluate he
  exact hafter.visits rfl

/-- Two evaluations, the first with an evaluation of its own graph in it, the second remarked on. -/
theorem events_well_bracketed_losses :
    Visits false 2 Losses.final.told ∧ Losses.final.told.length = 18 ∧
    Losses.final.told.drop 15 = [(Losses.graph.id, .nonRootEntry ⟨4, 1⟩ "reader"),
      (Losses.graph.id, .evaluationStarted (.root ⟨4, 1⟩)),
      (Losses.graph.id, .evaluationCompleted)] ∧
    Losses.final.told.filter (·.2.opens) = Losses.labels.filterMap Label.opening? := by
  obtain ⟨hwhole, -, hopens, -⟩ := events_well_bracketed Losses.observed
  exact ⟨hwhole, rfl, rfl, hopens⟩

end Flowgraph
