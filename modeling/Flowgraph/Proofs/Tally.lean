import Flowgraph.Proofs.Observation
import Mathlib.Data.List.Forall2

namespace Flowgraph

/-- Whether a diagnostic goes with what occurred. Strict sessions refuse what they remark on. -/
def Occurrence.isProblem (strict : Bool) : Occurrence → Bool
  | .nonRootEntry .. => !strict
  | .nodeDropped .. | .nodeFailed .. => true
  | _ => false

/-- A diagnostic and what was told of the same problem. -/
inductive Diagnostic.Tells : Diagnostic → GraphId × Occurrence → Prop where
  | notRoot : Tells ⟨g, h, .notRoot nodeType⟩ (g, .nonRootEntry h nodeType)
  | dropped : Tells ⟨g, h, e⟩ (g, .nodeDropped h e.message)
  | failed : Tells ⟨g, h, e⟩ (g, .nodeFailed h e.message)

/-- How often something of one kind occurs in a story. -/
def tally (tag : String) (w : Story) : Nat := w.countP (·.2.tag = tag)

@[simp] theorem tally_append (tag : String) (w w' : Story) :
    tally tag (w ++ w') = tally tag w + tally tag w' := List.countP_append

def Label.begins : Label → Bool
  | .started _ => true
  | _ => false

def Label.ends : Label → Bool
  | .finished .. => true
  | _ => false

/-- Whether a node is put back behind those that it waits for. -/
def Label.defers : Label → Bool
  | .settled _ _ (.defer _) => true
  | _ => false

/-- Whether a node is given up. -/
def Label.givesUp : Label → Bool
  | .settled _ _ (.drop _) => true
  | _ => false

/-- Whether a node is taken from a queue that was given up before or has nothing left to do. -/
def Label.skips : Label → Bool
  | .settled _ _ .alreadyDropped | .settled _ _ .alreadyEvaluated => true
  | _ => false

/-- Whether an evaluation ends at the step limit. -/
def Label.exhausts : Label → Bool
  | .exhausted .. => true
  | _ => false

@[simp] theorem Account.append_occurrences (r r' : Account) :
    (r ++ r').occurrences = r.occurrences ++ r'.occurrences := rfl

@[simp] theorem Account.append_statistics (r r' : Account) :
    (r ++ r').statistics = r.statistics + r'.statistics := rfl

/-- What some steps count up to, in 64 bits each. -/
def Statistics.count (ls : List Label) : Statistics where
  steps := .ofNat (dequeues ls)
  evaluated := .ofNat (ls.countP Label.ends)
  deferred := .ofNat (ls.countP Label.defers)
  dropped := .ofNat (ls.countP Label.givesUp)

theorem Statistics.count_append (ls ls' : List Label) :
    count (ls ++ ls') = count ls + count ls' := by
  simp [count, Statistics.add_eq]

/-- The parts of an account say the same of the steps it is about. -/
structure Account.Agrees (strict : Bool) (ls : List Label) (r : Account) : Prop where
  problems : List.Forall₂ Diagnostic.Tells r.diagnostics
    (r.occurrences.filter (·.2.isProblem strict))
  statistics : r.statistics = .count ls
  started : tally "nodeStarted" r.occurrences = ls.countP Label.begins
  ended : tally "nodeCompleted" r.occurrences + tally "nodeFailed" r.occurrences =
    ls.countP Label.ends
  deferred : tally "nodeDeferred" r.occurrences = ls.countP Label.defers
  dropped : tally "nodeDropped" r.occurrences = ls.countP Label.givesUp
  taken : dequeues ls = ls.countP Label.begins + ls.countP Label.defers +
    ls.countP Label.givesUp + ls.countP Label.skips + ls.countP Label.exhausts

theorem Account.Agrees.append {r r' : Account} (h : r.Agrees strict ls)
    (h' : r'.Agrees strict ls') : (r ++ r').Agrees strict (ls ++ ls') where
  problems := by
    rw [Account.append_occurrences, List.filter_append]
    exact List.rel_append h.problems h'.problems
  statistics := by
    rw [Account.append_statistics, h.statistics, h'.statistics, Statistics.count_append]
  started := by simp [h.started, h'.started]
  ended := by
    have hended := h.ended
    have hended' := h'.ended
    simp only [Account.append_occurrences, tally_append, List.countP_append]
    omega
  deferred := by simp [h.deferred, h'.deferred]
  dropped := by simp [h.dropped, h'.dropped]
  taken := by
    have htaken := h.taken
    have htaken' := h'.taken
    simp only [dequeues_append, List.countP_append]
    omega

/-- An entry that is remarked on is a problem unless it is refused for it. -/
theorem Session.entryAccount_agrees (config : Config) (depth : Nat) (g : Graph) (entry : Entry) :
    (entryAccount config depth g entry).Agrees config.strictRoots [] := by
  have hnone : ({} : Account).Agrees config.strictRoots [] := ⟨.nil, rfl, rfl, rfl, rfl, rfl, rfl⟩
  cases entry with
  | executionInput ordinal => exact hnone
  | root h =>
    simp only [entryAccount]
    split
    · exact hnone
    · split
      · refine ⟨?_, rfl, rfl, rfl, rfl, rfl, rfl⟩
        cases hstrict : config.strictRoots with
        | true => exact .nil
        | false => exact .cons .notRoot .nil
      · exact hnone

/-- Every step gives a consistent account of itself. -/
theorem Step.account_agrees (h : Step m l m') (config : Config) (depth : Nat) :
    (l.account config depth).Agrees config.strictRoots [l] := by
  cases l with
  | entered g entry =>
    have hstarted : Account.Agrees config.strictRoots [.entered g entry]
        { occurrences := [(g.id, .evaluationStarted entry)] } :=
      ⟨.nil, rfl, rfl, rfl, rfl, rfl, rfl⟩
    exact (Session.entryAccount_agrees config depth g entry).append hstarted
  | refused g entry =>
    obtain ⟨h₁, h₂, h₃, h₄, h₅, h₆, h₇⟩ := Session.entryAccount_agrees config depth g entry
    exact ⟨h₁, h₂, h₃, h₄, h₅, h₆, h₇⟩
  | settled g node v =>
    cases v with
    | drop e => exact ⟨.cons .dropped .nil, rfl, rfl, rfl, rfl, rfl, rfl⟩
    | start d body =>
      cases h with
      | settle hd he hv hn => exact absurd rfl (hn d body)
    | alreadyDropped | alreadyEvaluated | defer producers =>
      exact ⟨.nil, rfl, rfl, rfl, rfl, rfl, rfl⟩
  | finished a result =>
    match result with
    | .ok () => exact ⟨.nil, rfl, rfl, rfl, rfl, rfl, rfl⟩
    | .error e => exact ⟨.cons .failed .nil, rfl, rfl, rfl, rfl, rfl, rfl⟩
  | _ => exact ⟨.nil, rfl, rfl, rfl, rfl, rfl, rfl⟩

theorem Observed.agrees (h : Observed config ls m) :
    m.session.account.Agrees config.strictRoots ls := by
  induction h with
  | @fresh scene s new =>
    have hempty : s.account = {} := by
      rw [Session.account, Session.told, new.events, new.diagnostics, new.statistics]
      rfl
    rw [hempty]
    exact ⟨.nil, rfl, rfl, rfl, rfl, rfl, rfl⟩
  | @step ls m l m' before last ih =>
    rw [before.tells last]
    exact ih.append (last.account_agrees config m.session.depth)
  | move before last _ _ ih =>
    rw [before.silent last]
    exact ih

theorem Step.counts (hs : Stacked fs cs m) (h : Step m l m') :
    m'.session.statistics = m.session.statistics + .count [l] := by
  rw [(h.reports hs).statistics, (h.account_agrees _ _).statistics]

theorem Move.statistics (h : Move m m') : m'.session.statistics = m.session.statistics := by
  cases h with
  | @perform _ s op => rw [(op.run_reports s).statistics, Statistics.add_empty]
  | equip | call | collect => rfl

/-- Every node taken from a queue was started, put back, given up, passed over or one too many. -/
theorem Life.counts (h : Life ls m) :
    m.session.statistics = .count ls ∧
    dequeues ls = ls.countP Label.begins + ls.countP Label.defers + ls.countP Label.givesUp +
      ls.countP Label.skips + ls.countP Label.exhausts := by
  refine h.keeps (P := fun ls m => m.session.statistics = .count ls ∧
    dequeues ls = ls.countP Label.begins + ls.countP Label.defers + ls.countP Label.givesUp +
      ls.countP Label.skips + ls.countP Label.exhausts) ?_ ?_ ?_
  · intro scene s hs
    exact ⟨hs.statistics, rfl⟩
  · intro ls m l m' life ⟨hcount, htaken⟩ h
    have htaken' := (h.account_agrees m.session.config m.session.depth).taken
    refine ⟨?_, ?_⟩
    · rw [h.counts life.stacked.1, hcount, Statistics.count_append]
    · simp only [dequeues_append, List.countP_append]
      omega
  · intro ls m m' _ ih h
    rw [h.statistics]
    exact ih

/-- The bodies that have been started and not ended are under way. -/
theorem Life.begins_eq (h : Life ls m) :
    ls.countP Label.begins = ls.countP Label.ends + m.active.length := by
  refine h.keeps
    (P := fun ls m => ls.countP Label.begins = ls.countP Label.ends + m.active.length) ?_ ?_ ?_
  · intro scene s hs
    rfl
  · intro ls m l m' _ ih h
    rw [List.countP_append, List.countP_append]
    cases h with
    | start => exact congrArg (· + 1) ih
    | finish => exact ih.trans (Nat.add_right_comm _ _ 1)
    | _ => exact ih
  · intro ls m m' _ ih h
    rw [h.active.2, ← h.active.1]
    exact ih

/-- Between evaluations the diagnostics of a session are the problems of its story, one for one and
in order, and its counts are those of the story and of the steps that are not told. They are so up to
their 64 bits, and exactly while fewer nodes have been taken from queues than these can tell. -/
theorem diagnostics_events_statistics_agree {config : Config} {ls : List Label} {m : Machine}
    (h : Observed config ls m) (hi : m.control = .idle) :
    List.Forall₂ Diagnostic.Tells m.session.diagnostics.toList
      (m.session.told.filter (·.2.isProblem config.strictRoots)) ∧
    tally "nodeStarted" m.session.told = ls.countP Label.begins ∧
    tally "nodeStarted" m.session.told =
      tally "nodeCompleted" m.session.told + tally "nodeFailed" m.session.told ∧
    m.session.statistics.deferred = .ofNat (tally "nodeDeferred" m.session.told) ∧
    m.session.statistics.dropped = .ofNat (tally "nodeDropped" m.session.told) ∧
    m.session.statistics.evaluated = .ofNat (tally "nodeStarted" m.session.told) ∧
    m.session.statistics.steps = m.session.statistics.evaluated + m.session.statistics.deferred +
      m.session.statistics.dropped + .ofNat (ls.countP Label.skips) +
      .ofNat (ls.countP Label.exhausts) ∧
    (dequeues ls < UInt64.size →
      m.session.statistics.deferred.toNat = tally "nodeDeferred" m.session.told ∧
      m.session.statistics.dropped.toNat = tally "nodeDropped" m.session.told ∧
      m.session.statistics.evaluated.toNat = tally "nodeStarted" m.session.told ∧
      m.session.statistics.steps.toNat = m.session.statistics.evaluated.toNat +
        m.session.statistics.deferred.toNat + m.session.statistics.dropped.toNat +
        ls.countP Label.skips + ls.countP Label.exhausts) := by
  obtain ⟨hproblems, hcount, hstarted, hended, hdeferred, hdropped, htaken⟩ := h.agrees
  simp only [Session.account] at hproblems hcount hstarted hended hdeferred hdropped
  have hbegins := h.life.begins_eq
  rw [h.inactive hi, List.length_nil, Nat.add_zero] at hbegins
  rw [hcount, Statistics.count]
  dsimp only
  rw [hstarted, hended, hdeferred, hdropped, hbegins]
  rw [hbegins] at htaken
  refine ⟨hproblems, rfl, rfl, rfl, rfl, rfl, ?_, ?_⟩
  · rw [htaken]
    simp only [UInt64.ofNat_add]
  · intro hsize
    have hexact {n : Nat} (hn : n ≤ dequeues ls) : (UInt64.ofNat n).toNat = n :=
      UInt64.toNat_ofNat_of_lt' (Nat.lt_of_le_of_lt hn hsize)
    rw [hexact (by omega), hexact (by omega), hexact (by omega), hexact (Nat.le_refl _)]
    exact ⟨rfl, rfl, rfl, htaken⟩

/-- A failure inside an evaluation inside a body, a failure, a drop and an entry at no root make
four diagnostics; the reader is skipped once. -/
theorem diagnostics_events_statistics_agree_losses :
    Losses.final.diagnostics.toList.map (·.node) = [⟨2, 1⟩, ⟨3, 1⟩, ⟨4, 1⟩, ⟨4, 1⟩] ∧
    List.Forall₂ Diagnostic.Tells Losses.final.diagnostics.toList
      (Losses.final.told.filter (·.2.isProblem false)) ∧
    Losses.labels.countP Label.skips = 1 ∧
    Losses.final.statistics.steps.toNat = Losses.final.statistics.evaluated.toNat +
      Losses.final.statistics.deferred.toNat + Losses.final.statistics.dropped.toNat + 1 := by
  obtain ⟨hproblems, -, -, -, -, -, -, hexact⟩ :=
    diagnostics_events_statistics_agree Losses.observed rfl
  have hskips : Losses.labels.countP Label.skips = 1 := rfl
  have hnever : Losses.labels.countP Label.exhausts = 0 := rfl
  have htaken : dequeues Losses.labels < UInt64.size := by decide
  obtain ⟨-, -, -, hsteps⟩ := hexact htaken
  rw [hskips, hnever] at hsteps
  exact ⟨rfl, hproblems, hskips, hsteps⟩

end Flowgraph
