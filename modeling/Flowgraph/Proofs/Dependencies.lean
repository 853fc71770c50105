import Flowgraph.Proofs.Construction
import Flowgraph.Proofs.CycleSearch
import Mathlib.Data.List.Sort

namespace Flowgraph

open Relation (TransGen ReflTransGen)

/-- The first name is needed at a port below all those where the second is needed. -/
def Before (needs : Nat → Handle → Prop) (p q : Handle) : Prop :=
  ∃ port, needs port p ∧ ∀ port', needs port' q → port < port'

/-- All names that are needed at some port, each once, in the order of the ports where they are
needed first. -/
structure FirstNamed (needs : Nat → Handle → Prop) (names : List Handle) : Prop where
  complete : ∀ p, p ∈ names ↔ ∃ port, needs port p
  ordered : names.Pairwise (Before needs)

section

variable {needs needs' : Nat → Handle → Prop} {names names' : List Handle} {port : Nat} {p : Handle}

/-- There is one such list only. -/
theorem FirstNamed.unique (h : FirstNamed needs names) (h' : FirstNamed needs names') :
    names = names' := by
  have : Std.Irrefl (Before needs) := by
    refine ⟨?_⟩
    rintro p ⟨port, hp, hbelow⟩
    exact Nat.lt_irrefl port (hbelow port hp)
  have : Std.Antisymm (Before needs) := by
    refine ⟨?_⟩
    rintro p q ⟨i, hi, hbelow⟩ ⟨j, hj, hbelow'⟩
    exact absurd (hbelow j hj) (Nat.lt_asymm (hbelow' i hi))
  exact h.ordered.eq_of_mem_iff h'.ordered fun p => (h.complete p).trans (h'.complete p).symm

theorem FirstNamed.nil (h : ∀ port p, ¬ needs port p) : FirstNamed needs [] := by
  constructor
  · intro p
    simp [h]
  · exact List.Pairwise.nil

/-- A name that comes up once more, at a port above all others, changes nothing. -/
theorem FirstNamed.again (h : FirstNamed needs names) (hp : p ∈ names)
    (habove : ∀ port' q, needs port' q → port' < port)
    (hadd : ∀ port' q, needs' port' q ↔ needs port' q ∨ port' = port ∧ q = p) :
    FirstNamed needs' names := by
  obtain ⟨first, hfirst⟩ := (h.complete p).mp hp
  constructor
  · intro q
    rw [h.complete]
    constructor
    · rintro ⟨i, hi⟩
      exact ⟨i, (hadd i q).mpr (.inl hi)⟩
    · rintro ⟨i, hi⟩
      rcases (hadd i q).mp hi with hi | ⟨-, rfl⟩
      · exact ⟨i, hi⟩
      · exact ⟨first, hfirst⟩
  · refine h.ordered.imp ?_
    rintro q r ⟨i, hi, hbelow⟩
    refine ⟨i, (hadd i q).mpr (.inl hi), ?_⟩
    intro j hj
    rcases (hadd j r).mp hj with hj | ⟨rfl, -⟩
    · exact hbelow j hj
    · exact habove i q hi

/-- A new name comes last. -/
theorem FirstNamed.append (h : FirstNamed needs names) (hp : p ∉ names)
    (habove : ∀ port' q, needs port' q → port' < port)
    (hadd : ∀ port' q, needs' port' q ↔ needs port' q ∨ port' = port ∧ q = p) :
    FirstNamed needs' (names ++ [p]) := by
  constructor
  · intro q
    rw [List.mem_append, List.mem_singleton, h.complete]
    constructor
    · rintro (⟨i, hi⟩ | rfl)
      · exact ⟨i, (hadd i q).mpr (.inl hi)⟩
      · exact ⟨port, (hadd port q).mpr (.inr ⟨rfl, rfl⟩)⟩
    · rintro ⟨i, hi⟩
      rcases (hadd i q).mp hi with hi | ⟨-, rfl⟩
      · exact .inl ⟨i, hi⟩
      · exact .inr rfl
  · refine List.pairwise_append.mpr ⟨?_, List.pairwise_singleton _ _, ?_⟩
    · refine List.Pairwise.imp_of_mem ?_ h.ordered
      rintro q r - hr ⟨i, hi, hbelow⟩
      refine ⟨i, (hadd i q).mpr (.inl hi), ?_⟩
      intro j hj
      rcases (hadd j r).mp hj with hj | ⟨-, rfl⟩
      · exact hbelow j hj
      · exact absurd hr hp
    · intro q hq r hr
      rw [List.mem_singleton.mp hr]
      obtain ⟨i, hi⟩ := (h.complete q).mp hq
      refine ⟨i, (hadd i q).mpr (.inl hi), ?_⟩
      intro j hj
      rcases (hadd j p).mp hj with hj | ⟨rfl, -⟩
      · exact absurd ((h.complete p).mpr ⟨j, hj⟩) hp
      · exact habove i q hi

end

/-- The output is wired to an input of the node. -/
def Graph.FedBy (g : Graph) (h : Handle) (output : PortRef) : Prop :=
  ∃ port, g.HasInput ⟨h, port⟩ ∧ g.producer? ⟨h, port⟩ = some output

namespace Session

/-- An input of the node lacks its value: it is wired to an output that is not in the cache. -/
structure Lacks (s : Session) (g : Graph) (h : Handle) (port : Nat) (output : PortRef) : Prop where
  input : g.HasInput ⟨h, port⟩
  wired : g.producer? ⟨h, port⟩ = some output
  missing : s.cached? g.id output = none

/-- The node lacks a value of the producer at the port. -/
def Needs (s : Session) (g : Graph) (h : Handle) (port : Nat) (producer : Handle) : Prop :=
  ∃ output, s.Lacks g h port output ∧ output.node = producer

/-- Why a missing value can never arrive. -/
inductive Hopeless (s : Session) (g : Graph) (h : Handle) (output : PortRef) : Error → Prop where
  | gone (gone : g.node? output.node = none) : Hopeless s g h output (.nodeNotFound output.node)
  | impure (live : g.node? output.node = some p) (impure : p.isPure = false) :
      Hopeless s g h output (.invalidDataFlow h output.node)
  | dropped (live : g.node? output.node = some p) (isPure : p.isPure = true)
      (dropped : s.isDropped g.id output.node = true) :
      Hopeless s g h output (.producerDropped h output.node)
  | silent (live : g.node? output.node = some p) (isPure : p.isPure = true)
      (kept : s.isDropped g.id output.node = false) (ran : s.isEvaluated g.id output.node = true) :
      Hopeless s g h output (.missingOutput output.node output.port)

/-- The node lacks a value of the other, which is pure and so can be run for it. -/
def Requires (s : Session) (g : Graph) (producer h : Handle) : Prop :=
  g.isPure producer = true ∧ ∃ port, s.Needs g h port producer

/-- What comes of looking for the values that a node lacks. One that can never arrive counts for
more than a cycle, and the lowest port for more than the others. -/
inductive Resolution (s : Session) (g : Graph) (h : Handle) : Except Error (List Handle) → Prop where
  | vain (lacks : s.Lacks g h port output) (hopeless : s.Hopeless g h output e)
      (lowest : ∀ port' < port, ∀ output' e',
        s.Lacks g h port' output' → ¬ s.Hopeless g h output' e') : Resolution s g h (.error e)
  | ready (nothing : ∀ port output, ¬ s.Lacks g h port output) : Resolution s g h (.ok [])
  | circular (lacks : s.Lacks g h port output)
      (hopeful : ∀ port output e, s.Lacks g h port output → ¬ s.Hopeless g h output e)
      (circle : TransGen (s.Requires g) h h) : Resolution s g h (.error (.cyclicDependency h))
  | early (lacks : s.Lacks g h port output)
      (hopeful : ∀ port output e, s.Lacks g h port output → ¬ s.Hopeless g h output e)
      (noCircle : ¬ TransGen (s.Requires g) h h) (named : FirstNamed (s.Needs g h) producers) :
      Resolution s g h (.ok producers)

section

variable {s : Session} {g : Graph} {h : Handle} {n : Node}

theorem Hopeless.unique (he : s.Hopeless g h output e) (he' : s.Hopeless g h output e') :
    e = e' := by
  cases he <;> cases he' <;> simp_all

/-- The outcome is never in doubt. -/
theorem Resolution.unique (hr : s.Resolution g h r) (hr' : s.Resolution g h r') : r = r' := by
  cases hr with
  | @vain port output e lacks hopeless lowest =>
    cases hr' with
    | @vain port' output' e' lacks' hopeless' lowest' =>
      rcases Nat.lt_trichotomy port port' with hlt | rfl | hlt
      · exact absurd hopeless (lowest' port hlt output e lacks)
      · obtain rfl : output = output' := Option.some.inj (lacks.wired.symm.trans lacks'.wired)
        rw [hopeless.unique hopeless']
      · exact absurd hopeless' (lowest port' hlt output' e' lacks')
    | ready nothing => exact absurd lacks (nothing port output)
    | circular _ hopeful => exact absurd hopeless (hopeful port output e lacks)
    | early _ hopeful => exact absurd hopeless (hopeful port output e lacks)
  | ready nothing =>
    cases hr' with
    | ready => rfl
    | vain lacks | circular lacks | early lacks => exact absurd lacks (nothing _ _)
  | circular lacks hopeful circle =>
    cases hr' with
    | vain lacks hopeless => exact absurd hopeless (hopeful _ _ _ lacks)
    | ready nothing => exact absurd lacks (nothing _ _)
    | circular => rfl
    | early _ _ noCircle => exact absurd circle noCircle
  | early lacks hopeful noCircle named =>
    cases hr' with
    | vain lacks hopeless => exact absurd hopeless (hopeful _ _ _ lacks)
    | ready nothing => exact absurd lacks (nothing _ _)
    | circular _ _ circle => exact absurd circle noCircle
    | early _ _ _ named' => rw [named.unique named']

/-- The output that the input at a port waits for. -/
def awaitedAt (s : Session) (g : Graph) (h : Handle) (port : Nat) : Option PortRef :=
  (g.producer? ⟨h, port⟩).filter fun output => !s.isCached g.id output

theorem awaited_eq (hn : g.node? h = some n) :
    s.awaited g h = (List.range n.inputCount).filterMap (s.awaitedAt g h) := by
  rw [awaited, hn]
  rfl

theorem awaitedAt_eq_some : s.awaitedAt g h port = some output ↔
    g.producer? ⟨h, port⟩ = some output ∧ s.cached? g.id output = none := by
  rw [awaitedAt, Option.filter_eq_some_iff]
  simp [isCached]

theorem lacks_iff (hn : g.node? h = some n) :
    s.Lacks g h port output ↔ port < n.inputCount ∧ s.awaitedAt g h port = some output := by
  rw [awaitedAt_eq_some]
  constructor
  · rintro ⟨⟨n', hn', hlt⟩, hwired, hmissing⟩
    cases hn.symm.trans hn'
    exact ⟨hlt, hwired, hmissing⟩
  · rintro ⟨hlt, hwired, hmissing⟩
    exact ⟨⟨n, hn, hlt⟩, hwired, hmissing⟩

theorem mem_awaited_iff : output ∈ s.awaited g h ↔ ∃ port, s.Lacks g h port output := by
  rw [mem_awaited]
  constructor
  · rintro ⟨n, port, hn, hlt, hwired, huncached⟩
    exact ⟨port, ⟨n, hn, hlt⟩, hwired, by simpa [isCached] using huncached⟩
  · rintro ⟨port, ⟨n, hn, hlt⟩, hwired, hmissing⟩
    exact ⟨n, port, hn, hlt, hwired, by simp [isCached, hmissing]⟩

theorem mem_awaited_iff_fedBy :
    output ∈ s.awaited g h ↔ g.FedBy h output ∧ s.cached? g.id output = none := by
  rw [mem_awaited_iff]
  constructor
  · rintro ⟨port, hinput, hwired, hmissing⟩
    exact ⟨⟨port, hinput, hwired⟩, hmissing⟩
  · rintro ⟨⟨port, hinput, hwired⟩, hmissing⟩
    exact ⟨port, hinput, hwired, hmissing⟩

theorem draws_iff {p : Handle} : s.Draws g p h ↔ s.Requires g p h := by
  unfold Draws Requires Awaits Needs
  simp only [mem_awaited_iff]
  constructor
  · rintro ⟨⟨output, ⟨port, hlacks⟩, hp⟩, hpure⟩
    exact ⟨hpure, port, output, hlacks, hp⟩
  · rintro ⟨hpure, port, output, hlacks, hp⟩
    exact ⟨⟨output, ⟨port, hlacks⟩, hp⟩, hpure⟩

/-- The search finds exactly the pure nodes on a cycle of missing values. -/
theorem dependsOnItself_iff_circle (hpure : g.isPure h = true) :
    s.dependsOnItself g h = true ↔ TransGen (s.Requires g) h h := by
  have hdraws : s.Draws g = s.Requires g := by
    funext p y
    exact propext draws_iff
  rw [dependsOnItself_iff, TransGen.head'_iff, ← hdraws]
  constructor
  · rintro ⟨x, hpath, hback⟩
    exact ⟨x, ⟨hback, hpure⟩, hpath⟩
  · rintro ⟨x, hback, hpath⟩
    exact ⟨x, hpath, hback.1⟩

/-- The producer of an awaited output is either hopeless or named. -/
theorem awaitedProducer_cases (s : Session) (g : Graph) (h : Handle) (output : PortRef) :
    (∃ e, s.awaitedProducer g h output = .error e ∧ s.Hopeless g h output e) ∨
      s.awaitedProducer g h output = .ok output.node ∧ ∀ e, ¬ s.Hopeless g h output e := by
  cases hlive : g.node? output.node with
  | none =>
    refine .inl ⟨_, ?_, .gone hlive⟩
    rw [awaitedProducer, Graph.node_eq_error.mpr ⟨hlive, rfl⟩]
    rfl
  | some p =>
    simp only [awaitedProducer, Graph.node_eq_ok.mpr hlive, bind, Except.bind]
    cases hpure : p.isPure with
    | false => exact .inl ⟨_, rfl, .impure hlive hpure⟩
    | true =>
      cases hdropped : s.isDropped g.id output.node with
      | true => exact .inl ⟨_, rfl, .dropped hlive hpure hdropped⟩
      | false =>
        cases hran : s.isEvaluated g.id output.node with
        | true => exact .inl ⟨_, rfl, .silent hlive hpure hdropped hran⟩
        | false =>
          refine .inr ⟨rfl, ?_⟩
          intro e he
          cases he <;> simp_all

/-- The ports below a bound and the producers that they wait for. -/
def NeedsBelow (s : Session) (g : Graph) (h : Handle) (bound port : Nat) (p : Handle) : Prop :=
  port < bound ∧ ∃ output, s.awaitedAt g h port = some output ∧ output.node = p

/-- What has come of looking at the ports below a bound. -/
inductive Surveyed (s : Session) (g : Graph) (h : Handle) (bound : Nat) :
    Except Error (List Handle) → Prop where
  | vain (below : port < bound) (awaits : s.awaitedAt g h port = some output)
      (hopeless : s.Hopeless g h output e)
      (lowest : ∀ port' < port, ∀ output' e',
        s.awaitedAt g h port' = some output' → ¬ s.Hopeless g h output' e') :
      Surveyed s g h bound (.error e)
  | named (hopeful : ∀ port < bound, ∀ output e,
        s.awaitedAt g h port = some output → ¬ s.Hopeless g h output e)
      (named : FirstNamed (s.NeedsBelow g h bound) producers) : Surveyed s g h bound (.ok producers)

theorem needsBelow_succ_none (ha : s.awaitedAt g h bound = none) :
    s.NeedsBelow g h (bound + 1) port p ↔ s.NeedsBelow g h bound port p := by
  constructor
  · rintro ⟨hport, output, hawaits, hp⟩
    rcases Nat.lt_succ_iff_lt_or_eq.mp hport with hlt | rfl
    · exact ⟨hlt, output, hawaits, hp⟩
    · rw [ha] at hawaits
      cases hawaits
  · rintro ⟨hlt, hrest⟩
    exact ⟨Nat.lt_succ_of_lt hlt, hrest⟩

theorem needsBelow_succ_some (ha : s.awaitedAt g h bound = some output) :
    s.NeedsBelow g h (bound + 1) port p ↔
      s.NeedsBelow g h bound port p ∨ port = bound ∧ p = output.node := by
  constructor
  · rintro ⟨hport, output', hawaits, hp⟩
    rcases Nat.lt_succ_iff_lt_or_eq.mp hport with hlt | rfl
    · exact .inl ⟨hlt, output', hawaits, hp⟩
    · cases ha.symm.trans hawaits
      exact .inr ⟨rfl, hp.symm⟩
  · rintro (⟨hlt, hrest⟩ | ⟨rfl, rfl⟩)
    · exact ⟨Nat.lt_succ_of_lt hlt, hrest⟩
    · exact ⟨Nat.lt_succ_self port, output, ha, rfl⟩

theorem producersOf_append (pending : List Handle) (xs ys : List PortRef) :
    s.producersOf g h pending (xs ++ ys) =
      s.producersOf g h pending xs >>= fun named => s.producersOf g h named ys := by
  induction xs generalizing pending with
  | nil => rfl
  | cons x xs ih =>
    simp only [List.cons_append, producersOf, ih]
    cases s.awaitedProducer g h x <;> rfl

/-- One more port is looked at. -/
theorem Surveyed.step (hr : s.Surveyed g h bound r) :
    s.Surveyed g h (bound + 1)
      (r >>= fun named => s.producersOf g h named (s.awaitedAt g h bound).toList) := by
  cases hr with
  | vain below awaits hopeless lowest =>
    exact .vain (Nat.lt_succ_of_lt below) awaits hopeless lowest
  | @named producers hopeful named =>
    cases ha : s.awaitedAt g h bound with
    | none =>
      refine .named ?_ ?_
      · intro port hport output e hawaits
        rcases Nat.lt_succ_iff_lt_or_eq.mp hport with hlt | rfl
        · exact hopeful port hlt output e hawaits
        · rw [ha] at hawaits
          cases hawaits
      · have hsame : s.NeedsBelow g h (bound + 1) = s.NeedsBelow g h bound := by
          funext port p
          exact propext (needsBelow_succ_none ha)
        rwa [hsame]
    | some output =>
      simp only [Option.toList_some, producersOf, bind, Except.bind]
      rcases awaitedProducer_cases s g h output with ⟨e, he, hopeless⟩ | ⟨hok, hhope⟩
      · rw [he]
        exact .vain (Nat.lt_succ_self bound) ha hopeless hopeful
      · rw [hok]
        refine .named ?_ ?_
        · intro port hport output' e hawaits
          rcases Nat.lt_succ_iff_lt_or_eq.mp hport with hlt | rfl
          · exact hopeful port hlt output' e hawaits
          · cases ha.symm.trans hawaits
            exact hhope e
        · have habove : ∀ port q, s.NeedsBelow g h bound port q → port < bound :=
            fun _ _ hneeds => hneeds.1
          simp only [List.contains_iff_mem]
          split
          · rename_i hold
            exact named.again hold habove fun _ _ => needsBelow_succ_some ha
          · rename_i hnew
            exact named.append hnew habove fun _ _ => needsBelow_succ_some ha

/-- The look at the ports finds the lowest hopeless one, or names all producers. -/
theorem surveyed (s : Session) (g : Graph) (h : Handle) (bound : Nat) :
    s.Surveyed g h bound
      (s.producersOf g h [] ((List.range bound).filterMap (s.awaitedAt g h))) := by
  induction bound with
  | zero =>
    refine .named ?_ (.nil ?_)
    · simp
    · rintro port p ⟨hlt, -⟩
      exact absurd hlt (Nat.not_lt_zero port)
  | succ bound ih =>
    rw [List.range_succ, List.filterMap_append, producersOf_append]
    convert ih.step using 4
    cases ha : s.awaitedAt g h bound <;> simp [ha]

theorem needsBelow_eq_needs (hn : g.node? h = some n) :
    s.NeedsBelow g h n.inputCount = s.Needs g h := by
  funext port p
  apply propext
  unfold NeedsBelow Needs
  simp only [lacks_iff hn]
  constructor
  · rintro ⟨hlt, output, hawaits, hp⟩
    exact ⟨output, ⟨hlt, hawaits⟩, hp⟩
  · rintro ⟨output, ⟨hlt, hawaits⟩, hp⟩
    exact ⟨hlt, output, hawaits, hp⟩

/-- A node with nothing hopeless and something missing: it is the cycle that decides. -/
theorem resolution_of_named (hlacks : s.Lacks g h port output)
    (hopeful : ∀ port output e, s.Lacks g h port output → ¬ s.Hopeless g h output e)
    (named : FirstNamed (s.Needs g h) producers) :
    s.Resolution g h
      (if g.isPure h && s.dependsOnItself g h then .error (.cyclicDependency h)
        else .ok producers) := by
  split
  · rename_i hcircle
    obtain ⟨hpure, hcircle⟩ := Bool.and_eq_true_iff.mp hcircle
    exact .circular hlacks hopeful ((dependsOnItself_iff_circle hpure).mp hcircle)
  · rename_i hno
    refine .early hlacks hopeful ?_ named
    intro hcircle
    -- The last step of a cycle through the node requires the node itself, so it is pure.
    obtain ⟨_, ⟨hpure, -⟩, -⟩ := TransGen.head'_iff.mp hcircle
    exact hno (Bool.and_eq_true_iff.mpr ⟨hpure, (dependsOnItself_iff_circle hpure).mpr hcircle⟩)

/-- What the look for missing values comes to. -/
theorem pending_resolution (hn : g.node? h = some n) :
    s.Resolution g h (s.pending g h) := by
  have hsurvey := surveyed s g h n.inputCount
  rw [← awaited_eq hn] at hsurvey
  unfold pending
  generalize hr : s.producersOf g h [] (s.awaited g h) = r at hsurvey
  cases hsurvey with
  | @vain port output e below awaits hopeless lowest =>
    refine .vain ((lacks_iff hn).mpr ⟨below, awaits⟩) hopeless ?_
    intro port' hlt output' e' hlacks
    exact lowest port' hlt output' e' ((lacks_iff hn).mp hlacks).2
  | @named producers hopeful named =>
    rw [needsBelow_eq_needs hn] at named
    have hhope : ∀ port output e, s.Lacks g h port output → ¬ s.Hopeless g h output e := by
      intro port output e hlacks
      obtain ⟨hlt, hawaits⟩ := (lacks_iff hn).mp hlacks
      exact hopeful port hlt output e hawaits
    simp only [bind, Except.bind]
    cases producers with
    | nil =>
      refine .ready ?_
      intro port output hlacks
      have hm := (named.complete output.node).mpr ⟨port, output, hlacks, rfl⟩
      cases hm
    | cons p rest =>
      obtain ⟨port, output, hlacks, -⟩ := (named.complete p).mp List.mem_cons_self
      exact resolution_of_named hlacks hhope named

theorem resolution_iff (hn : g.node? h = some n) :
    s.Resolution g h r ↔ s.pending g h = r := by
  constructor
  · intro hr
    exact (pending_resolution hn).unique hr
  · rintro rfl
    exact pending_resolution hn

end

/-- Puts the pure nodes that have to run before this one into the innermost queue and counts them. -/
def enqueueProducers (s : Session) (g : Graph) (h : Handle) : Except Error Nat × Session :=
  match s.pending g h with
  | .error e => (.error e, s)
  | .ok producers => (.ok producers.length, s.enqueue producers)

/-- The record of a deferral. -/
def noteDeferral (s : Session) (graph : GraphId) (h : Handle) (count : Nat) : Session :=
  let s := s.log .debug s!"Deferring node {h.describe} behind {count} pure dependency(ies)"
  let s := { s with statistics := { s.statistics with deferred := s.statistics.deferred + 1 } }
  s.emit graph (.nodeDeferred h (UInt64.ofNat count))

theorem enqueue_eq {s : Session} (hs : s.frames = ⟨g, queue⟩ :: rest) (nodes : List Handle) :
    s.enqueue nodes = { s with frames := ⟨g, queue ++ nodes⟩ :: rest } := by
  rw [enqueue, hs]

theorem enqueue_append (s : Session) (xs ys : List Handle) :
    s.enqueue (xs ++ ys) = (s.enqueue xs).enqueue ys := by
  cases hf : s.frames with
  | nil => simp [enqueue, hf]
  | cons frame rest => simp [enqueue, hf]

theorem noteDeferral_enqueue (s : Session) (graph : GraphId) (h : Handle) (count : Nat)
    (nodes : List Handle) :
    (s.enqueue nodes).noteDeferral graph h count = (s.noteDeferral graph h count).enqueue nodes := by
  unfold noteDeferral emit enqueue log
  cases hf : s.frames with
  | nil => cases s.sink <;> simp [hf]
  | cons frame rest => cases s.sink <;> simp

/-- A deferral enqueues the producers, is recorded, and enqueues the node. -/
theorem deferNode_eq (s : Session) (graph : GraphId) (h : Handle) (producers : List Handle) :
    s.deferNode graph h producers =
      ((s.enqueue producers).noteDeferral graph h producers.length).enqueue [h] := by
  rw [noteDeferral_enqueue, ← enqueue_append]
  rfl

/-- How the emptying of a queue goes on after the look for missing producers: with a node given up,
a body run, or a node put back behind the others. -/
def proceed (scene : Scene) (fuel : Nat) (g : Graph) (h : Handle) (n : Node) :
    Except Error Nat × Session → Outcome Unit
  | (.error e, s) => drain scene fuel g (s.dropNode g.id h e)
  | (.ok (count + 1), s) => drain scene fuel g ((s.noteDeferral g.id h (count + 1)).enqueue [h])
  | (.ok 0, s) =>
    match n.definition.body with
    | none => drain scene fuel g (s.dropNode g.id h (.missingEvaluation n.nodeType))
    | some body =>
      match body.run (callWith (drain scene fuel) scene) (s.startNode g.id h n.definition) with
      | none => none
      | some (result, s) => drain scene fuel g (s.finishNode g.id h n.definition result)

section

variable {s : Session} {g : Graph} {h : Handle} {n : Node}

theorem enqueueProducers_of_error (hp : s.pending g h = .error e) :
    s.enqueueProducers g h = (.error e, s) := by
  rw [enqueueProducers, hp]

theorem enqueueProducers_of_ok (hp : s.pending g h = .ok producers) :
    s.enqueueProducers g h = (.ok producers.length, s.enqueue producers) := by
  rw [enqueueProducers, hp]

theorem enqueue_nil (s : Session) : s.enqueue [] = s := by
  unfold enqueue
  split
  · rfl
  · rename_i frame rest hf
    rw [List.append_nil]
    change { s with frames := frame :: rest } = s
    rw [← hf]

/-- A node that is due is taken from the queue only to look for its missing producers. -/
theorem drain_eq_proceed {s₀ s : Session} (scene : Scene) (fuel : Nat)
    (hd : s₀.dequeue? = some (h, s)) (hwithin : s.countStep.exceeded? = none)
    (hkept : s.countStep.isDropped g.id h = false) (hn : g.node? h = some n)
    (hnew : ¬ (n.isPure = true ∧ s.countStep.isEvaluated g.id h = true)) :
    drain scene (fuel + 1) g s₀ = proceed scene fuel g h n (s.countStep.enqueueProducers g h) := by
  have hbool : (n.isPure && s.countStep.isEvaluated g.id h) = false := by
    rw [← Bool.not_eq_true, Bool.and_eq_true]
    exact hnew
  simp only [drain, hd, hwithin, verdict, hkept, Graph.node_eq_ok.mpr hn, hbool]
  cases hp : s.countStep.pending g h with
  | error e =>
    rw [enqueueProducers_of_error hp]
    rfl
  | ok producers =>
    rw [enqueueProducers_of_ok hp]
    cases producers with
    | cons p rest =>
      simp only [List.length_cons, proceed]
      rw [← List.length_cons (a := p), ← deferNode_eq]
      rfl
    | nil =>
      rw [enqueue_nil]
      simp only [List.length_nil, proceed]
      cases n.definition.body with
      | none => rfl
      | some body => rfl

/-- Nothing is missing exactly when every wired input has its value. -/
theorem resolution_nil_iff (hg : g.Joined) (hn : g.node? h = some n) :
    s.Resolution g h (.ok []) ↔
      ∀ port output, g.producer? ⟨h, port⟩ = some output → ∃ v, s.cached? g.id output = some v := by
  constructor
  · intro hr port output hwired
    obtain ⟨n', hn', hport⟩ := (hg.wires _ (Table.mem_of_lookup hwired)).1
    exact cached_of_awaited_nil (pending_eq_nil.mp ((resolution_iff hn).mp hr)) hn' hport hwired
  · intro hcached
    refine .ready ?_
    rintro port output ⟨-, hwired, hmissing⟩
    obtain ⟨v, hv⟩ := hcached port output hwired
    rw [hmissing] at hv
    cases hv

end

end Session

/-- What the look for missing producers does with a node of the innermost graph. Its outcome is the
one that `Session.Resolution` allows. If the values can never arrive the session stays as it is, and
so it does if nothing is missing; otherwise the producers are appended to the innermost queue and
nothing else changes. A queue that is being emptied goes by this outcome, so that a body starts only
when every wired input has its value. -/
theorem dependency_resolution_exact {s : Session} {g : Graph} {h : Handle} {n : Node}
    {queue : List Handle} {rest : List Frame} (hs : s.frames = ⟨g, queue⟩ :: rest)
    (hg : g.WellFormed) (hn : g.node? h = some n) :
    (∃! r, s.Resolution g h r) ∧
    (∀ port output, s.Lacks g h port output → ∃ p, g.node? output.node = some p) ∧
    (∀ e, s.Resolution g h (.error e) → s.enqueueProducers g h = (.error e, s)) ∧
    (∀ producers, s.Resolution g h (.ok producers) → s.enqueueProducers g h =
      (.ok producers.length, { s with frames := ⟨g, queue ++ producers⟩ :: rest })) ∧
    (s.Resolution g h (.ok []) → s.enqueueProducers g h = (.ok 0, s)) ∧
    (s.Resolution g h (.ok []) ↔
      ∀ port output, g.producer? ⟨h, port⟩ = some output → ∃ v, s.cached? g.id output = some v) ∧
    (s.isDropped g.id h = false → ¬ (n.isPure = true ∧ s.isEvaluated g.id h = true) →
      (∀ scene fuel s₀ s₁, s₀.dequeue? = some (h, s₁) → s = s₁.countStep → s.exceeded? = none →
        Session.drain scene (fuel + 1) g s₀ =
          Session.proceed scene fuel g h n (s.enqueueProducers g h)) ∧
      ∀ d body, s.verdict g h = .start d body → s.Resolution g h (.ok [])) := by
  have hiff {r} := Session.resolution_iff (s := s) (r := r) hn
  refine ⟨?_, ?_, ?_, ?_, ?_, Session.resolution_nil_iff hg.toJoined hn, ?_⟩
  · exact ⟨_, hiff.mpr rfl, fun r hr => (hiff.mp hr).symm⟩
  · intro port output hlacks
    obtain ⟨p, -, hp, -⟩ := (hg.wires _ (Table.mem_of_lookup hlacks.wired)).2
    exact ⟨p, hp⟩
  · intro e hr
    exact Session.enqueueProducers_of_error (hiff.mp hr)
  · intro producers hr
    rw [Session.enqueueProducers_of_ok (hiff.mp hr), Session.enqueue_eq hs]
  · intro hr
    rw [Session.enqueueProducers_of_ok (hiff.mp hr), Session.enqueue_nil]
    rfl
  · intro hkept hnew
    constructor
    · rintro scene fuel s₀ s₁ hd rfl hwithin
      exact Session.drain_eq_proceed scene fuel hd hwithin hkept hn hnew
    · intro d body hv
      cases Session.verdict_judged hv with
      | due _ _ _ nothing => exact hiff.mpr (Session.pending_eq_nil.mpr nothing)

namespace Operands

/-- A sum of three operands, the first and the last of them one number. -/
def edits : List Edit :=
  [.addNode (.new Builtin.integer), .addNode (.new Builtin.integer), .addNode (.new Builtin.add),
    .addVariadic ⟨3, 1⟩, .addWire ⟨⟨2, 1⟩, 0⟩ ⟨⟨3, 1⟩, 0⟩, .addWire ⟨⟨1, 1⟩, 0⟩ ⟨⟨3, 1⟩, 1⟩,
    .addWire ⟨⟨2, 1⟩, 0⟩ ⟨⟨3, 1⟩, 2⟩]

def empty : Graph := .new (.ofNat 1) "operands"

def graph : Graph := (edits.foldlM Graph.edit empty).getD default

theorem graph_eq : edits.foldlM Graph.edit empty = some graph := rfl

def sum : Node := { Node.new Builtin.add with inputs := [none, none, none] }

/-- The sum waits behind itself. -/
def session : Session := { executionId := "", frames := [⟨graph, [⟨3, 1⟩]⟩] }

theorem wellFormed : graph.WellFormed := by
  have hinteger : (Node.new Builtin.integer).Registered := Rewiring.registered "integer" rfl
  have hadd : (Node.new Builtin.add).Registered := Rewiring.registered "add" rfl
  have hpermits : empty.Permits edits :=
    ⟨⟨hinteger, by decide⟩, ⟨hinteger, by decide⟩, ⟨hadd, by decide⟩, trivial, trivial, trivial,
      trivial, trivial⟩
  obtain ⟨g, hg, hsound⟩ := (Graph.Sound.new _ _).edits hpermits
  cases graph_eq.symm.trans hg
  exact hsound.wellFormed

end Operands

/-- Both numbers are to run first, in the order in which the sum asks for them, and each is enqueued
once. -/
theorem dependency_resolution_exact_operands :
    Operands.session.frames = [⟨Operands.graph, [⟨3, 1⟩]⟩] ∧ Operands.graph.WellFormed ∧
    Operands.graph.node? ⟨3, 1⟩ = some Operands.sum ∧
    Operands.session.enqueueProducers Operands.graph ⟨3, 1⟩ =
      (.ok 2, { Operands.session with
        frames := [⟨Operands.graph, [⟨3, 1⟩, ⟨2, 1⟩, ⟨1, 1⟩]⟩] }) := by
  have hs : Operands.session.frames = [⟨Operands.graph, [⟨3, 1⟩]⟩] := rfl
  have hn : Operands.graph.node? ⟨3, 1⟩ = some Operands.sum := rfl
  obtain ⟨-, -, -, hok, -⟩ := dependency_resolution_exact hs Operands.wellFormed hn
  have hr : Operands.session.Resolution Operands.graph ⟨3, 1⟩ (.ok [⟨2, 1⟩, ⟨1, 1⟩]) :=
    (Session.resolution_iff hn).mpr rfl
  exact ⟨hs, Operands.wellFormed, hn, hok _ hr⟩

end Flowgraph
