import Flowgraph.Proofs.Bodies
import Flowgraph.Proofs.Consumers

namespace Flowgraph

/-- Each of the first inputs is an integer, and their sum, taken without bounds, is this. -/
inductive PartialSum (operand : Nat → Option Value) : Nat → Int → Prop where
  | zero : PartialSum operand 0 0
  | next (before : PartialSum operand count sum) (last : operand count = some (.int i)) :
      PartialSum operand (count + 1) (sum + i.toInt)

/-- All inputs are integers, and the sum leaves 64 bits at none of them. -/
structure Addable (operand : Nat → Option Value) (count : Nat) (total : Int) : Prop where
  added : PartialSum operand count total
  within : ∀ upTo sum, upTo ≤ count → PartialSum operand upTo sum → Representable sum

/-- What is wrong with an input of a sum at `h`: it has no value, one that is no integer, or one that
takes the sum out of 64 bits. -/
inductive Fault (operand : Nat → Option Value) (h : Handle) (port : Nat) : Error → Prop where
  | unbound (nothing : operand port = none) : Fault operand h port (.unboundInput h port)
  | mistyped (value : operand port = some v) (other : v.type ≠ .int) :
      Fault operand h port (.typeMismatch .int v.type)
  | overflow (total : PartialSum operand (port + 1) sum) (beyond : ¬ Representable sum) :
      Fault operand h port (.evaluationFailed "integer overflow in add")

/-- The error is that of the least input with a fault. -/
def FirstFault (operand : Nat → Option Value) (h : Handle) (count : Nat) (e : Error) : Prop :=
  ∃ port < count, Fault operand h port e ∧ ∀ earlier < port, ∀ e', ¬ Fault operand h earlier e'

section

variable {operand : Nat → Option Value} {h : Handle} {port count : Nat} {e : Error}

theorem PartialSum.unique (hs : PartialSum operand count sum)
    (hs' : PartialSum operand count sum') : sum = sum' := by
  induction hs generalizing sum' with
  | zero =>
    cases hs'
    rfl
  | next before last ih =>
    cases hs' with
    | next before' last' =>
      rw [last] at last'
      cases last'
      rw [ih before']

theorem PartialSum.integer (hs : PartialSum operand count sum) (hp : port < count) :
    ∃ i, operand port = some (.int i) := by
  induction hs with
  | zero => omega
  | next before last ih =>
    rcases Nat.lt_succ_iff_lt_or_eq.mp hp with hp | rfl
    · exact ih hp
    · exact ⟨_, last⟩

/-- An integer is at fault only where it takes the sum too far. -/
theorem Fault.beyond (hf : Fault operand h port e) (hi : operand port = some (.int i)) :
    e = .evaluationFailed "integer overflow in add" ∧
      ∃ sum, PartialSum operand (port + 1) sum ∧ ¬ Representable sum := by
  cases hf with
  | unbound nothing =>
    rw [hi] at nothing
    cases nothing
  | mistyped value other =>
    rw [hi] at value
    cases value
    exact absurd rfl other
  | overflow total beyond => exact ⟨rfl, _, total, beyond⟩

theorem Addable.not_fault (ha : Addable operand count sum) (hp : port < count) :
    ¬ Fault operand h port e := by
  intro hf
  obtain ⟨i, hi⟩ := ha.added.integer hp
  obtain ⟨-, sum', hsum', beyond⟩ := hf.beyond hi
  exact beyond (ha.within (port + 1) sum' hp hsum')

/-- A sum that meets no fault is exact at each input. -/
theorem PartialSum.addable (hs : PartialSum operand count sum)
    (hf : ∀ port < count, ∀ e, ¬ Fault operand h port e) : Addable operand count sum := by
  refine ⟨hs, ?_⟩
  intro upTo sum' hle hs'
  cases upTo with
  | zero =>
    cases hs'
    exact Builtin.representable_toInt 0
  | succ port =>
    refine Classical.byContradiction fun beyond => ?_
    exact hf port hle _ (.overflow hs' beyond)

theorem Fault.unique (hf : Fault operand h port e) (hf' : Fault operand h port e') : e = e' := by
  cases hf with
  | unbound nothing =>
    cases hf' with
    | unbound => rfl
    | mistyped value =>
      rw [nothing] at value
      cases value
    | overflow total =>
      obtain ⟨i, hi⟩ := total.integer (Nat.lt_succ_self port)
      rw [nothing] at hi
      cases hi
  | mistyped value other =>
    cases hf' with
    | unbound nothing =>
      rw [nothing] at value
      cases value
    | mistyped value' =>
      rw [value] at value'
      cases value'
      rfl
    | overflow total =>
      obtain ⟨i, hi⟩ := total.integer (Nat.lt_succ_self port)
      rw [value] at hi
      cases hi
      exact absurd rfl other
  | overflow total =>
    obtain ⟨i, hi⟩ := total.integer (Nat.lt_succ_self port)
    exact (hf'.beyond hi).1.symm

theorem FirstFault.unique (hf : FirstFault operand h count e)
    (hf' : FirstFault operand h count e') : e = e' := by
  obtain ⟨port, -, hfault, hfirst⟩ := hf
  obtain ⟨port', -, hfault', hfirst'⟩ := hf'
  rcases Nat.lt_trichotomy port port' with hlt | rfl | hlt
  · exact absurd hfault (hfirst' port hlt e)
  · exact hfault.unique hfault'
  · exact absurd hfault' (hfirst port' hlt e')

theorem FirstFault.not_addable (hf : FirstFault operand h count e) :
    ¬ Addable operand count sum := by
  intro ha
  obtain ⟨port, hp, hfault, -⟩ := hf
  exact ha.not_fault hp hfault

end

theorem Program.Leads.run {p : Program α} (h : p.Leads P Q s)
    (call : Target → Entry → Session → Outcome Unit) :
    ∃ result s', p.run call s = some (result, s') ∧ Q result s' := by
  induction p generalizing s with
  | finish result => exact ⟨result, s, rfl, h⟩
  | perform op next ih => exact ih _ h.2
  | enter => exact h.elim

theorem Program.Answers.run {p : Program α} (h : p.Answers s result)
    (call : Target → Entry → Session → Outcome Unit) : p.run call s = some (result, s) := by
  obtain ⟨result', s', hrun, rfl, rfl⟩ :=
    (h (fun _ _ => True) (fun r s' => r = result ∧ s' = s) ⟨rfl, rfl⟩).run call
  exact hrun

/-- What stands at an input of a node: what its producer has left in the cache, or its constant when
it has no producer. -/
def Session.operand (s : Session) (c : Session.Current) (port : Nat) : Option Value :=
  match c.graph.producer? ⟨c.handle, port⟩ with
  | some output => s.cached? c.graph.id output
  | none => c.node.inputs[port]?.join

/-- The node at work is a sum, and whatever is wired to it has a value. -/
structure Session.Adding (s : Session) (c : Session.Current) : Prop where
  current : s.current = .ok c
  add : c.node.definition = Builtin.add
  intact : c.node.Intact
  supplied : ∀ port output, port < c.node.inputCount →
    c.graph.producer? ⟨c.handle, port⟩ = some output → ∃ v, s.cached? c.graph.id output = some v

/-- The session with an integer on the output of the node. -/
def Session.withSum (s : Session) (c : Session.Current) (total : Int64) : Session :=
  { s with cache := s.cache.insert ⟨c.graph.id, c.handle, 0⟩ (.int total) }

namespace Session.Adding

variable {s : Session} {c : Session.Current}

theorem input_eq (h : s.Adding c) (hp : port < c.node.inputCount) :
    s.input port = (s.operand c port).elim (.error (.unboundInput c.handle port)) .ok := by
  unfold operand
  cases hw : c.graph.producer? ⟨c.handle, port⟩ with
  | some output =>
    obtain ⟨v, hv⟩ := h.supplied port output hp hw
    rw [input_eq_of_wired h.current hp hw hv]
    simp [hv]
  | none =>
    have hi : c.node.inputs[port]? = some c.node.inputs[port] := List.getElem?_eq_getElem hp
    rw [input_eq_of_unwired h.current hi hw, hi]
    rfl

/-- An input is an integer or has a fault. -/
theorem read (h : s.Adding c) (hp : port < c.node.inputCount) :
    (∃ i, s.operand c port = some (.int i) ∧ (s.input port >>= Value.expectInt) = .ok i) ∨
      ∃ e, Fault (s.operand c) c.handle port e ∧ (s.input port >>= Value.expectInt) = .error e := by
  rw [h.input_eq hp]
  cases hv : s.operand c port with
  | none => exact .inr ⟨_, .unbound hv, rfl⟩
  | some v =>
    cases v with
    | int i => exact .inl ⟨i, rfl, rfl⟩
    | _ => exact .inr ⟨_, .mistyped hv (by simp [Value.type]), rfl⟩

/-- The loop of the sum adds up exactly what stands at the inputs and stops at the first fault. -/
theorem addInputs (h : s.Adding c) (hle : start + count ≤ c.node.inputCount) {total : Int64}
    (hsum : PartialSum (s.operand c) start total.toInt)
    (hfree : ∀ port < start, ∀ e, ¬ Fault (s.operand c) c.handle port e) :
    (∃ sum : Int64, Addable (s.operand c) (start + count) sum.toInt ∧
      (Builtin.addInputs total (List.range' start count)).Answers s (.ok sum)) ∨
    ∃ e, FirstFault (s.operand c) c.handle (start + count) e ∧
      (Builtin.addInputs total (List.range' start count)).Answers s (.error e) := by
  -- Over the ports that are left: at those before `start` there was no fault, so `total` is exact.
  induction count generalizing start total with
  | zero => exact .inl ⟨total, hsum.addable hfree, fun _ _ hq => hq⟩
  | succ count ih =>
    rw [List.range'_succ]
    rcases h.read (by omega : start < c.node.inputCount) with ⟨i, hi, hx⟩ | ⟨e, hfault, hx⟩
    · have hnext := hsum.next hi
      cases hadd : Builtin.checkedAdd total i with
      | none =>
        have hfault := Fault.overflow (h := c.handle) hnext (Builtin.checkedAdd_eq_none.mp hadd)
        exact .inr ⟨_, ⟨start, by omega, hfault, hfree⟩, Builtin.addInputs_of_overflow hx hadd _⟩
      | some next =>
        rw [← Builtin.checkedAdd_eq_some.mp hadd] at hnext
        have hfree' : ∀ port < start + 1, ∀ e, ¬ Fault (s.operand c) c.handle port e := by
          intro port hp e hf
          rcases Nat.lt_succ_iff_lt_or_eq.mp hp with hp | rfl
          · exact hfree port hp e hf
          · obtain ⟨-, sum, hsum', beyond⟩ := hf.beyond hi
            exact beyond (hsum'.unique hnext ▸ Builtin.representable_toInt next)
        have hcount : start + (count + 1) = start + 1 + count := by omega
        rw [hcount] at hle ⊢
        rcases ih hle hnext hfree' with ⟨sum, haddable, hr⟩ | ⟨e, hfirst, hr⟩
        · exact .inl ⟨sum, haddable, Builtin.addInputs_of_sum hx hadd hr⟩
        · exact .inr ⟨e, hfirst, Builtin.addInputs_of_sum hx hadd hr⟩
    · exact .inr ⟨e, ⟨start, by omega, hfault, hfree⟩, Builtin.addInputs_of_error hx total _⟩

/-- The body puts the exact sum on its output, or leaves the session as it is and ends with the
first fault. -/
theorem outcome (h : s.Adding c) (hb : c.node.definition.body = some body) :
    (∃ total : Int64, Addable (s.operand c) c.node.inputCount total.toInt ∧
      ∀ P Q, P 0 (.int total) → Q (.ok ()) (s.withSum c total) → body.Leads P Q s) ∨
    ∃ e, FirstFault (s.operand c) c.handle c.node.inputCount e ∧ body.Answers s (.error e) := by
  have hread := Program.inputCount_answers s
  rw [Builtin.inputCount_eq h.current] at hread
  have hle : 0 + c.node.inputCount ≤ c.node.inputCount := by omega
  have hzero : PartialSum (s.operand c) 0 (0 : Int64).toInt := .zero
  have hloop := h.addInputs hle hzero (by simp)
  rw [Nat.zero_add, ← List.range_eq_range'] at hloop
  rw [h.add] at hb
  cases hb
  rcases hloop with ⟨total, haddable, hr⟩ | ⟨e, hfirst, hr⟩
  · refine .inl ⟨total, haddable, ?_⟩
    intro P Q hp hq
    refine hread.leads_bind ?_ (by simp)
    intro count hc
    cases hc
    refine hr.leads_bind ?_ (by simp)
    intro sum hs
    cases hs
    have ho : 0 < c.node.outputCount := by
      rw [h.intact, h.add]
      decide
    exact Builtin.setOutput_leads h.current ho hp hq
  · refine .inr ⟨e, hfirst, ?_⟩
    refine hread.bind (k := fun _ => .error e) ?_
    intro count hc
    cases hc
    exact hr.bind (k := fun _ => .error e) (by simp)

theorem run_cases (h : s.Adding c) (hb : c.node.definition.body = some body)
    (call : Target → Entry → Session → Outcome Unit) :
    (∃ total : Int64, Addable (s.operand c) c.node.inputCount total.toInt ∧
      body.run call s = some (.ok (), s.withSum c total)) ∨
    ∃ e, FirstFault (s.operand c) c.handle c.node.inputCount e ∧
      body.run call s = some (.error e, s) := by
  rcases h.outcome hb with ⟨total, haddable, hleads⟩ | ⟨e, hfirst, hanswers⟩
  · refine .inl ⟨total, haddable, ?_⟩
    have hends := hleads (fun _ _ => True)
      (fun result s' => result = .ok () ∧ s' = s.withSum c total) trivial ⟨rfl, rfl⟩
    obtain ⟨result, s', hrun, rfl, rfl⟩ := hends.run call
    exact hrun
  · exact .inr ⟨e, hfirst, hanswers.run call⟩

theorem run_ok_iff (h : s.Adding c) (hb : c.node.definition.body = some body)
    (call : Target → Entry → Session → Outcome Unit) (total : Int64) :
    body.run call s = some (.ok (), s.withSum c total) ↔
      Addable (s.operand c) c.node.inputCount total.toInt := by
  rcases h.run_cases hb call with ⟨sum, haddable, hrun⟩ | ⟨e, hfirst, hrun⟩
  · constructor
    · intro hrun'
      rw [hrun] at hrun'
      have hvalue := congrArg (Option.map fun r => r.2.cached? c.graph.id ⟨c.handle, 0⟩) hrun'
      simp only [Option.map_some, cached?, withSum, Table.get?_insert, if_true,
        Option.some.injEq, Value.int.injEq] at hvalue
      exact hvalue ▸ haddable
    · intro haddable'
      rw [← Int64.toInt_inj.mp (haddable.added.unique haddable'.added)]
      exact hrun
  · constructor
    · intro hrun'
      rw [hrun] at hrun'
      cases hrun'
    · intro haddable
      exact absurd haddable hfirst.not_addable

theorem run_error_iff (h : s.Adding c) (hb : c.node.definition.body = some body)
    (call : Target → Entry → Session → Outcome Unit) (e : Error) :
    body.run call s = some (.error e, s) ↔
      FirstFault (s.operand c) c.handle c.node.inputCount e := by
  rcases h.run_cases hb call with ⟨sum, haddable, hrun⟩ | ⟨e', hfirst, hrun⟩
  · constructor
    · intro hrun'
      rw [hrun] at hrun'
      cases hrun'
    · intro hfirst
      exact absurd haddable hfirst.not_addable
  · constructor
    · intro hrun'
      rw [hrun] at hrun'
      cases hrun'
      exact hfirst
    · intro hfirst'
      rw [hfirst'.unique hfirst]
      exact hrun

end Session.Adding

/-- The body is that of a sum, whose node has the output of a sum. -/
structure Activation.Adds (a : Activation) : Prop where
  definition : a.definition = Builtin.add
  intact : ∀ n, a.graph.node? a.handle = some n → n.Intact

/-- Whatever body has been started at the node is that of a sum. -/
def Site.AddsIn (site : Site) (ls : List Label) : Prop :=
  ∀ a, .started a ∈ ls → a.site = site → a.Adds

/-- What is left of the body of a sum sets no output and ends with the first fault. -/
def Activation.Fails (a : Activation) : Program Unit → Session → Prop :=
  Program.Leads (fun _ _ => False) fun result s => ∃ n e, a.graph.node? a.handle = some n ∧
    result = .error e ∧
    FirstFault (s.operand ⟨a.handle, a.graph, n⟩) a.handle n.inputCount e

/-- The body of a sum that is under way has set nothing and fails, or it ends well. None of them is
held up. -/
structure Summing (ls : List Label) (m : Machine) : Prop where
  running : ∀ a rest, m.control = .running a rest → a.Adds →
    a.Fails rest m.session ∧
      (a.site.AddsIn ls → m.session.cached? a.graph.id ⟨a.handle, 0⟩ = none) ∨
    rest.Leads (fun _ _ => True) (fun result _ => result = .ok ()) m.session
  held : ∀ a ∈ m.held, ¬ a.Adds

/-- No other step than one that sets an output changes what the cache has. -/
theorem Step.cached_of_silent (h : Step m l m') (hs : Stacked fs cs m)
    (hl : ∀ a port v, l ≠ .performed a (.setOutput port v)) :
    m'.session.cached? graph output = m.session.cached? graph output := by
  have hcache : m'.session.memory.cache = m.session.memory.cache := by
    cases h.effect hs with
    | quiet same => exact same.cache
    | drop cache | finish cache => exact cache
    | output => exact absurd rfl (hl _ _ _)
  exact congrArg (·.get? ⟨graph, output⟩) hcache

/-- The body of a sum starts where all that is wired to it has a value. -/
theorem Step.started_adding (h : Step m (.started a) m') (hs : Stacked fs cs m)
    (ha : a.Adds) :
    ∃ n, a.graph.node? a.handle = some n ∧ m'.session.Adding ⟨a.handle, a.graph, n⟩ := by
  have hs' := hs.step h
  have hsupplied := h.started_supplied
  cases h with
  | start =>
    obtain ⟨n, hn, hdef, hcurrent⟩ := hs'.current rfl
    refine ⟨n, hn, hcurrent, hdef.trans ha.definition, ha.intact n hn, ?_⟩
    intro port output hp hw
    exact hsupplied n port output hn hp hw

/-- Where only sums have been started, a sum that starts finds no output of its own. -/
theorem Summing.unset (hm : Summing ls m) (life : Life ls m) (h : Step m (.started a) m')
    (hsite : a.site.AddsIn (ls ++ [.started a])) :
    m.session.cached? a.graph.id ⟨a.handle, 0⟩ = none := by
  have hpure : a.definition.isPure = true := by
    rw [(hsite a (by simp) rfl).definition]
    rfl
  refine Option.eq_none_iff_forall_ne_some.mpr ?_
  intro v hv
  obtain ⟨b, -, hb, hs, -⟩ := life.booked.cached ⟨a.graph.id, a.handle, 0⟩ v hv
  -- Whoever set the output began earlier at the same node and would have to be held up.
  have hheld := life.started_held h hpure hb hs
  exact hm.held b hheld (hsite b (List.mem_append_left _ hb) hs)

theorem Summing.start (hm : Summing ls m) (life : Life ls m) (h : Step m (.started a) m')
    (ha : a.Adds) (hc : m'.control = .running a body) :
    a.Fails body m'.session ∧ (a.site.AddsIn (ls ++ [.started a]) →
      m'.session.cached? a.graph.id ⟨a.handle, 0⟩ = none) ∨
    body.Leads (fun _ _ => True) (fun result _ => result = .ok ()) m'.session := by
  obtain ⟨n, hn, hadding⟩ := h.started_adding life.stacked.1 ha
  have hbody : n.definition.body = some body := by
    cases h with
    | start hd he hv =>
      cases Session.verdict_judged hv with
      | due kept live new nothing hb =>
        cases hc
        rw [hn] at live
        cases live
        exact hb
  rcases hadding.outcome hbody with ⟨total, -, hleads⟩ | ⟨e, hfirst, hanswers⟩
  · exact .inr (hleads _ _ trivial rfl)
  · refine .inl ⟨hanswers _ _ ⟨n, e, hn, rfl, hfirst⟩, ?_⟩
    intro hsite
    rw [h.cached_of_silent life.stacked.1 (by simp)]
    exact hm.unset life h hsite

theorem Summing.not_entering (hm : Summing ls m)
    (hc : m.control = .running a (.enter target entry next)) : ¬ a.Adds := by
  intro ha
  rcases hm.running a _ hc ha with ⟨hfails, -⟩ | hleads
  · exact hfails.elim
  · exact hleads.elim

theorem Summing.step (hm : Summing ls m) (life : Life ls m) (h : Step m l m') :
    Summing (ls ++ [l]) m' := by
  have hs := life.stacked.1
  constructor
  · intro a rest hc ha
    have hstep := h
    cases h with
    | start =>
      cases hc
      exact hm.start life hstep ha rfl
    | perform =>
      cases hc
      rcases hm.running a _ rfl ha with ⟨hfails, hunset⟩ | hleads
      · refine .inl ⟨hfails.2, ?_⟩
        intro hsite
        -- A body that fails sets no output on its way.
        rw [hstep.cached_of_silent hs (by simpa using fun _ port v _ => hfails.1 port v)]
        exact hunset fun b hb => hsite b (List.mem_append_left _ hb)
      · exact .inr hleads.2
    | unresolved =>
      cases hc
      exact absurd ha (hm.not_entering rfl)
    | resume =>
      cases hc
      exact absurd ha (hm.held _ List.mem_cons_self)
    | _ => cases hc
  · intro a hheld ha
    rcases h.held hheld with hheld | ⟨g, entry, rfl⟩
    · exact hm.held a hheld ha
    · cases h with
      | call => exact hm.not_entering rfl ha

theorem Life.summing (h : Life ls m) : Summing ls m := by
  refine h.keeps ?_ ?_ ?_
  · intro scene s hs
    refine ⟨?_, List.forall_mem_nil _⟩
    intro a rest hc
    cases hc
  · intro ls m l m' life hm h
    exact hm.step life h
  · intro ls m m' life hm h
    refine ⟨?_, ?_⟩
    · intro a rest hc
      cases h <;> cases hc
    · rw [h.held]
      exact List.forall_mem_nil _

/-- A sum that ends with an error has met its first fault, and where the node has only ever been a
sum its output is lost. -/
theorem Life.sum_failed (h : Life ls m) (hadd : a.Adds)
    (hstep : Step m (.finished a (.error e)) m') :
    (∃ n, a.graph.node? a.handle = some n ∧
      FirstFault (m.session.operand ⟨a.handle, a.graph, n⟩) a.handle n.inputCount e) ∧
    (a.site.AddsIn ls → Lost a.graph.id ⟨a.handle, 0⟩ m') := by
  have hfails : a.Fails (.finish (.error e)) m.session ∧
      (a.site.AddsIn ls → m.session.cached? a.graph.id ⟨a.handle, 0⟩ = none) := by
    cases hstep with
    | finish =>
      rcases h.summing.running a _ rfl hadd with hfails | hleads
      · exact hfails
      · cases hleads
  obtain ⟨⟨n, e', hn, he, hfirst⟩, hunset⟩ := hfails
  cases he
  refine ⟨⟨n, hn, hfirst⟩, ?_⟩
  intro hsite
  refine ⟨hstep.failed_dropped (by rw [hadd.definition]; rfl), ?_, ?_⟩
  · intro b hb hb'
    obtain ⟨hbefore, hafter⟩ := hstep.finished_active
    have hactive : b ∈ m.active := by
      rw [hbefore]
      exact List.mem_cons_of_mem a (hafter ▸ hb)
    exact h.summing.held b (hafter ▸ hb) (hsite b (h.booked.active b hactive) hb')
  · rw [hstep.cached_of_silent h.stacked.1 (by simp)]
    exact hunset hsite

theorem Step.started_node (h : Step m (.started a) m') :
    ∃ n, a.graph.node? a.handle = some n ∧ n.definition = a.definition := by
  cases h with
  | start hd he hv =>
    cases Session.verdict_judged hv with
    | due kept live new nothing body => exact ⟨_, live, rfl⟩

/-- In a graph that nobody edits a node is a sum at each of its starts or at none. -/
theorem Life.addsIn (h : Life ls m) (hu : a.graph.Unedited ls) (ha : .started a ∈ ls)
    (hadd : a.Adds) : a.site.AddsIn ls := by
  have hnode {b : Activation} (hb : .started b ∈ ls) :
      ∃ n, b.graph.node? b.handle = some n ∧ n.definition = b.definition := by
    obtain ⟨pre, post, rfl⟩ := List.append_of_mem hb
    obtain ⟨m₁, m₂, -, hstep, -⟩ := h.split rfl
    exact hstep.started_node
  intro b hb hsite
  rw [Activation.site, Activation.site, Site.mk.injEq] at hsite
  obtain ⟨entry, hentry⟩ := h.booked.begun b hb
  obtain ⟨n, hn, hdef⟩ := hnode ha
  obtain ⟨n', hn', hdef'⟩ := hnode hb
  have hgraph := hu b.graph entry hentry hsite.1
  rw [hgraph, hsite.2, hn] at hn'
  cases hn'
  refine ⟨by rw [← hdef', hdef, hadd.definition], ?_⟩
  rw [hgraph, hsite.2]
  exact hadd.intact

/-- The body of a sum whose wires all have a value, as they have whenever it starts, puts the exact
sum on its output if each input is an integer and the sum has 64 bits up to each of them. Otherwise it
leaves the session as it is, and its error is that of the first input where this fails. The node of a
sum that fails is given up for good, and so is all that consumes its output: none of it is run, and
what an evaluation has in its queue it gives up. -/
theorem checked_addition_exact :
    (∀ (s : Session) (c : Session.Current) body call, s.Adding c →
      c.node.definition.body = some body →
      (∀ total : Int64, body.run call s = some (.ok (), s.withSum c total) ↔
        Addable (s.operand c) c.node.inputCount total.toInt) ∧
      (∀ e, body.run call s = some (.error e, s) ↔
        FirstFault (s.operand c) c.handle c.node.inputCount e) ∧
      ((∃ total : Int64, Addable (s.operand c) c.node.inputCount total.toInt) ∨
        ∃ e, FirstFault (s.operand c) c.handle c.node.inputCount e)) ∧
    (∀ ls m a m', Life ls m → Step m (.started a) m' → a.Adds →
      ∃ n, a.graph.node? a.handle = some n ∧ m'.session.Adding ⟨a.handle, a.graph, n⟩) ∧
    ∀ pre m₁ a e m₂ post m, Life pre m₁ → a.Adds →
      Step m₁ (.finished a (.error e)) m₂ → Run m₂ post m →
      (∃ n, a.graph.node? a.handle = some n ∧
        FirstFault (m₁.session.operand ⟨a.handle, a.graph, n⟩) a.handle n.inputCount e) ∧
      m.session.isDropped a.graph.id a.handle = true ∧
      (∀ b, .started b ∈ post → b.site ≠ a.site) ∧
      (a.site.AddsIn pre → m.session.cached? a.graph.id ⟨a.handle, 0⟩ = none ∧
        ∀ g c, g.id = a.graph.id → m.session.memory.Keeps g →
          m.session.Starves g ⟨a.handle, 0⟩ c →
          (g.isPure c = true → m.session.isEvaluated g.id c = false) → m.Forfeits g c) ∧
      (a.graph.Unedited (pre ++ .finished a (.error e) :: post) → a.site.AddsIn pre ∧
        ∀ c, a.graph.Consumes (fun _ => True) ⟨a.handle, 0⟩ c → m.Forfeits a.graph c ∧
          ∀ b, .started b ∈ pre ++ .finished a (.error e) :: post →
            b.site ≠ ⟨a.graph.id, c⟩) := by
  refine ⟨?_, ?_, ?_⟩
  · intro s c body call h hb
    refine ⟨h.run_ok_iff hb call, h.run_error_iff hb call, ?_⟩
    rcases h.run_cases hb call with ⟨total, haddable, -⟩ | ⟨e, hfirst, -⟩
    · exact .inl ⟨total, haddable⟩
    · exact .inr ⟨e, hfirst⟩
  · intro ls m a m' life hstep hadd
    exact hstep.started_adding life.stacked.1 hadd
  · intro pre m₁ a e m₂ post m life hadd hstep hrun
    obtain ⟨hfault, hlost⟩ := life.sum_failed hadd hstep
    have life₂ := life.step hstep
    have hdropped : a.site ∈ m₂.session.memory.dropped :=
      hstep.failed_dropped (by rw [hadd.definition]; rfl)
    refine ⟨hfault, List.contains_iff_mem.mpr (hrun.dropped life₂ hdropped), ?_, ?_, ?_⟩
    · intro b hb
      exact hrun.not_started life₂ hdropped hb
    · intro hsite
      have hlost := (hlost hsite).run life₂ hrun
      refine ⟨hlost.missing, ?_⟩
      intro g c hid hk hc hnew
      rw [← hid] at hlost
      exact hlost.forfeits (life₂.run hrun) hk hc hnew
    · intro hu
      have hstarted := life.booked.active a (hstep.finished_active.1 ▸ List.mem_cons_self)
      have hsite := life.addsIn hu.of_append hstarted hadd
      have life' := life₂.run hrun
      rw [← List.append_cons] at life'
      have hlost := (hlost hsite).run life₂ hrun
      refine ⟨hsite, ?_⟩
      intro c hc
      refine ⟨hlost.consumer_forfeits life' hu hc, ?_⟩
      intro b hb
      exact life'.consumer_unstarted hu hlost.missing hc hb

namespace Overflow

/-- A sum that has 64 bits, but not at its second input. -/
def excessive : Node := { Node.new Builtin.add with
  inputs := [some (.int 9223372036854775807), some (.int 1), some (.int (-1))] }

def sum : Node := { Node.new Builtin.add with inputs := [none, some (.int 0)] }

/-- A start and a print of a sum that adds nothing to the excessive one. -/
def wiring : Graph.Editor Unit := do
  let start ← modifyGet (·.addRoot (.new Builtin.onStart))
  let source ← modifyGet (·.addNode excessive)
  let middle ← modifyGet (·.addNode sum)
  let target ← modifyGet (·.addNode (.new Builtin.print))
  Graph.addWire ⟨source, 0⟩ ⟨middle, 0⟩
  Graph.addWire ⟨middle, 0⟩ ⟨target, 0⟩
  Graph.addLink ⟨start, 0⟩ target

def graph : Graph := wiring.result (.new (.ofNat 1) "overflow")

def entry : Machine :=
  ⟨fun _ => none, .entering graph (.root ⟨1, 1⟩), [], { executionId := "" }⟩

/-- The body of the excessive sum is about to begin. -/
def begun : Machine := (entry.advance 8).2

/-- The body of the excessive sum is about to return. -/
def ending : Machine := (entry.advance 11).2

def failed : Machine := (entry.advance 12).2

def after : Session := (failed.advance 4).2.session

def current : Session.Current := ⟨⟨2, 1⟩, graph, excessive⟩

def error : Error := .evaluationFailed "integer overflow in add"

def failure : Label := .finished ⟨graph, ⟨2, 1⟩, Builtin.add⟩ (.error error)

def labels : List Label := (entry.advance 11).1 ++ failure :: (failed.advance 4).1

theorem adding : begun.session.Adding current where
  current := rfl
  add := rfl
  intact := rfl
  supplied := by
    intro port output hp hw
    have hnone : ∀ port < 3, graph.producer? ⟨⟨2, 1⟩, port⟩ = none := by decide
    rw [current, hnone port hp] at hw
    cases hw

theorem life : Life (entry.advance 11).1 ending :=
  Session.Fresh.life ⟨rfl, rfl, rfl, rfl, rfl, rfl, rfl, rfl⟩ _ _ _ 11

theorem fails : Step ending failure failed := Machine.step_of_next? rfl

theorem adds : Activation.Adds ⟨graph, ⟨2, 1⟩, Builtin.add⟩ := by
  refine ⟨rfl, ?_⟩
  intro n hn
  have hnode : graph.node? ⟨2, 1⟩ = some excessive := rfl
  cases hnode.symm.trans hn
  rfl

theorem consumes : graph.Consumes (fun _ => True) ⟨⟨2, 1⟩, 0⟩ ⟨4, 1⟩ :=
  .through ⟨0, ⟨_, rfl, by decide⟩, rfl⟩ trivial (.directly ⟨0, ⟨_, rfl, by decide⟩, rfl⟩)

theorem labels_unedited : graph.Unedited labels := by
  intro g e hm _
  have hg : g ∈ labels.filterMap Sums.entered? := List.mem_filterMap.mpr ⟨_, hm, rfl⟩
  have hone : labels.filterMap Sums.entered? = [graph] := rfl
  rw [hone] at hg
  exact List.mem_singleton.mp hg

end Overflow

/-- The first fault is the overflow, though the sum comes back to 64 bits. The print behind the
other sum is given up and never begins. -/
theorem checked_addition_exact_overflow :
    FirstFault (Overflow.begun.session.operand Overflow.current) ⟨2, 1⟩ 3 Overflow.error ∧
    Overflow.after.isDropped Overflow.graph.id ⟨4, 1⟩ = true ∧
    ∀ b, .started b ∈ Overflow.labels → b.site ≠ ⟨Overflow.graph.id, ⟨4, 1⟩⟩ := by
  obtain ⟨hbody, -, hlives⟩ := checked_addition_exact
  refine ⟨?_, ?_, ?_⟩
  · exact ((hbody _ _ _ (fun _ _ _ => none) Overflow.adding rfl).2.1 Overflow.error).mp rfl
  · have hu := Overflow.labels_unedited
    rw [Overflow.labels, List.append_cons] at hu
    obtain ⟨-, -, -, -, hconsumers⟩ := hlives _ _ _ _ _ [] _ Overflow.life Overflow.adds
      Overflow.fails .refl
    obtain ⟨hforfeits, -⟩ := (hconsumers hu.of_append).2 ⟨4, 1⟩ Overflow.consumes
    have hu' : Overflow.graph.Unedited (Overflow.failed.advance 4).1 :=
      fun g entry hm => hu g entry (List.mem_append_right _ hm)
    exact (hforfeits.dropped [⟨3, 1⟩, ⟨3, 1⟩, ⟨4, 1⟩] [] _ _ rfl rfl (by decide)
      (Overflow.failed.advance_steps 4) hu').1
  · have hrun := (Overflow.failed.advance_steps 4).run
    obtain ⟨-, -, -, -, hconsumers⟩ := hlives _ _ _ _ _ _ _ Overflow.life Overflow.adds
      Overflow.fails hrun
    exact ((hconsumers Overflow.labels_unedited).2 ⟨4, 1⟩ Overflow.consumes).2

end Flowgraph
