import Flowgraph.Proofs.Denotation
import Flowgraph.Proofs.Resolution

namespace Flowgraph

namespace Program

/-- Run from `s`, the program asks for no evaluation, sets only outputs that `P` allows, and ends
with a result and on a session that `Q` allows. -/
def Leads (P : Nat → Value → Prop) (Q : Except Error α → Session → Prop) :
    Program α → Session → Prop
  | .finish result, s => Q result s
  | .perform op next, s =>
    (∀ port v, op = .setOutput port v → P port v) ∧ (next (op.run s).1).Leads P Q (op.run s).2
  | .enter .., _ => False

/-- Whatever it is told, the program sets no output. -/
def Silent : Program α → Prop
  | .finish _ => True
  | .perform op next => (∀ port v, op ≠ .setOutput port v) ∧ ∀ reply, (next reply).Silent
  | .enter _ _ next => ∀ result, (next result).Silent

/-- Whatever it is told, the program performs only operations that `P` allows and asks only for
evaluations of graphs that `Q` allows. -/
def Within (P : Operation → Prop) (Q : Target → Prop) : Program α → Prop
  | .finish _ => True
  | .perform op next => P op ∧ ∀ reply, (next reply).Within P Q
  | .enter target _ next => Q target ∧ ∀ result, (next result).Within P Q

/-- The program queues no node and asks for no evaluation. -/
def Flat (p : Program α) : Prop := p.Within (fun op => ∀ h, op ≠ .queue h) fun _ => False

/-- Other nodes are activated along links only, and other graphs only from the library. -/
def Linked (p : Program α) : Prop :=
  p.Within (fun op => ∀ h, op ≠ .queue h) fun target => ∃ name, target = .library name

/-- The program only looks at `s`, and ends with `result`. -/
def Answers (p : Program α) (s : Session) (result : Except Error α) : Prop :=
  ∀ P Q, Q result s → p.Leads P Q s

theorem Leads.bind {p : Program α} {f : α → Program β}
    (h : p.Leads P (fun result s => match result with
      | .ok a => (f a).Leads P Q s
      | .error e => Q (.error e) s) s) : (p >>= f).Leads P Q s := by
  induction p generalizing s with
  | finish result => cases result <;> exact h
  | perform op next ih => exact ⟨h.1, ih _ h.2⟩
  | enter target entry next ih => exact h

theorem Silent.bind {p : Program α} {f : α → Program β} (hp : p.Silent)
    (hf : ∀ a, (f a).Silent) : (p >>= f).Silent := by
  induction p with
  | finish result =>
    cases result with
    | ok a => exact hf a
    | error e => trivial
  | perform op next ih => exact ⟨hp.1, fun reply => ih reply (hp.2 reply)⟩
  | enter target entry next ih => exact fun result => ih result (hp result)

theorem Within.bind {p : Program α} {f : α → Program β} (hp : p.Within P Q)
    (hf : ∀ a, (f a).Within P Q) : (p >>= f).Within P Q := by
  induction p with
  | finish result =>
    cases result with
    | ok a => exact hf a
    | error e => trivial
  | perform op next ih => exact ⟨hp.1, fun reply => ih reply (hp.2 reply)⟩
  | enter target entry next ih => exact ⟨hp.1, fun result => ih result (hp.2 result)⟩

theorem Within.mono {p : Program α} (hp : p.Within P Q) (hP : ∀ op, P op → P' op)
    (hQ : ∀ target, Q target → Q' target) : p.Within P' Q' := by
  induction p with
  | finish result => trivial
  | perform op next ih => exact ⟨hP _ hp.1, fun reply => ih reply (hp.2 reply)⟩
  | enter target entry next ih => exact ⟨hQ _ hp.1, fun result => ih result (hp.2 result)⟩

theorem Flat.linked {p : Program α} (hp : p.Flat) : p.Linked :=
  Within.mono hp (fun _ => id) fun _ => False.elim

theorem Answers.bind {p : Program α} {f : α → Program β} {x : Except Error α}
    {k : α → Except Error β} (hp : p.Answers s x) (hf : ∀ a, x = .ok a → (f a).Answers s (k a)) :
    (p >>= f).Answers s (x >>= k) := by
  intro P Q hq
  refine Leads.bind (hp P _ ?_)
  cases x with
  | ok a => exact hf a rfl P Q hq
  | error e => exact hq

theorem Answers.leads_bind {p : Program α} {f : α → Program β} {x : Except Error α}
    (hp : p.Answers s x) (hok : ∀ a, x = .ok a → (f a).Leads P Q s)
    (herror : ∀ e, x = .error e → Q (.error e) s) : (p >>= f).Leads P Q s := by
  refine Leads.bind (hp P _ ?_)
  cases x with
  | ok a => exact hok a rfl
  | error e => exact herror e rfl

theorem ofExcept_answers (result : Except Error α) (s : Session) :
    (ofExcept result).Answers s result := fun _ _ hq => hq

theorem field_answers (index : Nat) (s : Session) : (field index).Answers s (s.field index) :=
  fun _ _ hq => ⟨nofun, hq⟩

theorem inputCount_answers (s : Session) : inputCount.Answers s s.inputCount :=
  fun _ _ hq => ⟨nofun, hq⟩

theorem input_answers (port : Nat) (s : Session) : (input port).Answers s (s.input port) :=
  fun _ _ hq => ⟨nofun, hq⟩

end Program

namespace Builtin

open Program

theorem intField_answers (index : Nat) (s : Session) :
    (intField index).Answers s (s.field index >>= Value.expectInt) :=
  (field_answers index s).bind fun v _ => ofExcept_answers v.expectInt s

theorem boolField_answers (index : Nat) (s : Session) :
    (boolField index).Answers s (s.field index >>= Value.expectBool) :=
  (field_answers index s).bind fun v _ => ofExcept_answers v.expectBool s

theorem intInput_answers (port : Nat) (s : Session) :
    (intInput port).Answers s (s.input port >>= Value.expectInt) :=
  (input_answers port s).bind fun v _ => ofExcept_answers v.expectInt s

theorem toOption_bind {x : Except ε α} {f : α → Except ε β} :
    (x >>= f).toOption = x.toOption.bind fun a => (f a).toOption := by
  cases x <;> rfl

/-- What the session lets the running body read. -/
def readings (s : Session) (port : Nat) : Option Value := (s.input port).toOption

theorem integerAt_readings (s : Session) (port : Nat) :
    integerAt (readings s) port = (s.input port >>= Value.expectInt).toOption := by
  rw [toOption_bind]
  unfold integerAt readings
  cases s.input port with
  | error e => rfl
  | ok v => cases v <;> rfl

theorem representable_toInt (i : Int64) : Representable i.toInt :=
  ⟨i.minValue_le_toInt, i.toInt_le⟩

theorem checkedAdd_eq_some {a b c : Int64} :
    checkedAdd a b = some c ↔ c.toInt = a.toInt + b.toInt := by
  simp only [checkedAdd]
  split
  · rename_i hin
    have hexact : (Int64.ofInt (a.toInt + b.toInt)).toInt = a.toInt + b.toInt :=
      Int64.toInt_ofInt_of_le hin.1 (Int.lt_of_le_of_lt hin.2 (by decide))
    rw [Option.some.injEq, ← Int64.toInt_inj, hexact]
    exact eq_comm
  · rename_i hout
    constructor
    · intro hc
      cases hc
    · intro hc
      rw [← hc] at hout
      exact absurd (representable_toInt c) hout

theorem checkedAdd_eq_none {a b : Int64} :
    checkedAdd a b = none ↔ ¬ Representable (a.toInt + b.toInt) := by
  simp only [checkedAdd]
  split
  · rename_i hin
    constructor
    · intro hnone
      cases hnone
    · intro hout
      exact absurd hin hout
  · rename_i hout
    exact ⟨fun _ => hout, fun _ => rfl⟩

theorem addInputs_of_error (hx : (s.input port >>= Value.expectInt) = .error e)
    (total : Int64) (rest : List Nat) : (addInputs total (port :: rest)).Answers s (.error e) := by
  have hread := intInput_answers port s
  rw [hx] at hread
  refine hread.bind (k := fun _ => .error e) ?_
  intro a ha
  cases ha

theorem addInputs_of_overflow (hx : (s.input port >>= Value.expectInt) = .ok i)
    (hsum : checkedAdd total i = none) (rest : List Nat) :
    (addInputs total (port :: rest)).Answers s
      (.error (.evaluationFailed "integer overflow in add")) := by
  have hread := intInput_answers port s
  rw [hx] at hread
  refine hread.bind (k := fun _ => .error (.evaluationFailed "integer overflow in add")) ?_
  intro a ha
  cases ha
  rw [hsum]
  exact ofExcept_answers _ s

theorem addInputs_of_sum (hx : (s.input port >>= Value.expectInt) = .ok i)
    (hsum : checkedAdd total i = some next) (hr : (addInputs next rest).Answers s result) :
    (addInputs total (port :: rest)).Answers s result := by
  have hread := intInput_answers port s
  rw [hx] at hread
  refine hread.bind (k := fun _ => result) ?_
  intro a ha
  cases ha
  rw [hsum]
  exact hr

/-- The loop of the sum reads the ports in order and stops at the first that has no integer or takes
the total too far. -/
theorem addInputs_answers (total : Int64) (ports : List Nat) (s : Session) :
    ∃ result, (addInputs total ports).Answers s result ∧
      result.toOption.map (·.toInt) = sum (readings s) total.toInt ports := by
  induction ports generalizing total with
  | nil => exact ⟨.ok total, fun _ _ hq => hq, rfl⟩
  | cons port rest ih =>
    cases hx : s.input port >>= Value.expectInt with
    | error e =>
      have hat : integerAt (readings s) port = none := by rw [integerAt_readings, hx]; rfl
      refine ⟨.error e, addInputs_of_error hx total rest, ?_⟩
      rw [sum_cons, hat]
      rfl
    | ok i =>
      have hat : integerAt (readings s) port = some i := by rw [integerAt_readings, hx]; rfl
      cases hsum : checkedAdd total i with
      | none =>
        refine ⟨_, addInputs_of_overflow hx hsum rest, ?_⟩
        rw [sum_cons, hat, Option.bind_some, if_neg (checkedAdd_eq_none.mp hsum)]
        rfl
      | some next =>
        have hexact := checkedAdd_eq_some.mp hsum
        obtain ⟨result, hr, ht⟩ := ih next
        refine ⟨result, addInputs_of_sum hx hsum hr, ?_⟩
        rw [sum_cons, hat, Option.bind_some, ← hexact, if_pos (representable_toInt next)]
        exact ht

section

variable {s : Session} {c : Session.Current} {P : Nat → Value → Prop}
  {Q : Except Error Unit → Session → Prop}

theorem field_toOption (hc : s.current = .ok c) (index : Nat) :
    (s.field index).toOption = c.node.fields[index]? := by
  simp only [Session.field, hc, bind, Except.bind, Node.field]
  cases c.node.fields[index]? <;> rfl

theorem inputCount_eq (hc : s.current = .ok c) : s.inputCount = .ok c.node.inputCount := by
  simp [Session.inputCount, hc, bind, Except.bind, pure, Except.pure]

theorem setOutput_leads (hc : s.current = .ok c) (ho : port < c.node.outputCount) (hp : P port v)
    (hq : Q (.ok ()) { s with cache := s.cache.insert ⟨c.graph.id, c.handle, port⟩ v }) :
    (setOutput port v).Leads P Q s := by
  refine ⟨?_, ?_⟩
  · intro port' v' he
    cases he
    exact hp
  · rw [Operation.run, Session.setOutput_run hc, if_pos ho]
    exact hq

/-- What is to come of the body of `n` when it runs on `s`: the value that the node gives for what it
reads there is put on its output, and there is an error when there is none. -/
structure Delivers (s : Session) (c : Session.Current) (P : Nat → Value → Prop)
    (Q : Except Error Unit → Session → Prop) : Prop where
  current : s.current = .ok c
  intact : c.node.Intact
  value : ∀ v, c.node.result? (readings s) = some v → P 0 v ∧
    Q (.ok ()) { s with cache := s.cache.insert ⟨c.graph.id, c.handle, 0⟩ v }
  failure : c.node.result? (readings s) = none → ∀ e, Q (.error e) s

theorem Delivers.leads_set (h : Delivers s c P Q)
    (ho : 0 < c.node.definition.metadata.outputs.length) {p : Program α} {f : α → Value}
    (hp : p.Answers s x) (hr : c.node.result? (readings s) = x.toOption.map f) :
    (p >>= fun a => setOutput 0 (f a)).Leads P Q s := by
  rw [← h.intact] at ho
  refine hp.leads_bind ?_ ?_
  · intro a hx
    rw [hx] at hr
    obtain ⟨hset, hq⟩ := h.value (f a) hr
    exact setOutput_leads h.current ho hset hq
  · intro e hx
    rw [hx] at hr
    exact h.failure hr e

theorem Delivers.integer (h : Delivers s c P Q) (hd : c.node.definition = integer) :
    (intField 0 >>= fun i => setOutput 0 (.int i)).Leads P Q s := by
  refine h.leads_set (by simp [hd, Builtin.integer]) (intField_answers 0 s) ?_
  have ht : c.node.nodeType = "integer" := by rw [Node.nodeType, hd]; rfl
  simp only [Node.result?, ht, toOption_bind, field_toOption h.current]
  cases c.node.fields[0]? with
  | none => rfl
  | some v => cases v <;> rfl

theorem Delivers.boolean (h : Delivers s c P Q) (hd : c.node.definition = boolean) :
    (boolField 0 >>= fun b => setOutput 0 (.bool b)).Leads P Q s := by
  refine h.leads_set (by simp [hd, Builtin.boolean]) (boolField_answers 0 s) ?_
  have ht : c.node.nodeType = "boolean" := by rw [Node.nodeType, hd]; rfl
  simp only [Node.result?, ht, toOption_bind, field_toOption h.current]
  cases c.node.fields[0]? with
  | none => rfl
  | some v => cases v <;> rfl

theorem Delivers.add (h : Delivers s c P Q) (hd : c.node.definition = add) :
    (inputCount >>= fun count => addInputs 0 (List.range count) >>= fun total =>
      setOutput 0 (.int total)).Leads P Q s := by
  have ht : c.node.nodeType = "add" := by rw [Node.nodeType, hd]; rfl
  have hcount := inputCount_eq h.current
  refine (inputCount_answers s).leads_bind ?_ ?_
  · intro count hx
    rw [hcount] at hx
    cases hx
    obtain ⟨result, hr, hsum⟩ := addInputs_answers 0 (List.range c.node.inputCount) s
    refine h.leads_set (by simp [hd, Builtin.add]) hr ?_
    have hzero : (0 : Int64).toInt = 0 := rfl
    rw [hzero] at hsum
    simp only [Node.result?, ht, ← hsum]
    cases result with
    | error e => rfl
    | ok total => exact congrArg (fun i => some (Value.int i)) (Int64.ofInt_toInt total)
  · intro e hx
    rw [hcount] at hx
    cases hx

theorem Delivers.greaterThan (h : Delivers s c P Q) (hd : c.node.definition = greaterThan) :
    (intInput 0 >>= fun a => intInput 1 >>= fun b =>
      setOutput 0 (.bool (b.toInt < a.toInt))).Leads P Q s := by
  have ht : c.node.nodeType = "greater-than" := by rw [Node.nodeType, hd]; rfl
  refine (intInput_answers 0 s).leads_bind ?_ ?_
  · intro a hx
    refine h.leads_set (by simp [hd, Builtin.greaterThan])
      (intInput_answers 1 s) ?_
    simp only [Node.result?, ht, integerAt_readings, hx]
    cases s.input 1 >>= Value.expectInt <;> rfl
  · intro e hx
    refine h.failure ?_ e
    simp only [Node.result?, ht, integerAt_readings, hx]
    rfl

/-- The body of every pure built-in type gives what the type is worth for what it reads. -/
theorem Delivers.leads (h : Delivers s c P Q) (hd : c.node.definition ∈ definitions)
    (hp : c.node.isPure = true) (hb : c.node.definition.body = some body) :
    body.Leads P Q s := by
  have impure {d : Definition} (hd : c.node.definition = d) (hi : d.isPure = false) :
      body.Leads P Q s := by
    rw [Node.isPure, hd, hi] at hp
    cases hp
  simp only [definitions, List.mem_cons, List.not_mem_nil, or_false] at hd
  rcases hd with hd | hd | hd | hd | hd | hd | hd | hd | hd | hd
  · rw [hd] at hb
    cases hb
    exact h.integer hd
  · rw [hd] at hb
    cases hb
    exact h.boolean hd
  · rw [hd] at hb
    cases hb
    exact h.add hd
  · rw [hd] at hb
    cases hb
    exact h.greaterThan hd
  all_goals exact impure hd rfl

end

theorem activeNode_silent : activeNode.Silent := ⟨nofun, fun _ => trivial⟩

theorem input_silent (port : Nat) : (input port).Silent := ⟨nofun, fun _ => trivial⟩

theorem field_silent (index : Nat) : (field index).Silent := ⟨nofun, fun _ => trivial⟩

theorem fire_silent (port : Nat) : (fire port).Silent := ⟨nofun, fun _ => trivial⟩

theorem findGraph_silent (name : String) : (findGraph name).Silent := ⟨nofun, fun _ => trivial⟩

theorem print_silent (line : String) : (Program.print line).Silent := ⟨nofun, fun _ => trivial⟩

theorem log_silent (level : Level) (text : String) : (log level text).Silent :=
  ⟨nofun, fun _ => trivial⟩

theorem callGraph_silent (hb : callGraph.body = some body) : body.Silent := by
  cases hb
  refine .bind (.bind (field_silent 0) fun _ => trivial) fun name => ?_
  refine .bind (.bind (field_silent 1) fun _ => trivial) fun entry => ?_
  dsimp only
  split
  · trivial
  · refine .bind (findGraph_silent name) fun _ => .bind activeNode_silent fun node => ?_
    refine .bind (log_silent ..) fun _ => .bind ?_ fun _ => fire_silent 0
    exact fun _ => trivial

/-- The bodies of the other built-in types leave every output alone. -/
theorem silent_of_impure {d : Definition} (hd : d ∈ definitions) (hp : d.isPure = false)
    (hb : d.body = some body) : body.Silent := by
  simp only [definitions, List.mem_cons, List.not_mem_nil, or_false] at hd
  rcases hd with rfl | rfl | rfl | rfl | rfl | rfl | rfl | rfl | rfl | rfl
  · cases hp
  · cases hp
  · cases hp
  · cases hp
  · cases hb
    exact .bind activeNode_silent fun _ => .bind (log_silent ..) fun _ => fire_silent 0
  · cases hb
    exact fire_silent 0
  · cases hb
    refine .bind (input_silent 0) fun v => .bind (log_silent ..) fun _ => ?_
    exact .bind (print_silent _) fun _ => fire_silent 0
  · cases hb
    refine .bind (.bind (input_silent 0) fun _ => trivial) fun condition => ?_
    exact .bind activeNode_silent fun _ => .bind (log_silent ..) fun _ => fire_silent _
  · cases hb
    exact .bind (fire_silent 0) fun _ => fire_silent 1
  · exact callGraph_silent hb

theorem intInput_within (hP : ∀ port, P (.input port)) (port : Nat) :
    (intInput port).Within P Q :=
  .bind ⟨hP port, fun _ => trivial⟩ fun _ => trivial

theorem addInputs_within (hP : ∀ port, P (.input port)) (total : Int64) (ports : List Nat) :
    (addInputs total ports).Within P Q := by
  induction ports generalizing total with
  | nil => trivial
  | cons port rest ih =>
    refine .bind (intInput_within hP port) fun operand => ?_
    split
    · exact ih _
    · trivial

theorem fire_flat (port : Nat) : (fire port).Flat := ⟨nofun, fun _ => trivial⟩

theorem setOutput_flat (port : Nat) (v : Value) : (setOutput port v).Flat :=
  ⟨nofun, fun _ => trivial⟩

/-- Of the built-in types one alone asks for evaluations. -/
theorem flat_or_callGraph {d : Definition} (hd : d ∈ definitions) (hb : d.body = some body) :
    body.Flat ∨ d = callGraph := by
  have hinput (port : Nat) (h : Handle) : Operation.input port ≠ .queue h := nofun
  simp only [definitions, List.mem_cons, List.not_mem_nil, or_false] at hd
  rcases hd with rfl | rfl | rfl | rfl | rfl | rfl | rfl | rfl | rfl | rfl
  · cases hb
    left
    exact .bind (.bind ⟨nofun, fun _ => trivial⟩ fun _ => trivial) fun _ => setOutput_flat 0 _
  · cases hb
    left
    exact .bind (.bind ⟨nofun, fun _ => trivial⟩ fun _ => trivial) fun _ => setOutput_flat 0 _
  · cases hb
    left
    refine .bind ⟨nofun, fun _ => trivial⟩ fun _ => ?_
    exact .bind (addInputs_within hinput 0 _) fun _ => setOutput_flat 0 _
  · cases hb
    left
    refine .bind (intInput_within hinput 0) fun _ => ?_
    exact .bind (intInput_within hinput 1) fun _ => setOutput_flat 0 _
  · cases hb
    left
    refine .bind ⟨nofun, fun _ => trivial⟩ fun _ => ?_
    exact .bind ⟨nofun, fun _ => trivial⟩ fun _ => fire_flat 0
  · cases hb
    exact .inl (fire_flat 0)
  · cases hb
    left
    refine .bind ⟨nofun, fun _ => trivial⟩ fun _ => .bind ⟨nofun, fun _ => trivial⟩ fun _ => ?_
    exact .bind ⟨nofun, fun _ => trivial⟩ fun _ => fire_flat 0
  · cases hb
    left
    refine .bind (.bind ⟨nofun, fun _ => trivial⟩ fun _ => trivial) fun _ => ?_
    refine .bind ⟨nofun, fun _ => trivial⟩ fun _ => ?_
    exact .bind ⟨nofun, fun _ => trivial⟩ fun _ => fire_flat _
  · cases hb
    exact .inl (.bind (fire_flat 0) fun _ => fire_flat 1)
  · exact .inr rfl

theorem callGraph_linked (hb : callGraph.body = some body) : body.Linked := by
  cases hb
  refine .bind (.bind ⟨nofun, fun _ => trivial⟩ fun _ => trivial) fun name => ?_
  refine .bind (.bind ⟨nofun, fun _ => trivial⟩ fun _ => trivial) fun entry => ?_
  dsimp only
  split
  · trivial
  · refine .bind ⟨nofun, fun _ => trivial⟩ fun _ => .bind ⟨nofun, fun _ => trivial⟩ fun _ => ?_
    refine .bind ⟨nofun, fun _ => trivial⟩ fun _ => .bind ?_ fun _ => (fire_flat 0).linked
    exact ⟨⟨name, rfl⟩, fun _ => trivial⟩

theorem linked {d : Definition} (hd : d ∈ definitions) (hb : d.body = some body) :
    body.Linked := by
  rcases flat_or_callGraph hd hb with hflat | rfl
  · exact hflat.linked
  · exact callGraph_linked hb

/-- Every built-in type can run. -/
theorem body_ne_none {d : Definition} (hd : d ∈ definitions) : d.body ≠ none := by
  simp only [definitions, List.mem_cons, List.not_mem_nil, or_false] at hd
  rcases hd with rfl | rfl | rfl | rfl | rfl | rfl | rfl | rfl | rfl | rfl
  all_goals
    intro hb
    cases hb

end Builtin

end Flowgraph
