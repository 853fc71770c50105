import Flowgraph.Proofs.Editing
import Flowgraph.Proofs.Verdict

namespace Flowgraph

/-- The integer has 64 bits. -/
def Representable (i : Int) : Prop := -9223372036854775808 ≤ i ∧ i ≤ 9223372036854775807

instance (i : Int) : Decidable (Representable i) :=
  inferInstanceAs (Decidable (-9223372036854775808 ≤ i ∧ i ≤ 9223372036854775807))

namespace Builtin

/-- The integer at an input. -/
def integerAt (operand : Nat → Option Value) (port : Nat) : Option Int64 :=
  match operand port with
  | some (.int i) => some i
  | _ => none

/-- The integers at some ports added to a total from the first on. The sums are exact, and there is
none once one of them does not have 64 bits. -/
def sum (operand : Nat → Option Value) (total : Int) : List Nat → Option Int
  | [] => some total
  | port :: rest => do
    let next := total + (← integerAt operand port).toInt
    if Representable next then sum operand next rest else none

end Builtin

/-- What a node of a built-in pure type gives for what stands at its inputs. -/
def Node.result? (n : Node) (operand : Nat → Option Value) : Option Value :=
  match n.nodeType with
  | "integer" =>
    match (n.fields[0]? : Option Value) with
    | some (.int i) => some (.int i)
    | _ => none
  | "boolean" =>
    match (n.fields[0]? : Option Value) with
    | some (.bool b) => some (.bool b)
    | _ => none
  | "add" => do return .int (.ofInt (← Builtin.sum operand 0 (List.range n.inputCount)))
  | "greater-than" => do
    let a ← Builtin.integerAt operand 0
    let b ← Builtin.integerAt operand 1
    return .bool (b.toInt < a.toInt)
  | _ => none

namespace Graph

/-- What stands at an input when `value` is what nodes give: the value of its producer, or its
constant when it has none. -/
def operand (g : Graph) (value : Handle → Option Value) (h : Handle) (n : Node) (port : Nat) :
    Option Value :=
  n.inputs[port]?.bind fun constant =>
    match g.producer? ⟨h, port⟩ with
    | some output => if output.port = 0 then value output.node else none
    | none => constant

/-- Every wired input has a value. -/
def supplies (g : Graph) (value : Handle → Option Value) (h : Handle) (n : Node) : Bool :=
  (List.range n.inputCount).all fun port =>
    (g.producer? ⟨h, port⟩).isNone || (g.operand value h n port).isSome

/-- What a pure node is worth, by recursion over its wires as deep as `depth`. -/
def denote (g : Graph) : Nat → Handle → Option Value
  | 0, _ => none
  | depth + 1, h =>
    match g.node? h with
    | none => none
    | some n =>
      if n.isPure && g.supplies (g.denote depth) h n then
        n.result? (g.operand (g.denote depth) h n)
      else none

/-- The node is pure and worth `v`. A node on a cycle of wires or behind one is worth nothing at any
depth. -/
def Denotes (g : Graph) (h : Handle) (v : Value) : Prop := ∃ depth, g.denote depth h = some v

/-- All that is wired to the node is worth something. -/
def Ready (g : Graph) (h : Handle) : Prop :=
  ∀ n port output, g.node? h = some n → port < n.inputCount →
    g.producer? ⟨h, port⟩ = some output → output.port = 0 ∧ ∃ v, g.Denotes output.node v

end Graph

theorem Builtin.integerAt_eq_some {operand : Nat → Option Value} :
    integerAt operand port = some i ↔ operand port = some (.int i) := by
  unfold integerAt
  split
  · rename_i hi
    simp [hi]
  · rename_i hother
    simpa using hother i

theorem Builtin.integerAt_mono {f f' : Nat → Option Value}
    (hf : ∀ port v, f port = some v → f' port = some v) (h : integerAt f port = some i) :
    integerAt f' port = some i :=
  integerAt_eq_some.mpr (hf port _ (integerAt_eq_some.mp h))

theorem Builtin.sum_cons (operand : Nat → Option Value) (total : Int) (port : Nat)
    (rest : List Nat) : sum operand total (port :: rest) =
      (integerAt operand port).bind fun i =>
        if Representable (total + i.toInt) then sum operand (total + i.toInt) rest else none := rfl

theorem Builtin.sum_mono {f f' : Nat → Option Value}
    (hf : ∀ port v, f port = some v → f' port = some v) (h : sum f total ports = some i) :
    sum f' total ports = some i := by
  induction ports generalizing total with
  | nil => exact h
  | cons port rest ih =>
    rw [sum_cons] at h ⊢
    obtain ⟨a, ha, h⟩ := Option.bind_eq_some_iff.mp h
    rw [integerAt_mono hf ha, Option.bind_some]
    split at h
    · rename_i hin
      rw [if_pos hin]
      exact ih h
    · cases h

/-- More at the inputs never changes what a node gives already. -/
theorem Node.result?_mono {n : Node} {f f' : Nat → Option Value}
    (hf : ∀ port v, f port = some v → f' port = some v) (h : n.result? f = some v) :
    n.result? f' = some v := by
  unfold Node.result? at h ⊢
  split at h
  · exact h
  · exact h
  · obtain ⟨total, ht, h⟩ := Option.bind_eq_some_iff.mp h
    exact Option.bind_eq_some_iff.mpr ⟨total, Builtin.sum_mono hf ht, h⟩
  · obtain ⟨a, ha, h⟩ := Option.bind_eq_some_iff.mp h
    obtain ⟨b, hb, h⟩ := Option.bind_eq_some_iff.mp h
    have ha' := Builtin.integerAt_mono hf ha
    have hb' := Builtin.integerAt_mono hf hb
    exact Option.bind_eq_some_iff.mpr ⟨a, ha', Option.bind_eq_some_iff.mpr ⟨b, hb', h⟩⟩
  · cases h

namespace Graph

theorem operand_mono {g : Graph} {value value' : Handle → Option Value}
    (hv : ∀ h v, value h = some v → value' h = some v)
    (h : g.operand value handle n port = some v) : g.operand value' handle n port = some v := by
  obtain ⟨constant, hc, h⟩ := Option.bind_eq_some_iff.mp h
  refine Option.bind_eq_some_iff.mpr ⟨constant, hc, ?_⟩
  split at h
  · rename_i output hw
    split at h
    · rename_i hz
      simp only [hz, ↓reduceIte]
      exact hv _ _ h
    · cases h
  · exact h

theorem supplies_iff {g : Graph} {value : Handle → Option Value} {h : Handle} {n : Node} :
    g.supplies value h n = true ↔ ∀ port output, port < n.inputCount →
      g.producer? ⟨h, port⟩ = some output →
        output.port = 0 ∧ ∃ v, value output.node = some v := by
  unfold supplies
  simp only [List.all_eq_true, List.mem_range, Bool.or_eq_true, Option.isNone_iff_eq_none]
  constructor
  · intro hall port output hp hw
    rcases hall port hp with hnone | hsome
    · rw [hw] at hnone
      cases hnone
    · obtain ⟨v, hv⟩ := Option.isSome_iff_exists.mp hsome
      obtain ⟨constant, -, hv⟩ := Option.bind_eq_some_iff.mp hv
      simp only [hw] at hv
      split at hv
      · rename_i hz
        exact ⟨hz, v, hv⟩
      · cases hv
  · intro hall port hp
    cases hw : g.producer? ⟨h, port⟩ with
    | none => exact .inl rfl
    | some output =>
      obtain ⟨hz, v, hv⟩ := hall port output hp hw
      have hi : n.inputs[port]? = some n.inputs[port] := List.getElem?_eq_getElem hp
      simp [operand, hi, hw, hz, hv]

theorem denote_eq_some {g : Graph} {depth : Nat} {h : Handle} {v : Value} :
    g.denote (depth + 1) h = some v ↔ ∃ n, g.node? h = some n ∧ n.isPure = true ∧
      g.supplies (g.denote depth) h n = true ∧
      n.result? (g.operand (g.denote depth) h n) = some v := by
  unfold denote
  cases hn : g.node? h with
  | none => simp
  | some n => simp [and_assoc]

theorem denote_succ {g : Graph} (h : g.denote depth handle = some v) :
    g.denote (depth + 1) handle = some v := by
  induction depth generalizing handle v with
  | zero => cases h
  | succ depth ih =>
    obtain ⟨n, hn, hp, hs, hr⟩ := denote_eq_some.mp h
    refine denote_eq_some.mpr ⟨n, hn, hp, ?_, ?_⟩
    · rw [supplies_iff] at hs ⊢
      intro port output hport hw
      obtain ⟨hz, w, hw⟩ := hs port output hport hw
      exact ⟨hz, w, ih hw⟩
    · refine Node.result?_mono ?_ hr
      intro port w
      exact operand_mono fun _ _ => ih

theorem denote_mono {g : Graph} (hd : depth ≤ depth') (h : g.denote depth handle = some v) :
    g.denote depth' handle = some v := by
  induction hd with
  | refl => exact h
  | step _ ih => exact denote_succ ih

theorem Denotes.unique {g : Graph} (h : g.Denotes handle v) (h' : g.Denotes handle w) : v = w := by
  obtain ⟨depth, h⟩ := h
  obtain ⟨depth', h'⟩ := h'
  have hv := denote_mono (Nat.le_max_left depth depth') h
  have hw := denote_mono (Nat.le_max_right depth depth') h'
  rw [hv] at hw
  exact Option.some.inj hw

/-- A node that is worth something is a live pure node, and so is all that is wired to it. -/
theorem Denotes.ready {g : Graph} (h : g.Denotes handle v) :
    (∃ n, g.node? handle = some n ∧ n.isPure = true) ∧ g.Ready handle := by
  obtain ⟨depth, h⟩ := h
  cases depth with
  | zero => cases h
  | succ depth =>
    obtain ⟨n, hn, hp, hs, -⟩ := denote_eq_some.mp h
    refine ⟨⟨n, hn, hp⟩, ?_⟩
    intro n' port output hn' hport hw
    rw [hn] at hn'
    cases hn'
    obtain ⟨hz, w, hw⟩ := supplies_iff.mp hs port output hport hw
    exact ⟨hz, w, depth, hw⟩

/-- Behind a node that is worth something the wires end somewhere. -/
theorem Denotes.acc {g : Graph} (h : g.Denotes handle v) : Acc g.Feeds handle := by
  obtain ⟨depth, h⟩ := h
  induction depth generalizing handle v with
  | zero => cases h
  | succ depth ih =>
    obtain ⟨n, hn, -, hs, -⟩ := denote_eq_some.mp h
    refine .intro handle ?_
    rintro producer ⟨n', port, output, hn', hport, hw, rfl⟩
    rw [hn] at hn'
    cases hn'
    obtain ⟨-, w, hd⟩ := supplies_iff.mp hs port output hport hw
    exact ih hd

theorem Ready.acc {g : Graph} (h : g.Ready handle) : Acc g.Feeds handle := by
  refine .intro handle ?_
  rintro producer ⟨n, port, output, hn, hport, hw, rfl⟩
  obtain ⟨-, v, hv⟩ := h n port output hn hport hw
  exact hv.acc

theorem not_transGen_self_of_acc {r : α → α → Prop} (h : Acc r a) : ¬ Relation.TransGen r a a := by
  have hacc := h.transGen
  clear h
  induction hacc with
  | intro a _ ih =>
    intro hc
    exact ih a hc hc

/-- No node on a cycle of wires has all its inputs. -/
theorem Ready.not_cyclic {g : Graph} (h : g.Ready handle) :
    ¬ Relation.TransGen g.Feeds handle handle := not_transGen_self_of_acc h.acc

/-- A node that is worth something is on no cycle of wires and behind none. -/
theorem Denotes.not_behind_cycle {g : Graph} (h : g.Denotes handle v)
    (hc : Relation.TransGen g.Feeds c c) : c ≠ handle ∧ ¬ Relation.TransGen g.Feeds c handle := by
  refine ⟨?_, ?_⟩
  · rintro rfl
    exact h.ready.2.not_cyclic hc
  · intro hbehind
    exact not_transGen_self_of_acc (h.acc.inv_of_transGen hbehind) hc

/-- One depth serves for all that is wired to a node. -/
theorem Ready.supplies {g : Graph} (h : g.Ready handle) (hn : g.node? handle = some n) :
    ∃ depth, g.supplies (g.denote depth) handle n = true := by
  have upTo (k : Nat) (hk : k ≤ n.inputCount) : ∃ depth, ∀ port output, port < k →
      g.producer? ⟨handle, port⟩ = some output →
        output.port = 0 ∧ ∃ v, g.denote depth output.node = some v := by
    induction k with
    | zero => exact ⟨0, fun port output hp => absurd hp (Nat.not_lt_zero port)⟩
    | succ k ih =>
      obtain ⟨depth, hd⟩ := ih (Nat.le_of_succ_le hk)
      cases hw : g.producer? ⟨handle, k⟩ with
      | none =>
        refine ⟨depth, ?_⟩
        intro port output hp hw'
        rcases Nat.lt_succ_iff_lt_or_eq.mp hp with hp | rfl
        · exact hd port output hp hw'
        · rw [hw] at hw'
          cases hw'
      | some last =>
        obtain ⟨hz, v, depth', hv⟩ := h n k last hn hk hw
        -- What was worth something at the old depth is so at the larger one.
        refine ⟨max depth depth', ?_⟩
        intro port output hp hw'
        rcases Nat.lt_succ_iff_lt_or_eq.mp hp with hp | rfl
        · obtain ⟨hz, w, hw⟩ := hd port output hp hw'
          exact ⟨hz, w, denote_mono (Nat.le_max_left ..) hw⟩
        · rw [hw] at hw'
          cases hw'
          exact ⟨hz, v, denote_mono (Nat.le_max_right ..) hv⟩
  obtain ⟨depth, hd⟩ := upTo n.inputCount (Nat.le_refl _)
  exact ⟨depth, supplies_iff.mpr hd⟩

/-- A reading of the inputs of a node that finds at each what it is worth. -/
structure Reads (g : Graph) (h : Handle) (n : Node) (reading : Nat → Option Value) : Prop where
  wired : ∀ port output, port < n.inputCount → g.producer? ⟨h, port⟩ = some output →
    output.port = 0 ∧ ∃ v, g.Denotes output.node v ∧ reading port = some v
  unwired : ∀ port, g.producer? ⟨h, port⟩ = none → reading port = n.inputs[port]?.join
  outside : ∀ port, n.inputCount ≤ port → reading port = none

theorem Reads.ready {g : Graph} (hr : g.Reads handle n reading) (hn : g.node? handle = some n) :
    g.Ready handle := by
  intro n' port output hn' hp hw
  rw [hn] at hn'
  cases hn'
  obtain ⟨hz, v, hv, -⟩ := hr.wired port output hp hw
  exact ⟨hz, v, hv⟩

theorem Reads.operand_eq {g : Graph} (hr : g.Reads h n reading)
    (hs : g.supplies (g.denote depth) h n = true) :
    g.operand (g.denote depth) h n = reading := by
  funext port
  unfold operand
  by_cases hp : port < n.inputCount
  · have hi : n.inputs[port]? = some n.inputs[port] := List.getElem?_eq_getElem hp
    rw [hi, Option.bind_some]
    split
    · rename_i output hw
      obtain ⟨hz, v, hv, hread⟩ := hr.wired port output hp hw
      obtain ⟨-, w, hd⟩ := supplies_iff.mp hs port output hp hw
      have heq : w = v := Denotes.unique ⟨depth, hd⟩ hv
      rw [if_pos hz, hd, hread, heq]
    · rename_i hw
      rw [hr.unwired port hw, hi]
      rfl
  · have hp := Nat.le_of_not_lt hp
    have hi : n.inputs[port]? = none := List.getElem?_eq_none hp
    rw [hi, hr.outside port hp]
    rfl

/-- A node is worth what it gives for what it reads. -/
theorem Reads.denotes_iff {g : Graph} (hr : g.Reads handle n reading)
    (hn : g.node? handle = some n) (hp : n.isPure = true) :
    g.Denotes handle v ↔ n.result? reading = some v := by
  constructor
  · rintro ⟨depth, h⟩
    cases depth with
    | zero => cases h
    | succ depth =>
      obtain ⟨n', hn', -, hs, hv⟩ := denote_eq_some.mp h
      rw [hn] at hn'
      cases hn'
      rw [hr.operand_eq hs] at hv
      exact hv
  · intro hv
    obtain ⟨depth, hs⟩ := (hr.ready hn).supplies hn
    refine ⟨depth + 1, denote_eq_some.mpr ⟨n, hn, hp, hs, ?_⟩⟩
    rw [hr.operand_eq hs]
    exact hv

end Graph

end Flowgraph
