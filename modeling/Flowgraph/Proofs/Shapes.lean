import Flowgraph.Proofs.Editing

namespace Flowgraph

/-- A registry as it comes about: nothing gets in unchecked. -/
inductive Registry.Filled : Registry → Prop where
  | empty : Filled .empty
  | register (before : Filled r) (e : r.register d = .ok r') : Filled r'
  | merge (before : Filled r) (other : Filled r') : Filled (r.merge r')

/-- The node was created by a registry. -/
def Node.Registered (n : Node) : Prop := ∃ r : Registry, r.Filled ∧ n.Made r

/-- The parts of a node are those that its type declares. -/
structure Node.Shaped (n : Node) : Prop where
  outputs : n.Intact
  fields : n.fields.length = n.definition.metadata.fields.length
  inputs : n.definition.metadata.inputs.length + n.variadicInputs = n.inputCount
  ports : ∀ i < n.inputCount, ∃ port type,
    n.definition.metadata.inputPort? i = some port ∧ port.kind = .data type

theorem Table.mem_put [DecidableEq κ] {k : κ} {v : ν} {e : κ × ν} {es : List (κ × ν)}
    (h : e ∈ Table.put k v es) : e = (k, v) ∨ e ∈ es := by
  induction es with
  | nil => exact .inl (List.mem_singleton.mp h)
  | cons first rest ih =>
    unfold Table.put at h
    split at h
    · rcases List.mem_cons.mp h with he | he
      · exact .inl he
      · exact .inr (List.mem_cons_of_mem _ he)
    · rcases List.mem_cons.mp h with he | he
      · exact .inr (he ▸ List.mem_cons_self)
      · exact (ih he).imp_right (List.mem_cons_of_mem _)

theorem Table.not_mem_of_lookup_none [DecidableEq κ] {k : κ} {v : ν} {es : List (κ × ν)}
    (h : Table.lookup k es = none) : (k, v) ∉ es := by
  induction es with
  | nil => exact List.not_mem_nil
  | cons first rest ih =>
    unfold Table.lookup at h
    split at h
    · cases h
    · rename_i hne
      intro hm
      rcases List.mem_cons.mp hm with rfl | hm
      · exact hne rfl
      · exact ih h hm

theorem Table.mem_merge [DecidableEq κ] {e : κ × ν} {t u : Table κ ν}
    (h : e ∈ (t.merge u).entries) : e ∈ t.entries ∨ e ∈ u.entries := by
  unfold Table.merge at h
  generalize u.entries = es at h ⊢
  induction es generalizing t with
  | nil => exact .inl h
  | cons first rest ih =>
    rcases ih h with he | he
    · rcases Table.mem_put he with rfl | he
      · exact .inr List.mem_cons_self
      · exact .inl he
    · exact .inr (List.mem_cons_of_mem _ he)

theorem Registry.Filled.valid {r : Registry} (h : r.Filled) :
    ∀ e ∈ r.definitions.entries, e.2.metadata.validate = .ok () := by
  induction h with
  | empty =>
    intro e he
    cases he
  | register _ e ih =>
    obtain ⟨_, hvalid, e⟩ := bind_eq_ok.mp e
    cases e
    intro entry hentry
    rcases Table.mem_put hentry with rfl | hold
    · exact hvalid
    · exact ih entry hold
  | merge _ _ ih ih' =>
    intro entry hentry
    rcases Table.mem_merge hentry with hold | hnew
    · exact ih entry hold
    · exact ih' entry hnew

theorem Registry.Filled.registerAll {r : Registry} (h : r.Filled) {ds : List Definition}
    (hd : ∀ d ∈ ds, d.metadata.validate = .ok ()) :
    Filled ⟨ds.foldl (fun t d => t.insert d.nodeType d) r.definitions⟩ := by
  induction ds generalizing r with
  | nil => exact h
  | cons d ds ih =>
    obtain ⟨hvalid, hrest⟩ := List.forall_mem_cons.mp hd
    have hregister : r.register d = .ok ⟨r.definitions.insert d.nodeType d⟩ := by
      simp [Registry.register, hvalid, bind, Except.bind, pure, Except.pure]
    exact ih (.register h hregister) hrest

/-- The built-in types pass the check that all types have to pass. -/
theorem Builtin.valid : ∀ d ∈ definitions, d.metadata.validate = .ok () := by
  simp only [definitions, List.forall_mem_cons]
  exact ⟨rfl, rfl, rfl, rfl, rfl, rfl, rfl, rfl, rfl, rfl, List.forall_mem_nil _⟩

theorem Registry.builtins_filled : builtins.Filled := Filled.empty.registerAll Builtin.valid

theorem Port.data_of_not_isExecution {p : Port} (h : p.isExecution = false) :
    ∃ type, p.kind = .data type := by
  obtain ⟨id, label, kind⟩ := p
  cases kind with
  | data type => exact ⟨type, rfl⟩
  | execution => cases h

/-- All inputs of a valid declaration take values. -/
theorem Metadata.inputPort?_data {m : Metadata} (h : m.validate = .ok ()) {port : Port}
    (hp : m.inputPort? i = some port) : ∃ type, port.kind = .data type := by
  apply Port.data_of_not_isExecution
  unfold validate at h
  split at h
  · cases h
  · split at h
    · cases h
    · rename_i hinputs
      split at h
      · cases h
      · rename_i hvariadic
        unfold inputPort? at hp
        rcases Option.or_eq_some_iff.mp hp with hfixed | ⟨-, hrest⟩
        · have hmem := List.mem_of_getElem? hfixed
          simpa using fun hx => hinputs (List.any_eq_true.mpr ⟨port, hmem, hx⟩)
        · obtain ⟨v, hv, rfl⟩ := Option.map_eq_some_iff.mp hrest
          simpa [hv] using hvariadic

theorem Node.clearConstant_inputs {n : Node} :
    (n.clearConstant i).inputs[j]? = some (some v) ↔ i ≠ j ∧ n.inputs[j]? = some (some v) := by
  rw [Node.clearConstant, List.getElem?_set]
  by_cases he : i = j
  · simp [he]
  · simp [he]

/-- However a node is edited, its fields stay as many as declared, and inputs are only ever added,
which takes a declaration for them. -/
theorem Node.Made.counts {n : Node} (h : n.Made r) :
    n.fields.length = n.definition.metadata.fields.length ∧
    n.definition.metadata.inputs.length ≤ n.inputs.length ∧
    (n.definition.metadata.variadic = none →
      n.inputs.length = n.definition.metadata.inputs.length) := by
  induction h with
  | create e =>
    unfold Registry.create at e
    split at e
    · cases e
      refine ⟨by simp [Node.new], by simp [Node.new], ?_⟩
      intro hnone
      simp only [Node.new] at hnone
      simp [Node.new, Metadata.variadicCount, hnone]
    · cases e
  | setConstant _ ih =>
    rw [Node.setConstant_run]
    split
    · simpa using ih
    · exact ih
  | clearConstant _ ih => simpa [Node.clearConstant] using ih
  | setField _ ih =>
    rw [Node.setField_run]
    simpa using ih
  | addVariadic _ ih =>
    rw [Node.addVariadic_run]
    split
    · exact ih
    · rename_i hvariadic
      obtain ⟨hfields, hfixed, -⟩ := ih
      refine ⟨hfields, ?_, ?_⟩
      · rw [List.length_append]
        exact Nat.le_add_right_of_le hfixed
      · intro hnone
        exact absurd (Option.isNone_iff_eq_none.mpr hnone) hvariadic

theorem Node.Registered.shaped {n : Node} (h : n.Registered) : n.Shaped := by
  obtain ⟨r, hfilled, hmade⟩ := h
  obtain ⟨hfields, hfixed, hvariadic⟩ := hmade.counts
  obtain ⟨entry, hentry, hd⟩ := List.mem_map.mp hmade.definition
  have hvalid := hfilled.valid entry hentry
  rw [hd] at hvalid
  refine ⟨hmade.intact, hfields, ?_, ?_⟩
  · unfold Node.variadicInputs Node.inputCount
    omega
  · intro i hi
    have hport : ∃ port, n.definition.metadata.inputPort? i = some port := by
      apply Option.isSome_iff_exists.mp
      cases hv : n.definition.metadata.variadic with
      | some v => simp [Metadata.inputPort?, hv]
      | none =>
        have hlt : i < n.definition.metadata.inputs.length := by
          rw [← hvariadic hv]
          exact hi
        simp [Metadata.inputPort?, List.getElem?_eq_getElem hlt]
    obtain ⟨port, hport⟩ := hport
    obtain ⟨type, htype⟩ := Metadata.inputPort?_data hvalid hport
    exact ⟨port, type, hport, htype⟩

end Flowgraph
