import Flowgraph.Config
import Flowgraph.Event
import Flowgraph.Proofs.RecordText
import Mathlib.Algebra.Group.Nat.Defs

namespace Flowgraph

theorem ValueType.codec (held : Bool) :
    Codec (fun _ => True) ValueType.toDocument (ValueType.read held) :=
  .choice ValueType.ofName?_name held

theorem Category.codec (held : Bool) :
    Codec (fun _ => True) Category.toDocument (Category.read held) :=
  .choice Category.ofName?_name held

namespace PortKind

theorem codec (held : Bool) : Codec (fun _ => True) toDocument (read held) where
  plain {kind} _ := by
    cases kind with
    | data type =>
      apply Document.Plain.record
      simpa using ⟨.string "data", (ValueType.codec held).plain (x := type) trivial⟩
    | execution =>
      apply Document.Plain.record
      simpa using Document.Plain.string "execution"
  back {kind room} _ hn := by
    cases kind with
    | data type =>
      obtain ⟨inner, rfl, hparts⟩ := Document.room_of_nesting_record hn
      have htype :=
        (ValueType.codec held).back trivial (hparts ("valueType", type.toDocument) (by simp))
      have htag : (PortKind.data type).toDocument.tagged? tags "kind" "valueType" held inner =
        some ⟨"data", some type.toDocument, held⟩ := Document.tagged?_pair (by decide) ..
      simp [read, htag, htype]
    | execution =>
      obtain ⟨inner, rfl, hparts⟩ := Document.room_of_nesting_record hn
      have htag : PortKind.execution.toDocument.tagged? tags "kind" "valueType" held inner =
        some ⟨"execution", none, held⟩ := Document.tagged?_lone (by decide) ..
      simp [read, htag]
  fits {room d kind} hread := by
    cases room with
    | zero => cases hread
    | succ room =>
      cases kind with
      | data type => exact Document.nesting_record_le.mpr (by simp [ValueType.toDocument])
      | execution => exact Document.nesting_record_le.mpr (by simp)

end PortKind

namespace Port

theorem codec : Codec (fun _ => True) toDocument read := by
  refine .record (fun _ => rfl) ?plain ?back ?fits
  case plain =>
    intro p _
    have hkind := (PortKind.codec false).plain (x := p.kind) trivial
    simpa using ⟨.string p.id, .string p.label, hkind⟩
  case back =>
    intro p room _ hparts
    have hkind := (PortKind.codec false).back trivial (hparts ("kind", p.kind.toDocument) (by simp))
    have hfields : p.toDocument.fields? ["id", "label", "kind"] = _ :=
      Document.fields?_keys (by simp)
    rw [toDocument] at hfields
    simp [read, hfields, hkind]
  case fits =>
    intro room d p hread
    simp only [read] at hread
    obtain ⟨parts, -, hread⟩ := Option.bind_eq_some_iff.mp hread
    split at hread
    · obtain ⟨id, -, hread⟩ := Option.bind_eq_some_iff.mp hread
      obtain ⟨label, -, hread⟩ := Option.bind_eq_some_iff.mp hread
      obtain ⟨kind, hkind, hread⟩ := Option.bind_eq_some_iff.mp hread
      cases hread
      simp [(PortKind.codec false).fits hkind]
    · cases hread

end Port

namespace Variadic

theorem codec : Codec (fun _ => True) toDocument read := by
  refine .record (fun _ => rfl) ?plain ?back ?fits
  case plain =>
    intro v _
    have hport := Port.codec.plain (x := v.port) trivial
    simpa using ⟨hport, .word64 v.defaultCount⟩
  case back =>
    intro v room _ hparts
    have hport := Port.codec.back trivial (hparts ("port", v.port.toDocument) (by simp))
    have hcount := Document.word64?_nat v.defaultCount
    have hfields : v.toDocument.fields? ["port", "defaultCount"] =
      some [some v.port.toDocument, some (.nat v.defaultCount.toNat)] :=
      Document.fields?_keys (by simp)
    rw [toDocument] at hfields
    -- The number is kept closed, or its bound of 64 bits is unfolded along with the reader.
    generalize Document.nat v.defaultCount.toNat = count at hfields hcount ⊢
    simp [read, hfields, hport, hcount]
  case fits =>
    intro room d v hread
    simp only [read] at hread
    obtain ⟨parts, -, hread⟩ := Option.bind_eq_some_iff.mp hread
    split at hread
    · obtain ⟨port, hport, hread⟩ := Option.bind_eq_some_iff.mp hread
      obtain ⟨count, -, hread⟩ := Option.bind_eq_some_iff.mp hread
      cases hread
      simp [Port.codec.fits hport]
    · cases hread

end Variadic

namespace Field

theorem codec : Codec (fun f => f.default.FloatFree) toDocument read := by
  refine .record (fun _ => rfl) ?plain ?back ?fits
  case plain =>
    intro f hf
    have hdefault := (Value.codec false).plain hf
    simpa using ⟨.string f.id, .string f.label, hdefault⟩
  case back =>
    intro f room hf hparts
    have hdefault :=
      (Value.codec false).back hf (hparts ("default", f.default.toDocument) (by simp))
    have hfields : f.toDocument.fields? ["id", "label", "default"] = _ :=
      Document.fields?_keys (by simp)
    rw [toDocument] at hfields
    simp [read, hfields, hdefault]
  case fits =>
    intro room d f hread
    simp only [read] at hread
    obtain ⟨parts, -, hread⟩ := Option.bind_eq_some_iff.mp hread
    split at hread
    · obtain ⟨id, -, hread⟩ := Option.bind_eq_some_iff.mp hread
      obtain ⟨label, -, hread⟩ := Option.bind_eq_some_iff.mp hread
      obtain ⟨value, hvalue, hread⟩ := Option.bind_eq_some_iff.mp hread
      cases hread
      simp [(Value.codec false).fits hvalue]
    · cases hread

end Field

namespace Config

theorem nesting_parts (c : Config) (room : Nat) :
    (c.maxSteps.elim Document.null fun n => .nat n.toNat).nesting ≤ room := by
  cases c.maxSteps with
  | none => simp [Document.nesting]
  | some n => simp

theorem nesting_toDocument_le (c : Config) (room : Nat) : c.toDocument.nesting ≤ room + 1 :=
  Document.nesting_record_le.mpr (by simp [c.nesting_parts room])

theorem read_of_fields {d steps depth strict : Document} {maxSteps : Option UInt64}
    {maxGraphDepth : UInt64} {strictRoots : Bool}
    (hd : d.fields? ["maxSteps", "maxGraphDepth", "strictRoots"] =
      some [some steps, some depth, some strict])
    (hsteps : Document.optional? Document.word64? (some steps) = some maxSteps)
    (hdepth : depth.word64? = some maxGraphDepth) (hstrict : strict.bool? = some strictRoots)
    (room : Nat) : read (room + 1) d = some ⟨maxSteps, maxGraphDepth, strictRoots⟩ := by
  simp [read, hd, hsteps, hdepth, hstrict]

theorem codec : Codec (fun _ => True) toDocument read := by
  refine .record (fun _ => rfl) ?plain ?back ?fits
  case plain =>
    intro c _
    have hsteps : (c.maxSteps.elim Document.null fun n => .nat n.toNat).Plain := by
      cases c.maxSteps with
      | none => exact .null
      | some n => exact .word64 n
    simpa using ⟨hsteps, .word64 c.maxGraphDepth, .bool c.strictRoots⟩
  case back =>
    intro c room _ _
    have hfields : c.toDocument.fields? ["maxSteps", "maxGraphDepth", "strictRoots"] =
      some [some _, some _, some _] := Document.fields?_keys (by simp)
    apply read_of_fields hfields ?_ (Document.word64?_nat c.maxGraphDepth)
      (Document.bool?_bool c.strictRoots)
    cases c.maxSteps with
    | none => rfl
    | some n => exact Document.optional?_of_read (by simp [Document.nat]) (Document.word64?_nat n)
  case fits => exact fun room _ c _ => Document.nesting_record_le.mp (c.nesting_toDocument_le room)

end Config

namespace Handle

/-- A handle as it is handed out: its version is odd, and the null slot has only the first. -/
def Proper (h : Handle) : Prop := if h.idx = nullIdx then h.version = 1 else h.version.toNat % 2 = 1

theorem or_one_of_odd {v : UInt32} (h : v.toNat % 2 = 1) : v ||| 1 = v := by
  apply UInt32.toNat_inj.mp
  rw [UInt32.toNat_or]
  apply Nat.eq_of_testBit_eq
  intro i
  cases i with
  | zero => simp [Nat.testBit_zero, h]
  | succ i => simp [Nat.testBit_succ, Nat.or_div_two]

theorem or_one_odd (v : UInt32) : (v ||| 1).toNat % 2 = 1 := by
  rw [UInt32.toNat_or]
  simp [Nat.or_mod_two_eq_one]

theorem ofParts_of_proper {h : Handle} (hp : h.Proper) : ofParts h.idx h.version = h := by
  obtain ⟨idx, version⟩ := h
  unfold Proper at hp
  unfold ofParts
  dsimp only at hp ⊢
  split
  · rename_i hnull
    rw [if_pos hnull] at hp
    rw [null, ← hnull, hp]
  · rename_i hnull
    rw [if_neg hnull] at hp
    rw [or_one_of_odd hp]

theorem proper_ofParts (idx version : UInt32) : (ofParts idx version).Proper := by
  unfold ofParts
  split
  · rfl
  · rename_i hnull
    unfold Proper
    rw [if_neg hnull]
    exact or_one_odd version

theorem proper_of_read (hread : read room d = some h) : h.Proper := by
  cases room with
  | zero => cases hread
  | succ room =>
    simp only [read] at hread
    obtain ⟨parts, -, hread⟩ := Option.bind_eq_some_iff.mp hread
    split at hread
    · obtain ⟨idx, -, hread⟩ := Option.bind_eq_some_iff.mp hread
      obtain ⟨version, -, hread⟩ := Option.bind_eq_some_iff.mp hread
      cases hread
      exact proper_ofParts idx version
    · cases hread

theorem nesting_toDocument_le (h : Handle) (room : Nat) : h.toDocument.nesting ≤ room + 1 :=
  Document.nesting_record_le.mpr (by simp)

theorem read_of_fields {d i v : Document} {idx version : UInt32}
    (hd : d.fields? ["idx", "version"] = some [some i, some v])
    (hi : i.word32? = some idx) (hv : v.word32? = some version) (room : Nat) :
    read (room + 1) d = some (ofParts idx version) := by
  simp [read, hd, hi, hv]

theorem codec : Codec Proper toDocument read := by
  refine .record (fun _ => rfl) ?plain ?back ?fits
  case plain =>
    intro h _
    simpa using ⟨.word32 h.idx, .word32 h.version⟩
  case back =>
    intro h room hp _
    have hfields : h.toDocument.fields? ["idx", "version"] =
      some [some (.nat h.idx.toNat), some (.nat h.version.toNat)] := Document.fields?_keys (by simp)
    exact (read_of_fields hfields (Document.word32?_nat h.idx)
      (Document.word32?_nat h.version) room).trans (congrArg some (ofParts_of_proper hp))
  case fits => exact fun room _ h _ => Document.nesting_record_le.mp (h.nesting_toDocument_le room)

end Handle

namespace GraphId

theorem foldl_digits {n v : Nat} (hv : v < 16 ^ n) {k : Nat} (hk : k ≤ n) :
    ((List.range k).map fun i => v / 16 ^ (n - 1 - i) % 16).foldl (fun n d => n * 16 + d) 0 =
      v / 16 ^ (n - k) := by
  induction k with
  | zero => simp [Nat.div_eq_of_lt hv]
  | succ k ih =>
    have hsplit : 16 ^ (n - k) = 16 ^ (n - (k + 1)) * 16 := by
      rw [← Nat.pow_succ]
      congr 1
      omega
    have hplace : n - 1 - k = n - (k + 1) := by omega
    rw [List.range_succ, List.map_append, List.foldl_append, ih (by omega), hsplit,
      ← Nat.div_div_eq_div_mul, List.map_singleton, hplace]
    exact Nat.div_add_mod' _ 16

theorem ofDigits?_digits (id : GraphId) : ofDigits? id.digits = some id := by
  have hdigits : id.digits.mapM Document.hexDigit? =
      some ((List.range 32).map fun i => id.value.toNat / 16 ^ (32 - 1 - i) % 16) := by
    have hread (i : Nat) :
        Document.hexDigit? (Nat.digitChar (id.value.toNat / Nat.pow 16 (31 - i) % 16)) =
          some (id.value.toNat / 16 ^ (32 - 1 - i) % 16) :=
      Document.hexDigit?_digitChar _ (by omega)
    rw [digits, List.mapM_map, Function.comp_def]
    simp only [hread]
    exact List.mapM_pure
  have hvalue :=
    foldl_digits (n := 32) (Nat.lt_of_lt_of_eq id.value.isLt (by decide)) (Nat.le_refl 32)
  rw [ofDigits?, hdigits]
  simp only [Option.bind_eq_bind, Option.bind_some]
  rw [hvalue]
  simp [ofNat]

theorem ofHyphenated?_groups (f : Nat → Char) :
    let ds := (List.range 32).map f
    let group (start size : Nat) : List Char := (ds.drop start).take size
    ofHyphenated? (group 0 8 ++ '-' :: group 8 4 ++ '-' :: group 12 4 ++ '-' :: group 16 4 ++
      '-' :: group 20 12) = ofDigits? ds := by
  rfl

theorem ofText?_text (id : GraphId) : ofText? id.text = some id := by
  have hgroups := ofHyphenated?_groups fun i =>
    Nat.digitChar (id.value.toNat / Nat.pow 16 (31 - i) % 16)
  rw [ofText?, text, String.toList_ofList]
  rw [if_neg, if_neg, if_neg]
  · rw [← ofDigits?_digits id]
    exact hgroups
  all_goals simp [digits]

theorem read_toDocument (id : GraphId) : read id.toDocument = some id := by
  rw [read, toDocument, Document.string?_string, Option.bind_some, ofText?_text]

end GraphId

namespace Metadata

theorem nodup_keys (m : Metadata) : (m.parts.map (·.1)).Nodup := by
  unfold parts
  cases m.variadic <;> cases m.fields <;> simp

theorem fields?_toDocument (m : Metadata) :
    m.toDocument.fields? ["nodeType", "category", "label", "description", "inputs", "variadic",
      "outputs", "fields", "isPure", "isRoot"] =
    some [some (.string m.nodeType), some m.category.toDocument, some (.string m.label),
      some (.string m.description), some (.array (m.inputs.map Port.toDocument)),
      m.variadic.map Variadic.toDocument, some (.array (m.outputs.map Port.toDocument)),
      if m.fields = [] then none else some (.array (m.fields.map Field.toDocument)),
      some (.bool m.isPure), some (.bool m.isRoot)] := by
  rw [toDocument, Document.fields?_record m.nodup_keys, parts]
  cases m.variadic <;> cases m.fields <;> rfl

/-- Only variadic inputs and fields may be missing from a text. -/
theorem fields?_optional (m : Metadata) : m.toDocument.fields? ["variadic", "fields"] =
    some [m.variadic.map Variadic.toDocument,
      if m.fields = [] then none else some (.array (m.fields.map Field.toDocument))] := by
  rw [toDocument, Document.fields?_record m.nodup_keys, parts]
  cases m.variadic <;> cases m.fields <;> rfl

theorem forall_parts {m : Metadata} {p : Document → Prop} (htexts : ∀ s, p (.string s))
    (hmarks : ∀ b, p (.bool b)) (hinputs : p (.array (m.inputs.map Port.toDocument)))
    (hvariadic : ∀ v ∈ m.variadic, p v.toDocument)
    (houtputs : p (.array (m.outputs.map Port.toDocument)))
    (hfields : m.fields ≠ [] → p (.array (m.fields.map Field.toDocument))) :
    ∀ part ∈ m.parts, p part.2 := by
  have hcategory : p m.category.toDocument := htexts _
  rw [parts, List.forall_mem_append, List.forall_mem_append, List.forall_mem_append,
    List.forall_mem_append]
  refine ⟨⟨⟨⟨?_, ?_⟩, ?_⟩, ?_⟩, ?_⟩
  · simp [htexts, hcategory, hinputs]
  · simpa using hvariadic
  · simpa using houtputs
  · cases hf : m.fields with
    | nil => simp
    | cons f rest =>
      rw [hf] at hfields
      simpa using hfields
  · simp [hmarks]

theorem items_of_elim {read : Document → Option (List α)} {part : Option Document} {xs : List α}
    (h : part.elim (some []) read = some xs) (hne : xs ≠ []) : ∃ d, read d = some xs := by
  cases part with
  | none => exact (hne (Option.some.inj h).symm).elim
  | some d => exact ⟨d, h⟩

theorem parts_of_read {m : Metadata} (h : read (room + 1) d = some m) :
    (∃ d, readItems Port.read room d = some m.inputs) ∧
    (∀ v ∈ m.variadic, ∃ d, Variadic.read room d = some v) ∧
    (∃ d, readItems Port.read room d = some m.outputs) ∧
    (m.fields ≠ [] → ∃ d, readItems Field.read room d = some m.fields) := by
  simp only [read] at h
  obtain ⟨parts, -, h⟩ := Option.bind_eq_some_iff.mp h
  split at h
  · obtain ⟨nodeType, -, h⟩ := Option.bind_eq_some_iff.mp h
    obtain ⟨category, -, h⟩ := Option.bind_eq_some_iff.mp h
    obtain ⟨label, -, h⟩ := Option.bind_eq_some_iff.mp h
    obtain ⟨description, -, h⟩ := Option.bind_eq_some_iff.mp h
    obtain ⟨inputs, hinputs, h⟩ := Option.bind_eq_some_iff.mp h
    obtain ⟨variadic, hvariadic, h⟩ := Option.bind_eq_some_iff.mp h
    obtain ⟨outputs, houtputs, h⟩ := Option.bind_eq_some_iff.mp h
    obtain ⟨fields, hfields, h⟩ := Option.bind_eq_some_iff.mp h
    obtain ⟨isPure, -, h⟩ := Option.bind_eq_some_iff.mp h
    obtain ⟨isRoot, -, h⟩ := Option.bind_eq_some_iff.mp h
    cases h
    refine ⟨⟨_, hinputs⟩, ?_, ⟨_, houtputs⟩, ?_⟩
    · intro v hv
      cases hv
      exact Document.read_of_optional? hvariadic
    · exact fun hne => items_of_elim hfields hne
  · cases h

theorem codec : Codec (fun m => ∀ f ∈ m.fields, f.default.FloatFree) toDocument read := by
  refine .record (fun _ => rfl) ?plain ?back ?fits
  case plain =>
    intro m hm
    apply forall_parts Document.Plain.string Document.Plain.bool
    · exact Port.codec.items.plain fun _ _ => trivial
    · exact fun v _ => Variadic.codec.plain trivial
    · exact Port.codec.items.plain fun _ _ => trivial
    · exact fun _ => Field.codec.items.plain hm
  case back =>
    intro m room hm hparts
    have hcategory := (Category.codec false).back trivial
      (hparts ("category", m.category.toDocument) (by simp [parts]))
    have hinputs := Port.codec.items.back (fun _ _ => trivial)
      (hparts ("inputs", .array (m.inputs.map Port.toDocument)) (by simp [parts]))
    have houtputs := Port.codec.items.back (fun _ _ => trivial)
      (hparts ("outputs", .array (m.outputs.map Port.toDocument)) (by simp [parts]))
    have hfields :
        (if m.fields = [] then none else some (.array (m.fields.map Field.toDocument))).elim
          (some []) (readItems Field.read room) = some m.fields := by
      split
      · rename_i hf
        rw [hf, Option.elim_none]
      · rename_i hf
        exact Field.codec.items.back hm
          (hparts ("fields", .array (m.fields.map Field.toDocument)) (by simp [parts, hf]))
    have hvariadic : Document.optional? (Variadic.read room) (m.variadic.map Variadic.toDocument) =
        some m.variadic := by
      cases hv : m.variadic with
      | none => rfl
      | some v =>
        have hread := Variadic.codec.back trivial
          (hparts ("variadic", v.toDocument) (by simp [parts, hv]))
        exact Document.optional?_of_read (by simp [Variadic.toDocument, Document.record]) hread
    have hall := m.fields?_toDocument
    rw [toDocument] at hall
    simp [read, hall, hcategory, hinputs, hvariadic, houtputs, hfields]
  case fits =>
    intro room d m hread
    obtain ⟨⟨i, hinputs⟩, hvariadic, ⟨o, houtputs⟩, hfields⟩ := parts_of_read hread
    apply forall_parts (p := fun d => d.nesting ≤ room)
    · simp
    · simp
    · exact Port.codec.items.fits hinputs
    · exact fun v hv => (hvariadic v hv).elim fun _ => Variadic.codec.fits
    · exact Port.codec.items.fits houtputs
    · exact fun hne => (hfields hne).elim fun _ => Field.codec.items.fits

end Metadata

namespace Entry

/-- An entry by a proper handle, if by one at all. -/
def Proper : Entry → Prop
  | .root node => node.Proper
  | .executionInput _ => True

theorem nesting_toDocument_le (entry : Entry) (room : Nat) :
    entry.toDocument.nesting ≤ room + 2 := by
  cases entry with
  | root node => exact Document.nesting_record_le.mpr (by simp [node.nesting_toDocument_le room])
  | executionInput ordinal => exact Document.nesting_record_le.mpr (by simp)

theorem read_of_ordinal {d body n : Document} {ordinal : UInt64}
    (hd : d.variant? "type" = some (.string "executionInput", body))
    (hbody : body.fields? ["ordinal"] = some [some n]) (hn : n.word64? = some ordinal)
    (room : Nat) : read (room + 1) d = some (.executionInput ordinal) := by
  simp [read, hd, hbody, hn, Document.itemTag?, Document.string]

theorem node_of_read {node : Handle} (h : read (room + 1) d = some (.root node)) :
    ∃ d, Handle.read room d = some node := by
  simp only [read] at h
  obtain ⟨⟨tag, body⟩, -, h⟩ := Option.bind_eq_some_iff.mp h
  obtain ⟨tag, -, h⟩ := Option.bind_eq_some_iff.mp h
  split at h
  · obtain ⟨fields, -, h⟩ := Option.bind_eq_some_iff.mp h
    split at h
    · obtain ⟨node, hnode, he⟩ := Option.map_eq_some_iff.mp h
      cases he
      exact ⟨_, hnode⟩
    · cases h
  · obtain ⟨fields, -, h⟩ := Option.bind_eq_some_iff.mp h
    split at h
    · obtain ⟨ordinal, -, he⟩ := Option.map_eq_some_iff.mp h
      cases he
    · cases h
  · cases h

theorem proper_of_read {entry : Entry} (h : read room d = some entry) : entry.Proper := by
  cases room with
  | zero => cases h
  | succ room =>
    cases entry with
    | root node =>
      obtain ⟨part, hnode⟩ := node_of_read h
      exact Handle.proper_of_read hnode
    | executionInput ordinal => trivial

theorem codec : Codec Proper toDocument read where
  plain {entry} hp := by
    cases entry with
    | root node =>
      apply Document.Plain.record
      simpa using ⟨.string "root", Handle.codec.plain hp⟩
    | executionInput ordinal =>
      apply Document.Plain.record
      simpa using ⟨.string "executionInput", .word64 ordinal⟩
  back {entry room} hp hn := by
    cases entry with
    | root node =>
      obtain ⟨inner, rfl, hparts⟩ := Document.room_of_nesting_record hn
      have hvariant : (Entry.root node).toDocument.variant? "type" = _ :=
        Document.variant?_record (by simp)
      have hfields : (Document.record [("node", node.toDocument)]).fields? ["node"] = _ :=
        Document.fields?_keys (by simp)
      have hnode := Handle.codec.back hp (hparts ("node", node.toDocument) (by simp))
      simp [read, hvariant, hfields, hnode, Document.itemTag?, Document.string]
    | executionInput ordinal =>
      obtain ⟨inner, rfl, hparts⟩ := Document.room_of_nesting_record hn
      have hfields : (Document.record [("ordinal", .nat ordinal.toNat)]).fields? ["ordinal"] =
        some [some (.nat ordinal.toNat)] := Document.fields?_keys (by simp)
      exact read_of_ordinal (Document.variant?_record (by simp)) hfields
        (Document.word64?_nat ordinal) inner
  fits {room d entry} hread := by
    cases room with
    | zero => cases hread
    | succ room =>
      cases entry with
      | root node =>
        obtain ⟨part, hnode⟩ := node_of_read hread
        exact Document.nesting_record_le.mpr (by simp [Handle.codec.fits hnode])
      | executionInput ordinal => exact Document.nesting_record_le.mpr (by simp)

end Entry

namespace Occurrence

/-- The handles of an occurrence are as handed out. -/
def Proper : Occurrence → Prop
  | .evaluationStarted entry => entry.Proper
  | o => ∀ node ∈ o.node?, node.Proper

theorem detailNames_tag (o : Occurrence) : detailNames o.tag = some (o.details.map (·.1)) := by
  cases o <;> rfl

theorem plain_details {o : Occurrence} (hp : o.Proper) : ∀ m ∈ o.details, m.2.Plain := by
  cases o with
  | evaluationStarted entry => simpa [details] using Entry.codec.plain hp
  | evaluationCompleted => simp [details]
  | nonRootEntry node text | nodeStarted node text | nodeCompleted node text
  | nodeDropped node text | nodeFailed node text =>
    simpa [details] using ⟨Handle.codec.plain (hp node rfl), .string text⟩
  | nodeDeferred node dependencies =>
    simpa [details] using ⟨Handle.codec.plain (hp node rfl), .word64 dependencies⟩

theorem nesting_details_le (o : Occurrence) (room : Nat) :
    ∀ m ∈ o.details, m.2.nesting ≤ room + 2 := by
  cases o with
  | evaluationStarted entry => simpa [details] using entry.nesting_toDocument_le room
  | evaluationCompleted => simp [details]
  | _ node _ => simpa [details] using node.nesting_toDocument_le (room + 1)

theorem read_deferred {d n : Document} {node : Handle} {dependencies : UInt64}
    (hd : Handle.read room d = some node) (hn : n.word64? = some dependencies) :
    read room "nodeDeferred" [some d, some n] = some (.nodeDeferred node dependencies) := by
  simp [read, hd, hn]

theorem read_details {o : Occurrence} (hp : o.Proper) (hn : ∀ m ∈ o.details, m.2.nesting ≤ room) :
    read room o.tag (o.details.map (some ·.2)) = some o := by
  cases o with
  | evaluationStarted entry =>
    have hentry := Entry.codec.back hp (hn ("entry", entry.toDocument) (by simp [details]))
    simp [read, tag, details, hentry]
  | evaluationCompleted => rfl
  | nonRootEntry node text | nodeStarted node text | nodeCompleted node text
  | nodeDropped node text | nodeFailed node text =>
    have hnode := Handle.codec.back (hp node rfl) (hn ("node", node.toDocument) (by simp [details]))
    simp [read, tag, details, hnode]
  | nodeDeferred node dependencies =>
    have hnode := Handle.codec.back (hp node rfl) (hn ("node", node.toDocument) (by simp [details]))
    exact read_deferred hnode (Document.word64?_nat dependencies)

theorem parts_of_read {o : Occurrence} {name : String} {ds : List (Option Document)}
    (h : read room name ds = some o) :
    (∀ entry, o = .evaluationStarted entry → ∃ d, Entry.read room d = some entry) ∧
    ∀ node ∈ o.node?, ∃ d, Handle.read room d = some node := by
  unfold read at h
  split at h
  case h_1 =>
    obtain ⟨entry, hentry, he⟩ := Option.map_eq_some_iff.mp h
    cases he
    simpa [node?] using ⟨_, hentry⟩
  case h_2 =>
    cases h
    simp [node?]
  case h_9 => cases h
  all_goals
    obtain ⟨node, hnode, h⟩ := Option.bind_eq_some_iff.mp h
    obtain ⟨detail, -, h⟩ := Option.bind_eq_some_iff.mp h
    cases h
    simpa [node?] using ⟨_, hnode⟩

theorem proper_of_read {o : Occurrence} {name : String} {ds : List (Option Document)}
    (h : read room name ds = some o) : o.Proper := by
  obtain ⟨hentry, hnode⟩ := parts_of_read h
  have hproper (node) (hn : node ∈ o.node?) : node.Proper := by
    obtain ⟨d, hd⟩ := hnode node hn
    exact Handle.proper_of_read hd
  cases o with
  | evaluationStarted entry =>
    obtain ⟨d, hd⟩ := hentry entry rfl
    exact Entry.proper_of_read hd
  | _ => exact hproper

theorem nesting_details_of_read {o : Occurrence} {name : String} {ds : List (Option Document)}
    (h : read room name ds = some o) : ∀ m ∈ o.details, m.2.nesting ≤ room := by
  obtain ⟨hentry, hnode⟩ := parts_of_read h
  have hlevels (node) (hn : node ∈ o.node?) : node.toDocument.nesting ≤ room := by
    obtain ⟨d, hd⟩ := hnode node hn
    exact Handle.codec.fits hd
  cases o with
  | evaluationStarted entry =>
    obtain ⟨d, hd⟩ := hentry entry rfl
    simpa [details] using Entry.codec.fits hd
  | evaluationCompleted => simp [details]
  | _ node _ => simpa [details] using hlevels node rfl

end Occurrence

namespace Event

def Proper (e : Event) : Prop := e.occurrence.Proper

theorem nodup_keys (e : Event) :
    ((("type", Document.string e.occurrence.tag) :: e.body).map (·.1)).Nodup := by
  unfold body
  cases e.occurrence <;> simp [Occurrence.details]

theorem nesting_toDocument_le (e : Event) (room : Nat) : e.toDocument.nesting ≤ room + 3 := by
  apply Document.nesting_record_le.mpr
  rw [body, List.forall_mem_cons, List.forall_mem_append]
  refine ⟨by simp, ?_, e.occurrence.nesting_details_le room⟩
  simp [GraphId.toDocument]

theorem plain_body {e : Event} (hp : e.Proper) : ∀ m ∈ e.body, m.2.Plain := by
  rw [body, List.forall_mem_append]
  refine ⟨?_, Occurrence.plain_details hp⟩
  simpa using ⟨.string e.executionId, .string e.graph.text⟩

theorem body_of_read {e : Event} (h : read (room + 1) d = some e) :
    ∃ name ds, Occurrence.read room name ds = some e.occurrence := by
  simp only [read] at h
  obtain ⟨⟨tag, body⟩, -, h⟩ := Option.bind_eq_some_iff.mp h
  obtain ⟨tag, -, h⟩ := Option.bind_eq_some_iff.mp h
  obtain ⟨_, -, h⟩ := Option.bind_eq_some_iff.mp h
  obtain ⟨names, -, h⟩ := Option.bind_eq_some_iff.mp h
  obtain ⟨fields, -, h⟩ := Option.bind_eq_some_iff.mp h
  split at h
  · obtain ⟨executionId, -, h⟩ := Option.bind_eq_some_iff.mp h
    obtain ⟨graph, -, h⟩ := Option.bind_eq_some_iff.mp h
    obtain ⟨occurrence, hoccurrence, h⟩ := Option.bind_eq_some_iff.mp h
    cases h
    exact ⟨_, _, hoccurrence⟩
  · cases h

theorem proper_of_read {e : Event} (h : read room d = some e) : e.Proper := by
  cases room with
  | zero => cases h
  | succ room =>
    obtain ⟨name, ds, hread⟩ := body_of_read h
    exact Occurrence.proper_of_read hread

theorem codec : Codec Proper toDocument read := by
  refine .record (fun _ => rfl) ?plain ?back ?fits
  case plain =>
    intro e hp
    rw [List.forall_mem_cons]
    exact ⟨.string e.occurrence.tag, plain_body hp⟩
  case back =>
    intro e room hp hparts
    obtain ⟨-, hparts⟩ := List.forall_mem_cons.mp hparts
    have hkeys := e.nodup_keys
    have hvariant := Document.variant?_record hkeys
    have hnames : e.body.map (·.1) =
        "executionId" :: "graphId" :: e.occurrence.details.map (·.1) := List.map_append
    have hfields : (Document.record e.body).fields? (e.body.map (·.1)) =
        some (some (.string e.executionId) :: some e.graph.toDocument ::
          e.occurrence.details.map (some ·.2)) :=
      Document.fields?_keys (List.nodup_cons.mp hkeys).2
    have hsound : (Document.record e.body).sound (room + 1) = true := by
      apply (Document.Plain.record (plain_body hp)).sound
      exact Document.nesting_record_le.mpr hparts
    have hoccurrence := Occurrence.read_details hp (List.forall_mem_append.mp hparts).2
    rw [hnames] at hfields
    simp [read, hvariant, hsound, Occurrence.detailNames_tag, hfields, GraphId.read_toDocument,
      hoccurrence]
  case fits =>
    intro room d e hread
    obtain ⟨name, ds, hoccurrence⟩ := body_of_read hread
    rw [body, List.forall_mem_cons, List.forall_mem_append]
    refine ⟨by simp, ?_, Occurrence.nesting_details_of_read hoccurrence⟩
    simp [GraphId.toDocument]

end Event

/-- A declaration whose defaults have no floats and whose text has no more levels than are read, any
configuration, and an event whose handles are as handed out are read back from the text written for
them. A declaration is written without variadic inputs and fields when it has none, and a
configuration with null for a missing step limit. However a text spells a declaration without floats
or an event, what it is read as is read again from its own text. -/
theorem object_text_round_trip :
    (∀ m : Metadata, (∀ f ∈ m.fields, f.default.FloatFree) →
      m.toDocument.nesting ≤ Document.maxDepth →
      Document.decode? Metadata.read m.toDocument.render = some m) ∧
    (∀ m : Metadata, m.toDocument.fields? ["variadic", "fields"] =
      some [m.variadic.map Variadic.toDocument,
        if m.fields = [] then none else some (.array (m.fields.map Field.toDocument))]) ∧
    (∀ c : Config, Document.decode? Config.read c.toDocument.render = some c ∧
      (c.maxSteps = none → c.toDocument.fields? ["maxSteps"] = some [some .null])) ∧
    (∀ e : Event, e.Proper → Document.decode? Event.read e.toDocument.render = some e) ∧
    (∀ (text : String) (m : Metadata), Document.decode? Metadata.read text = some m →
      (∀ f ∈ m.fields, f.default.FloatFree) →
      Document.decode? Metadata.read m.toDocument.render = some m) ∧
    ∀ (text : String) (e : Event), Document.decode? Event.read text = some e →
      Document.decode? Event.read e.toDocument.render = some e := by
  refine ⟨?_, Metadata.fields?_optional, ?_, ?_, ?_, ?_⟩
  · intro m hm hn
    exact Metadata.codec.decode?_render hm hn
  · intro c
    refine ⟨Config.codec.decode?_render trivial (c.nesting_toDocument_le _), ?_⟩
    intro hc
    rw [Config.toDocument, hc, Document.fields?_record (by simp)]
    rfl
  · intro e he
    exact Event.codec.decode?_render he (e.nesting_toDocument_le _)
  · intro text m hread hm
    exact Metadata.codec.decode?_again hread hm
  · intro text e hread
    have he : e.Proper := by
      obtain ⟨d, -, hd⟩ := Option.bind_eq_some_iff.mp hread
      exact Event.proper_of_read hd
    exact Event.codec.decode?_again hread he

namespace Declared

/-- A declaration with all that may be left out. -/
def scale : Metadata where
  nodeType := "scale"
  category := .value
  label := "Scale \"×\""
  description := "a\nb"
  inputs := [⟨"in", "In", .data .any⟩]
  variadic := some ⟨⟨"more", "More", .data .int⟩, 18446744073709551615⟩
  outputs := [⟨"out", "Out", .data .list⟩, ⟨"then", "Then", .execution⟩]
  fields := [⟨"by", "By", .list [.int (-3), .list [], .string "😀"]⟩]
  isPure := false
  isRoot := true

theorem scale_floatFree : ∀ f ∈ scale.fields, f.default.FloatFree := by
  simp [scale, Value.FloatFree, Value.FloatFree.FloatFreeItems]

theorem scale_nesting : scale.toDocument.nesting ≤ Document.maxDepth := by decide +kernel

def deferred : Event := ⟨"run", .ofNat 81985529216486895, .nodeDeferred ⟨4, 4294967295⟩ 2⟩

def entered : Event := ⟨"", .ofNat 0, .evaluationStarted (.root .null)⟩

/-- The parts by position, and in one of them an unknown key and an escape in a key. -/
def spelled : String :=
  "[\"n\", \x7b\"value\": null\x7d, \"\", \"\", [], null, [\x7b\"kind\": [\"execution\", null], " ++
  "\"x\": 1, \"label\": \"L\", \"\\u0069d\": \"i\"\x7d], [], true, false]"

def plain : Metadata where
  nodeType := "n"
  category := .value
  label := ""
  description := ""
  inputs := []
  outputs := [⟨"i", "L", .execution⟩]
  isPure := true
  isRoot := false

end Declared

theorem object_text_round_trip_spellings :
    Document.decode? Metadata.read Declared.scale.toDocument.render = some Declared.scale ∧
    Document.decode? Event.read Declared.deferred.toDocument.render = some Declared.deferred ∧
    Document.decode? Event.read Declared.entered.toDocument.render = some Declared.entered ∧
    Document.decode? Metadata.read Declared.spelled = some Declared.plain ∧
    Document.decode? Metadata.read Declared.plain.toDocument.render = some Declared.plain := by
  obtain ⟨hwritten, -, -, hevent, hagain, -⟩ := object_text_round_trip
  have hspelled : Document.decode? Metadata.read Declared.spelled = some Declared.plain := by
    decide +kernel
  have hdeferred : Declared.deferred.Proper := by
    intro node hnode
    cases hnode
    unfold Handle.Proper
    decide
  exact ⟨hwritten _ Declared.scale_floatFree Declared.scale_nesting, hevent _ hdeferred,
    hevent Declared.entered rfl, hspelled, hagain _ _ hspelled (by simp [Declared.plain])⟩

end Flowgraph
