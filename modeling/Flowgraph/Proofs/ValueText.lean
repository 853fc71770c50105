import Flowgraph.Proofs.DocumentText
import Flowgraph.Value
import Mathlib.Data.Option.Basic

namespace Flowgraph

namespace Document

/-- How deep arrays and objects are nested in a document. -/
def nesting : Document → Nat
  | .array items => nestingItems items + 1
  | .object members => nestingMembers members + 1
  | _ => 0
where
  nestingItems : List Document → Nat
    | [] => 0
    | d :: rest => max d.nesting (nestingItems rest)
  nestingMembers : List (Option String × Document) → Nat
    | [] => 0
    | (_, d) :: rest => max d.nesting (nestingMembers rest)

@[simp] theorem nesting_bool (b : Bool) : (Document.bool b).nesting = 0 := by rw [nesting] <;> simp

@[simp] theorem nesting_int (n : Int) : (Document.int n).nesting = 0 := by
  rw [Document.int, nesting] <;> simp

@[simp] theorem nesting_nat (n : Nat) : (Document.nat n).nesting = 0 := by
  rw [Document.nat, nesting] <;> simp

@[simp] theorem nesting_string (s : String) : (Document.string s).nesting = 0 := by
  rw [Document.string, nesting] <;> simp

theorem nestingItems_le {ds : List Document} {room : Nat} :
    nesting.nestingItems ds ≤ room ↔ ∀ d ∈ ds, d.nesting ≤ room := by
  induction ds with
  | nil => simp [nesting.nestingItems]
  | cons d ds ih => rw [nesting.nestingItems, Nat.max_le, ih, List.forall_mem_cons]

theorem nestingMembers_le {members : List (Option String × Document)} {room : Nat} :
    nesting.nestingMembers members ≤ room ↔ ∀ m ∈ members, m.2.nesting ≤ room := by
  induction members with
  | nil => simp [nesting.nestingMembers]
  | cons m members ih => rw [nesting.nestingMembers, Nat.max_le, ih, List.forall_mem_cons]

theorem nesting_array_le {ds : List Document} {room : Nat} :
    (Document.array ds).nesting ≤ room + 1 ↔ ∀ d ∈ ds, d.nesting ≤ room := by
  rw [nesting, Nat.add_le_add_iff_right, nestingItems_le]

theorem nesting_object_le {members : List (Option String × Document)} {room : Nat} :
    (Document.object members).nesting ≤ room + 1 ↔ ∀ m ∈ members, m.2.nesting ≤ room := by
  rw [nesting, Nat.add_le_add_iff_right, nestingMembers_le]

theorem nesting_record_le {members : List (String × Document)} {room : Nat} :
    (Document.record members).nesting ≤ room + 1 ↔ ∀ m ∈ members, m.2.nesting ≤ room := by
  rw [record, nesting_object_le, List.forall_mem_map]

theorem tagged?_pair {tag content : String} (hne : tag ≠ content) (tags : List String) (t : String)
    (c : Document) (held : Bool) (room : Nat) :
    (Document.record [(tag, .string t), (content, c)]).tagged? tags tag content held room =
      some ⟨t, some c, held⟩ := by
  simp [record, tagged?, named, atMostOne?, Document.string, name?, hne, hne.symm]

theorem tagged?_lone {tag content : String} (hne : tag ≠ content) (tags : List String) (t : String)
    (held : Bool) (room : Nat) :
    (Document.record [(tag, .string t)]).tagged? tags tag content held room =
      some ⟨t, none, held⟩ := by
  simp [record, tagged?, named, atMostOne?, Document.string, name?, hne]

end Document

/-- The objects that satisfy `P` are written without loss: as plain documents, from which they are
read back in as many levels as these have. Whatever is read takes no more levels to write. -/
structure Codec (P : α → Prop) (write : α → Document) (read : Nat → Document → Option α) :
    Prop where
  plain : P x → (write x).Plain
  back : P x → (write x).nesting ≤ room → read room (write x) = some x
  fits : read room d = some x → (write x).nesting ≤ room

namespace Codec

variable {P : α → Prop} {write : α → Document} {read : Nat → Document → Option α}

theorem decode?_render (h : Codec P write read) (hx : P x)
    (hn : (write x).nesting ≤ Document.maxDepth) :
    Document.decode? read (write x).render = some x := by
  rw [Document.decode?, Document.parse_render (h.plain hx), Option.bind_some, h.back hx hn]

/-- What has been read from a text is read again from its own. -/
theorem decode?_again (h : Codec P write read) {text : String}
    (hread : Document.decode? read text = some x) (hx : P x) :
    Document.decode? read (write x).render = some x := by
  obtain ⟨d, -, hd⟩ := Option.bind_eq_some_iff.mp hread
  exact h.decode?_render hx (h.fits hd)

end Codec

theorem mem_of_mapM {f : α → Option β} {as : List α} {bs : List β} (h : as.mapM f = some bs)
    (hb : b ∈ bs) : ∃ a ∈ as, f a = some b := by
  induction as generalizing bs with
  | nil =>
    cases h
    cases hb
  | cons a as ih =>
    rw [List.mapM_cons] at h
    obtain ⟨first, hfirst, h⟩ := Option.bind_eq_some_iff.mp h
    obtain ⟨others, hothers, h⟩ := Option.bind_eq_some_iff.mp h
    cases h
    rcases List.mem_cons.mp hb with rfl | hb
    · exact ⟨a, List.mem_cons_self, hfirst⟩
    · obtain ⟨a', ha', hf⟩ := ih hothers hb
      exact ⟨a', List.mem_cons_of_mem _ ha', hf⟩

theorem mapM_map_ite {f : β → Option α} {g : α → β} {p : α → Prop} [DecidablePred p] {as : List α}
    (h : ∀ a ∈ as, f (g a) = if p a then some a else none) :
    (as.map g).mapM f = if ∀ a ∈ as, p a then some as else none := by
  induction as with
  | nil => simp
  | cons a as ih =>
    obtain ⟨ha, has⟩ := List.forall_mem_cons.mp h
    rw [List.map_cons, List.mapM_cons, ha, ih has]
    by_cases hp : p a
    · by_cases hps : ∀ b ∈ as, p b
      · rw [if_pos hp, if_pos hps, if_pos (List.forall_mem_cons.mpr ⟨hp, hps⟩)]
        rfl
      · rw [if_pos hp, if_neg hps, if_neg fun hall => hps (List.forall_mem_cons.mp hall).2]
        rfl
    · rw [if_neg hp, if_neg fun hall => hp (List.forall_mem_cons.mp hall).1]
      rfl

namespace Value

/-- No float occurs in the value. -/
def FloatFree : Value → Prop
  | .float _ => False
  | .list items => FloatFreeItems items
  | _ => True
where
  FloatFreeItems : List Value → Prop
    | [] => True
    | v :: rest => v.FloatFree ∧ FloatFreeItems rest

theorem floatFreeItems_iff {items : List Value} :
    FloatFree.FloatFreeItems items ↔ ∀ v ∈ items, v.FloatFree := by
  induction items with
  | nil => simp [FloatFree.FloatFreeItems]
  | cons v items ih => simp [FloatFree.FloatFreeItems, ih]

theorem toDocuments_eq_map (items : List Value) : toDocuments items = items.map toDocument := by
  induction items with
  | nil => simp [toDocuments]
  | cons v items ih => simp [toDocuments, ih]

theorem toDocument_list (items : List Value) :
    toDocument (.list items) = tagDocument "list" (.array (items.map toDocument)) := by
  rw [toDocument, toDocuments_eq_map]

theorem tagged?_tagDocument (tags : List String) (tag : String) (content : Document) (held : Bool)
    (room : Nat) : (tagDocument tag content).tagged? tags "type" "value" held room =
      some ⟨tag, some content, held⟩ :=
  Document.tagged?_pair (by decide) tags tag content held room

theorem nesting_floatDocument (x : Float) : (floatDocument x).nesting = 0 := by
  unfold floatDocument
  split <;> rfl

/-- Induction over values, with the items of a list at hand. -/
@[elab_as_elim]
theorem nested_induction {P : Value → Prop} (null : P .null) (bool : ∀ b, P (.bool b))
    (int : ∀ n, P (.int n)) (float : ∀ x, P (.float x)) (string : ∀ s, P (.string s))
    (list : ∀ items, (∀ v ∈ items, P v) → P (.list items)) (v : Value) : P v :=
  @Value.rec P (fun items => ∀ v ∈ items, P v) null bool int float string list
    (List.forall_mem_nil _) (fun _ _ hv hvs => List.forall_mem_cons.mpr ⟨hv, hvs⟩) v

theorem plain_tagDocument {tag : String} {content : Document} (h : content.Plain) :
    (tagDocument tag content).Plain := by
  apply Document.Plain.record
  simpa using ⟨Document.Plain.string tag, h⟩

theorem plain_toDocument (v : Value) (h : v.FloatFree) : v.toDocument.Plain := by
  induction v using nested_induction with
  | null => exact .record (by simpa using Document.Plain.string "null")
  | bool b => exact plain_tagDocument (.bool b)
  | int n =>
    refine plain_tagDocument (.int n.toInt ?_)
    have hmin := n.le_toInt
    have hmax := n.toInt_lt
    simp only [UInt64.size]
    omega
  | float x => exact h.elim
  | string s => exact plain_tagDocument (.string s)
  | list items ih =>
    rw [toDocument_list]
    apply plain_tagDocument
    apply Document.Plain.array
    intro d hd
    obtain ⟨v, hv, rfl⟩ := List.mem_map.mp hd
    exact ih v hv (floatFreeItems_iff.mp h v hv)

theorem nesting_tagDocument (tag : String) (content : Document) :
    (tagDocument tag content).nesting = content.nesting + 1 := by
  simp [tagDocument, Document.record, Document.nesting, Document.nesting.nestingMembers,
    Document.string]

theorem nesting_toDocument_pos (v : Value) : 0 < v.toDocument.nesting := by
  cases v with
  | null => simp [toDocument, Document.record, Document.nesting]
  | _ => simp [toDocument, nesting_tagDocument]

/-- A list takes two levels more than what is in it. -/
theorem nesting_list_le {items : List Value} {room : Nat} :
    (toDocument (.list items)).nesting ≤ room + 2 ↔ ∀ v ∈ items, v.toDocument.nesting ≤ room := by
  rw [toDocument_list, nesting_tagDocument, Nat.add_le_add_iff_right, Document.nesting_array_le,
    List.forall_mem_map]

theorem nesting_list_gt (items : List Value) : 1 < (toDocument (.list items)).nesting := by
  simp [toDocument_list, nesting_tagDocument, Document.nesting]

theorem depthItems_le {items : List Value} {n : Nat} :
    depth.depthItems items ≤ n ↔ ∀ v ∈ items, v.depth ≤ n := by
  induction items with
  | nil => simp [depth.depthItems]
  | cons v items ih => rw [depth.depthItems, Nat.max_le, ih, List.forall_mem_cons]

/-- Each list costs two levels of the document and each value one. -/
theorem nesting_toDocument_le_iff (v : Value) (n : Nat) :
    v.toDocument.nesting ≤ 2 * n + 1 ↔ v.depth ≤ n := by
  induction v using nested_induction generalizing n with
  | null =>
    simp [toDocument, Document.record, Document.string, Document.nesting,
      Document.nesting.nestingMembers, depth]
  | bool b => simp [toDocument, nesting_tagDocument, Document.nesting, depth]
  | int k => simp [toDocument, nesting_tagDocument, Document.int, Document.nesting, depth]
  | float x => simp [toDocument, nesting_tagDocument, nesting_floatDocument, depth]
  | string s => simp [toDocument, nesting_tagDocument, Document.string, Document.nesting, depth]
  | list items ih =>
    cases n with
    | zero =>
      have := nesting_list_gt items
      simp [depth]
      omega
    | succ n =>
      rw [depth, Nat.add_le_add_iff_right, depthItems_le, Nat.mul_succ, Nat.add_right_comm,
        nesting_list_le]
      exact forall₂_congr fun v hv => ih v hv n

theorem int64?_int (n : Int64) : (Document.int n.toInt).int64? = some n := by
  have hrange : Int64.minValue.toInt ≤ n.toInt ∧ n.toInt ≤ Int64.maxValue.toInt :=
    ⟨n.minValue_le_toInt, n.toInt_le⟩
  simp [Document.int64?, Document.int, Document.integer?, Numeral.int?_ofInt]
  simpa using hrange

theorem read_leaf {v : Value} {held : Bool} (hleaf : v.depth = 0)
    (hread : ∀ room, read held (room + 1) v.toDocument = some v) (room : Nat) :
    read held room v.toDocument = if v.toDocument.nesting ≤ room then some v else none := by
  have hlow := v.nesting_toDocument_pos
  have hhigh := (v.nesting_toDocument_le_iff 0).mpr (Nat.le_of_eq hleaf)
  cases room with
  | zero => rw [if_neg (Nat.not_le_of_lt hlow), read]
  | succ room => rw [if_pos (by omega), hread]

/-- A value is read back from its document exactly if there is room for all levels of that. -/
theorem read_toDocument (held : Bool) (room : Nat) (v : Value) (h : v.FloatFree) :
    read held room v.toDocument = if v.toDocument.nesting ≤ room then some v else none := by
  induction v using nested_induction generalizing room with
  | null =>
    apply read_leaf rfl
    intro room
    have htag : (Document.record [("type", .string "null")]).tagged? tags "type" "value" held room =
      some ⟨"null", none, held⟩ := Document.tagged?_lone (by decide) tags "null" held room
    simp [read, toDocument, htag]
  | bool b =>
    apply read_leaf rfl
    simp [read, toDocument, tagged?_tagDocument, Document.bool?]
  | int n =>
    apply read_leaf rfl
    simp [read, toDocument, tagged?_tagDocument, int64?_int]
  | float x => exact h.elim
  | string s =>
    apply read_leaf rfl
    simp [read, toDocument, tagged?_tagDocument, Document.string, Document.string?]
  | list items ih =>
    have hitems := floatFreeItems_iff.mp h
    have hlevels := nesting_list_gt items
    rcases room with _ | _ | room
    · rw [if_neg (by omega), read]
    · rw [if_neg (by omega), toDocument_list]
      simp [read, tagged?_tagDocument]
    · have hread := mapM_map_ite fun v hv => ih v hv room (hitems v hv)
      by_cases hfit : ∀ v ∈ items, v.toDocument.nesting ≤ room
      · rw [if_pos hfit] at hread
        rw [if_pos (nesting_list_le.mpr hfit), toDocument_list]
        simp [read, tagged?_tagDocument, hread]
      · rw [if_neg hfit] at hread
        rw [if_neg (hfit ∘ nesting_list_le.mp), toDocument_list]
        simp [read, tagged?_tagDocument, hread]

theorem nesting_le_of_read {held : Bool} {room : Nat} {d : Document} {v : Value}
    (h : read held room d = some v) : v.toDocument.nesting ≤ room := by
  induction room using Nat.strongRecOn generalizing held d v with
  | ind room ih =>
    cases room with
    | zero => simp [read] at h
    | succ room =>
      rw [read] at h
      obtain ⟨t, -, h⟩ := Option.bind_eq_some_iff.mp h
      have leaf {w : Value} (hw : w.depth = 0) : w.toDocument.nesting ≤ room + 1 := by
        have hone := (w.nesting_toDocument_le_iff 0).mpr (Nat.le_of_eq hw)
        omega
      split at h
      · cases h
        exact leaf rfl
      · cases h
        exact leaf rfl
      · obtain ⟨b, -, rfl⟩ := Option.map_eq_some_iff.mp h
        exact leaf rfl
      · obtain ⟨n, -, rfl⟩ := Option.map_eq_some_iff.mp h
        exact leaf rfl
      · obtain ⟨x, -, rfl⟩ := Option.map_eq_some_iff.mp h
        exact leaf rfl
      · obtain ⟨s, -, rfl⟩ := Option.map_eq_some_iff.mp h
        exact leaf rfl
      · cases room with
        | zero => simp at h
        | succ room =>
          obtain ⟨vs, hvs, rfl⟩ := Option.map_eq_some_iff.mp h
          rw [nesting_list_le]
          intro v hv
          obtain ⟨d, -, hd⟩ := mem_of_mapM hvs hv
          exact ih room (by omega) hd
      · cases h

theorem codec (held : Bool) : Codec FloatFree toDocument (read held) where
  plain := plain_toDocument _
  back h hn := by rw [read_toDocument held _ _ h, if_pos hn]
  fits := nesting_le_of_read

end Value

/-- A value without floats is read back from the text written for it exactly if its lists are nested
at most 63 deep; one nested deeper cannot be read. Whatever value without floats a text is read as,
however it is spelled there, the text written for that value is read as the same. -/
theorem value_text_round_trip :
    (∀ v : Value, v.FloatFree → Document.decode? (Value.read false) v.toDocument.render =
      if v.depth ≤ 63 then some v else none) ∧
    ∀ (text : String) (v : Value), Document.decode? (Value.read false) text = some v →
      v.FloatFree → Document.decode? (Value.read false) v.toDocument.render = some v := by
  constructor
  · intro v h
    rw [Document.decode?, Document.parse_render (v.plain_toDocument h), Option.bind_some,
      Value.read_toDocument false _ v h]
    exact if_congr (v.nesting_toDocument_le_iff 63) rfl rfl
  · intro text v hread h
    exact (Value.codec false).decode?_again hread h

namespace Value

/-- A text inside `n` lists. -/
def nested : Nat → Value
  | 0 => .string "\"\\\n\t\x01é😀"
  | n + 1 => .list [nested n]

theorem nested_floatFree (n : Nat) : (nested n).FloatFree := by
  induction n with
  | zero => trivial
  | succ n ih => exact ⟨ih, trivial⟩

theorem depth_nested (n : Nat) : (nested n).depth = n := by
  induction n with
  | zero => rfl
  | succ n ih => simp [nested, depth, depth.depthItems, ih]

/-- A list as a pair, with blanks, an unknown key, the content in front of its tag and an escape. -/
def spelled : String :=
  "[ \"list\", [\x7b\"value\": -5, \"x\": [[]], \"\\u0074ype\": \"int\"\x7d] ]"

end Value

theorem value_text_round_trip_limits :
    Document.decode? (Value.read false) (Value.nested 63).toDocument.render =
      some (Value.nested 63) ∧
    Document.decode? (Value.read false) (Value.nested 64).toDocument.render = none ∧
    Document.decode? (Value.read false) Value.spelled = some (.list [.int (-5)]) ∧
    Document.decode? (Value.read false) (Value.list [.int (-5)]).toDocument.render =
      some (.list [.int (-5)]) := by
  obtain ⟨hwritten, hagain⟩ := value_text_round_trip
  have hspelled : Document.decode? (Value.read false) Value.spelled = some (.list [.int (-5)]) := by
    decide +kernel
  refine ⟨?_, ?_, hspelled, hagain _ _ hspelled ⟨trivial, trivial⟩⟩
  · rw [hwritten _ (Value.nested_floatFree 63), Value.depth_nested, if_pos (Nat.le_refl 63)]
  · rw [hwritten _ (Value.nested_floatFree 64), Value.depth_nested, if_neg (by decide)]

end Flowgraph
