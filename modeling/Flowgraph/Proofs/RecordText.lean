import Flowgraph.Metadata
import Flowgraph.Proofs.ValueText

namespace Flowgraph

namespace Document

theorem nat_eq_int (n : Nat) : Document.nat n = Document.int n := by
  simp [Document.nat, Document.int, Numeral.ofNat, Numeral.ofInt]

theorem Plain.nat {n : Nat} (fits : n < UInt64.size) : Plain (.nat n) := by
  rw [nat_eq_int]
  exact .int n fits

theorem Plain.word32 (n : UInt32) : Plain (.nat n.toNat) :=
  .nat (Nat.lt_trans n.toNat_lt_size (by decide))

theorem Plain.word64 (n : UInt64) : Plain (.nat n.toNat) := .nat n.toNat_lt_size

theorem natBelow?_nat {bound n : Nat} (hn : n < bound) :
    (Document.nat n).natBelow? bound = some n := by
  rw [nat_eq_int]
  simp [natBelow?, Document.int, integer?, Numeral.int?_ofInt, hn]

theorem word32?_nat (n : UInt32) : (Document.nat n.toNat).word32? = some n := by
  rw [word32?, natBelow?_nat n.toNat_lt_size, Option.map_some, UInt32.ofNat_toNat]

theorem word64?_nat (n : UInt64) : (Document.nat n.toNat).word64? = some n := by
  rw [word64?, natBelow?_nat n.toNat_lt_size, Option.map_some, UInt64.ofNat_toNat]

@[simp] theorem string?_string (s : String) : (Document.string s).string? = some s := rfl

@[simp] theorem bool?_bool (b : Bool) : (Document.bool b).bool? = some b := rfl

/-- A record has a level of its own above those of its parts. -/
theorem room_of_nesting_record {members : List (String × Document)} {room : Nat}
    (h : (Document.record members).nesting ≤ room) :
    ∃ inner, room = inner + 1 ∧ ∀ m ∈ members, m.2.nesting ≤ inner := by
  cases room with
  | zero => simp [Document.record, nesting] at h
  | succ inner => exact ⟨inner, rfl, nesting_record_le.mp h⟩

/-- A record that names each of its parts once has at most one of a name. -/
theorem atMostOne?_named {members : List (String × Document)} (h : (members.map (·.1)).Nodup)
    (name : String) : atMostOne? (named name (members.map fun m => (some m.1, m.2))) =
      some (members.lookup name) := by
  simp only [named, List.filterMap_map, Function.comp_def, Option.some.injEq]
  induction members with
  | nil => rfl
  | cons m members ih =>
    obtain ⟨key, d⟩ := m
    rw [List.map_cons, List.nodup_cons] at h
    by_cases hk : key = name
    · subst hk
      have hrest : members.filterMap (fun m => if m.1 = key then some m.2 else none) = [] := by
        rw [List.filterMap_eq_nil_iff]
        intro m hm
        have hne : m.1 ≠ key := by
          intro he
          apply h.1
          rw [← he]
          exact List.mem_map.mpr ⟨m, hm, rfl⟩
        rw [if_neg hne]
      simp [hrest, atMostOne?]
    · rw [List.filterMap_cons_none (by simp [hk]), ih h.2, List.lookup_cons,
        beq_false_of_ne (Ne.symm hk)]

theorem fields?_record {members : List (String × Document)} (h : (members.map (·.1)).Nodup)
    (names : List String) :
    (Document.record members).fields? names = some (names.map fun name => members.lookup name) := by
  have hkeys : (members.map fun m => (some m.1, m.2)).all (·.1.isSome) = true := by simp
  rw [record, fields?, if_pos hkeys]
  simp only [atMostOne?_named h]
  exact List.mapM_pure

theorem lookup_of_mem {members : List (String × Document)} (h : (members.map (·.1)).Nodup)
    (hm : m ∈ members) : members.lookup m.1 = some m.2 := by
  induction members with
  | nil => cases hm
  | cons first members ih =>
    rw [List.map_cons, List.nodup_cons] at h
    rw [List.lookup_cons]
    rcases List.mem_cons.mp hm with rfl | hm
    · simp
    · have hne : m.1 ≠ first.1 := fun he => h.1 (List.mem_map.mpr ⟨m, hm, he⟩)
      rw [beq_false_of_ne hne]
      exact ih h.2 hm

/-- The names under which a record was written give its parts. -/
theorem fields?_keys {members : List (String × Document)} (h : (members.map (·.1)).Nodup) :
    (Document.record members).fields? (members.map (·.1)) = some (members.map (some ·.2)) := by
  rw [fields?_record h, List.map_map]
  exact congrArg some (List.map_congr_left fun m hm => lookup_of_mem h hm)

theorem optional?_of_read {read : Document → Option α} {d : Document} (hd : d ≠ .null)
    (h : read d = some x) : optional? read (some d) = some (some x) := by
  cases d with
  | null => exact (hd rfl).elim
  | _ => simp [optional?, h]

theorem read_of_optional? {read : Document → Option α} {part : Option Document}
    (h : optional? read part = some (some x)) : ∃ d, read d = some x := by
  unfold optional? at h
  split at h
  · cases h
  · cases h
  · rename_i d _
    obtain ⟨y, hy, he⟩ := Option.map_eq_some_iff.mp h
    cases he
    exact ⟨d, hy⟩

theorem variant?_record {tag : String} {t : Document} {members : List (String × Document)}
    (h : (((tag, t) :: members).map (·.1)).Nodup) :
    (Document.record ((tag, t) :: members)).variant? tag = some (t, .record members) := by
  have hbody : (members.map fun m => (some m.1, m.2)).filter (·.1 ≠ some tag) =
      members.map fun m => (some m.1, m.2) := by
    rw [List.map_cons, List.nodup_cons] at h
    rw [List.filter_eq_self, List.forall_mem_map]
    intro m hm
    have hne : m.1 ≠ tag := fun he => h.1 (List.mem_map.mpr ⟨m, hm, he⟩)
    simpa using hne
  have htag := atMostOne?_named h tag
  rw [List.lookup_cons, beq_self_eq_true] at htag
  rw [record, variant?, htag]
  simp only [Option.bind_eq_bind, Option.bind_some, List.map_cons]
  rw [List.filter_cons_of_neg (by simp), hbody]
  rfl

/-- Whatever is written can be held back. -/
theorem Plain.sound {d : Document} (h : d.Plain) : d.nesting ≤ room → d.sound room = true := by
  induction h generalizing room with
  | null => simp [Document.sound]
  | bool b => simp [Document.sound]
  | int n fits => simp [Document.sound, Document.int, Numeral.readable, Numeral.int?_ofInt, fits]
  | string s => simp [Document.sound, Document.string]
  | array items ih =>
    intro hn
    cases room with
    | zero => simp [nesting] at hn
    | succ room =>
      rw [Document.sound, List.all_eq_true]
      exact fun d hd => ih d hd (nesting_array_le.mp hn d hd)
  | object keys parts ih =>
    intro hn
    cases room with
    | zero => simp [nesting] at hn
    | succ room =>
      rw [Document.sound, List.all_eq_true]
      intro m hm
      rw [Bool.and_eq_true]
      exact ⟨keys m hm, ih m hm (nesting_object_le.mp hn m hm)⟩

end Document

namespace Codec

/-- The names of a finite choice. -/
theorem choice {name : α → String} {ofName? : String → Option α}
    (h : ∀ x, ofName? (name x) = some x) (held : Bool) :
    Codec (fun _ => True) (fun x => .string (name x))
      (fun room d => (d.name? held room).bind ofName?) where
  plain _ := .string _
  back _ _ := by simp [Document.string, Document.name?, h]
  fits _ := by simp

/-- A record is written and read by its parts, one level further in. -/
theorem record {P : α → Prop} {parts : α → List (String × Document)}
    {read : Nat → Document → Option α} (outside : ∀ d, read 0 d = none)
    (plain : ∀ x, P x → ∀ m ∈ parts x, m.2.Plain)
    (back : ∀ x room, P x → (∀ m ∈ parts x, m.2.nesting ≤ room) →
      read (room + 1) (.record (parts x)) = some x)
    (fits : ∀ room d x, read (room + 1) d = some x → ∀ m ∈ parts x, m.2.nesting ≤ room) :
    Codec P (fun x => .record (parts x)) read where
  plain hx := .record (plain _ hx)
  back hx hn := by
    obtain ⟨inner, rfl, hparts⟩ := Document.room_of_nesting_record hn
    exact back _ inner hx hparts
  fits {room d x} hread := by
    cases room with
    | zero =>
      rw [outside] at hread
      cases hread
    | succ room => exact Document.nesting_record_le.mpr (fits room d x hread)

theorem items {P : α → Prop} {write : α → Document} {read : Nat → Document → Option α}
    (h : Codec P write read) : Codec (fun xs => ∀ x ∈ xs, P x) (fun xs => .array (xs.map write))
      (Metadata.readItems read) where
  plain hxs := .array (List.forall_mem_map.mpr fun x hx => h.plain (hxs x hx))
  back {xs room} hxs hn := by
    cases room with
    | zero => simp [Document.nesting] at hn
    | succ room =>
      rw [Document.nesting_array_le, List.forall_mem_map] at hn
      have hitems := mapM_map_ite (f := read room) (g := write) (p := fun _ => True)
        fun x hx => (h.back (hxs x hx) (hn x hx)).trans (if_pos trivial).symm
      rw [Metadata.readItems, hitems, if_pos fun _ _ => trivial]
  fits {room d xs} hread := by
    unfold Metadata.readItems at hread
    split at hread
    · rw [Document.nesting_array_le, List.forall_mem_map]
      intro x hx
      obtain ⟨d, -, hd⟩ := mem_of_mapM hread hx
      exact h.fits hd
    · cases hread

end Codec

end Flowgraph
