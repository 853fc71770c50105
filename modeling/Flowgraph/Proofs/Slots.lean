import Flowgraph.Proofs.Memory

namespace Flowgraph.Arena

/-- How many items an arena can hold. Slot zero stays empty, and the last number names no slot. -/
def capacity : Nat := 4294967294

/-- The list of emptied slots tells which slots can be filled, and every slot has a number of its
own. -/
structure Sound (a : Arena α) : Prop where
  vacant : ∀ i ∈ a.free, ∃ slot, a.slots[i]? = some slot ∧ slot.item = none
  nodup : a.free.Nodup
  count : a.slots.size = a.size + a.free.length + 1
  bound : a.slots.size ≤ capacity + 1

section

variable {a a' : Arena α} {h h' : Handle} {i : Nat} {x y : α} {old : Slot α} {rest : List Nat}

theorem get?_eq_some : a.get? h = some x ↔
    ∃ slot, a.slots[h.idx.toNat]? = some slot ∧ slot.version = h.version ∧ slot.item = some x := by
  unfold get?
  cases a.slots[h.idx.toNat]? with
  | none => simp
  | some slot => by_cases hv : slot.version = h.version <;> simp [hv]

/-- One slot is overwritten and answers to its new version alone; the others stay as they are. -/
theorem get?_put (hi : a.slots[i]? = some old) (slot : Slot α) (free : List Nat) (h : Handle) :
    get? ⟨a.slots.setIfInBounds i slot, free⟩ h =
      if h.idx.toNat = i then (if slot.version = h.version then slot.item else none)
      else a.get? h := by
  unfold get?
  dsimp only
  rw [Array.getElem?_setIfInBounds]
  by_cases hidx : h.idx.toNat = i
  · have hlt := (Array.getElem?_eq_some_iff.mp hi).1
    rw [if_pos hidx, if_pos hidx.symm, if_pos (hidx ▸ hlt)]
  · rw [if_neg hidx, if_neg (Ne.symm hidx)]

/-- Of the handles of one slot only one can be live. -/
theorem get?_eq_none_of_idx (hlive : a.get? h = some x) (hidx : h'.idx = h.idx) (hne : h' ≠ h) :
    a.get? h' = none := by
  obtain ⟨slot, hslot, hv, -⟩ := get?_eq_some.mp hlive
  have hother : slot.version ≠ h'.version := by
    intro he
    apply hne
    cases h
    cases h'
    simp_all
  simp [get?, hidx, hslot, hother]

theorem set_of_live (hlive : a.get? h = some y) (x : α) :
    a.set h x = ⟨a.slots.setIfInBounds h.idx.toNat ⟨h.version, some x⟩, a.free⟩ := by
  simp [set, contains, hlive]

/-- To put back what is there changes nothing. -/
theorem set_self (hlive : a.get? h = some x) : a.set h x = a := by
  obtain ⟨slot, hslot, hv, hitem⟩ := get?_eq_some.mp hlive
  have hsame : (⟨h.version, some x⟩ : Slot α) = slot := by
    rw [← hv, ← hitem]
  obtain ⟨hlt, hget⟩ := Array.getElem?_eq_some_iff.mp hslot
  rw [set_of_live hlive, hsame, ← hget, Array.setIfInBounds, dif_pos hlt, Array.set_getElem_self]

theorem get?_set (hlive : a.get? h = some y) (x : α) (h' : Handle) :
    (a.set h x).get? h' = if h' = h then some x else a.get? h' := by
  obtain ⟨slot, hslot, hv, -⟩ := get?_eq_some.mp hlive
  rw [set_of_live hlive, get?_put hslot]
  by_cases hidx : h'.idx.toNat = h.idx.toNat
  · have hidx' := UInt32.toNat_inj.mp hidx
    by_cases he : h' = h
    · simp [he]
    · have hother : h.version ≠ h'.version := by
        intro hv
        apply he
        cases h
        cases h'
        simp_all
      rw [if_pos hidx, if_neg he, get?_eq_none_of_idx hlive hidx' he]
      exact if_neg hother
  · rw [if_neg hidx, if_neg]
    exact fun he => hidx (by rw [he])

theorem remove_eq_ok (hr : (remove h).run a = (.ok x, a')) : a.get? h = some x ∧
    a' = ⟨a.slots.setIfInBounds h.idx.toNat ⟨h.version + 1, none⟩, h.idx.toNat :: a.free⟩ := by
  cases hlive : a.get? h with
  | none =>
    rw [remove_of_missing hlive] at hr
    cases hr
  | some y =>
    rw [remove_of_live hlive] at hr
    cases hr
    exact ⟨rfl, rfl⟩

theorem get?_remove (hr : (remove h).run a = (.ok x, a')) (h' : Handle) :
    a'.get? h' = if h' = h then none else a.get? h' := by
  obtain ⟨hlive, rfl⟩ := remove_eq_ok hr
  obtain ⟨slot, hslot, -, -⟩ := get?_eq_some.mp hlive
  rw [get?_put hslot]
  by_cases hidx : h'.idx.toNat = h.idx.toNat
  · rw [if_pos hidx, ite_self]
    split
    · rfl
    · rename_i he
      exact (get?_eq_none_of_idx hlive (UInt32.toNat_inj.mp hidx) he).symm
  · rw [if_neg hidx, if_neg]
    exact fun he => hidx (by rw [he])

theorem size_eq_countP (a : Arena α) : a.size = a.slots.toList.countP (·.item.isSome) := by
  unfold size toList
  rw [List.length_filterMap_eq_countP]
  calc
    _ = a.slots.toList.zipIdx.countP ((·.item.isSome) ∘ Prod.fst) := by
      congr 1
      funext entry
      simp
    _ = _ := by rw [← List.countP_map, List.zipIdx_map_fst]

theorem size_put (hi : a.slots[i]? = some old) (slot : Slot α) (free : List Nat) :
    size ⟨a.slots.setIfInBounds i slot, free⟩ + old.item.isSome.toNat =
      a.size + slot.item.isSome.toNat := by
  obtain ⟨hlt, rfl⟩ := Array.getElem?_eq_some_iff.mp hi
  have hlt' : i < a.slots.toList.length := by simpa using hlt
  have hif (b : Bool) : (if b = true then 1 else 0) = b.toNat := by cases b <;> rfl
  -- The count can be lowered by the old item because that one is counted.
  have hle : a.slots[i].item.isSome.toNat ≤ a.slots.toList.countP (·.item.isSome) := by
    cases ho : a.slots[i].item.isSome with
    | false => exact Nat.zero_le _
    | true => exact List.countP_pos_iff.mpr ⟨_, Array.getElem_mem_toList hlt, ho⟩
  rw [size_eq_countP, size_eq_countP, Array.toList_setIfInBounds, List.countP_set hlt', hif, hif,
    Array.getElem_toList]
  omega

theorem Sound.empty : (empty : Arena α).Sound where
  vacant := by simp [Arena.empty]
  nodup := List.nodup_nil
  count := by simp [size_eq_countP, Arena.empty]
  bound := by simp [Arena.empty, capacity]

/-- A slot may be overwritten if it is listed as emptied afterwards exactly when it is empty. -/
theorem Sound.put (ha : a.Sound) (hi : a.slots[i]? = some old) {slot : Slot α} {free : List Nat}
    (hvacant : ∀ j ∈ free, j ≠ i ∧ j ∈ a.free ∨ j = i ∧ slot.item = none) (hnodup : free.Nodup)
    (hcount : free.length + slot.item.isSome.toNat = a.free.length + old.item.isSome.toNat) :
    Sound ⟨a.slots.setIfInBounds i slot, free⟩ := by
  have hlt := (Array.getElem?_eq_some_iff.mp hi).1
  refine ⟨?_, hnodup, ?_, ?_⟩
  · intro j hj
    dsimp only at hj ⊢
    rw [Array.getElem?_setIfInBounds]
    rcases hvacant j hj with ⟨hne, hj⟩ | ⟨rfl, hnone⟩
    · rw [if_neg (Ne.symm hne)]
      exact ha.vacant j hj
    · rw [if_pos rfl, if_pos hlt]
      exact ⟨slot, rfl, hnone⟩
  · have hsize := size_put hi slot free
    have hold := ha.count
    rw [Array.size_setIfInBounds]
    dsimp only
    omega
  · rw [Array.size_setIfInBounds]
    exact ha.bound

/-- The slot of a live handle is not listed as emptied. -/
theorem Sound.not_vacant (ha : a.Sound) (hlive : a.get? h = some x) : h.idx.toNat ∉ a.free := by
  intro hi
  obtain ⟨slot, hslot, -, hitem⟩ := get?_eq_some.mp hlive
  obtain ⟨vacant, hvacant, hnone⟩ := ha.vacant _ hi
  rw [hslot] at hvacant
  cases hvacant
  rw [hitem] at hnone
  cases hnone

theorem Sound.set (ha : a.Sound) (hlive : a.get? h = some y) (x : α) : (a.set h x).Sound := by
  obtain ⟨slot, hslot, -, hitem⟩ := get?_eq_some.mp hlive
  rw [set_of_live hlive]
  refine ha.put hslot ?_ ha.nodup (by simp [hitem])
  intro j hj
  refine .inl ⟨?_, hj⟩
  rintro rfl
  exact ha.not_vacant hlive hj

theorem Sound.remove (ha : a.Sound) (hr : (remove h).run a = (.ok x, a')) : a'.Sound := by
  obtain ⟨hlive, rfl⟩ := remove_eq_ok hr
  obtain ⟨slot, hslot, -, hitem⟩ := get?_eq_some.mp hlive
  have hnew := ha.not_vacant hlive
  refine ha.put hslot ?_ (List.nodup_cons.mpr ⟨hnew, ha.nodup⟩) (by simp [hitem])
  intro j hj
  rcases List.mem_cons.mp hj with rfl | hj
  · exact .inr ⟨rfl, rfl⟩
  · refine .inl ⟨?_, hj⟩
    rintro rfl
    exact hnew hj

/-- A slot that was emptied is filled again under its next version. -/
theorem Sound.insert_of_cons (ha : a.Sound) (hf : a.free = i :: rest) (x : α) :
    ∃ slot, a.slots[i]? = some slot ∧ slot.item = none ∧ (UInt32.ofNat i).toNat = i ∧
      a.insert x = (⟨UInt32.ofNat i, slot.version ||| 1⟩,
        ⟨a.slots.setIfInBounds i ⟨slot.version ||| 1, some x⟩, rest⟩) := by
  obtain ⟨slot, hslot, hnone⟩ := ha.vacant i (by simp [hf])
  have hlt := (Array.getElem?_eq_some_iff.mp hslot).1
  have hbound := ha.bound
  refine ⟨slot, hslot, hnone, ?_, by simp [insert, hf, hslot]⟩
  apply UInt32.toNat_ofNat_of_lt'
  simp only [capacity, UInt32.size] at hbound ⊢
  omega

/-- An arena without an emptied slot gets a new one. -/
theorem Sound.insert_of_nil (ha : a.Sound) (hroom : a.size < capacity) (hf : a.free = []) (x : α) :
    a.slots.size ≤ capacity ∧ (UInt32.ofNat a.slots.size).toNat = a.slots.size ∧
      a.insert x = (⟨UInt32.ofNat a.slots.size, 1⟩, ⟨a.slots.push ⟨1, some x⟩, []⟩) := by
  have hcount := ha.count
  rw [hf, List.length_nil] at hcount
  refine ⟨by omega, ?_, by simp [insert, hf]⟩
  apply UInt32.toNat_ofNat_of_lt'
  simp only [capacity, UInt32.size] at hroom ⊢
  omega

/-- The handle that an arena gives out next is not live yet. -/
theorem Sound.get?_fresh (ha : a.Sound) (hroom : a.size < capacity) (x : α) :
    a.get? (a.insert x).1 = none := by
  cases hf : a.free with
  | cons i rest =>
    obtain ⟨slot, hslot, hnone, hi, he⟩ := ha.insert_of_cons hf x
    simp [he, get?, hi, hslot, hnone]
  | nil =>
    obtain ⟨-, hi, he⟩ := ha.insert_of_nil hroom hf x
    simp [he, get?, hi]

theorem Sound.get?_insert (ha : a.Sound) (hroom : a.size < capacity) (x : α) (h : Handle) :
    (a.insert x).2.get? h = if h = (a.insert x).1 then some x else a.get? h := by
  cases hf : a.free with
  | cons i rest =>
    obtain ⟨slot, hslot, hnone, hi, he⟩ := ha.insert_of_cons hf x
    rw [he, get?_put hslot]
    by_cases hidx : h.idx.toNat = i
    · obtain ⟨idx, version⟩ := h
      obtain rfl : idx = UInt32.ofNat i := by
        rw [← hidx, UInt32.ofNat_toNat]
      have hold : a.get? ⟨UInt32.ofNat i, version⟩ = none := by simp [get?, hi, hslot, hnone]
      simp [hi, hold, eq_comm]
    · rw [if_neg hidx, if_neg]
      rintro rfl
      exact hidx hi
  | nil =>
    obtain ⟨-, hi, he⟩ := ha.insert_of_nil hroom hf x
    rw [he]
    by_cases hidx : h.idx.toNat = a.slots.size
    · obtain ⟨idx, version⟩ := h
      obtain rfl : idx = UInt32.ofNat a.slots.size := by
        rw [← hidx, UInt32.ofNat_toNat]
      simp [get?, hi, eq_comm]
    · rw [if_neg]
      · simp [get?, Array.getElem?_push, hidx]
      · rintro rfl
        exact hidx hi

theorem Sound.insert (ha : a.Sound) (hroom : a.size < capacity) (x : α) : (a.insert x).2.Sound := by
  cases hf : a.free with
  | cons i rest =>
    obtain ⟨slot, hslot, hnone, -, he⟩ := ha.insert_of_cons hf x
    have hnodup := ha.nodup
    rw [hf, List.nodup_cons] at hnodup
    rw [he]
    refine ha.put hslot ?_ hnodup.2 (by simp [hf, hnone])
    intro j hj
    refine .inl ⟨?_, by simp [hf, hj]⟩
    rintro rfl
    exact hnodup.1 hj
  | nil =>
    obtain ⟨hle, -, he⟩ := ha.insert_of_nil hroom hf x
    have hcount := ha.count
    rw [hf, List.length_nil, size_eq_countP] at hcount
    rw [he]
    refine ⟨by simp, List.nodup_nil, ?_, ?_⟩
    · simp only [size_eq_countP, Array.toList_push, Array.size_push, List.countP_append,
        Option.isSome_some, List.countP_cons_of_pos, List.countP_nil, List.length_nil]
      omega
    · simpa using hle

end

end Flowgraph.Arena
