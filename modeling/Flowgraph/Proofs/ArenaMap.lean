import Flowgraph.Proofs.CycleSearch
import Flowgraph.Proofs.Slots
import Mathlib.Data.List.Induction

namespace Flowgraph.Arena

variable {α : Type}

/-- What can be asked of an arena. An item is changed where it stands, and a clone is used in place
of the arena it was made from. -/
inductive Request (α : Type) where
  | insert (x : α)
  | get (h : Handle)
  | modify (h : Handle) (f : α → α)
  | remove (h : Handle)
  | contains (h : Handle)
  | size
  | list
  | clone

inductive Answer (α : Type) where
  | handle (h : Handle)
  | item (x : α)
  | failed (e : Error)
  | flag (b : Bool)
  | count (n : Nat)
  | entries (list : List (Handle × α))
  | done

def Answer.ofExcept : Except Error α → Answer α
  | .ok x => .item x
  | .error e => .failed e

/-- The answer to a request and the arena it leaves, whether it succeeds or fails. -/
def serve (a : Arena α) : Request α → Answer α × Arena α
  | .insert x => (.handle (a.insert x).1, (a.insert x).2)
  | .get h => (.ofExcept (a.get h), a)
  | .modify h f =>
    let (answer, a') := (update h (modifyGet fun x => (x, f x))).run a
    (.ofExcept answer, a')
  | .remove h =>
    let (answer, a') := (Arena.remove h).run a
    (.ofExcept answer, a')
  | .contains h => (.flag (a.contains h), a)
  | .size => (.count a.size, a)
  | .list => (.entries a.toList, a)
  | .clone => (.done, a)

/-- Requests and their answers, the oldest first. -/
abbrev Record (α : Type) := List (Request α × Answer α)

/-- An arena after some requests since it was empty, with the answers it gave. -/
def serveAll (requests : List (Request α)) : Arena α × Record α :=
  requests.foldl (fun (a, past) r => ((a.serve r).2, past ++ [(r, (a.serve r).1)])) (empty, [])

def issued? : Request α × Answer α → Option Handle
  | (.insert _, .handle h) => some h
  | _ => none

def removed? : Request α × Answer α → Option Handle
  | (.remove h, .item _) => some h
  | _ => none

/-- The handles that were given out. -/
def issued (past : Record α) : List Handle := past.filterMap issued?

/-- The handles whose items were taken away. -/
def removed (past : Record α) : List Handle := past.filterMap removed?

def note (contents : Handle → Option α) : Request α × Answer α → Handle → Option α
  | (.insert x, .handle h) => Function.update contents h (some x)
  | (.modify h f, .item x) => Function.update contents h (some (f x))
  | (.remove h, .item _) => Function.update contents h none
  | _ => contents

/-- The finite map that a record tells of: what was put under each handle last, unless it was taken
away. -/
def remembered (past : Record α) : Handle → Option α := past.foldl note fun _ => none

/-- The entries of a finite map, ordered by slot. -/
structure Lists (contents : Handle → Option α) (entries : List (Handle × α)) : Prop where
  complete : ∀ h x, (h, x) ∈ entries ↔ contents h = some x
  ordered : (entries.map (·.1.idx)).Pairwise (· < ·)

/-- What a finite map answers that gives out a new handle for every item. -/
inductive Answers (contents : Handle → Option α) (given : List Handle) :
    Request α → Answer α → Prop where
  | insert (fresh : h ∉ given) : Answers contents given (.insert x) (.handle h)
  | get (found : contents h = some x) : Answers contents given (.get h) (.item x)
  | getMissing (missing : contents h = none) :
      Answers contents given (.get h) (.failed (.nodeNotFound h))
  | modify (found : contents h = some x) : Answers contents given (.modify h f) (.item x)
  | modifyMissing (missing : contents h = none) :
      Answers contents given (.modify h f) (.failed (.nodeNotFound h))
  | remove (found : contents h = some x) : Answers contents given (.remove h) (.item x)
  | removeMissing (missing : contents h = none) :
      Answers contents given (.remove h) (.failed (.nodeNotFound h))
  | contains : Answers contents given (.contains h) (.flag (contents h).isSome)
  | size (lists : Lists contents entries) : Answers contents given .size (.count entries.length)
  | list (lists : Lists contents entries) : Answers contents given .list (.entries entries)
  | clone : Answers contents given .clone .done

/-- The handle was given out for a slot of the arena. While the slot is filled the handle's version
may be the slot's own; once it is emptied the slot has a later one. -/
structure GaveOut (a : Arena α) (h : Handle) : Prop where
  idx : h.idx ≠ Handle.nullIdx
  odd : h.version.toNat % 2 = 1
  slot : ∃ slot, a.slots[h.idx.toNat]? = some slot ∧
    h.version.toNat + (!slot.item.isSome).toNat ≤ slot.version.toNat

/-- A slot's version counts how often it was filled and how often it was emptied. -/
def Slot.Aged (slot : Slot α) (removals : Nat) : Prop :=
  ∃ k ≤ removals, slot.version.toNat = 2 * k + slot.item.isSome.toNat

/-- The versions of an arena's slots tell live handles from the others it gave out. -/
structure Versioned (a : Arena α) (removals : Nat) (given : List Handle) : Prop where
  aged : ∀ (i : Nat) (slot : Slot α), a.slots[i]? = some slot → slot.Aged removals
  given : ∀ h ∈ given, a.GaveOut h

section

variable {a a' : Arena α} {h : Handle} {x y : α} {old slot : Slot α} {given : List Handle}
variable {i k removals removals' : Nat} {rest : List Nat}

theorem toNat_or_one {v : UInt32} (hv : v.toNat = 2 * k) : (v ||| 1).toNat = 2 * k + 1 := by
  rw [UInt32.toNat_or, hv]
  exact (Nat.two_pow_add_eq_or_of_lt (i := 1) (b := 1) (by decide) k).symm

theorem GaveOut.put (hh : a.GaveOut h) (hi : a.slots[i]? = some old) (free : List Nat)
    (hnewer : old.version.toNat + (!slot.item.isSome).toNat ≤
      slot.version.toNat + (!old.item.isSome).toNat) :
    GaveOut ⟨a.slots.setIfInBounds i slot, free⟩ h := by
  have hlt := (Array.getElem?_eq_some_iff.mp hi).1
  obtain ⟨slot', hslot, hversion⟩ := hh.slot
  refine ⟨hh.idx, hh.odd, ?_⟩
  dsimp only
  rw [Array.getElem?_setIfInBounds]
  by_cases he : i = h.idx.toNat
  · rw [if_pos he, if_pos (he ▸ hlt)]
    rw [← he, hi] at hslot
    cases hslot
    exact ⟨slot, rfl, by omega⟩
  · rw [if_neg he]
    exact ⟨slot', hslot, hversion⟩

theorem Versioned.empty : (empty : Arena α).Versioned 0 [] := by
  constructor
  · intro i slot hi
    obtain ⟨hlt, rfl⟩ := Array.getElem?_eq_some_iff.mp hi
    obtain rfl : i = 0 := Nat.lt_one_iff.mp hlt
    exact ⟨0, Nat.le_refl 0, rfl⟩
  · exact List.forall_mem_nil _

theorem Versioned.put (hv : a.Versioned removals given) (hi : a.slots[i]? = some old)
    (hle : removals ≤ removals') (free : List Nat) (haged : slot.Aged removals')
    (hnewer : old.version.toNat + (!slot.item.isSome).toNat ≤
      slot.version.toNat + (!old.item.isSome).toNat) :
    Versioned ⟨a.slots.setIfInBounds i slot, free⟩ removals' given := by
  have hlt := (Array.getElem?_eq_some_iff.mp hi).1
  refine ⟨?_, fun h hh => (hv.given h hh).put hi free hnewer⟩
  intro j slot' hj
  dsimp only at hj
  rw [Array.getElem?_setIfInBounds] at hj
  by_cases he : i = j
  · rw [if_pos he, if_pos (he ▸ hlt)] at hj
    cases hj
    exact haged
  · rw [if_neg he] at hj
    obtain ⟨k, hk, hversion⟩ := hv.aged j slot' hj
    exact ⟨k, Nat.le_trans hk hle, hversion⟩

theorem Versioned.push (hv : a.Versioned removals given) (x : α) :
    Versioned ⟨a.slots.push ⟨1, some x⟩, []⟩ removals given := by
  constructor
  · intro i slot hi
    dsimp only at hi
    rw [Array.getElem?_push] at hi
    by_cases he : i = a.slots.size
    · rw [if_pos he] at hi
      cases hi
      exact ⟨0, Nat.zero_le _, rfl⟩
    · rw [if_neg he] at hi
      exact hv.aged i slot hi
  · intro h hh
    obtain ⟨hidx, hodd, slot, hslot, hversion⟩ := hv.given h hh
    refine ⟨hidx, hodd, slot, ?_, hversion⟩
    have hlt := (Array.getElem?_eq_some_iff.mp hslot).1
    dsimp only
    rw [Array.getElem?_push, if_neg (Nat.ne_of_lt hlt), hslot]

theorem Versioned.extend (hv : a.Versioned removals given) (hh : a.GaveOut h) :
    a.Versioned removals (given ++ [h]) := by
  refine ⟨hv.aged, ?_⟩
  intro h' hh'
  rcases List.mem_append.mp hh' with hh' | hh'
  · exact hv.given h' hh'
  · rwa [List.mem_singleton.mp hh']

theorem ofNat_ne_nullIdx (hi : (UInt32.ofNat i).toNat = i) (hle : i ≤ capacity) :
    UInt32.ofNat i ≠ Handle.nullIdx := by
  intro he
  rw [he] at hi
  subst hi
  exact absurd hle (by decide)

/-- A new handle differs from every one given out before. -/
theorem Versioned.insert (hv : a.Versioned removals given) (ha : a.Sound)
    (hroom : a.size < capacity) (x : α) : (a.insert x).1 ∉ given ∧
      (a.insert x).2.Versioned removals (given ++ [(a.insert x).1]) := by
  cases hf : a.free with
  | cons i rest =>
    obtain ⟨slot, hslot, hnone, hi, he⟩ := ha.insert_of_cons hf x
    have hlt := (Array.getElem?_eq_some_iff.mp hslot).1
    obtain ⟨k, hk, haged⟩ := hv.aged i slot hslot
    rw [hnone, Option.isSome_none, Bool.toNat_false] at haged
    have hversion := toNat_or_one haged
    rw [he]
    constructor
    · -- The slot is empty, so the handles it was given out under have earlier versions.
      intro hh
      obtain ⟨-, -, slot', hslot', hle⟩ := hv.given _ hh
      dsimp only at hslot' hle
      rw [hi, hslot] at hslot'
      cases hslot'
      omega
    · apply Versioned.extend
      · apply hv.put hslot (Nat.le_refl removals) rest ⟨k, hk, hversion⟩
        dsimp only
        rw [hversion, Option.isSome_some, Bool.not_true, Bool.toNat_false]
        omega
      · refine ⟨ofNat_ne_nullIdx hi ?_, ?_, ⟨slot.version ||| 1, some x⟩, ?_, Nat.le_refl _⟩
        · have hbound := ha.bound
          omega
        · dsimp only
          omega
        · dsimp only
          rw [hi, Array.getElem?_setIfInBounds, if_pos rfl, if_pos hlt]
  | nil =>
    obtain ⟨hle, hi, he⟩ := ha.insert_of_nil hroom hf x
    rw [he]
    constructor
    · intro hh
      obtain ⟨-, -, slot, hslot, -⟩ := hv.given _ hh
      dsimp only at hslot
      rw [hi] at hslot
      exact absurd (Array.getElem?_eq_some_iff.mp hslot).1 (Nat.lt_irrefl _)
    · apply (hv.push x).extend
      refine ⟨ofNat_ne_nullIdx hi hle, rfl, ⟨1, some x⟩, ?_, Nat.le_refl _⟩
      simp [hi]

theorem Versioned.remove (hv : a.Versioned removals given) (hr : (Arena.remove h).run a = (.ok x, a'))
    (hroom : removals + 1 < 2147483648) : a'.Versioned (removals + 1) given := by
  obtain ⟨hlive, rfl⟩ := remove_eq_ok hr
  obtain ⟨slot, hslot, hversion, hitem⟩ := get?_eq_some.mp hlive
  obtain ⟨k, hk, haged⟩ := hv.aged _ slot hslot
  rw [hitem, hversion, Option.isSome_some, Bool.toNat_true] at haged
  -- The version does not wrap around, since it is at most twice the number of removals.
  have hnext : (h.version + 1).toNat = 2 * (k + 1) := by
    rw [UInt32.toNat_add, UInt32.toNat_one, Nat.mod_eq_of_lt] <;> omega
  refine hv.put hslot (Nat.le_succ removals) _ ⟨k + 1, by omega, hnext⟩ ?_
  simp only [hitem, hversion, hnext, haged, Option.isSome_some, Option.isSome_none, Bool.not_true,
    Bool.not_false, Bool.toNat_true, Bool.toNat_false]
  omega

theorem Versioned.set (hv : a.Versioned removals given) (hlive : a.get? h = some y) (x : α) :
    (a.set h x).Versioned removals given := by
  obtain ⟨slot, hslot, hversion, hitem⟩ := get?_eq_some.mp hlive
  rw [set_of_live hlive]
  apply hv.put hslot (Nat.le_refl removals)
  · obtain ⟨k, hk, haged⟩ := hv.aged _ slot hslot
    rw [hitem, hversion] at haged
    exact ⟨k, hk, haged⟩
  · simp [hitem, hversion]

theorem Sound.lists (ha : a.Sound) : Lists a.get? a.toList := by
  have hnum {slot : Slot α} {i : Nat} (hi : (slot, i) ∈ a.slots.toList.zipIdx) :
      (UInt32.ofNat i).toNat = i := by
    have hlt := List.snd_lt_of_mem_zipIdx hi
    have hbound := ha.bound
    apply UInt32.toNat_ofNat_of_lt'
    simp only [capacity, UInt32.size, Array.length_toList] at hlt hbound ⊢
    omega
  constructor
  · intro h x
    refine ⟨fun hmem => ?_, mem_toList⟩
    obtain ⟨⟨slot, i⟩, hi, hentry⟩ := List.mem_filterMap.mp hmem
    obtain ⟨y, hy, he⟩ := Option.map_eq_some_iff.mp hentry
    cases he
    refine get?_eq_some.mpr ⟨slot, ?_, rfl, hy⟩
    dsimp only
    rw [hnum hi]
    simpa using List.mk_mem_zipIdx_iff_getElem?.mp hi
  · have hsorted : a.slots.toList.zipIdx.Pairwise (fun p q => p.2 < q.2) := by
      rw [← List.pairwise_map (f := Prod.snd) (R := (· < ·)), List.zipIdx_map_snd]
      exact List.pairwise_lt_range'
    unfold toList
    rw [List.pairwise_map, List.pairwise_filterMap]
    refine hsorted.imp_of_mem ?_
    intro p q hp hq hlt entry hentry entry' hentry'
    obtain ⟨y, -, rfl⟩ := Option.map_eq_some_iff.mp hentry
    obtain ⟨y', -, rfl⟩ := Option.map_eq_some_iff.mp hentry'
    rw [UInt32.lt_iff_toNat_lt]
    dsimp only
    rwa [hnum hp, hnum hq]

end

/-- What holds of an arena whose answers so far are on record. -/
structure Kept (a : Arena α) (past : Record α) : Prop where
  sound : a.Sound
  versioned : a.Versioned (removed past).length (issued past)
  distinct : (issued past).Nodup
  contents : ∀ h, remembered past h = a.get? h
  live : ∀ h, (a.get? h).isSome ↔ h ∈ issued past ∧ h ∉ removed past
  withdrawn : removed past ⊆ issued past

section

variable {a a' : Arena α} {h : Handle} {x y : α} {past : Record α} {e : Request α × Answer α}

@[simp] theorem issued_append : issued (past ++ [e]) = issued past ++ (issued? e).toList := by
  cases he : issued? e <;> simp [issued, he]

@[simp] theorem removed_append : removed (past ++ [e]) = removed past ++ (removed? e).toList := by
  cases he : removed? e <;> simp [removed, he]

theorem remembered_append : remembered (past ++ [e]) = note (remembered past) e :=
  List.foldl_concat ..

theorem serve_get (hlive : a.get? h = some x) : a.serve (.get h) = (.item x, a) := by
  rw [serve, get_eq_ok.mpr hlive]
  rfl

theorem serve_modify (hlive : a.get? h = some x) (f : α → α) :
    a.serve (.modify h f) = (.item x, a.set h (f x)) := by
  rw [serve, update_of_live hlive]
  rfl

theorem serve_remove (hlive : a.get? h = some x) :
    ∃ a', (Arena.remove h).run a = (.ok x, a') ∧ a.serve (.remove h) = (.item x, a') := by
  refine ⟨_, remove_of_live hlive, ?_⟩
  rw [serve, remove_of_live hlive]
  rfl

theorem serve_get_missing (hnone : a.get? h = none) :
    a.serve (.get h) = (.failed (.nodeNotFound h), a) := by
  rw [serve, get_of_missing hnone]
  rfl

theorem serve_modify_missing (hnone : a.get? h = none) (f : α → α) :
    a.serve (.modify h f) = (.failed (.nodeNotFound h), a) := by
  rw [serve, update_of_missing hnone]
  rfl

theorem serve_remove_missing (hnone : a.get? h = none) :
    a.serve (.remove h) = (.failed (.nodeNotFound h), a) := by
  rw [serve, remove_of_missing hnone]
  rfl

theorem serveAll_append (requests : List (Request α)) (r : Request α) :
    serveAll (requests ++ [r]) = (((serveAll requests).1.serve r).2,
      (serveAll requests).2 ++ [(r, ((serveAll requests).1.serve r).1)]) :=
  List.foldl_concat ..

theorem get?_empty (h : Handle) : (empty : Arena α).get? h = none := by
  cases hg : (empty : Arena α).get? h with
  | none => rfl
  | some x =>
    obtain ⟨slot, hslot, -, hitem⟩ := get?_eq_some.mp hg
    obtain ⟨hlt, rfl⟩ := Array.getElem?_eq_some_iff.mp hslot
    simp [Arena.empty] at hitem

theorem Kept.empty : Kept (empty : Arena α) [] where
  sound := .empty
  versioned := .empty
  distinct := List.nodup_nil
  contents := fun h => (get?_empty h).symm
  live := by simp [get?_empty, issued]
  withdrawn := List.nil_subset _

/-- An arena holds no more items than it gave out handles. -/
theorem Kept.size_le (hk : Kept a past) : a.size ≤ (issued past).length := by
  have hlists := hk.sound.lists
  have hnodup : (a.toList.map Prod.fst).Nodup := by
    have hordered := List.pairwise_map.mp hlists.ordered
    refine List.pairwise_map.mpr (hordered.imp ?_)
    intro p q hlt he
    rw [he] at hlt
    exact absurd hlt (UInt32.lt_irrefl _)
  have hsub : a.toList.map Prod.fst ⊆ issued past := by
    intro h hh
    obtain ⟨⟨_, x⟩, hx, rfl⟩ := List.mem_map.mp hh
    have hlive := (hlists.complete _ x).mp hx
    exact ((hk.live _).mp (by rw [hlive]; rfl)).1
  have hle := (hnodup.subperm hsub).length_le
  rwa [List.length_map] at hle

/-- A request that changes nothing keeps everything. -/
theorem Kept.idle (hk : Kept a past) (hissued : issued? e = none) (hremoved : removed? e = none)
    (hnote : note (remembered past) e = remembered past) : Kept a (past ++ [e]) := by
  have hissued : issued (past ++ [e]) = issued past := by simp [hissued]
  have hremoved : removed (past ++ [e]) = removed past := by simp [hremoved]
  refine ⟨hk.sound, ?_, ?_, ?_, ?_, ?_⟩
  all_goals simp only [remembered_append, hissued, hremoved, hnote]
  exacts [hk.versioned, hk.distinct, hk.contents, hk.live, hk.withdrawn]

theorem Kept.insert (hk : Kept a past) (hroom : a.size < capacity) (x : α) :
    Kept (a.insert x).2 (past ++ [(.insert x, .handle (a.insert x).1)]) := by
  obtain ⟨hfresh, hversioned⟩ := hk.versioned.insert hk.sound hroom x
  have hget := hk.sound.get?_insert hroom x
  have hissued : issued (past ++ [(.insert x, .handle (a.insert x).1)]) =
      issued past ++ [(a.insert x).1] := issued_append
  have hremoved : removed (past ++ [(.insert x, .handle (a.insert x).1)]) = removed past := by
    simp [removed?]
  refine ⟨hk.sound.insert hroom x, ?_, ?_, ?_, ?_, ?_⟩
  · rwa [hissued, hremoved]
  · rw [hissued]
    refine List.nodup_append.mpr ⟨hk.distinct, List.pairwise_singleton _ _, ?_⟩
    intro h hh h' hh' he
    rw [he, List.mem_singleton.mp hh'] at hh
    exact hfresh hh
  · intro h
    rw [remembered_append, hget, ← hk.contents]
    exact Function.update_apply ..
  · intro h
    rw [hissued, hremoved, hget]
    by_cases he : h = (a.insert x).1
    · subst he
      have hkept : (a.insert x).1 ∉ removed past := fun hh => hfresh (hk.withdrawn hh)
      simp [hkept]
    · simp [he, hk.live]
  · rw [hissued, hremoved]
    exact List.Subset.trans hk.withdrawn (List.subset_append_left _ _)

theorem Kept.modify (hk : Kept a past) (hlive : a.get? h = some x) (f : α → α) :
    Kept (a.set h (f x)) (past ++ [(.modify h f, .item x)]) := by
  have hget := get?_set hlive (f x)
  have hissued : issued (past ++ [(.modify h f, .item x)]) = issued past := by simp [issued?]
  have hremoved : removed (past ++ [(.modify h f, .item x)]) = removed past := by simp [removed?]
  refine ⟨hk.sound.set hlive _, ?_, hissued ▸ hk.distinct, ?_, ?_, ?_⟩
  · rw [hissued, hremoved]
    exact hk.versioned.set hlive _
  · intro h'
    rw [remembered_append, hget, ← hk.contents]
    exact Function.update_apply ..
  · intro h'
    rw [hissued, hremoved, hget, ← hk.live]
    by_cases he : h' = h
    · simp [he, hlive]
    · rw [if_neg he]
  · rw [hissued, hremoved]
    exact hk.withdrawn

theorem Kept.remove (hk : Kept a past) (hr : (Arena.remove h).run a = (.ok x, a'))
    (hroom : (removed past).length + 1 < 2147483648) :
    Kept a' (past ++ [(.remove h, .item x)]) := by
  have hget := get?_remove hr
  have hlive := (remove_eq_ok hr).1
  have hgiven : h ∈ issued past := ((hk.live h).mp (by rw [hlive]; rfl)).1
  have hissued : issued (past ++ [(.remove h, .item x)]) = issued past := by simp [issued?]
  have hremoved : removed (past ++ [(.remove h, .item x)]) = removed past ++ [h] := removed_append
  refine ⟨hk.sound.remove hr, ?_, hissued ▸ hk.distinct, ?_, ?_, ?_⟩
  · rw [hissued, hremoved, List.length_append]
    exact hk.versioned.remove hr hroom
  · intro h'
    rw [remembered_append, hget, ← hk.contents]
    exact Function.update_apply ..
  · intro h'
    rw [hissued, hremoved, hget]
    by_cases he : h' = h
    · simp [he]
    · simp [he, hk.live]
  · rw [hissued, hremoved]
    intro h' hh'
    rcases List.mem_append.mp hh' with hh' | hh'
    · exact hk.withdrawn hh'
    · rwa [List.mem_singleton.mp hh']

/-- One request more. -/
theorem Kept.serve (hk : Kept a past) (r : Request α) (hroom : (issued past).length < capacity)
    (hremovals : (removed (past ++ [(r, (a.serve r).1)])).length < 2147483648) :
    Kept (a.serve r).2 (past ++ [(r, (a.serve r).1)]) := by
  cases r with
  | insert x => exact hk.insert (Nat.lt_of_le_of_lt hk.size_le hroom) x
  | get h =>
    cases hg : a.get? h with
    | some x =>
      rw [serve_get hg]
      exact hk.idle rfl rfl rfl
    | none =>
      rw [serve_get_missing hg]
      exact hk.idle rfl rfl rfl
  | modify h f =>
    cases hg : a.get? h with
    | some x =>
      rw [serve_modify hg]
      exact hk.modify hg f
    | none =>
      rw [serve_modify_missing hg]
      exact hk.idle rfl rfl rfl
  | remove h =>
    cases hg : a.get? h with
    | some x =>
      obtain ⟨a', hr, hserve⟩ := serve_remove hg
      rw [hserve] at hremovals ⊢
      apply hk.remove hr
      simpa [removed?] using hremovals
    | none =>
      rw [serve_remove_missing hg]
      exact hk.idle rfl rfl rfl
  | contains h => exact hk.idle rfl rfl rfl
  | size => exact hk.idle rfl rfl rfl
  | list => exact hk.idle rfl rfl rfl
  | clone => exact hk.idle rfl rfl rfl

/-- Versions do not wrap around and slot numbers do not run out within these bounds. -/
theorem serveAll_kept (requests : List (Request α))
    (hinserts : (issued (serveAll requests).2).length < 4294967294)
    (hremovals : (removed (serveAll requests).2).length < 2147483648) :
    Kept (serveAll requests).1 (serveAll requests).2 := by
  induction requests using List.reverseRecOn with
  | nil => exact .empty
  | append_singleton requests r ih =>
    rw [serveAll_append] at hinserts hremovals ⊢
    have hinserts' : (issued (serveAll requests).2).length < 4294967294 := by
      rw [issued_append, List.length_append] at hinserts
      omega
    apply (ih hinserts' ?_).serve r hinserts' hremovals
    rw [removed_append, List.length_append] at hremovals
    omega

theorem Kept.answers (hk : Kept a past) (hroom : a.size < capacity) (r : Request α) :
    Answers (remembered past) (issued past) r (a.serve r).1 := by
  have hcontents : remembered past = a.get? := funext hk.contents
  rw [hcontents]
  cases r with
  | insert x => exact .insert (hk.versioned.insert hk.sound hroom x).1
  | get h =>
    cases hg : a.get? h with
    | some x =>
      rw [serve_get hg]
      exact .get hg
    | none =>
      rw [serve_get_missing hg]
      exact .getMissing hg
  | modify h f =>
    cases hg : a.get? h with
    | some x =>
      rw [serve_modify hg]
      exact .modify hg
    | none =>
      rw [serve_modify_missing hg]
      exact .modifyMissing hg
  | remove h =>
    cases hg : a.get? h with
    | some x =>
      obtain ⟨a', -, hserve⟩ := serve_remove hg
      rw [hserve]
      exact .remove hg
    | none =>
      rw [serve_remove_missing hg]
      exact .removeMissing hg
  | contains h => exact .contains
  | size => exact .size hk.sound.lists
  | list => exact .list hk.sound.lists
  | clone => exact .clone

/-- A request fails only for want of an item, before it changes anything. -/
theorem serve_failed {r : Request α} {e : Error} (he : (a.serve r).1 = .failed e) :
    (a.serve r).2 = a := by
  cases r with
  | get h => rfl
  | modify h f =>
    cases hg : a.get? h with
    | none => rw [serve_modify_missing hg]
    | some x =>
      rw [serve_modify hg] at he
      cases he
  | remove h =>
    cases hg : a.get? h with
    | none => rw [serve_remove_missing hg]
    | some x =>
      obtain ⟨a', -, hserve⟩ := serve_remove hg
      rw [hserve] at he
      cases he
  | insert x => cases he
  | contains h => cases he
  | size => cases he
  | list => cases he
  | clone => cases he

end

/-- An arena is a finite map whose keys are never used twice. Every answer is the map's answer, a
handle finds an item exactly from when it was given out until the item is taken away, and a request
that fails changes nothing. -/
theorem refines_map (requests : List (Request α)) {a : Arena α} {past : Record α}
    (hrun : serveAll requests = (a, past)) (hinserts : (issued past).length < 4294967294)
    (hremovals : (removed past).length < 2147483648) :
    (issued past).Nodup ∧
    (∀ h ∈ issued past, h.idx ≠ Handle.nullIdx ∧ h.version.toNat % 2 = 1) ∧
    (∀ h, (remembered past h).isSome ↔ h ∈ issued past ∧ h ∉ removed past) ∧
    (∀ r, Answers (remembered past) (issued past) r (a.serve r).1) ∧
    ∀ r e, (a.serve r).1 = .failed e → (a.serve r).2 = a := by
  have hk : Kept a past := by
    have hk := serveAll_kept requests
    rw [hrun] at hk
    exact hk hinserts hremovals
  refine ⟨hk.distinct, ?_, ?_, ?_, fun r e he => serve_failed he⟩
  · intro h hh
    have hgave := hk.versioned.given h hh
    exact ⟨hgave.idx, hgave.odd⟩
  · intro h
    rw [hk.contents]
    exact hk.live h
  · exact hk.answers (Nat.lt_of_le_of_lt hk.size_le hinserts)

/-- A slot is emptied and filled again, and the first handle is tried once more. -/
def Reuse.requests : List (Request Nat) :=
  [.insert 7, .insert 8, .remove ⟨1, 1⟩, .clone, .insert 9, .modify ⟨2, 1⟩ (· + 5), .remove ⟨1, 1⟩]

theorem refines_map_reuse :
    let past := (serveAll Reuse.requests).2
    issued past = [⟨1, 1⟩, ⟨2, 1⟩, ⟨1, 3⟩] ∧ removed past = [⟨1, 1⟩] ∧ (issued past).Nodup ∧
    remembered past ⟨1, 1⟩ = none ∧
    Answers (remembered past) (issued past) (.get ⟨1, 1⟩) (.failed (.nodeNotFound ⟨1, 1⟩)) ∧
    Answers (remembered past) (issued past) .list (.entries [(⟨1, 3⟩, 9), (⟨2, 1⟩, 13)]) ∧
    Answers (remembered past) (issued past) (.insert 6) (.handle ⟨3, 1⟩) := by
  obtain ⟨hnodup, -, hlive, hanswers, -⟩ := refines_map Reuse.requests rfl (by decide) (by decide)
  refine ⟨rfl, rfl, hnodup, ?_, hanswers (.get ⟨1, 1⟩), hanswers .list, hanswers (.insert 6)⟩
  have hstale := (hlive ⟨1, 1⟩).not.mpr (by decide)
  rwa [Option.isSome_iff_ne_none, not_not] at hstale

end Flowgraph.Arena
