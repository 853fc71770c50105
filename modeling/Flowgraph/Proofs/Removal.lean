import Flowgraph.Proofs.ArenaMap
import Flowgraph.Proofs.LiveHandles
import Mathlib.Data.List.Sort

namespace Flowgraph

namespace Table

variable [DecidableEq κ] {t : Table κ ν}

theorem get?_filter_key (t : Table κ ν) (p : κ → Bool) (k : κ) :
    (t.filter fun k _ => p k).get? k = if p k then t.get? k else none := by
  obtain ⟨es⟩ := t
  unfold get? filter
  induction es with
  | nil => simp [lookup]
  | cons e rest ih =>
    by_cases hk : e.1 = k
    · subst hk
      cases hp : p e.1 <;> simp_all [lookup]
    · cases hp : p e.1 <;> simp_all [lookup]

/-- Where no key stands twice, the values that are left are those that pass. -/
theorem get?_filter (hd : t.keys.Nodup) (p : κ → ν → Bool) (k : κ) :
    (t.filter p).get? k = (t.get? k).filter (p k) := by
  obtain ⟨es⟩ := t
  unfold get? filter
  unfold keys at hd
  induction es with
  | nil => rfl
  | cons e rest ih =>
    rw [List.map_cons, List.nodup_cons] at hd
    by_cases hk : e.1 = k
    · subst hk
      -- A later entry of the key would come to light once the first is gone.
      have hnone : lookup e.1 rest = none := by
        cases hl : lookup e.1 rest with
        | none => rfl
        | some v => exact absurd (List.mem_map.mpr ⟨_, mem_of_lookup hl, rfl⟩) hd.1
      cases hp : p e.1 e.2 <;> simp_all [lookup, Option.filter]
    · cases hp : p e.1 e.2 <;> simp_all [lookup]

theorem get?_mapValues (t : Table κ ν) (f : ν → ν) (k : κ) :
    (t.mapValues f).get? k = (t.get? k).map f := by
  obtain ⟨es⟩ := t
  unfold get? mapValues
  induction es with
  | nil => rfl
  | cons e rest ih => by_cases hk : e.1 = k <;> simp_all [lookup]

theorem nodup_keys_insert (hd : t.keys.Nodup) (k : κ) (v : ν) : (t.insert k v).keys.Nodup := by
  obtain ⟨es⟩ := t
  unfold keys insert at *
  induction es with
  | nil => simp [put]
  | cons e rest ih =>
    rw [List.map_cons, List.nodup_cons] at hd
    unfold put
    split
    · rename_i hk
      rw [List.map_cons, List.nodup_cons]
      exact ⟨hk ▸ hd.1, hd.2⟩
    · rename_i hk
      rw [List.map_cons, List.nodup_cons]
      refine ⟨?_, ih hd.2⟩
      intro hm
      obtain ⟨entry, hentry, he⟩ := List.mem_map.mp hm
      rcases mem_put hentry with rfl | hold
      · exact hk he.symm
      · exact hd.1 (List.mem_map.mpr ⟨entry, hold, he⟩)

end Table

namespace Arena

variable {a a' : Arena α} {h : Handle} {x y : α}

/-- A finite map is listed in one way only. -/
theorem Lists.unique {contents : Handle → Option α} {entries entries' : List (Handle × α)}
    (hl : Lists contents entries) (hl' : Lists contents entries') : entries = entries' := by
  have : Std.Irrefl fun p q : Handle × α => p.1.idx < q.1.idx :=
    ⟨fun p => UInt32.lt_irrefl p.1.idx⟩
  have : Std.Antisymm fun p q : Handle × α => p.1.idx < q.1.idx :=
    ⟨fun p q hlt hgt => absurd hlt (UInt32.lt_asymm hgt)⟩
  refine (List.pairwise_map.mp hl.ordered).eq_of_mem_iff (List.pairwise_map.mp hl'.ordered) ?_
  rintro ⟨h, x⟩
  exact (hl.complete h x).trans (hl'.complete h x).symm

theorem Lists.filter {contents contents' : Handle → Option α} {entries : List (Handle × α)}
    (hl : Lists contents entries) (p : Handle → Bool)
    (hc : ∀ h, contents' h = if p h then contents h else none) :
    Lists contents' (entries.filter fun e => p e.1) := by
  constructor
  · intro h x
    rw [List.mem_filter, hl.complete, hc]
    cases p h <;> simp
  · exact hl.ordered.sublist (List.filter_sublist.map _)

theorem Sound.toList_remove (ha : a.Sound) (hr : (Arena.remove h).run a = (.ok x, a')) :
    a'.toList = a.toList.filter fun e => e.1 ≠ h := by
  refine (ha.remove hr).lists.unique (ha.lists.filter (fun h' => h' ≠ h) ?_)
  intro h'
  rw [get?_remove hr]
  by_cases he : h' = h <;> simp [he]

/-- The slot of the handle has gone on to another version, and so has whatever fills it next. -/
def Stale (a : Arena α) (h : Handle) : Prop :=
  ∃ slot, a.slots[h.idx.toNat]? = some slot ∧ slot.version ≠ h.version ∧
    slot.version ||| 1 ≠ h.version

theorem succ_or_one_ne (v : UInt32) : (v + 1) ||| 1 ≠ v := by
  intro he
  have hodd : v.toNat % 2 = 1 := by
    rw [← he, UInt32.toNat_or, Nat.or_mod_two_eq_one]
    exact .inr rfl
  have hnext : (v + 1).toNat = (v.toNat + 1) % 4294967296 := by
    rw [UInt32.toNat_add]
    rfl
  have heven : (v + 1).toNat = 2 * ((v + 1).toNat / 2) := by omega
  have hsame := toNat_or_one heven
  rw [he] at hsame
  omega

theorem or_one_or_one (v : UInt32) : (v ||| 1) ||| 1 = v ||| 1 := by
  rw [UInt32.or_assoc, UInt32.or_self]

theorem stale_of_remove (hr : (Arena.remove h).run a = (.ok x, a')) : a'.Stale h := by
  obtain ⟨hlive, rfl⟩ := remove_eq_ok hr
  obtain ⟨slot, hslot, -, -⟩ := get?_eq_some.mp hlive
  have hlt := (Array.getElem?_eq_some_iff.mp hslot).1
  refine ⟨⟨h.version + 1, none⟩, ?_, ?_, succ_or_one_ne h.version⟩
  · dsimp only
    rw [Array.getElem?_setIfInBounds, if_pos rfl, if_pos hlt]
  · simp

/-- A stale handle is never given out as long as items are only added. -/
theorem Stale.insert (hs : a.Stale h) (ha : a.Sound) (hroom : a.size < capacity) (x : α) :
    (a.insert x).1 ≠ h ∧ (a.insert x).2.Stale h := by
  obtain ⟨slot, hslot, hversion, hnext⟩ := hs
  have hlt := (Array.getElem?_eq_some_iff.mp hslot).1
  cases hf : a.free with
  | cons i rest =>
    obtain ⟨old, hold, -, hi, he⟩ := ha.insert_of_cons hf x
    rw [he]
    by_cases hidx : i = h.idx.toNat
    · -- The slot is filled under the version that the handle does not have either.
      rw [hidx, hslot] at hold
      cases hold
      refine ⟨?_, ⟨slot.version ||| 1, some x⟩, ?_, hnext, ?_⟩
      · rintro rfl
        exact hnext rfl
      · dsimp only
        rw [Array.getElem?_setIfInBounds, if_pos hidx, if_pos (hidx ▸ hlt)]
      · dsimp only
        rwa [or_one_or_one]
    · refine ⟨?_, slot, ?_, hversion, hnext⟩
      · rintro rfl
        exact hidx hi.symm
      · dsimp only
        rwa [Array.getElem?_setIfInBounds, if_neg hidx]
  | nil =>
    obtain ⟨-, hi, he⟩ := ha.insert_of_nil hroom hf x
    rw [he]
    refine ⟨?_, slot, ?_, hversion, hnext⟩
    · rintro rfl
      exact Nat.ne_of_lt hlt hi
    · dsimp only
      rw [Array.getElem?_push, if_neg (Nat.ne_of_lt hlt), hslot]

/-- The items that were there keep their order. -/
theorem Sound.toList_insert (ha : a.Sound) (hroom : a.size < capacity) (x : α) :
    ((a.insert x).2.toList.filter fun e => e.1 ≠ (a.insert x).1) = a.toList := by
  refine ((ha.insert hroom x).lists.filter (fun h => h ≠ (a.insert x).1) ?_).unique ha.lists
  intro h
  rw [ha.get?_insert hroom]
  by_cases he : h = (a.insert x).1
  · simp [he, ha.get?_fresh hroom]
  · simp [he]

end Arena

/-- All that can be asked of a graph. -/
structure View where
  id : GraphId
  name : String
  node? : Handle → Option Node
  /-- The nodes in the order in which they are gone through. -/
  listing : List (Handle × Node)
  producer? : PortRef → Option PortRef
  targets : PortRef → List Handle
  executionInputs : List ExecutionInput
  roots : List Handle

def Graph.view (g : Graph) : View where
  id := g.id
  name := g.name
  node? := g.node?
  listing := g.nodes.toList
  producer? := g.producer?
  targets := g.targets
  executionInputs := g.executionInputs
  roots := g.roots

/-- The same without a node and all that touches it. -/
def View.without (v : View) (x : Handle) : View where
  id := v.id
  name := v.name
  node? := Function.update v.node? x none
  listing := v.listing.filter fun e => e.1 ≠ x
  producer? input := if input.node = x then none else (v.producer? input).filter (·.node ≠ x)
  targets output := if output.node = x then [] else (v.targets output).filter (· ≠ x)
  executionInputs :=
    v.executionInputs.map fun i => { i with targets := i.targets.filter (· ≠ x) }
  roots := v.roots.filter (· ≠ x)

namespace Graph

/-- What the tables have entries for is live, and no input has two of them. -/
structure Anchored (g : Graph) : Prop where
  inputs : ∀ e ∈ g.wires.entries, g.Live e.1.node
  outputs : ∀ e ∈ g.links.entries, g.Live e.1.node
  roots : ∀ h ∈ g.roots, g.Live h
  distinct : g.wires.keys.Nodup

/-- No wire and no link of the graph has the node at either end. -/
structure Detached (g : Graph) (h : Handle) : Prop where
  unfed : ∀ port, g.producer? ⟨h, port⟩ = none
  unread : ∀ input output, g.producer? input = some output → output.node ≠ h
  firing : ∀ port, g.targets ⟨h, port⟩ = []
  unfired : ∀ output, h ∉ g.targets output
  closed : ∀ input ∈ g.executionInputs, h ∉ input.targets

/-- Nodes were added to a graph, some of them as roots. -/
inductive Grows (g : Graph) : List Handle → List Handle → Graph → Prop where
  | refl : Grows g [] [] g
  | addNode (before : Grows g added extra g') (room : g'.size < Arena.capacity) (n : Node) :
      Grows g (added ++ [(g'.addNode n).1]) extra (g'.addNode n).2
  | addRoot (before : Grows g added extra g') (room : g'.size < Arena.capacity) (n : Node) :
      Grows g (added ++ [(g'.addRoot n).1]) (extra ++ [(g'.addRoot n).1]) (g'.addRoot n).2

/-- What a growing graph keeps. The nodes that are added come under handles of their own, which are
not live before and not stale; all else is as it was. -/
structure Grown (g : Graph) (added extra : List Handle) (g' : Graph) : Prop where
  arena : g'.nodes.Sound
  fresh : ∀ h ∈ added, g.node? h = none
  live : ∀ h ∈ added, g'.Live h
  nodes : ∀ h, h ∉ added → g'.node? h = g.node? h
  listing : (g'.nodes.toList.filter fun e => e.1 ∉ added) = g.nodes.toList
  producers : g'.producer? = g.producer?
  targets : g'.targets = g.targets
  executionInputs : g'.executionInputs = g.executionInputs
  roots : g'.roots = g.roots ++ extra
  stale : ∀ x, g.nodes.Stale x → x ∉ added ∧ g'.nodes.Stale x

section

variable {g g' : Graph} {h x : Handle} {n : Node}

/-- A change that leaves the tables alone and takes no node away. -/
theorem Anchored.keeps (hg : g.Anchored) (hlive : ∀ h, g.Live h → g'.Live h)
    (hwires : g'.wires = g.wires) (hlinks : g'.links = g.links) (hroots : g'.roots = g.roots) :
    g'.Anchored where
  inputs := by
    rw [hwires]
    exact fun e he => hlive _ (hg.inputs e he)
  outputs := by
    rw [hlinks]
    exact fun e he => hlive _ (hg.outputs e he)
  roots := by
    rw [hroots]
    exact fun h hh => hlive h (hg.roots h hh)
  distinct := by
    rw [hwires]
    exact hg.distinct

theorem Anchored.set (hg : g.Anchored) (hn : g.node? h = some n) (n' : Node) :
    Anchored { g with nodes := g.nodes.set h n' } :=
  hg.keeps (fun _ => Live.set hn n') rfl rfl rfl

theorem Anchored.addNode (hg : g.Anchored) (ha : g.nodes.Sound) (hroom : g.size < Arena.capacity)
    (n : Node) : (g.addNode n).2.Anchored :=
  hg.keeps (fun _ => Live.addNode ha hroom n) rfl rfl rfl

theorem Anchored.addRoot (hg : g.Anchored) (ha : g.nodes.Sound) (hroom : g.size < Arena.capacity)
    (n : Node) : (g.addRoot n).2.Anchored := by
  have hadded := hg.addNode ha hroom n
  refine ⟨hadded.inputs, hadded.outputs, ?_, hadded.distinct⟩
  intro h hh
  rcases List.mem_append.mp hh with hh | hh
  · exact hadded.roots h hh
  · rw [List.mem_singleton.mp hh]
    exact live_addNode ha hroom n

theorem Anchored.wire (hg : g.Anchored) (hn : g.node? target.node = some n) (source : PortRef) :
    (g.changed (.wire source target)).Anchored := by
  have hset := hg.set hn (n.clearConstant target.port)
  rw [Graph.changed, nodeAt_eq hn]
  refine ⟨?_, hset.outputs, hset.roots, Table.nodup_keys_insert hset.distinct target source⟩
  intro entry hentry
  rcases Table.mem_put hentry with rfl | hold
  · exact Live.set hn _ ⟨n, hn⟩
  · exact hset.inputs entry hold

theorem Anchored.link (hg : g.Anchored) (hsource : g.Live source.node) (target : Handle) :
    (g.changed (.link source target)).Anchored := by
  refine ⟨hg.inputs, ?_, hg.roots, hg.distinct⟩
  intro entry hentry
  rcases Table.mem_put hentry with rfl | hold
  · exact hsource
  · exact hg.outputs entry hold

theorem producer?_without (hg : g.Anchored) (x : Handle) (input : PortRef) :
    (g.without x).producer? input =
      if input.node = x then none else (g.producer? input).filter (·.node ≠ x) := by
  refine (Table.get?_filter hg.distinct _ input).trans ?_
  by_cases hi : input.node = x
  · simp [hi]
  · simp [hi, producer?]

theorem targets_without (g : Graph) (x : Handle) (output : PortRef) :
    (g.without x).targets output =
      if output.node = x then [] else (g.targets output).filter (· ≠ x) := by
  unfold targets without
  rw [Table.get?_mapValues, Table.get?_filter_key g.links fun output => output.node ≠ x]
  by_cases ho : output.node = x
  · simp [ho]
  · cases hl : g.links.get? output <;> simp [ho]

/-- A removal is seen as the node gone with all that touched it, and as nothing else. -/
theorem view_without (hg : g.Anchored) (ha : g.nodes.Sound) (hx : g.node? x = some n) :
    (g.without x).view = g.view.without x := by
  have hnode : (g.without x).node? = Function.update g.node? x none := by
    funext h
    rw [node?_without hx, Function.update_apply]
  have hproducer := funext (producer?_without hg x)
  have htargets := funext (targets_without g x)
  have hlisting : (g.without x).nodes.toList = g.nodes.toList.filter fun e => e.1 ≠ x := by
    have hr := Arena.remove_of_live hx
    rw [Graph.without, hr]
    exact ha.toList_remove hr
  simp only [view, View.without, hnode, hproducer, htargets, hlisting]
  rfl

theorem Anchored.removal (hg : g.Anchored) (hx : g.node? x = some n) :
    (g.without x).Anchored := by
  have hkept {h : Handle} (hne : h ≠ x) (hh : g.Live h) := hh.without hx hne
  refine ⟨?_, ?_, ?_, ?_⟩
  · intro entry hentry
    obtain ⟨hentry, hne⟩ := List.mem_filter.mp hentry
    simp only [ne_eq, decide_eq_true_eq] at hne
    exact hkept hne.1 (hg.inputs entry hentry)
  · intro entry hentry
    obtain ⟨old, hold, rfl⟩ := List.mem_map.mp hentry
    obtain ⟨hold, hne⟩ := List.mem_filter.mp hold
    exact hkept (by simpa using hne) (hg.outputs old hold)
  · intro h hh
    obtain ⟨hh, hne⟩ := List.mem_filter.mp hh
    exact hkept (by simpa using hne) (hg.roots h hh)
  · exact hg.distinct.sublist (List.filter_sublist.map _)

theorem Anchored.changed {c : Change} (hg : g.Anchored) (hc : ∀ d ∈ c.conditions, d.Holds g) :
    (g.changed c).Anchored := by
  cases c with
  | wire source target =>
    obtain ⟨-, -, -, ⟨n, hn⟩, -⟩ := by simpa [Change.conditions] using hc
    exact hg.wire hn source
  | link source target => exact hg.link (hc _ List.mem_cons_self) target
  | inputLink ordinal target => exact { hg with }
  | constant input v =>
    obtain ⟨-, ⟨n, hn⟩, -⟩ := by simpa [Change.conditions] using hc
    rw [Graph.changed, nodeAt_eq hn]
    exact hg.set hn _
  | removal h =>
    obtain ⟨n, hn⟩ := hc _ List.mem_cons_self
    exact hg.removal hn

theorem Edited.anchored (hg : g.Edited) : g.Anchored := by
  induction hg with
  | new id name =>
    exact ⟨List.forall_mem_nil _, List.forall_mem_nil _, List.forall_mem_nil _, List.nodup_nil⟩
  | clone _ _ ih => exact { ih with }
  | addNode before _ room ih => exact ih.addNode before.tied.arena room _
  | addRoot before _ room ih => exact ih.addRoot before.tied.arena room _
  | update _ _ e ih =>
    rcases updateNode_cases e with rfl | ⟨n, hn, rfl⟩
    · exact ih
    · exact ih.set hn _
  | change c _ e ih =>
    rcases attempt_cases e with rfl | ⟨hc, rfl⟩
    · exact ih
    · exact ih.changed hc
  | removeWire _ ih =>
    refine ⟨?_, ih.outputs, ih.roots, ih.distinct.sublist (List.filter_sublist.map _)⟩
    exact fun entry hentry => ih.inputs entry (List.mem_filter.mp hentry).1
  | addExecutionInput _ ih => exact { ih with }

/-- A handle that is not live has nothing to do with any wire or link. -/
theorem Anchored.detached (hg : g.Anchored) (ht : g.Tied) (hgone : g.node? h = none) :
    g.Detached h := by
  have hdead := not_live hgone
  refine ⟨?_, ?_, ?_, ?_, ?_⟩
  · intro port
    cases hp : g.producer? ⟨h, port⟩ with
    | none => rfl
    | some output => exact absurd (hg.inputs _ (Table.mem_of_lookup hp)) hdead
  · rintro input output hp rfl
    exact hdead (ht.producer_live hp)
  · intro port
    unfold targets
    cases hl : g.links.get? ⟨h, port⟩ with
    | none => rfl
    | some nodes => exact absurd (hg.outputs _ (Table.mem_of_lookup hl)) hdead
  · intro output hh
    exact hdead (ht.targets_live hh)
  · intro input hi hh
    exact hdead (ht.entries input hi h hh)

theorem Grown.addNode (hg : g.Grown added extra g') (hroom : g'.size < Arena.capacity) (n : Node) :
    g.Grown (added ++ [(g'.addNode n).1]) extra (g'.addNode n).2 := by
  have hget (h : Handle) :
      (g'.addNode n).2.node? h = if h = (g'.addNode n).1 then some n else g'.node? h :=
    hg.arena.get?_insert hroom n h
  have hnew : g'.node? (g'.addNode n).1 = none := hg.arena.get?_fresh hroom n
  refine ⟨hg.arena.insert hroom n, ?_, ?_, ?_, ?_, hg.producers, hg.targets, hg.executionInputs,
    hg.roots, ?_⟩
  · intro h hh
    by_cases hold : h ∈ added
    · exact hg.fresh h hold
    · obtain rfl : h = (g'.addNode n).1 := by simpa [hold] using hh
      rw [← hg.nodes _ hold, hnew]
  · intro h hh
    rcases List.mem_append.mp hh with hh | hh
    · exact (hg.live h hh).addNode hg.arena hroom n
    · rw [List.mem_singleton.mp hh]
      exact live_addNode hg.arena hroom n
  · intro h hh
    simp only [List.mem_append, List.mem_singleton, not_or] at hh
    rw [hget, if_neg hh.2, hg.nodes h hh.1]
  · have hlist : (g'.addNode n).2.nodes.toList.filter (fun e => e.1 ≠ (g'.addNode n).1) =
        g'.nodes.toList := hg.arena.toList_insert hroom n
    rw [← hg.listing, ← hlist, List.filter_filter]
    refine List.filter_congr ?_
    intro e _
    simp
  · intro x hx
    obtain ⟨hnot, hstale⟩ := hg.stale x hx
    obtain ⟨hne, hstale⟩ := hstale.insert hg.arena hroom n
    refine ⟨?_, hstale⟩
    simp only [List.mem_append, List.mem_singleton, not_or]
    exact ⟨hnot, Ne.symm hne⟩

theorem Grows.grown (ha : g.nodes.Sound) (hg : g.Grows added extra g') :
    g.Grown added extra g' := by
  induction hg with
  | refl =>
    refine ⟨ha, List.forall_mem_nil _, List.forall_mem_nil _, fun _ _ => rfl, ?_, rfl, rfl, rfl,
      (List.append_nil _).symm, fun x hx => ⟨List.not_mem_nil, hx⟩⟩
    simp
  | addNode _ room n ih => exact ih.addNode room n
  | addRoot _ room n ih =>
    have hadded := ih.addNode room n
    refine { hadded with roots := ?_ }
    rw [← List.append_assoc, ← ih.roots]
    rfl

theorem inputName?_without (g : Graph) (x : Handle) (ordinal : Nat) :
    (g.without x).inputName? ordinal = g.inputName? ordinal := by
  simp [inputName?, without, Function.comp_def]

theorem findInput?_without (g : Graph) (x : Handle) (name : String) :
    (g.without x).findInput? name = g.findInput? name := List.findIdx?_map

/-- The slot that was emptied leaves room for a node. -/
theorem room_without (ha : (g.without x).nodes.Sound) (hx : g.node? x = some n) :
    (g.without x).size < Arena.capacity := by
  have hcount := ha.count
  have hbound := ha.bound
  have hfree : (g.without x).nodes.free = x.idx.toNat :: g.nodes.free := by
    rw [without, Arena.remove_of_live hx]
  rw [hfree, List.length_cons] at hcount
  unfold size
  omega

theorem Grown.detached (hg : g.Grown added extra g') (hd : g.Detached h) : g'.Detached h := by
  obtain ⟨unfed, unread, firing, unfired, closed⟩ := hd
  constructor
  · rwa [hg.producers]
  · rwa [hg.producers]
  · rwa [hg.targets]
  · rwa [hg.targets]
  · rwa [hg.executionInputs]

end

end Graph

/-- A removal takes away exactly the node and what touches it. The other nodes stay in their order,
names and ordinals of execution inputs are as before, and lists of targets and roots lose nothing
but the node. Nodes that are added later, in the emptied slot or elsewhere, come under other handles.
They change no answer about what was there, and have no wire or link at first. -/
theorem node_removal_exact {g : Graph} {x : Handle} {n : Node} (hg : g.Edited)
    (hx : g.node? x = some n) :
    ∃ g', (Graph.removeNode x).run g = some (.ok n, g') ∧ g'.view = g.view.without x ∧
      (∀ ordinal, g'.inputName? ordinal = g.inputName? ordinal) ∧
      (∀ name, g'.findInput? name = g.findInput? name) ∧
      g'.size < Arena.capacity ∧
      ∀ added extra g'', g'.Grows added extra g'' →
        x ∉ added ∧ (∀ h, h ∉ added → g''.node? h = g'.node? h) ∧
        (g''.nodes.toList.filter fun e => e.1 ∉ added) = g'.nodes.toList ∧
        g''.producer? = g'.producer? ∧ g''.targets = g'.targets ∧
        g''.executionInputs = g'.executionInputs ∧ g''.roots = g'.roots ++ extra ∧
        ∀ h ∈ added, g''.Live h ∧ g''.Detached h := by
  have hremoval : (Graph.attempt (.removal x)).run g = some (.ok (), g.without x) :=
    Graph.Editor.run_bind_of_some (Graph.removeNode_of_live hx)
  have hg' : (g.without x).Edited := .change (.removal x) hg hremoval
  have harena := hg'.tied.arena
  have hr := Arena.remove_of_live hx
  have hstale : (g.without x).nodes.Stale x := by
    rw [Graph.without, hr]
    exact Arena.stale_of_remove hr
  refine ⟨g.without x, Graph.removeNode_of_live hx,
    Graph.view_without hg.anchored hg.tied.arena hx, g.inputName?_without x, g.findInput?_without x,
    Graph.room_without harena hx, ?_⟩
  intro added extra g'' hgrows
  have hgrown := hgrows.grown harena
  refine ⟨(hgrown.stale x hstale).1, hgrown.nodes, hgrown.listing,
    hgrown.producers, hgrown.targets, hgrown.executionInputs, hgrown.roots, ?_⟩
  intro h hh
  exact ⟨hgrown.live h hh, hgrown.detached (hg'.anchored.detached hg'.tied (hgrown.fresh h hh))⟩

namespace Rewiring

/-- The graph without the printing, which a number came to and the start led to. -/
def bare : Graph := (Graph.removeNode ⟨3, 1⟩).result former

/-- Another printing in its slot. -/
def refilled : Graph := (bare.addNode (.new Builtin.print)).2

end Rewiring

/-- Nothing leads to the printing that takes the slot of the one removed. -/
theorem node_removal_exact_refilled :
    Rewiring.former.Edited ∧ Rewiring.former.node? ⟨3, 1⟩ = some (.new Builtin.print) ∧
    Rewiring.bare.view = Rewiring.former.view.without ⟨3, 1⟩ ∧
    (Rewiring.bare.addNode (.new Builtin.print)).1 = ⟨3, 3⟩ ∧
    Rewiring.refilled.node? ⟨3, 1⟩ = none ∧ Rewiring.refilled.Detached ⟨3, 3⟩ := by
  have hg := Rewiring.former_edited
  have hx : Rewiring.former.node? ⟨3, 1⟩ = some (.new Builtin.print) := rfl
  obtain ⟨g', e, hview, -, -, hroom, hlater⟩ := node_removal_exact hg hx
  have hbare : (Graph.removeNode ⟨3, 1⟩).run Rewiring.former =
    some (.ok (.new Builtin.print), Rewiring.bare) := rfl
  cases hbare.symm.trans e
  obtain ⟨-, hnodes, -, -, -, -, -, hadded⟩ :=
    hlater [⟨3, 3⟩] [] Rewiring.refilled (.addNode .refl hroom (.new Builtin.print))
  refine ⟨hg, hx, hview, rfl, ?_, (hadded ⟨3, 3⟩ (by simp)).2⟩
  rw [hnodes ⟨3, 1⟩ (by decide)]
  rfl

end Flowgraph
