import Flowgraph.Proofs.Verdict
import Mathlib.Data.List.Perm.Subperm
import Mathlib.Logic.Relation

namespace Flowgraph

open Relation (TransGen ReflTransGen)

theorem nodup_eraseDups [BEq α] [LawfulBEq α] (l : List α) : l.eraseDups.Nodup := by
  -- The recursion is on a filtered tail, so the induction is on the length.
  generalize hn : l.length = n
  induction n using Nat.strongRecOn generalizing l with
  | ind n ih =>
    subst hn
    cases l with
    | nil => simp
    | cons a l =>
      rw [List.eraseDups_cons, List.nodup_cons]
      refine ⟨?_, ih _ (Nat.lt_succ_of_le (List.length_filter_le _ _)) _ rfl⟩
      rw [List.mem_eraseDups]
      simp

theorem Arena.mem_toList {a : Arena α} {h : Handle} {x : α} (hx : a.get? h = some x) :
    (h, x) ∈ a.toList := by
  unfold Arena.get? at hx
  split at hx
  · rename_i slot hslot
    split at hx
    · rename_i hversion
      refine List.mem_filterMap.mpr ⟨(slot, h.idx.toNat), ?_, ?_⟩
      · exact List.mk_mem_zipIdx_iff_getElem?.mpr (by simpa using hslot)
      · simp [hx, hversion]
    · cases hx
  · cases hx

theorem Graph.isPure_eq_true {g : Graph} {h : Handle} :
    g.isPure h = true ↔ ∃ n, g.node? h = some n ∧ n.isPure = true :=
  Option.any_eq_true _ _

/-- Live nodes listed without repetition are no more than the graph has. -/
theorem Graph.length_le_size {g : Graph} {nodes : List Handle} (hnodup : nodes.Nodup)
    (hpure : ∀ h ∈ nodes, g.isPure h = true) : nodes.length ≤ g.size := by
  have hsub : nodes ⊆ g.nodes.toList.map (·.1) := by
    intro h hm
    obtain ⟨n, hn, -⟩ := Graph.isPure_eq_true.mp (hpure h hm)
    exact List.mem_map.mpr ⟨(h, n), Arena.mem_toList hn, rfl⟩
  have hle := (hnodup.subperm hsub).length_le
  rwa [List.length_map] at hle

namespace Session

/-- The second node waits for an output of the first. -/
def Awaits (s : Session) (g : Graph) (producer h : Handle) : Prop :=
  ∃ output ∈ s.awaited g h, output.node = producer

theorem Awaits.feeds {s : Session} {g : Graph} {producer h : Handle} (ha : s.Awaits g producer h) :
    g.Feeds producer h := by
  obtain ⟨output, ho, rfl⟩ := ha
  exact feeds_of_awaited ho

/-- The second node waits for an output of the first, which is pure. -/
def Draws (s : Session) (g : Graph) (producer h : Handle) : Prop :=
  s.Awaits g producer h ∧ g.isPure producer = true

/-- The search has looked at a node: it does not wait for `start`, and the pure nodes it waits for
are known. -/
def Searched (s : Session) (g : Graph) (start : Handle) (known : List Handle) (h : Handle) : Prop :=
  ∀ p, s.Awaits g p h → p ≠ start ∧ (g.isPure p = true → p ∈ known)

theorem mem_awaitedNodes {s : Session} {g : Graph} {h p : Handle} :
    p ∈ (s.awaited g h).map (·.node) ↔ s.Awaits g p h := List.mem_map

theorem Searched.mono {s : Session} {g : Graph} {start h : Handle} {known known' : List Handle}
    (hs : s.Searched g start known h) (hk : ∀ p ∈ known, p ∈ known') :
    s.Searched g start known' h := by
  intro p hp
  obtain ⟨hne, hmem⟩ := hs p hp
  exact ⟨hne, fun hpure => hk p (hmem hpure)⟩

/-- How a search stands: of the nodes it has visited, all of them pure and none twice, it has looked
at those in `searched` and has the others on its stack. -/
structure Searching (s : Session) (g : Graph) (start : Handle)
    (stack visited searched : List Handle) : Prop where
  nodup : visited.Nodup
  isPure : ∀ h ∈ visited, g.isPure h = true
  expanded : ∀ h ∈ searched, s.Searched g start visited h
  covered : ∀ h ∈ visited, h ∈ searched ∨ h ∈ stack

/-- The producers that a search visits because of one node. -/
def freshProducers (s : Session) (g : Graph) (visited : List Handle) (h : Handle) : List Handle :=
  (((s.awaited g h).map (·.node)).filter fun p => g.isPure p && !visited.contains p).eraseDups

section

variable {s : Session} {g : Graph} {start h : Handle} {stack visited searched : List Handle}

theorem mem_freshProducers :
    p ∈ s.freshProducers g visited h ↔ s.Awaits g p h ∧ g.isPure p = true ∧ p ∉ visited := by
  rw [freshProducers, List.mem_eraseDups, List.mem_filter, mem_awaitedNodes]
  simp

/-- A node moves from the stack to those looked at, and its fresh producers take its place. -/
theorem Searching.expand (hs : s.Searching g start (h :: stack) visited searched)
    (hstart : ¬ s.Awaits g start h) :
    s.Searching g start (s.freshProducers g visited h ++ stack)
      (s.freshProducers g visited h ++ visited) (h :: searched) where
  nodup := by
    refine List.nodup_append.mpr ⟨nodup_eraseDups _, hs.nodup, ?_⟩
    rintro p hp _ hv rfl
    exact (mem_freshProducers.mp hp).2.2 hv
  isPure p hp := by
    rcases List.mem_append.mp hp with hp | hp
    · exact (mem_freshProducers.mp hp).2.1
    · exact hs.isPure p hp
  covered p hp := by
    rcases List.mem_append.mp hp with hp | hp
    · exact .inr (List.mem_append_left _ hp)
    · rcases hs.covered p hp with hm | hm
      · exact .inl (List.mem_cons_of_mem _ hm)
      · rcases List.mem_cons.mp hm with rfl | hm
        · exact .inl List.mem_cons_self
        · exact .inr (List.mem_append_right _ hm)
  expanded := by
    refine List.forall_mem_cons.mpr ⟨?_, fun x hx => ?_⟩
    · intro p hp
      refine ⟨fun he => hstart (he ▸ hp), fun hpure => ?_⟩
      by_cases hv : p ∈ visited
      · exact List.mem_append_right _ hv
      · exact List.mem_append_left _ (mem_freshProducers.mpr ⟨hp, hpure, hv⟩)
    · exact (hs.expanded x hx).mono fun p hp => List.mem_append_right _ hp

theorem Searching.closed (hs : s.Searching g start [] visited searched) :
    ∀ h ∈ searched, s.Searched g start searched h := by
  intro h hm
  refine (hs.expanded h hm).mono fun p hp => ?_
  exact (hs.covered p hp).resolve_right List.not_mem_nil

/-- A search that finds nothing has looked at all that can be reached from its stack. -/
theorem Searching.exhaustive (hs : s.Searching g start stack visited searched)
    (hroom : stack.length + g.size ≤ room + visited.length)
    (hr : s.reaches g start room stack visited = false) :
    ∃ all, (∀ h ∈ searched, h ∈ all) ∧ (∀ h ∈ stack, h ∈ all) ∧
      ∀ h ∈ all, s.Searched g start all h := by
  induction room generalizing stack visited searched with
  | zero =>
    have hsize := Graph.length_le_size hs.nodup hs.isPure
    obtain rfl : stack = [] := List.length_eq_zero_iff.mp (by omega)
    exact ⟨searched, fun _ => id, nofun, hs.closed⟩
  | succ room ih =>
    cases stack with
    | nil => exact ⟨searched, fun _ => id, nofun, hs.closed⟩
    | cons h stack =>
      unfold reaches at hr
      dsimp only at hr
      split at hr
      · cases hr
      · rename_i hnot
        rw [List.contains_iff_mem, mem_awaitedNodes] at hnot
        obtain ⟨all, hall, hstack, hclosed⟩ := ih (hs.expand hnot)
          (by simp only [List.length_append, List.length_cons] at hroom ⊢; omega) hr
        rw [List.forall_mem_cons] at hall
        refine ⟨all, hall.2, List.forall_mem_cons.mpr ⟨hall.1, fun x hx => ?_⟩, hclosed⟩
        exact hstack x (List.mem_append_right _ hx)

end

/-- A search that finds its start has come to a node that awaits it. -/
theorem reaches_sound {s : Session} {g : Graph} {start : Handle} {stack visited : List Handle}
    (hstack : ∀ h ∈ stack, ReflTransGen (s.Draws g) h start)
    (hr : s.reaches g start room stack visited = true) :
    ∃ x, ReflTransGen (s.Draws g) x start ∧ s.Awaits g start x := by
  induction room generalizing stack visited with
  | zero => cases hr
  | succ room ih =>
    cases stack with
    | nil => cases hr
    | cons h stack =>
      rw [List.forall_mem_cons] at hstack
      unfold reaches at hr
      dsimp only at hr
      split at hr
      · rename_i hfound
        rw [List.contains_iff_mem, mem_awaitedNodes] at hfound
        exact ⟨h, hstack.1, hfound⟩
      · refine ih ?_ hr
        intro p hp
        rcases List.mem_append.mp hp with hp | hp
        · obtain ⟨hawaits, hpure, -⟩ := mem_freshProducers.mp hp
          exact .head ⟨hawaits, hpure⟩ hstack.1
        · exact hstack.2 p hp

/-- The search misses no cycle: a node is found if a node awaits it that it leads to through pure
producers. -/
theorem dependsOnItself_complete {s : Session} {g : Graph} {h x : Handle}
    (hpath : ReflTransGen (s.Draws g) x h) (hback : s.Awaits g h x) :
    s.dependsOnItself g h = true := by
  cases hd : s.dependsOnItself g h with
  | true => rfl
  | false =>
    have hinit : s.Searching g h [h] [] [] := ⟨List.nodup_nil, nofun, nofun, nofun⟩
    obtain ⟨all, -, hstart, hclosed⟩ := hinit.exhaustive (by simp; omega) hd
    have hx : x ∈ all := by
      clear hback
      induction hpath using ReflTransGen.head_induction_on with
      | refl => exact hstart h List.mem_cons_self
      | head hstep _ ih => exact (hclosed _ ih _ hstep.1).2 hstep.2
    exact absurd rfl (hclosed x hx h hback).1

theorem dependsOnItself_iff {s : Session} {g : Graph} {h : Handle} :
    s.dependsOnItself g h = true ↔ ∃ x, ReflTransGen (s.Draws g) x h ∧ s.Awaits g h x := by
  constructor
  · intro hd
    exact reaches_sound (List.forall_mem_singleton.mpr .refl) hd
  · rintro ⟨x, hpath, hback⟩
    exact dependsOnItself_complete hpath hback

/-- What the search finds is a cycle of wires. -/
theorem dependsOnItself_sound {s : Session} {g : Graph} {h : Handle}
    (hd : s.dependsOnItself g h = true) : TransGen g.Feeds h h := by
  obtain ⟨x, hpath, hback⟩ := dependsOnItself_iff.mp hd
  refine TransGen.head' hback.feeds (ReflTransGen.mono ?_ _ _ hpath)
  exact fun p y hp => hp.1.feeds

end Session

end Flowgraph
