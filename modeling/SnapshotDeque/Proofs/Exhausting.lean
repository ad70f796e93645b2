import SnapshotDeque.Shadow
import SnapshotDeque.Proofs.Accounting
import SnapshotDeque.Proofs.Draining

/-!
Reclaiming until a pass finds nothing to do. While no snapshot is open, every obsolete link may go,
and each pass takes as many as its budget allows. Main statement: the passes come to an end, and
then no link is obsolete and the arena holds just the linked nodes.
-/

namespace SnapshotDeque

variable {α : Type}

/-! ## The size of an arena -/

namespace Arena.Valid

variable {a : Arena α} {xs : List Handle} (ha : a.Valid)

section Named

variable (hx : ∀ x ∈ xs, (a.get? x).isSome)

include hx

theorem two_le_index {x : Handle} (hm : x ∈ xs) : 2 ≤ x.index.toNat := by
  obtain ⟨n, hn⟩ := Option.isSome_iff_exists.1 (hx x hm)
  have := mt isSentinel_iff.2 (Bool.eq_false_iff.1 (isSentinel_of_get? hn))
  omega

include ha

/-- The slots of sentinels, the vacant ones and those of handles that name nodes are different. -/
theorem nodup_slots (hnd : xs.Nodup) :
    (List.range 2 ++ (a.free.map (·.toNat) ++ xs.map (·.index.toNat))).Nodup := by
  refine .append List.nodup_range (.append ?_ ?_ ?_) ?_
  · exact ha.nodup.map fun i j h => UInt32.toNat_inj.1 h
  · refine List.Nodup.map_on (fun x hm y hy h => ?_) hnd
    obtain ⟨m, hm⟩ := Option.isSome_iff_exists.1 (hx x hm)
    obtain ⟨n, hn⟩ := Option.isSome_iff_exists.1 (hx y hy)
    exact eq_of_index_eq hm hn (UInt32.toNat_inj.1 h)
  · intro k hf hk
    obtain ⟨i, hi, rfl⟩ := List.mem_map.1 hf
    obtain ⟨x, hm, he⟩ := List.mem_map.1 hk
    obtain ⟨n, hn⟩ := Option.isSome_iff_exists.1 (hx x hm)
    have hsome := (get?_eq_some.1 hn).2.2
    rw [UInt32.toNat_inj.1 he, ((ha.vacant i).1 hi).2.2] at hsome
    cases hsome
  · intro k hk hm
    have hk := List.mem_range.1 hk
    rcases List.mem_append.1 hm with hf | hm
    · obtain ⟨i, hi, rfl⟩ := List.mem_map.1 hf
      have := ((ha.vacant i).1 hi).1
      omega
    · obtain ⟨x, hxm, rfl⟩ := List.mem_map.1 hm
      have := two_le_index hx hxm
      omega

theorem lt_size_of_mem {k : Nat}
    (hk : k ∈ List.range 2 ++ (a.free.map (·.toNat) ++ xs.map (·.index.toNat))) :
    k < a.slots.size := by
  rw [List.mem_append, List.mem_append, List.mem_range, List.mem_map, List.mem_map] at hk
  rcases hk with hk | ⟨i, hi, rfl⟩ | ⟨x, hm, rfl⟩
  · have := ha.count
    omega
  · exact ((ha.vacant i).1 hi).2.1
  · obtain ⟨n, hn⟩ := Option.isSome_iff_exists.1 (hx x hm)
    exact lt_of_slot_node (get?_eq_some.1 hn).2.2

/-- An arena is not smaller than the number of handles that name a node. -/
theorem length_le_size (hnd : xs.Nodup) : xs.length ≤ a.size := by
  have hle := ((ha.nodup_slots hx hnd).subperm fun k hk =>
    List.mem_range.2 (ha.lt_size_of_mem hx hk)).length_le
  rw [List.length_append, List.length_append, List.length_range, List.length_range,
    List.length_map, List.length_map] at hle
  have := ha.count
  omega

end Named

include ha

/-- A slot that is no sentinel's is vacant or that of a handle that names a node. -/
theorem mem_of_lt_size (hx : ∀ x, (a.get? x).isSome → x ∈ xs) {k : Nat} (hk : k < a.slots.size) :
    k ∈ List.range 2 ++ (a.free.map (·.toNat) ++ xs.map (·.index.toNat)) := by
  have hlt : k < UInt32.size := Nat.lt_of_lt_of_le hk ha.limit
  have ht : (UInt32.ofNat k).toNat = k := UInt32.toNat_ofNat_of_lt' hlt
  rw [List.mem_append, List.mem_append, List.mem_range, List.mem_map, List.mem_map]
  by_cases h2 : k < 2
  · exact Or.inl h2
  cases hn : (a.slot (UInt32.ofNat k)).node with
  | none => exact Or.inr (Or.inl ⟨_, (ha.vacant _).2 ⟨by omega, by omega, hn⟩, ht⟩)
  | some n =>
    let x : Handle := ⟨UInt32.ofNat k, (a.slot (UInt32.ofNat k)).generation⟩
    have hs : x.isSentinel = false := Bool.eq_false_iff.2 fun hs => by
      have : x.index.toNat < 2 := isSentinel_iff.1 hs
      exact h2 (ht ▸ this)
    have hg : a.get? x = some n := get?_eq_some.2 ⟨hs, rfl, hn⟩
    exact Or.inr (Or.inr ⟨x, hx x (by rw [hg]; rfl), ht⟩)

/-- An arena is as large as there are handles that name a node. -/
theorem size_eq (hnd : xs.Nodup) (hx : ∀ x, x ∈ xs ↔ (a.get? x).isSome) :
    a.size = xs.length := by
  have hle := (List.nodup_range.subperm fun k hk =>
    ha.mem_of_lt_size (fun x => (hx x).2) (List.mem_range.1 hk)).length_le
  rw [List.length_append, List.length_append, List.length_range, List.length_range,
    List.length_map, List.length_map] at hle
  have := ha.count
  have := ha.length_le_size (fun x => (hx x).1) hnd
  omega

end Arena.Valid

/-! ## The passes -/

namespace Store

variable {s t u : Store α} {l : List (Handle × α)}

/-- While no link is obsolete, the arena holds just the linked nodes. -/
theorem Shaped.arena_size (h : s.Shaped l) (ho : s.obsolete = []) : s.arena.size = l.length := by
  rw [h.sound.arena.size_eq h.nodup fun x => ?_, List.length_map]
  rw [h.sound.isSome_get?_iff, ho, ← h.heads x]
  constructor
  · exact fun hx => ⟨isSentinel_of_head? hx, Or.inl hx⟩
  · rintro ⟨_, hx | ⟨i, hi, _⟩⟩
    · exact hx
    · cases hi

/-- No snapshot is open, so nothing keeps an obsolete link. -/
structure Unpinned (s : Store α) : Prop where
  markers : s.timeline.markers = []
  modification : s.timeline.modification < .max
  budget : 1 ≤ s.config.reclaimBatch

theorem Unpinned.congr (h : s.Unpinned) (ht : t.timeline = s.timeline)
    (hc : t.config = s.config) : t.Unpinned :=
  ⟨by rw [ht]; exact h.markers, by rw [ht]; exact h.modification, by rw [hc]; exact h.budget⟩

/-- A pass takes as many obsolete links as its budget allows. -/
theorem Unpinned.due (h : s.Unpinned) (hst : s.Stamped) (budget : Nat) :
    s.due budget = s.obsolete.take budget := by
  have hp : s.timeline.oldestPinned = .max := by
    rw [Timeline.oldestPinned, Timeline.pinned, h.markers]
    rfl
  rw [Store.due, List.takeWhile_eq_self_iff.2 fun i hi => ?_]
  obtain ⟨v, hv, _, hle⟩ := hst.tag hi
  rw [isReclaimable_iff hv, hp]
  exact lt_of_le_of_lt hle h.modification

/-- A pass finds something to do, and leaves fewer obsolete links than there were, or there are none
left. -/
theorem Live.run_reclaim (h : s.Live l) (hs : s.Unpinned) :
    ∃ p t, (.reclaim : Mutation α Pass).run s = (.ok p, t) ∧ t.Live l ∧ t.Unpinned ∧
      (p.didWork = true ∧ t.obsolete.length < s.obsolete.length ∨
        p.didWork = false ∧ t.obsolete = []) := by
  obtain ⟨gone, h0, hg⟩ := h.settled
  have hs0 := hs.congr hg.timeline hg.spares.config
  have hle : s.reclaimPending.obsolete.length ≤ s.obsolete.length := by
    obtain ⟨k, hk⟩ := obsolete_reclaimPending s
    rw [hk, List.length_drop]
    exact Nat.sub_le ..
  have ht := Edit.returns_modifyGet (fun s : Store α => s.reclaim s.config.reclaimBatch)
    s.reclaimPending
  by_cases he : s.reclaimPending.obsolete = []
  · have hr : s.reclaimPending.reclaim s.reclaimPending.config.reclaimBatch =
        ({}, s.reclaimPending) := if_pos (by rw [he]; rfl)
    rw [hr] at ht
    exact ⟨_, _, Mutation.run_of_returns (m := .reclaim) h.open_ ht, h0, hs0, Or.inr ⟨rfl, he⟩⟩
  · obtain ⟨t, gone', hr, hts, hst, hg', ho⟩ :=
      reclaim_spec h0.sound h0.stamped s.reclaimPending.config.reclaimBatch
    have hpos := List.length_pos_iff.2 he
    have hb := hs0.budget
    rw [hr] at ht
    refine ⟨_, t, Mutation.run_of_returns (m := .reclaim) h.open_ ht, h0.givesBack hg' hts hst,
      hs0.congr hg'.timeline hg'.spares.config, Or.inl ?_⟩
    rw [hs0.due h0.stamped, List.length_take] at ho ⊢
    constructor
    · simp only [Pass.didWork, Bool.or_eq_true, decide_eq_true_eq]
      omega
    · rw [ho, List.length_drop]
      omega

end Store

/-- Passes that go on as long as the one before found something to do. -/
inductive Exhausts : Store α → Store α → Prop
  | last {s t : Store α} {p : Pass} : Mutation.run .reclaim s = (.ok p, t) → p.didWork = false →
    Exhausts s t
  | more {s t u : Store α} {p : Pass} : Mutation.run .reclaim s = (.ok p, t) → p.didWork = true →
    Exhausts t u → Exhausts s u

/-- Once no snapshot is open, the passes come to an end, with no obsolete link left. The check that
the queue shrank, which lets the loop be seen to end, never ends it. -/
theorem Shadow.exhausts_reclaimAll {s : Store Nat} {l : List (Handle × Nat)} (h : s.Live l)
    (hs : s.Unpinned) : ∃ t, reclaimAll s = (.ok (), t) ∧ Exhausts s t ∧ t.Live l ∧ t.Unpinned ∧
      t.obsolete = [] := by
  fun_induction reclaimAll s with
  | case1 s e next hr =>
    obtain ⟨p, t, hr', -⟩ := h.run_reclaim hs
    rw [hr] at hr'
    cases hr'
  | case2 s p next hr hw ih =>
    obtain ⟨p', t, hr', hl, ht, -⟩ := h.run_reclaim hs
    rw [hr] at hr'
    cases hr'
    obtain ⟨u, hu, hx, hd⟩ := ih hl ht
    exact ⟨u, hu, .more hr hw.1 hx, hd⟩
  | case3 s p next hr hw =>
    obtain ⟨p', t, hr', hl, ht, ⟨hd, hlt⟩ | ⟨hd, ho⟩⟩ := h.run_reclaim hs
    · rw [hr] at hr'
      cases hr'
      exact absurd ⟨hd, hlt⟩ hw
    · rw [hr] at hr'
      cases hr'
      exact ⟨_, rfl, .last hr hd, hl, ht, ho⟩

end SnapshotDeque
