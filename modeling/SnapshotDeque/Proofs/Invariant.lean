import Mathlib.Data.List.Chain
import SnapshotDeque.Proofs.Arena
import SnapshotDeque.Proofs.Chain
import SnapshotDeque.Store.Read

/-!
What holds of the store of a deque between two changes, in parts that can be looked at one by one:
the links and nodes and how they account for each other (`Sound`), the stamps of the links and the
tags of the retired ones (`Stamped`), and the ring of neighbours (`Ring`). `Live` puts them together
for a store whose deque holds a given list, and `Shaped` all of them but the stamps. A neighbour
pointer may name a superseded link, so two nodes are adjacent if each one's current link leads to
the other's.
-/

namespace SnapshotDeque.Store

variable {α : Type} {s t : Store α}

/-- The current link of a node or a sentinel. -/
def current? (s : Store α) (x : Handle) : Option Nat :=
  if x = .atBegin then some s.beginLink
  else if x = .atEnd then some s.endLink
  else s.arena.head? x

/-- Whether link `i` is not given back yet. -/
def Retained (s : Store α) (i : Nat) : Prop :=
  s.current? (s.owner i) = some i ∨ i ∈ s.obsolete

/-- Each of two nodes is the neighbour of the other. -/
def Adjacent (s : Store α) (x y : Handle) : Prop :=
  ∃ p n, s.current? x = some p ∧ s.current? y = some n ∧
    (∃ j, (s.links.get p).next = some j ∧ s.links.Leads j n) ∧
    ∃ j, (s.links.get n).previous = some j ∧ s.links.Leads j p

/-- The handles between the sentinels, with the sentinels. -/
def ringOf (l : List Handle) : List Handle := .atBegin :: (l ++ [.atEnd])

structure Ring (s : Store α) (l : List Handle) : Prop where
  nodup : (ringOf l).Nodup
  chain : (ringOf l).IsChain s.Adjacent

/-- The links and the nodes of a store, of which `retired` are the links that are not current and
not given back. Every node is linked or has a retired link, but for those in `spare`. -/
structure Sound (s : Store α) (retired : List Nat) (spare : List Handle) : Prop where
  chained : s.links.Chained
  arena : s.arena.Valid
  current_lt : ∀ {x i}, s.current? x = some i → i < s.links.size
  owner : ∀ {x i}, s.current? x = some i → s.owner i = x
  newer : ∀ {x i}, s.current? x = some i → (s.links.get i).newer = none
  obsoleteOn : ∀ {x i}, s.current? x = some i → (s.links.get i).obsoleteOn = none
  element : ∀ {x n i}, s.arena.get? x = some n → n.head = some i →
    (s.links.get i).element = some n.element
  retired_lt : ∀ {i}, i ∈ retired → i < s.links.size
  retired_ne : ∀ {i}, i ∈ retired → s.current? (s.owner i) ≠ some i
  retired_node : ∀ {i}, i ∈ retired → (s.owner i).isSentinel = false →
    ∃ n, s.arena.get? (s.owner i) = some n ∧ (s.links.get i).element = some n.element
  nodup : retired.Nodup
  liveLinks : ∀ {x n}, s.arena.get? x = some n →
    n.liveLinks = (if n.head.isSome then 1 else 0) + retired.countP (s.owner · = x)
  occupied : ∀ {x n}, s.arena.get? x = some n → n.head = none → x ∉ spare →
    ∃ i ∈ retired, s.owner i = x

/-- The stamps of the links, and the tags of the retired ones in the order in which they wait. -/
structure Stamped (s : Store α) : Prop where
  timeline : s.timeline.Valid
  createdOn_le : ∀ {i}, i < s.links.size → (s.links.get i).createdOn ≤ s.timeline.modification
  tag : ∀ {i}, i ∈ s.obsolete → ∃ w, (s.links.get i).obsoleteOn = some w ∧
    (s.links.get i).createdOn < w ∧ w ≤ s.timeline.modification
  sorted : s.obsolete.Pairwise fun i j => ∀ v w, (s.links.get i).obsoleteOn = some v →
    (s.links.get j).obsoleteOn = some w → v ≤ w

/-- Whether `v` is the stamp of a change under way: the modification version, ahead of every pin. -/
structure Stamp (s : Store α) (v : Version) : Prop where
  eq : v = s.timeline.modification
  ahead : ∀ w ∈ s.timeline.pinned, w < v

/-- A change stamped `v` is under way. -/
structure Changing (s : Store α) (v : Version) (spare : List Handle) : Prop where
  sound : s.Sound s.obsolete spare
  stamped : s.Stamped
  stamp : s.Stamp v

/-- Whether link `i` is younger than every pin. -/
def Unseen (s : Store α) (i : Nat) : Prop :=
  ∀ w ∈ s.timeline.pinned, w < (s.links.get i).createdOn

/-- Both ends say that `n` nodes are linked. -/
structure Counted (s : Store α) (n : Nat) : Prop where
  first : (s.links.get s.beginLink).count = n
  last : (s.links.get s.endLink).count = n

/-- The linked nodes are those in `l`. -/
def Heads (s : Store α) (l : List Handle) : Prop := ∀ x, (s.arena.head? x).isSome ↔ x ∈ l

/-- The store of a deque that holds `l`, front to back, whatever its links are stamped with. -/
structure Shaped (s : Store α) (l : List (Handle × α)) : Prop where
  open_ : s.disposed = false
  sound : s.Sound s.obsolete []
  ring : s.Ring (l.map (·.1))
  heads : s.Heads (l.map (·.1))
  counted : s.Counted l.length
  element : ∀ e ∈ l, (s.arena.get? e.1).map (·.element) = some e.2

/-- The store of a deque that holds `l`, front to back. -/
structure Live (s : Store α) (l : List (Handle × α)) : Prop extends Shaped s l where
  stamped : s.Stamped

theorem Sound.congr {r : List Nat} {sp : List Handle} (h : s.Sound r sp)
    (hl : t.links = s.links) (ha : t.arena = s.arena) (hb : t.beginLink = s.beginLink)
    (he : t.endLink = s.endLink) : t.Sound r sp := by
  cases s
  cases t
  dsimp only at hl ha hb he
  subst hl ha hb he
  exact { h with }

theorem Stamped.congr (h : s.Stamped) (hl : t.links = s.links) (ht : t.timeline = s.timeline)
    (ho : t.obsolete = s.obsolete) : t.Stamped := by
  cases s
  cases t
  dsimp only at hl ht ho
  subst hl ht ho
  exact { h with }

/-! ## Current links -/

@[simp] theorem current?_atBegin (s : Store α) : s.current? .atBegin = some s.beginLink :=
  if_pos rfl

@[simp] theorem current?_atEnd (s : Store α) : s.current? .atEnd = some s.endLink := rfl

theorem current?_of_payload {x : Handle} (hx : x.isSentinel = false) :
    s.current? x = s.arena.head? x := by
  have h1 : x ≠ .atBegin := fun e => by rw [e] at hx; cases hx
  have h2 : x ≠ .atEnd := fun e => by rw [e] at hx; cases hx
  rw [current?, if_neg h1, if_neg h2]

theorem isSentinel_of_head? {x : Handle} (h : (s.arena.head? x).isSome) :
    x.isSentinel = false := by
  unfold Arena.head? at h
  cases hn : s.arena.get? x with
  | none => rw [hn] at h; cases h
  | some n => exact Arena.isSentinel_of_get? hn

theorem current?_of_node {x : Handle} {n : Node α} (hn : s.arena.get? x = some n) :
    s.current? x = n.head := by
  rw [current?_of_payload (Arena.isSentinel_of_get? hn), Arena.head?, hn]; rfl

theorem head_of_current? {x : Handle} {i : Nat} (h : s.current? x = some i) :
    s.head x = .ok i := by
  unfold current? at h
  unfold head
  split
  next hx => rw [if_pos hx] at h; cases h; rfl
  next hx =>
    rw [if_neg hx] at h
    split
    next hx => rw [if_pos hx] at h; cases h; rfl
    next hx => rw [if_neg hx] at h; rw [h]

theorem Sound.eq_of_owner {r : List Nat} {x : List Handle} (h : s.Sound r x) {y z : Handle}
    {i : Nat} (hy : s.current? y = some i) (hz : s.current? z = some i) : y = z :=
  (h.owner hy).symm.trans (h.owner hz)

/-- The node of a current link that is no sentinel's. -/
theorem exists_node_of_current? {x : Handle} {i : Nat} (hx : x.isSentinel = false)
    (h : s.current? x = some i) : ∃ n, s.arena.get? x = some n ∧ n.head = some i := by
  rw [current?_of_payload hx, Arena.head?] at h
  exact Option.bind_eq_some_iff.1 h

/-! ## Neighbours -/

theorem Sound.nextOf {r : List Nat} {sp : List Handle} (h : s.Sound r sp) {x y : Handle} {p n : Nat}
    (hxy : s.Adjacent x y) (hp : s.current? x = some p) (hn : s.current? y = some n) :
    s.nextOf p = .ok n := by
  obtain ⟨p', n', hp', hn', ⟨j, hj, hjn⟩, _⟩ := hxy
  rw [hp] at hp'; cases hp'
  rw [hn] at hn'; cases hn'
  have ho : s.owner j = y := (hjn.owner h.chained).symm.trans (h.owner hn)
  unfold Store.nextOf
  simp only [hj, ho]
  exact head_of_current? hn

theorem Sound.previousOf {r : List Nat} {sp : List Handle} (h : s.Sound r sp) {x y : Handle}
    {p n : Nat} (hxy : s.Adjacent x y) (hp : s.current? x = some p)
    (hn : s.current? y = some n) : s.previousOf n = .ok p := by
  obtain ⟨p', n', hp', hn', _, ⟨j, hj, hjp⟩⟩ := hxy
  rw [hp] at hp'; cases hp'
  rw [hn] at hn'; cases hn'
  have ho : s.owner j = x := (hjp.owner h.chained).symm.trans (h.owner hp)
  unfold Store.previousOf
  simp only [hj, ho]
  exact head_of_current? hp

/-! ## The ring -/

section Chains

variable {R S : Handle → Handle → Prop} {u v : List Handle} {w x y : Handle}

/-- Up to a node, a ring does not change if only what follows that node does. -/
theorem isChain_before (h : (u ++ [w]).IsChain R) (hw : w ∉ u) (hy : y ∉ u ++ [w])
    (hRS : ∀ a b, a ≠ w → b ≠ y → R a b → S a b) : (u ++ [w]).IsChain S := by
  rcases List.eq_nil_or_concat u with rfl | ⟨u, a, rfl⟩
  · exact List.isChain_singleton w
  · rw [List.concat_eq_append] at *
    rw [List.append_assoc, List.singleton_append] at h ⊢
    rw [List.isChain_append_cons_cons] at h ⊢
    obtain ⟨hu, ha, _⟩ := h
    have hne : ∀ b ∈ u ++ [a], b ≠ w := fun b hb e => hw (e ▸ hb)
    have hny : ∀ b ∈ u ++ [a], b ≠ y := fun b hb e => hy (List.mem_append_left _ (e ▸ hb))
    have hwy : w ≠ y := fun e => hy (by simp [e])
    refine ⟨?_, hRS a w (hne a (by simp)) hwy ha, List.isChain_singleton w⟩
    exact hu.imp_of_mem_imp fun a b ha hb => hRS a b (hne a ha) (hny b hb)

/-- From a node on, a ring does not change if only what precedes that node does. -/
theorem isChain_after (h : (y :: v).IsChain R) (hw : w ∉ y :: v) (hy : y ∉ v)
    (hRS : ∀ a b, a ≠ w → b ≠ y → R a b → S a b) : (y :: v).IsChain S :=
  h.imp_of_mem_tail_imp fun a b ha hb =>
    hRS a b (fun e => hw (e ▸ ha)) fun e => hy (e ▸ hb)

theorem isChain_remove (h : (u ++ w :: x :: y :: v).IsChain R)
    (hnd : (u ++ w :: x :: y :: v).Nodup) (hwy : S w y)
    (hRS : ∀ a b, a ≠ w → b ≠ y → R a b → S a b) : (u ++ w :: y :: v).IsChain S := by
  rw [List.isChain_append_cons_cons] at h ⊢
  obtain ⟨hu, _, hxy⟩ := h
  obtain ⟨_, hyv⟩ := List.isChain_cons_cons.1 hxy
  have hd := List.nodup_append.1 hnd
  refine ⟨isChain_before hu ?_ ?_ hRS, hwy, isChain_after hyv ?_ ?_ hRS⟩ <;> grind

theorem isChain_insert (h : (u ++ w :: y :: v).IsChain R) (hnd : (u ++ w :: y :: v).Nodup)
    (hwx : S w x) (hxy : S x y) (hRS : ∀ a b, a ≠ w → b ≠ y → R a b → S a b) :
    (u ++ w :: x :: y :: v).IsChain S := by
  rw [List.isChain_append_cons_cons] at h ⊢
  obtain ⟨hu, _, hyv⟩ := h
  have hd := List.nodup_append.1 hnd
  refine ⟨isChain_before hu ?_ ?_ hRS, hwx, List.isChain_cons_cons.2 ⟨hxy, ?_⟩⟩
  · grind
  · grind
  · refine isChain_after hyv ?_ ?_ hRS <;> grind

end Chains

theorem mem_ringOf {l : List Handle} {x : Handle} :
    x ∈ ringOf l ↔ x = .atBegin ∨ x ∈ l ∨ x = .atEnd := by
  simp [ringOf]

/-- The neighbours of a node in a ring, and what lies beyond them. -/
theorem exists_neighbours (a b : List Handle) (x : Handle) :
    ∃ u w y v, ringOf (a ++ x :: b) = u ++ w :: x :: y :: v ∧
      ringOf (a ++ b) = u ++ w :: y :: v := by
  obtain ⟨y, v, hv⟩ := List.exists_cons_of_ne_nil (l := b ++ [Handle.atEnd]) (by simp)
  rcases List.eq_nil_or_concat a with rfl | ⟨a, w, rfl⟩
  · exact ⟨[], .atBegin, y, v, by simp [ringOf, hv], by simp [ringOf, hv]⟩
  · exact ⟨.atBegin :: a, w, y, v, by simp [ringOf, hv], by simp [ringOf, hv]⟩

theorem Ring.ne_sentinel {l : List Handle} (h : s.Ring l) {x : Handle} (hx : x ∈ l) :
    x ≠ .atBegin ∧ x ≠ .atEnd := by
  have hnd := h.nodup
  simp only [ringOf, List.nodup_cons, List.nodup_append, List.mem_append, List.mem_singleton] at hnd
  exact ⟨fun e => hnd.1 (Or.inl (e ▸ hx)), hnd.2.2.2 x hx _ rfl⟩

theorem Ring.nodup_list {l : List Handle} (h : s.Ring l) : l.Nodup := by
  have hnd := h.nodup
  rw [ringOf, List.nodup_cons] at hnd
  exact (List.nodup_append.1 hnd.2).1

/-! ## The walk along the live deque -/

theorem Sound.linksFrom {r : List Nat} {sp : List Handle} (h : s.Sound r sp) {m : List Handle} :
    ∀ {n i : Nat} {x : Handle} {v : List Handle}, m ++ [.atEnd] = x :: v →
      (x :: v).IsChain s.Adjacent → (∀ x ∈ m, x.isSentinel = false) → m.length ≤ n →
      s.current? x = some i → s.linksFrom n i = .ok (m.filterMap s.current?) := by
  induction m with
  | nil =>
    intro n i x v hm _ _ _ hi
    rw [List.nil_append, List.cons.injEq] at hm
    obtain ⟨rfl, rfl⟩ := hm
    have ho : (s.links.get i).owner = .atEnd := h.owner hi
    unfold Store.linksFrom
    rw [if_pos (by rw [Link.isSentinel, ho]; rfl)]
    rfl
  | cons z m ih =>
    intro n i x v hm hc hs hn hi
    rw [List.cons_append, List.cons.injEq] at hm
    obtain ⟨rfl, rfl⟩ := hm
    have ho : (s.links.get i).owner = z := h.owner hi
    have hz : (s.links.get i).isSentinel = false := by
      rw [Link.isSentinel, ho]; exact hs z (List.mem_cons_self ..)
    obtain ⟨y, v, hv⟩ := List.exists_cons_of_ne_nil (l := m ++ [Handle.atEnd]) (by simp)
    rw [hv] at hc
    obtain ⟨hzy, hc⟩ := List.isChain_cons_cons.1 hc
    have hzy' := hzy
    obtain ⟨p, j, _, hj, _⟩ := hzy'
    cases n with
    | zero => simp at hn
    | succ n =>
      have hnext := h.nextOf hzy hi hj
      have hrest := ih hv hc (fun x hx => hs x (List.mem_cons_of_mem _ hx))
        (by simpa using hn) hj
      unfold Store.linksFrom
      rw [hz]
      simp only [Bool.false_eq_true, if_false, hnext, List.filterMap_cons, hi]
      change (s.linksFrom n j >>= fun l => pure (i :: l)) = _
      rw [hrest]
      rfl

section Walk

variable {l : List Handle} (h : s.Sound s.obsolete []) (hr : s.Ring l)

include h hr

/-- The node at the front of a deque, or the end sentinel. -/
theorem Ring.outermost_first {x : Handle} {v : List Handle} (hl : l ++ [.atEnd] = x :: v)
    {i : Nat} (hi : s.current? x = some i) : s.outermost .first = .ok i := by
  have hc := hr.chain
  rw [ringOf, hl] at hc
  exact h.nextOf (List.isChain_cons_cons.1 hc).1 (current?_atBegin s) hi

/-- The node at the back of a deque, or the begin sentinel. -/
theorem Ring.outermost_last {x : Handle} {u : List Handle} (hl : .atBegin :: l = u ++ [x])
    {i : Nat} (hi : s.current? x = some i) : s.outermost .last = .ok i := by
  have hc := hr.chain
  rw [ringOf, ← List.cons_append, hl, List.append_assoc, List.singleton_append,
    List.isChain_append_cons_cons] at hc
  exact h.previousOf hc.2.1 hi (current?_atEnd s)

theorem Ring.liveLinks (hs : ∀ x ∈ l, x.isSentinel = false) (hn : s.Counted l.length) :
    s.liveLinks = .ok (l.filterMap s.current?) := by
  obtain ⟨x, v, hv⟩ := List.exists_cons_of_ne_nil (l := l ++ [Handle.atEnd]) (by simp)
  have hc := hr.chain
  rw [ringOf, hv] at hc
  obtain ⟨hx, hc⟩ := List.isChain_cons_cons.1 hc
  obtain ⟨_, i, _, hi, _⟩ := hx
  have hlen : s.length = l.length := hn.first
  unfold Store.liveLinks
  rw [hr.outermost_first h hv hi]
  change s.linksFrom s.length i = _
  exact h.linksFrom hv hc hs (Nat.le_of_eq hlen.symm) hi

end Walk

end SnapshotDeque.Store
