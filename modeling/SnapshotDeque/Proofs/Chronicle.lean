import Mathlib.Data.List.Range
import SnapshotDeque.Proofs.Tale

/-!
The chronicle of a deque: all that was ever done to its nodes, in order, and what it says about the
nodes there are. Main statements: a tale continues a chronicle, the length of the deque can be read
off it, and what a change adds can be seen in the deque before and after it.
-/

namespace SnapshotDeque

variable {α : Type}

namespace Deed

/-- Whether two deeds are done to the same node. -/
structure Same (d e : Deed α) : Prop where
  id : d.id = e.id
  node : d.node = e.node
  element : d.element = e.element

theorem Same.trans {d e f : Deed α} (h : d.Same e) (h' : e.Same f) : d.Same f :=
  ⟨h.id.trans h'.id, h.node.trans h'.node, h.element.trans h'.element⟩

/-- Among `ds` there is a deed of kind `p` that was done to this node. -/
def Done (p : Deed α → Bool) (ds : List (Deed α)) (i : NodeId) (x : Handle) (a : α) : Prop :=
  ∃ d ∈ ds, p d = true ∧ d.id = i ∧ d.node = x ∧ d.element = a

/-- Among `ds`, a node was linked under number `i`. -/
def Linked (ds : List (Deed α)) (i : NodeId) (x : Handle) (a : α) : Prop := Done isLink ds i x a

/-- Among `ds`, node number `i` was unlinked. -/
def Unlinked (ds : List (Deed α)) (i : NodeId) : Prop := ∃ d ∈ ds, d.isUnlink = true ∧ d.id = i

/-- Among `ds`, node number `i` was disposed. -/
def Disposed (ds : List (Deed α)) (i : NodeId) : Prop := ∃ d ∈ ds, d.isDispose = true ∧ d.id = i

/-- Each deed of kind `p` in a list comes after one of kind `q` that is done to the same node. -/
def Follows (p q : Deed α → Bool) (ds : List (Deed α)) : Prop :=
  ∀ a d b, ds = a ++ d :: b → p d = true → ∃ e ∈ a, q e = true ∧ e.Same d

variable {ds : List (Deed α)} {d : Deed α} {p q : Deed α → Bool}

theorem Follows.exists_mem (h : Follows p q ds) (hd : d ∈ ds) (hp : p d = true) :
    ∃ e ∈ ds, q e = true ∧ e.Same d := by
  obtain ⟨a, b, hab⟩ := List.append_of_mem hd
  obtain ⟨e, he, hq, hs⟩ := h a d b hab hp
  exact ⟨e, hab ▸ List.mem_append_left _ he, hq, hs⟩

theorem Follows.concat (h : Follows p q ds)
    (hd : p d = true → ∃ e ∈ ds, q e = true ∧ e.Same d) : Follows p q (ds ++ [d]) := by
  intro a e b hab he
  rcases List.eq_nil_or_concat b with rfl | ⟨b, f, rfl⟩
  · obtain ⟨rfl, hde⟩ := List.append_inj' hab rfl
    cases hde
    exact hd he
  · rw [List.concat_eq_append, ← List.cons_append, ← List.append_assoc] at hab
    exact h a e b (List.append_inj' hab rfl).1 he

theorem Follows.append (h : Follows p q ds) {es : List (Deed α)} (he : ∀ d ∈ es, p d = false) :
    Follows p q (ds ++ es) := by
  induction es using List.reverseRecOn with
  | nil => rwa [List.append_nil]
  | append_singleton es d ih =>
    rw [← List.append_assoc]
    refine (ih fun e hm => he e (List.mem_append_left _ hm)).concat fun hp => ?_
    rw [he d (List.mem_append_right _ (List.mem_singleton.2 rfl))] at hp
    cases hp

theorem linked_concat {i : NodeId} {x : Handle} {a : α} : Linked (ds ++ [d]) i x a ↔
    Linked ds i x a ∨ d.isLink = true ∧ d.id = i ∧ d.node = x ∧ d.element = a := by
  simp only [Linked, Done, List.mem_append, List.mem_singleton, or_and_right, exists_or,
    exists_eq_left]

theorem done_append {es : List (Deed α)} {i : NodeId} {x : Handle} {a : α} :
    Done p (ds ++ es) i x a ↔ Done p ds i x a ∨ Done p es i x a := by
  simp only [Done, List.mem_append, or_and_right, exists_or]

theorem unlinked_concat {i : NodeId} :
    Unlinked (ds ++ [d]) i ↔ Unlinked ds i ∨ d.isUnlink = true ∧ d.id = i := by
  simp only [Unlinked, List.mem_append, List.mem_singleton, or_and_right, exists_or, exists_eq_left]

theorem disposed_concat {i : NodeId} :
    Disposed (ds ++ [d]) i ↔ Disposed ds i ∨ d.isDispose = true ∧ d.id = i := by
  simp only [Disposed, List.mem_append, List.mem_singleton, or_and_right, exists_or, exists_eq_left]

/-- A kind of deed that no node suffers twice. -/
theorem nodup_concat (h : ((ds.filter p).map (·.id)).Nodup)
    (hd : p d = true → ∀ e ∈ ds, p e = true → e.id ≠ d.id) :
    (((ds ++ [d]).filter p).map (·.id)).Nodup := by
  rw [List.filter_append, List.map_append]
  cases hp : p d with
  | false => rwa [List.filter_singleton, hp, Bool.cond_false, List.map_nil, List.append_nil]
  | true =>
    rw [List.filter_singleton, hp, Bool.cond_true]
    refine List.Nodup.append h (List.nodup_singleton _) fun i hi hd' => ?_
    rw [List.map_singleton, List.mem_singleton] at hd'
    obtain ⟨e, he, rfl⟩ := List.mem_map.1 hi
    obtain ⟨he, hpe⟩ := List.mem_filter.1 he
    exact hd hp e he hpe hd'

end Deed

namespace Store

variable {s t : Store α} {ds : List (Deed α)} {d : Deed α}

/-- All that was done to the nodes of a deque, whose store this is. -/
structure Chronicle (ds : List (Deed α)) (s : Store α) : Prop where
  /-- Every node was linked once, in the order of their numbers. -/
  numbers : (ds.filter Deed.isLink).map (·.id.val) = List.range' 1 (ds.countP Deed.isLink)
  nextId : s.arena.nextId = ds.countP Deed.isLink + 1
  size : s.arena.size + ds.countP Deed.isDispose = ds.countP Deed.isLink
  unlinks : ((ds.filter Deed.isUnlink).map (·.id)).Nodup
  disposes : ((ds.filter Deed.isDispose).map (·.id)).Nodup
  linked : Deed.Follows Deed.isUnlink Deed.isLink ds
  unlinked : Deed.Follows Deed.isDispose Deed.isUnlink ds
  /-- The nodes there are, and which of them are linked. -/
  record : ∀ {x r}, s.record? x = some r ↔ Deed.Linked ds r.id x r.element ∧
    ¬ Deed.Disposed ds r.id ∧ (r.linked = true ↔ ¬ Deed.Unlinked ds r.id)
  versions : (ds.filterMap Deed.version?).Pairwise (· ≤ ·)
  version_le : ∀ v ∈ ds.filterMap Deed.version?, v ≤ s.timeline.modification

namespace Chronicle

theorem id_lt_of_link (h : Chronicle ds s) (hd : d ∈ ds) (hl : d.isLink = true) :
    d.id.val < s.arena.nextId := by
  have hm : d.id.val ∈ (ds.filter Deed.isLink).map (·.id.val) :=
    List.mem_map_of_mem (List.mem_filter.2 ⟨hd, hl⟩)
  rw [h.numbers, List.mem_range'_1] at hm
  rw [h.nextId]
  omega

/-- Whatever was done to a node was done to one that was linked. -/
theorem linked_of_mem (h : Chronicle ds s) (hd : d ∈ ds) :
    Deed.Linked ds d.id d.node d.element := by
  suffices hs : ∃ e ∈ ds, e.isLink = true ∧ e.Same d by
    obtain ⟨e, he, hl, hs⟩ := hs
    exact ⟨e, he, hl, hs.id, hs.node, hs.element⟩
  cases ha : d.act with
  | link side v => exact ⟨d, hd, by rw [Deed.isLink, ha], rfl, rfl, rfl⟩
  | unlink v => exact h.linked.exists_mem hd (by rw [Deed.isUnlink, ha])
  | dispose =>
    obtain ⟨f, hf, hu, hs⟩ := h.unlinked.exists_mem hd (by rw [Deed.isDispose, ha])
    obtain ⟨e, he, hl, hs'⟩ := h.linked.exists_mem hf hu
    exact ⟨e, he, hl, hs'.trans hs⟩

theorem id_lt_of_mem (h : Chronicle ds s) (hd : d ∈ ds) : d.id.val < s.arena.nextId := by
  obtain ⟨e, he, hl, hid, _⟩ := h.linked_of_mem hd
  exact hid ▸ h.id_lt_of_link he hl

/-- Two nodes linked under one number are the same. -/
theorem eq_of_id_eq (h : Chronicle ds s) {e : Deed α} (hd : d ∈ ds) (he : e ∈ ds)
    (hl : d.isLink = true) (hl' : e.isLink = true) (hi : d.id = e.id) : d = e := by
  have hnd : ((ds.filter Deed.isLink).map (·.id.val)).Nodup := by
    rw [h.numbers]
    exact List.nodup_range'
  exact List.inj_on_of_nodup_map hnd (List.mem_filter.2 ⟨hd, hl⟩) (List.mem_filter.2 ⟨he, hl'⟩)
    (congrArg NodeId.val hi)

theorem eq_of_linked (h : Chronicle ds s) {i : NodeId} {x y : Handle} {a b : α}
    (hx : Deed.Linked ds i x a) (hy : Deed.Linked ds i y b) : x = y ∧ a = b := by
  obtain ⟨d, hd, hl, hi, rfl, rfl⟩ := hx
  obtain ⟨e, he, hl', hi', rfl, rfl⟩ := hy
  obtain rfl := h.eq_of_id_eq hd he hl hl' (hi.trans hi'.symm)
  exact ⟨rfl, rfl⟩

/-- What was done under the number of a node was done to that node. -/
theorem done_of_id {p : Deed α → Bool} (h : Chronicle ds s) {i : NodeId} {x : Handle} {a : α}
    (hl : Deed.Linked ds i x a) (hd : ∃ d ∈ ds, p d = true ∧ d.id = i) : Deed.Done p ds i x a := by
  obtain ⟨d, hd, hp, rfl⟩ := hd
  obtain ⟨hx, ha⟩ := h.eq_of_linked (h.linked_of_mem hd) hl
  exact ⟨d, hd, hp, rfl, hx, ha⟩

theorem congr (h : Chronicle ds s) (hr : ∀ x, t.record? x = s.record? x)
    (hn : t.arena.nextId = s.arena.nextId) (hs : t.arena.size = s.arena.size)
    (hm : s.timeline.modification ≤ t.timeline.modification) : Chronicle ds t :=
  { h with
    nextId := hn.trans h.nextId
    size := by rw [hs]; exact h.size
    record := by intro x r; rw [hr]; exact h.record
    version_le := fun v hv => le_trans (h.version_le v hv) hm }

/-- A node that was linked and not disposed is there. -/
theorem exists_record (h : Chronicle ds s) {i : NodeId} {x : Handle} {a : α}
    (hl : Deed.Linked ds i x a) (hd : ¬ Deed.Disposed ds i) :
    ∃ b, s.record? x = some ⟨i, a, b⟩ := by
  by_cases hu : Deed.Unlinked ds i
  · exact ⟨false, h.record.2 ⟨hl, hd, nofun, fun hn => absurd hu hn⟩⟩
  · exact ⟨true, h.record.2 ⟨hl, hd, fun _ => hu, fun _ => rfl⟩⟩

/-- Nothing was done to any node before the first one came. -/
theorem eq_nil (h : Chronicle ds s) (hn : s.arena.nextId = 1) : ds = [] := by
  refine List.eq_nil_iff_forall_not_mem.2 fun d hd => ?_
  obtain ⟨e, he, hl, _⟩ := h.linked_of_mem hd
  have := List.countP_pos_iff.2 ⟨e, he, hl⟩
  have := h.nextId
  omega

section Does

variable (h : Chronicle ds s)

include h

theorem versions_concat (hd : Does s d t) :
    ((ds ++ [d]).filterMap Deed.version?).Pairwise (· ≤ ·) ∧
      ∀ v ∈ (ds ++ [d]).filterMap Deed.version?, v ≤ t.timeline.modification := by
  rw [List.filterMap_append, hd.modification]
  have hv : ∀ v ∈ [d].filterMap Deed.version?, v = s.timeline.modification := by
    intro v hv
    obtain ⟨e, he, hev⟩ := List.mem_filterMap.1 hv
    rw [List.mem_singleton.1 he] at hev
    exact hd.version v hev
  constructor
  · refine List.pairwise_append.2 ⟨h.versions, ?_, fun v hv' w hw => ?_⟩
    · cases hd' : d.version? <;> simp [hd']
    · rw [hv w hw]
      exact h.version_le v hv'
  · intro v hv'
    rcases List.mem_append.1 hv' with hv' | hv'
    · exact h.version_le v hv'
    · exact le_of_eq (hv v hv')

theorem counts_concat (hd : Does s d t) : t.arena.nextId = (ds ++ [d]).countP Deed.isLink + 1 ∧
    t.arena.size + (ds ++ [d]).countP Deed.isDispose = (ds ++ [d]).countP Deed.isLink := by
  have h1 := hd.nextId
  have h2 := hd.size
  have h3 := h.nextId
  have h4 := h.size
  rw [List.countP_append, List.countP_append]
  omega

variable {i : NodeId} {x : Handle} {a : α} {side : End} {v : Version}

theorem link (hd : Does s ⟨i, x, a, .link side v⟩ t) :
    Chronicle (ds ++ [⟨i, x, a, .link side v⟩]) t := by
  have hi : i.val = s.arena.nextId := hd.fresh rfl
  have hnew : ∀ {e : Deed α}, e.id.val < s.arena.nextId → e.id ≠ i := fun hlt he =>
    Nat.ne_of_lt hlt (he ▸ hi)
  have hnu : ¬ Deed.Unlinked ds i := fun ⟨e, he, _, hei⟩ => hnew (h.id_lt_of_mem he) hei
  have hnd : ¬ Deed.Disposed ds i := fun ⟨e, he, _, hei⟩ => hnew (h.id_lt_of_mem he) hei
  refine {
    numbers := ?_
    nextId := (h.counts_concat hd).1
    size := (h.counts_concat hd).2
    unlinks := Deed.nodup_concat h.unlinks nofun
    disposes := Deed.nodup_concat h.disposes nofun
    linked := h.linked.concat nofun
    unlinked := h.unlinked.concat nofun
    record := fun {y r} => ?_
    versions := (h.versions_concat hd).1
    version_le := (h.versions_concat hd).2 }
  · have hn := h.nextId
    rw [List.filter_append, List.map_append, h.numbers, List.countP_append]
    change _ ++ [i.val] = List.range' 1 (_ + 1)
    rw [List.range'_concat, hi, hn]
    simp [Nat.add_comm]
  rw [hd.record, Deed.linked_concat, Deed.unlinked_concat, Deed.disposed_concat]
  simp only [Deed.isLink, Deed.isUnlink, Deed.isDispose, true_and, Bool.false_eq_true, false_and,
    or_false]
  split
  next hy =>
    subst hy
    constructor
    · rintro ⟨⟩
      exact ⟨Or.inr ⟨rfl, rfl, rfl⟩, hnd, fun _ => hnu, fun _ => rfl⟩
    · rintro ⟨hl | ⟨hri, _, hra⟩, hdr, hur⟩
      · obtain ⟨b, hb⟩ := h.exists_record hl hdr
        exact absurd (hd.before.symm.trans hb) nofun
      · have hlr := hur.2 (hri ▸ hnu)
        cases r
        cases hri
        cases hra
        cases hlr
        rfl
  next hy =>
    have hne : ¬ (i = r.id ∧ x = y ∧ a = r.element) := fun he => hy he.2.1.symm
    rw [h.record, or_iff_left hne]

theorem unlink (hd : Does s ⟨i, x, a, .unlink v⟩ t) :
    Chronicle (ds ++ [⟨i, x, a, .unlink v⟩]) t := by
  have hb : s.record? x = some ⟨i, a, true⟩ := hd.before
  obtain ⟨hl, hnd, hnu⟩ := h.record.1 hb
  have hnu : ¬ Deed.Unlinked ds i := hnu.1 rfl
  refine {
    numbers := by simpa [Deed.isLink] using h.numbers
    nextId := (h.counts_concat hd).1
    size := (h.counts_concat hd).2
    unlinks := Deed.nodup_concat h.unlinks fun _ e he hu hei => hnu ⟨e, he, hu, hei⟩
    disposes := Deed.nodup_concat h.disposes nofun
    linked := h.linked.concat fun _ => ?_
    unlinked := h.unlinked.concat nofun
    record := fun {y r} => ?_
    versions := (h.versions_concat hd).1
    version_le := (h.versions_concat hd).2 }
  · obtain ⟨e, he, hle, hei, hex, hea⟩ := hl
    exact ⟨e, he, hle, hei, hex, hea⟩
  rw [hd.record, Deed.linked_concat, Deed.unlinked_concat, Deed.disposed_concat]
  simp only [Deed.isLink, Deed.isUnlink, Deed.isDispose, true_and, Bool.false_eq_true, false_and,
    or_false]
  split
  next hy =>
    subst hy
    constructor
    · rintro ⟨⟩
      exact ⟨hl, hnd, nofun, fun hn => absurd (Or.inr rfl) hn⟩
    · rintro ⟨hlr, hdr, hur⟩
      obtain ⟨b, hb'⟩ := h.exists_record hlr hdr
      cases Option.some.inj (hb.symm.trans hb')
      have hf : r.linked = false := Bool.eq_false_iff.2 fun ht => hur.1 ht (Or.inr rfl)
      cases r
      cases hf
      rfl
  next hy =>
    rw [h.record]
    refine and_congr_right fun hlr => and_congr_right fun _ => ?_
    rw [or_iff_left fun e => hy (h.eq_of_linked (e ▸ hl) hlr).1.symm]

theorem dispose (hd : Does s ⟨i, x, a, .dispose⟩ t) :
    Chronicle (ds ++ [⟨i, x, a, .dispose⟩]) t := by
  have hb : s.record? x = some ⟨i, a, false⟩ := hd.before
  obtain ⟨hl, hnd, hu⟩ := h.record.1 hb
  have hu : Deed.Unlinked ds i := not_not.1 fun hn => nomatch hu.2 hn
  refine {
    numbers := by simpa [Deed.isLink] using h.numbers
    nextId := (h.counts_concat hd).1
    size := (h.counts_concat hd).2
    unlinks := Deed.nodup_concat h.unlinks nofun
    disposes := Deed.nodup_concat h.disposes fun _ e he hu hei => hnd ⟨e, he, hu, hei⟩
    linked := h.linked.concat nofun
    unlinked := h.unlinked.concat fun _ => ?_
    record := fun {y r} => ?_
    versions := (h.versions_concat hd).1
    version_le := (h.versions_concat hd).2 }
  · obtain ⟨e, he, hue, hei, hex, hea⟩ := h.done_of_id hl hu
    exact ⟨e, he, hue, hei, hex, hea⟩
  rw [hd.record, Deed.linked_concat, Deed.unlinked_concat, Deed.disposed_concat]
  simp only [Deed.isLink, Deed.isUnlink, Deed.isDispose, true_and, Bool.false_eq_true, false_and,
    or_false]
  split
  next hy =>
    subst hy
    refine ⟨nofun, fun ⟨hlr, hdr, _⟩ => ?_⟩
    obtain ⟨hdr, hne⟩ := not_or.1 hdr
    obtain ⟨b, hb'⟩ := h.exists_record hlr hdr
    cases Option.some.inj (hb.symm.trans hb')
    exact absurd rfl hne
  next hy =>
    rw [h.record]
    refine and_congr_right fun hlr => ?_
    rw [or_iff_left fun e => hy (h.eq_of_linked (e ▸ hl) hlr).1.symm]

end Does

/-! ## The length of the deque -/

section Length

variable {l : List (Handle × α)} (h : Chronicle ds s) (hl : s.Shaped l)

omit h in
include hl in
theorem record_of_mem {e : Handle × α} (he : e ∈ l) :
    ∃ i : NodeId, s.record? e.1 = some ⟨i, e.2, true⟩ := by
  obtain ⟨n, hn, hne⟩ := Option.map_eq_some_iff.1 (hl.element e he)
  have hh := (hl.heads e.1).2 (List.mem_map_of_mem he)
  rw [Arena.head?, hn] at hh
  refine ⟨n.id, ?_⟩
  rw [record?_of_get? hn, hne, show n.head.isSome = true from hh]

include h hl

/-- The numbers of the linked nodes, with those of the unlinked ones, are the numbers of all. -/
theorem exists_perm : ∃ f : Handle × α → NodeId,
    (l.map f ++ (ds.filter Deed.isUnlink).map (·.id)).Perm
      ((ds.filter Deed.isLink).map (·.id)) := by
  have : Nonempty NodeId := ⟨⟨0⟩⟩
  choose! f hf using fun e he => record_of_mem hl (e := e) he
  have hlink : ∀ e ∈ l, Deed.Linked ds (f e) e.1 e.2 := fun e he => (h.record.1 (hf e he)).1
  have hunl : ∀ e ∈ l, ¬ Deed.Unlinked ds (f e) := fun e he => (h.record.1 (hf e he)).2.2.1 rfl
  have hinj : ∀ e ∈ l, ∀ e' ∈ l, f e = f e' → e = e' := fun e he e' he' hid =>
    List.inj_on_of_nodup_map hl.ring.nodup_list he he'
      (h.eq_of_linked (hlink e he) (hid ▸ hlink e' he')).1
  refine ⟨f, (List.perm_ext_iff_of_nodup ?_ ?_).2 fun i => ?_⟩
  · refine List.Nodup.append ((List.Nodup.of_map _ hl.ring.nodup_list).map_on hinj) h.unlinks
      fun i hi hi' => ?_
    obtain ⟨e, he, rfl⟩ := List.mem_map.1 hi
    obtain ⟨d, hd, hdi⟩ := List.mem_map.1 hi'
    obtain ⟨hd, hu⟩ := List.mem_filter.1 hd
    exact hunl e he ⟨d, hd, hu, hdi⟩
  · refine List.Nodup.of_map NodeId.val ?_
    rw [List.map_map]
    exact h.numbers ▸ List.nodup_range'
  rw [List.mem_append, List.mem_map, List.mem_map, List.mem_map]
  constructor
  · rintro (⟨e, he, rfl⟩ | ⟨d, hd, rfl⟩)
    · obtain ⟨d, hd, hdl, hi, _⟩ := hlink e he
      exact ⟨d, List.mem_filter.2 ⟨hd, hdl⟩, hi⟩
    · obtain ⟨hd, hu⟩ := List.mem_filter.1 hd
      obtain ⟨e, he, hel, hs⟩ := h.linked.exists_mem hd hu
      exact ⟨e, List.mem_filter.2 ⟨he, hel⟩, hs.id⟩
  · rintro ⟨d, hd, rfl⟩
    obtain ⟨hd, hdl⟩ := List.mem_filter.1 hd
    by_cases hu : Deed.Unlinked ds d.id
    · obtain ⟨e, he, hue, hei⟩ := hu
      exact Or.inr ⟨e, List.mem_filter.2 ⟨he, hue⟩, hei⟩
    -- what was never unlinked was not disposed either, so it is still linked
    · have hnd : ¬ Deed.Disposed ds d.id := fun ⟨e, he, hde, hei⟩ => by
        obtain ⟨g, hg, hug, hs⟩ := h.unlinked.exists_mem he hde
        exact hu ⟨g, hg, hug, hs.id.trans hei⟩
      have hrec : s.record? d.node = some ⟨d.id, d.element, true⟩ :=
        h.record.2 ⟨⟨d, hd, hdl, rfl, rfl, rfl⟩, hnd, fun _ => hu, fun _ => rfl⟩
      have hh : (s.arena.head? d.node).isSome = true := by rw [isSome_head?_eq, hrec]; rfl
      obtain ⟨e, he, hen⟩ := List.mem_map.1 ((hl.heads _).1 hh)
      have he' := hf e he
      rw [hen, hrec] at he'
      exact Or.inl ⟨e, he, congrArg Record.id (Option.some.inj he').symm⟩

/-- What was linked and not unlinked is in the deque. -/
theorem length_add : l.length + ds.countP Deed.isUnlink = ds.countP Deed.isLink := by
  obtain ⟨f, hf⟩ := h.exists_perm hl
  have := hf.length_eq
  rw [List.length_append, List.length_map, List.length_map, List.length_map,
    ← List.countP_eq_length_filter, ← List.countP_eq_length_filter] at this
  exact this

end Length

/-! ## Tales -/

/-- What a tale tells continues a chronicle. -/
theorem tale (h : Chronicle ds s) {es : List (Deed α)} {k : Nat} (ht : Tale s es k t) :
    Chronicle (ds ++ es) t := by
  induction ht with
  | nil => rwa [List.append_nil]
  | still _ hs ih => exact ih.congr hs.record hs.nextId hs.size hs.modification
  | release _ ih =>
    exact ih.congr (record?_withoutLink _) (Arena.nextId_modify ..) (Arena.size_modify ..)
      (le_refl _)
  | does _ hd ih =>
    rename_i d _ _
    rw [← List.append_assoc]
    obtain ⟨i, x, a, act⟩ := d
    cases act with
    | link side v => exact ih.link hd
    | unlink v => exact ih.unlink hd
    | dispose => exact ih.dispose hd

/-! ## What comes next -/

theorem done_unlink_iff (h : Chronicle ds s) {i : NodeId} {x : Handle} {a : α}
    (hl : Deed.Linked ds i x a) :
    Deed.Done Deed.isUnlink ds i x a ↔ s.record? x ≠ some ⟨i, a, true⟩ := by
  constructor
  · rintro ⟨d, hd, hu, rfl, rfl, rfl⟩ hr
    exact (h.record.1 hr).2.2.1 rfl ⟨d, hd, hu, rfl⟩
  · intro hn
    refine h.done_of_id hl (not_not.1 fun hu => hn (h.record.2 ⟨hl, ?_, fun _ => hu, fun _ => rfl⟩))
    -- what was disposed had been unlinked
    rintro ⟨d, hd, hdd, rfl⟩
    obtain ⟨e, he, hue, hs⟩ := h.unlinked.exists_mem hd hdd
    exact hu ⟨e, he, hue, hs.id⟩

theorem done_dispose_iff (h : Chronicle ds s) {i : NodeId} {x : Handle} {a : α}
    (hl : Deed.Linked ds i x a) :
    Deed.Done Deed.isDispose ds i x a ↔ ∀ b, s.record? x ≠ some ⟨i, a, b⟩ := by
  constructor
  · rintro ⟨d, hd, hdd, rfl, rfl, rfl⟩ b hr
    exact (h.record.1 hr).2.1 ⟨d, hd, hdd, rfl⟩
  · intro hn
    refine h.done_of_id hl (not_not.1 fun hd => ?_)
    obtain ⟨b, hb⟩ := h.exists_record hl hd
    exact hn b hb

/-- No node is linked under a number that was given before. -/
theorem fresh_of_append {es : List (Deed α)} (h : Chronicle (ds ++ es) t) (hd : d ∈ ds)
    (hl : d.isLink = true) {e : Deed α} (he : e ∈ es) (hl' : e.isLink = true) : d.id ≠ e.id := by
  have hnd : (((ds ++ es).filter Deed.isLink).map (·.id.val)).Nodup := by
    rw [h.numbers]
    exact List.nodup_range'
  rw [List.filter_append, List.map_append] at hnd
  intro hid
  refine List.disjoint_of_nodup_append hnd (List.mem_map_of_mem (List.mem_filter.2 ⟨hd, hl⟩)) ?_
  rw [hid]
  exact List.mem_map_of_mem (List.mem_filter.2 ⟨he, hl'⟩)

end Chronicle

/-- The deeds `es`, which come after those in `ds`, come out at `s`: the nodes that are linked are
to be seen there, none is unlinked if the deque is gone, and nothing else is done to a node that was
not linked before. -/
structure Sequel (ds es : List (Deed α)) (s : Store α) : Prop where
  linked : ∀ d ∈ es, d.isLink = true → s.record? d.node = some ⟨d.id, d.element, true⟩
  unlinked : ∀ d ∈ es, d.isUnlink = true → s.disposed = false
  known : ∀ d ∈ es, d.isLink = false → Deed.Linked ds d.id d.node d.element

theorem Sequel.nil (ds : List (Deed α)) (s : Store α) : Sequel ds [] s := ⟨nofun, nofun, nofun⟩

/-- Where nodes only come or only go, no node is linked and unlinked as well. -/
theorem Chronicle.sequel {es : List (Deed α)} {k : Traffic} (h : Chronicle ds s)
    (h' : Chronicle (ds ++ es) t) (ho : t.disposed = false) (hk : ∀ d ∈ es, k.Allows d) :
    Sequel ds es t where
  linked d hd hl := by
    have hm := List.mem_append_right ds hd
    have hnu : ¬ Deed.Unlinked (ds ++ es) d.id := by
      rintro ⟨e, he, hu, hid⟩
      cases k with
      | going => exact absurd (hk d hd) (by simp [Traffic.Allows, hl])
      | coming =>
        rcases List.mem_append.1 he with he | he
        · obtain ⟨f, hf, hlf, hfe, _⟩ := h.linked_of_mem he
          exact h'.fresh_of_append hf hlf hd hl (hfe.trans hid)
        · exact absurd (hk e he) (by simp [Traffic.Allows, hu])
    refine h'.record.2
      ⟨h'.linked_of_mem hm, fun ⟨e, he, hde, hid⟩ => ?_, fun _ => hnu, fun _ => rfl⟩
    obtain ⟨f, hf, hu, hs⟩ := h'.unlinked.exists_mem he hde
    exact hnu ⟨f, hf, hu, hs.id.trans hid⟩
  unlinked _ _ _ := ho
  known d hd hl := by
    have hm := List.mem_append_right ds hd
    cases k with
    | going =>
      obtain ⟨e, he, hle, hs⟩ := h'.linked_of_mem hm
      rcases List.mem_append.1 he with he | he
      · exact ⟨e, he, hle, hs⟩
      · exact absurd (hk e he) (by simp [Traffic.Allows, hle])
    | coming =>
      -- what is disposed where nodes only come had been unlinked before
      obtain ⟨e, he, hu, hs⟩ := h'.unlinked.exists_mem hm (Deed.isDispose_of_kinds hl (hk d hd))
      rcases List.mem_append.1 he with he | he
      · have hl' := h.linked_of_mem he
        rwa [hs.id, hs.node, hs.element] at hl'
      · exact absurd (hk e he) (by simp [Traffic.Allows, hu])

end Store

end SnapshotDeque
