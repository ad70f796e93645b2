import SnapshotDeque.Proofs.Accounting

/-!
The life of the nodes of a deque, as its events tell it, from the first node to the disposal of the
deque. Main statement: the events of all that was ever done make up the life of every node, in
order.
-/

namespace SnapshotDeque

variable {α : Type}

namespace Event

def isLink : Event α → Bool
  | link .. => true
  | _ => false

def isUnlink : Event α → Bool
  | unlink .. => true
  | _ => false

def isDispose : Event α → Bool
  | dispose _ => true
  | _ => false

def version? : Event α → Option Version
  | link _ _ v => some v
  | unlink _ v => some v
  | dispose _ => none

end Event

namespace Deed

variable {ds : List (Deed α)}

theorem isLink_event (d : Deed α) : d.event.isLink = d.isLink := by
  unfold event isLink
  cases d.act <;> rfl

theorem isUnlink_event (d : Deed α) : d.event.isUnlink = d.isUnlink := by
  unfold event isUnlink
  cases d.act <;> rfl

theorem isDispose_event (d : Deed α) : d.event.isDispose = d.isDispose := by
  unfold event isDispose
  cases d.act <;> rfl

theorem version?_event (d : Deed α) : d.event.version? = d.version? := by
  unfold event version?
  cases d.act <;> rfl

/-- How many events of a kind there are is how many deeds of that kind. -/
theorem countP_event {p : Event α → Bool} {q : Deed α → Bool} (h : ∀ d, p d.event = q d)
    (ds : List (Deed α)) : (ds.map event).countP p = ds.countP q := by
  rw [List.countP_map]
  exact List.countP_congr fun d _ => by rw [Function.comp, h]

end Deed

namespace Store

variable {s t : Store α} {ds es : List (Deed α)} {d : Deed α} {k : Nat}

/-! ## With the deque, its nodes are disposed -/

theorem filter_append_of_none {p : Deed α → Bool} (hp : ∀ d ∈ es, p d = false) :
    (ds ++ es).filter p = ds.filter p := by
  have hnil : es.filter p = [] := List.filter_eq_nil_iff.2 fun d hd => by simp [hp d hd]
  rw [List.filter_append, hnil, List.append_nil]

section Ended

variable (ht : Teardown s es)

include ht

theorem Teardown.kinds (hd : d ∈ es) :
    d.isLink = false ∧ d.isUnlink = false ∧ d.version? = none :=
  Deed.kinds_of_isDispose (ht.disposes d hd)

theorem Teardown.filter_link : (ds ++ es).filter Deed.isLink = ds.filter Deed.isLink :=
  filter_append_of_none fun _ hd => (ht.kinds hd).1

theorem Teardown.filter_unlink : (ds ++ es).filter Deed.isUnlink = ds.filter Deed.isUnlink :=
  filter_append_of_none fun _ hd => (ht.kinds hd).2.1

theorem Teardown.filter_dispose :
    (ds ++ es).filter Deed.isDispose = ds.filter Deed.isDispose ++ es := by
  rw [List.filter_append, List.filter_eq_self.2 ht.disposes]

theorem Teardown.versions :
    (ds ++ es).filterMap Deed.version? = ds.filterMap Deed.version? := by
  rw [List.filterMap_append, List.filterMap_eq_nil_iff.2 fun _ hd => (ht.kinds hd).2.2,
    List.append_nil]

theorem Teardown.linked_iff {i : NodeId} {x : Handle} {a : α} :
    Deed.Linked (ds ++ es) i x a ↔ Deed.Linked ds i x a := by
  simp only [Deed.Linked, Deed.Done, ← and_assoc, ← List.mem_filter, ht.filter_link]

end Ended

/-! ## What the stores of a run show -/

/-- The stores `us`, which a deque goes through one after the other, show what was done to its
nodes: `ds` has nothing more, and nothing less. -/
structure Reveals (us : List (Store α)) (ds : List (Deed α)) : Prop where
  /-- The nodes that were linked are those that are linked in one of the stores. -/
  linked : ∀ i x a, Deed.Linked ds i x a ↔ ∃ u ∈ us, u.record? x = some ⟨i, a, true⟩
  /-- The nodes that were unlinked are those that are linked in one store and, with the deque not
  disposed, not linked in a later one. -/
  unlinked : ∀ i x a, Deed.Done Deed.isUnlink ds i x a ↔ ∃ u v, [u, v].Sublist us ∧
    u.record? x = some ⟨i, a, true⟩ ∧ v.disposed = false ∧ v.record? x ≠ some ⟨i, a, true⟩
  /-- The nodes that were disposed are those that are linked in one store and not in the arena of a
  later one. -/
  disposed : ∀ i x a, Deed.Done Deed.isDispose ds i x a ↔ ∃ u v, [u, v].Sublist us ∧
    u.record? x = some ⟨i, a, true⟩ ∧ ∀ b, v.record? x ≠ some ⟨i, a, b⟩

theorem pair_sublist_concat {β : Type} {a b c : β} {l : List β} :
    [a, b].Sublist (l ++ [c]) ↔ [a, b].Sublist l ∨ a ∈ l ∧ b = c := by
  constructor
  · intro h
    obtain ⟨l₁, l₂, he, h₁, h₂⟩ := List.sublist_append_iff.1 h
    rcases List.sublist_singleton.1 h₂ with rfl | rfl
    · rw [List.append_nil] at he
      exact Or.inl (he ▸ h₁)
    · have he : [a] ++ [b] = l₁ ++ [c] := he
      obtain ⟨rfl, hb⟩ := List.append_inj' he rfl
      exact Or.inr ⟨List.singleton_sublist.1 h₁, List.singleton_inj.1 hb⟩
  · rintro (h | ⟨h, rfl⟩)
    · exact h.trans (List.sublist_append_left ..)
    · exact (List.singleton_sublist.2 h).append (.refl [b])

theorem record?_ended (s : Store α) (b : Bool) (vs : List (Event α)) (x : Handle) :
    Store.record? { s.dispose with emitting := b, events := vs } x = none := by
  have hg : s.dispose.arena.get? x = none := Arena.get?_drain s.arena x
  rw [record?]
  exact Option.map_eq_none_iff.2 hg

namespace History

variable (h : History ds s) {i : NodeId} {x : Handle} {a : α}

include h

theorem linked_of_record {b : Bool} (hr : s.record? x = some ⟨i, a, b⟩) :
    Deed.Linked ds i x a := by
  cases h with
  | going h => exact (h.chronicle.record.1 hr).1
  | ended => rw [record?_ended] at hr; cases hr

theorem done_unlink_iff (ho : s.disposed = false) (hl : Deed.Linked ds i x a) :
    Deed.Done Deed.isUnlink ds i x a ↔ s.record? x ≠ some ⟨i, a, true⟩ := by
  obtain ⟨k, h⟩ := h.account ho
  exact h.chronicle.done_unlink_iff hl

theorem done_dispose_iff (hl : Deed.Linked ds i x a) :
    Deed.Done Deed.isDispose ds i x a ↔ ∀ b, s.record? x ≠ some ⟨i, a, b⟩ := by
  cases h with
  | going h => exact h.chronicle.done_dispose_iff hl
  | @ended _ s before rest h ht hall b vs =>
    subst hall
    have hl : Deed.Linked before i x a := ht.linked_iff.1 hl
    refine iff_of_true ?_ fun b' hr => by rw [record?_ended] at hr; cases hr
    rw [Deed.done_append]
    by_cases hd : Deed.Disposed before i
    · exact Or.inl (h.chronicle.done_of_id hl hd)
    -- what had not been disposed was there to be torn down
    · obtain ⟨_, hr⟩ := h.chronicle.exists_record hl hd
      obtain ⟨d, hdr, hid⟩ := ht.all hr
      obtain ⟨_, hrd⟩ := ht.record d hdr
      obtain ⟨hx, ha⟩ := h.chronicle.eq_of_linked (hid ▸ (h.chronicle.record.1 hrd).1) hl
      exact Or.inr ⟨d, hdr, ht.disposes d hdr, hid, hx, ha⟩

end History

/-- Before the first node comes there is nothing to show. -/
theorem Reveals.singleton (h : History [] s) : Reveals [s] ([] : List (Deed α)) where
  linked i x a := by
    refine ⟨fun ⟨d, hd, _⟩ => absurd hd List.not_mem_nil, fun ⟨u, hu, hr⟩ => ?_⟩
    rw [List.mem_singleton.1 hu] at hr
    exact h.linked_of_record hr
  unlinked i x a := by
    refine ⟨fun ⟨d, hd, _⟩ => absurd hd List.not_mem_nil, fun ⟨u, v, hs, _⟩ => ?_⟩
    exact absurd hs.length_le (by simp)
  disposed i x a := by
    refine ⟨fun ⟨d, hd, _⟩ => absurd hd List.not_mem_nil, fun ⟨u, v, hs, _⟩ => ?_⟩
    exact absurd hs.length_le (by simp)

section Concat

variable {us : List (Store α)} {i : NodeId} {x : Handle} {a : α} (hs : Reveals us ds)

include hs

theorem Reveals.linked_of_record {u : Store α} (hu : u ∈ us)
    (hr : u.record? x = some ⟨i, a, true⟩) (es : List (Deed α)) : Deed.Linked (ds ++ es) i x a :=
  Deed.done_append.2 (Or.inl ((hs.linked i x a).2 ⟨u, hu, hr⟩))

/-- A node that anything else is done to than linking it was linked in a store before. -/
theorem Reveals.exists_record {p : Deed α → Bool} (hq : Sequel ds es t)
    (hp : ∀ d, p d = true → d.isLink = false) (hd : Deed.Done p es i x a) :
    ∃ u ∈ us, u.record? x = some ⟨i, a, true⟩ := by
  obtain ⟨d, hd, hpd, rfl, rfl, rfl⟩ := hd
  exact (hs.linked _ _ _).1 (hq.known d hd (hp d hpd))

/-- With one more store, `q` holds of a store after one in which the node is linked if it did before,
or if it holds of the last. -/
theorem Reveals.done_concat {p : Deed α → Bool} {q : Store α → Prop} (hq : Sequel ds es t)
    (hp : ∀ d, p d = true → d.isLink = false)
    (hds : Deed.Done p ds i x a ↔
      ∃ u v, [u, v].Sublist us ∧ u.record? x = some ⟨i, a, true⟩ ∧ q v)
    (hes : Deed.Linked (ds ++ es) i x a → Deed.Done p es i x a → q t)
    (ht : Deed.Linked (ds ++ es) i x a → q t → Deed.Done p (ds ++ es) i x a) :
    Deed.Done p (ds ++ es) i x a ↔
      ∃ u v, [u, v].Sublist (us ++ [t]) ∧ u.record? x = some ⟨i, a, true⟩ ∧ q v := by
  constructor
  · intro hd
    rcases Deed.done_append.1 hd with hd | hd
    · obtain ⟨u, v, huv, hr⟩ := hds.1 hd
      exact ⟨u, v, pair_sublist_concat.2 (Or.inl huv), hr⟩
    · obtain ⟨u, hu, hr⟩ := hs.exists_record hq hp hd
      exact ⟨u, t, pair_sublist_concat.2 (Or.inr ⟨hu, rfl⟩), hr,
        hes (hs.linked_of_record hu hr es) hd⟩
  · rintro ⟨u, v, huv, hr, hv⟩
    rcases pair_sublist_concat.1 huv with huv | ⟨hu, rfl⟩
    · exact Deed.done_append.2 (Or.inl (hds.2 ⟨u, v, huv, hr, hv⟩))
    · exact ht (hs.linked_of_record hu hr es) hv

/-- By one more store, and by what was done on the way there. -/
theorem Reveals.concat (ht : History (ds ++ es) t) (hq : Sequel ds es t) :
    Reveals (us ++ [t]) (ds ++ es) where
  linked i x a := by
    constructor
    · intro hl
      rcases Deed.done_append.1 hl with hl | ⟨d, hd, hdl, rfl, rfl, rfl⟩
      · obtain ⟨u, hu, hr⟩ := (hs.linked i x a).1 hl
        exact ⟨u, List.mem_append_left _ hu, hr⟩
      · exact ⟨t, List.mem_append_right _ (List.mem_singleton.2 rfl), hq.linked d hd hdl⟩
    · rintro ⟨u, hu, hr⟩
      rcases List.mem_append.1 hu with hu | hu
      · exact hs.linked_of_record hu hr es
      · rw [List.mem_singleton.1 hu] at hr
        exact ht.linked_of_record hr
  unlinked i x a := by
    refine hs.done_concat hq (fun _ => Deed.isLink_of_isUnlink) (hs.unlinked i x a)
      (fun hl hd => ?_) fun hl hv => (ht.done_unlink_iff hv.1 hl).2 hv.2
    have ⟨d, hm, hu, _⟩ := hd
    have ho := hq.unlinked d hm hu
    exact ⟨ho, (ht.done_unlink_iff ho hl).1 (Deed.done_append.2 (Or.inr hd))⟩
  disposed i x a :=
    hs.done_concat hq (fun _ h => (Deed.kinds_of_isDispose h).1) (hs.disposed i x a)
      (fun hl hd => (ht.done_dispose_iff hl).1 (Deed.done_append.2 (Or.inr hd)))
      fun hl hv => (ht.done_dispose_iff hl).2 hv

end Concat

/-! ## The life of the nodes -/

/-- What the events `es`, told of `ds`, say about a deque that is not disposed. -/
structure Tallies (es : List (Event α)) (ds : List (Deed α)) (s : Store α) : Prop where
  /-- The nodes there are were linked and not disposed, and those that were not unlinked are
  linked. -/
  record : ∀ {x r}, s.record? x = some r ↔ Deed.Linked ds r.id x r.element ∧
    ¬ Deed.Disposed ds r.id ∧ (r.linked = true ↔ ¬ Deed.Unlinked ds r.id)
  len : es.countP Event.isLink = es.countP Event.isUnlink + s.len
  nodes : es.countP Event.isLink = es.countP Event.isDispose + s.stats.arenaNodes
  disposed : s.stats.totals.nodes = UInt64.ofNat (es.countP Event.isDispose)

/-- The life of every node of a deque that went through the stores `us` and came to `s`: the events
`es` are those of the deeds in `ds`. -/
structure Lifecycle (es : List (Event α)) (ds : List (Deed α)) (us : List (Store α))
    (s : Store α) : Prop where
  told : es = ds.map Deed.event
  shown : Reveals us ds
  /-- Each node there ever was is linked once, in the order of their numbers. -/
  numbers : (ds.filter Deed.isLink).map (·.id.val) = List.range' 1 (s.arena.nextId - 1)
  unlinks : ((ds.filter Deed.isUnlink).map (·.id)).Nodup
  linked : Deed.Follows Deed.isUnlink Deed.isLink ds
  disposes : ((ds.filter Deed.isDispose).map (·.id)).Nodup
  versions : (es.filterMap Event.version?).Pairwise (· ≤ ·)
  going : s.disposed = false → Tallies es ds s
  /-- With the deque, all nodes are disposed. -/
  ended : s.disposed = true → es.countP Event.isDispose = es.countP Event.isLink

theorem versions_event (ds : List (Deed α)) :
    (ds.map Deed.event).filterMap Event.version? = ds.filterMap Deed.version? := by
  rw [List.filterMap_map]
  exact List.filterMap_congr fun d _ => d.version?_event

theorem Account.lifecycle (h : Account ds k s) {us : List (Store α)} (hs : Reveals us ds) :
    Lifecycle (ds.map Deed.event) ds us s := by
  obtain ⟨l, hl⟩ := h.formed
  have hc := h.chronicle
  have hlen := h.length
  have hsize := hc.size
  exact {
    told := rfl
    shown := hs
    numbers := by rw [hc.nextId]; exact hc.numbers
    unlinks := hc.unlinks
    linked := hc.linked
    disposes := hc.disposes
    versions := by rw [versions_event]; exact hc.versions
    going := fun ho => {
      record := hc.record
      len := by
        rw [Deed.countP_event Deed.isLink_event, Deed.countP_event Deed.isUnlink_event, len, read,
          if_neg (by simp [ho])]
        omega
      nodes := by
        rw [Deed.countP_event Deed.isLink_event, Deed.countP_event Deed.isDispose_event]
        exact hsize.symm.trans (Nat.add_comm _ _)
      disposed := by
        rw [Deed.countP_event Deed.isDispose_event]
        exact h.gone }
    ended := fun hd => by rw [hl.open_] at hd; cases hd }

section Ended

variable (ht : Teardown s es) (h : Account ds k s)

include ht h

theorem Account.lifecycle_ended (b : Bool) (vs : List (Event α)) {us : List (Store α)}
    (hs : Reveals us (ds ++ es)) : Lifecycle ((ds ++ es).map Deed.event) (ds ++ es) us
      { s.dispose with emitting := b, events := vs } where
  told := rfl
  shown := hs
  numbers := by
    change _ = List.range' 1 (s.arena.nextId - 1)
    rw [ht.filter_link, h.chronicle.nextId]
    exact h.chronicle.numbers
  unlinks := by
    rw [ht.filter_unlink]
    exact h.chronicle.unlinks
  linked := h.chronicle.linked.append fun _ hd => (ht.kinds hd).2.1
  disposes := by
    rw [ht.filter_dispose, List.map_append]
    refine List.Nodup.append h.chronicle.disposes ht.nodup fun i hi hi' => ?_
    obtain ⟨d, hd, rfl⟩ := List.mem_map.1 hi
    obtain ⟨e, he, hid⟩ := List.mem_map.1 hi'
    -- what is torn down was still there, so it had not been disposed
    obtain ⟨b, hb⟩ := ht.record e he
    obtain ⟨hd, hdd⟩ := List.mem_filter.1 hd
    exact (h.chronicle.record.1 hb).2.1 ⟨d, hd, hdd, hid.symm⟩
  versions := by
    rw [versions_event, ht.versions]
    exact h.chronicle.versions
  going := nofun
  ended _ := by
    have hsize := h.chronicle.size
    have hlen := ht.length
    rw [Deed.countP_event Deed.isDispose_event, Deed.countP_event Deed.isLink_event,
      List.countP_eq_length_filter, List.countP_eq_length_filter, ht.filter_dispose,
      ht.filter_link, List.length_append, ← List.countP_eq_length_filter,
      ← List.countP_eq_length_filter]
    omega

end Ended

theorem History.lifecycle (h : History ds s) {us : List (Store α)} (hs : Reveals us ds) :
    Lifecycle (ds.map Deed.event) ds us s := by
  cases h with
  | going h => exact h.lifecycle hs
  | ended h ht hall => exact hall ▸ h.lifecycle_ended ht _ _ (hall ▸ hs)

end Store

end SnapshotDeque
