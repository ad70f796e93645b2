import SnapshotDeque.Proofs.Detach
import SnapshotDeque.Proofs.Ends

/-!
The shape of a deque: which nodes are linked, in which order, and how the links lead from each to
the next. What is said here does not depend on stamps.
-/

namespace SnapshotDeque.Store

variable {α : Type} {s t : Store α}

/-! ## Lists of handles -/

theorem head?_of_sentinel {x : Handle} (hx : x.isSentinel = true) : s.arena.head? x = none := by
  rw [Arena.head?, Arena.get?, if_pos hx]
  rfl

theorem head?_eq_of_current? {x : Handle} (h : t.current? x = s.current? x) :
    t.arena.head? x = s.arena.head? x := by
  cases hx : x.isSentinel with
  | true => rw [head?_of_sentinel hx, head?_of_sentinel hx]
  | false => rw [← current?_of_payload hx, h, current?_of_payload hx]

theorem Heads.isSentinel {l : List Handle} (h : s.Heads l) {x : Handle} (hx : x ∈ l) :
    x.isSentinel = false := isSentinel_of_head? ((h x).2 hx)

theorem Heads.exists_current? {l : List Handle} (h : s.Heads l) {x : Handle} (hx : x ∈ l) :
    ∃ i, s.current? x = some i := by
  rw [current?_of_payload (h.isSentinel hx)]
  exact Option.isSome_iff_exists.1 ((h x).2 hx)

theorem Heads.not_mem_ringOf {l m : List Handle} (h : s.Heads l) {x : Handle} (hx : x ∈ l)
    (hm : x ∉ m) : x ∉ ringOf m := by
  have hs := h.isSentinel hx
  rw [mem_ringOf]
  rintro (rfl | hxm | rfl)
  · cases hs
  · exact hm hxm
  · cases hs

section Unhooks

variable {x : Handle} (h : Unhooks s t x)

include h

theorem Unhooks.ring {l : List Handle} (hr : s.Ring l) (hx : x ∉ ringOf l) : t.Ring l := by
  refine ⟨hr.nodup, hr.chain.imp_of_mem_imp fun a b ha hb hab => ?_⟩
  exact h.adjacent (fun e => hx (e ▸ ha)) (fun e => hx (e ▸ hb)) hab

theorem Unhooks.heads {l m : List Handle} (hl : s.Heads l) (hm : ∀ y, y ∈ m ↔ y ∈ l ∧ y ≠ x) :
    t.Heads m := by
  intro y
  rw [hm]
  by_cases hy : y = x
  · subst hy
    have hn : t.arena.head? y = none := by
      cases hs : y.isSentinel with
      | true => exact head?_of_sentinel hs
      | false => rw [← current?_of_payload hs, h.unlinked]
    simp [hn]
  · rw [head?_eq_of_current? (h.current? hy), hl]
    simp [hy]

theorem Unhooks.entry {y : Handle} {a : α} (hy : y ≠ x) (hh : (s.arena.head? y).isSome = true)
    (he : (s.arena.get? y).map (·.element) = some a) :
    (t.arena.get? y).map (·.element) = some a := by
  obtain ⟨n, hn, rfl⟩ := Option.map_eq_some_iff.1 he
  rw [Arena.head?, hn] at hh
  exact h.element hy hn hh

end Unhooks

/-- What surrounds a node in a ring. -/
theorem Ring.neighbours {k m : List Handle} {x : Handle} (hr : s.Ring (k ++ x :: m)) :
    ∃ b w y z, ringOf (k ++ x :: m) = b ++ w :: x :: y :: z ∧ ringOf (k ++ m) = b ++ w :: y :: z ∧
      s.Adjacent w x ∧ s.Adjacent x y ∧ w ≠ x ∧ w ≠ y ∧ x ≠ y := by
  obtain ⟨b, w, y, z, hb, hm⟩ := exists_neighbours k m x
  have hnd := hr.nodup
  have hch := hr.chain
  rw [hb] at hnd hch
  rw [List.nodup_append, List.nodup_cons, List.nodup_cons] at hnd
  obtain ⟨_, ⟨hw, hx, _⟩, _⟩ := hnd
  rw [List.isChain_append_cons_cons] at hch
  obtain ⟨_, hwx, hrest⟩ := hch
  exact ⟨b, w, y, z, hb, hm, hwx, (List.isChain_cons_cons.1 hrest).1, fun e => hw (by simp [e]),
    fun e => hw (by simp [e]), fun e => hx (by simp [e])⟩

/-! ## Lists of pairs -/

/-- A list without the pair of one handle. -/
theorem filter_ne_of_nodup {k m : List (Handle × α)} {x : Handle} {a : α}
    (hnd : ((k ++ (x, a) :: m).map (·.1)).Nodup) :
    (k ++ (x, a) :: m).filter (·.1 ≠ x) = k ++ m := by
  have hmap : (k ++ (x, a) :: m).map (·.1) = k.map (·.1) ++ x :: m.map (·.1) := by simp
  rw [hmap, List.nodup_middle, List.nodup_cons, List.mem_append] at hnd
  have hk : ∀ e ∈ k, e.1 ≠ x := fun e he e' => hnd.1 (Or.inl (e' ▸ List.mem_map_of_mem he))
  have hm : ∀ e ∈ m, e.1 ≠ x := fun e he e' => hnd.1 (Or.inr (e' ▸ List.mem_map_of_mem he))
  rw [List.filter_append, List.filter_cons_of_neg (by simp),
    List.filter_eq_self.2 (by simpa using hk), List.filter_eq_self.2 (by simpa using hm)]

theorem rest_eq_filter {l : List (Handle × α)} (hnd : (l.map (·.1)).Nodup) {side : End}
    {e : Handle × α} (he : side.outermost? l = some e) :
    e ∈ l ∧ side.rest l = l.filter (·.1 ≠ e.1) := by
  cases side with
  | first =>
    obtain ⟨m, rfl⟩ := List.head?_eq_some_iff.1 he
    have := filter_ne_of_nodup (k := []) (x := e.1) (a := e.2) hnd
    exact ⟨List.mem_cons_self .., this.symm⟩
  | last =>
    obtain ⟨k, rfl⟩ := List.getLast?_eq_some_iff.1 he
    have := filter_ne_of_nodup (m := []) (x := e.1) (a := e.2) hnd
    refine ⟨by simp, ?_⟩
    rw [show k ++ [e] = k ++ [(e.1, e.2)] from rfl, this, List.append_nil]
    exact List.dropLast_concat

/-! ## The list of a deque -/

section Shaped

variable {l : List (Handle × α)} (h : s.Shaped l)

include h

theorem Shaped.nodup : (l.map (·.1)).Nodup := h.ring.nodup_list

theorem Shaped.length_eq : s.length = l.length := h.counted.first

theorem Shaped.isSentinel {x : Handle} (hx : x ∈ l.map (·.1)) : x.isSentinel = false :=
  h.heads.isSentinel hx

theorem Shaped.exists_current? {x : Handle} (hx : x ∈ l.map (·.1)) : ∃ i, s.current? x = some i :=
  h.heads.exists_current? hx

theorem Shaped.head?_eq_none {x : Handle} (hx : x ∉ l.map (·.1)) : s.arena.head? x = none := by
  rw [← Option.not_isSome_iff_eq_none, h.heads]
  exact hx

theorem Shaped.isSentinel_current {x : Handle} (hx : x ∈ l.map (·.1)) {i : Nat}
    (hi : s.current? x = some i) : (s.links.get i).isSentinel = false := by
  rw [Link.isSentinel, show (s.links.get i).owner = x from h.sound.owner hi]
  exact h.isSentinel hx

/-- The link at one end of a deque that is not empty. -/
theorem Shaped.outermost (side : End) {e : Handle × α} (he : side.outermost? l = some e) :
    ∃ i, s.current? e.1 = some i ∧ s.outermost side = .ok i := by
  have hl := (rest_eq_filter h.nodup he).1
  obtain ⟨i, hi⟩ := h.exists_current? (List.mem_map_of_mem hl)
  refine ⟨i, hi, ?_⟩
  cases side with
  | first =>
    obtain ⟨m, rfl⟩ := List.head?_eq_some_iff.1 he
    exact h.ring.outermost_first h.sound (List.cons_append ..) hi
  | last =>
    obtain ⟨k, rfl⟩ := List.getLast?_eq_some_iff.1 he
    refine h.ring.outermost_last h.sound (u := .atBegin :: k.map (·.1)) ?_ hi
    simp

/-- An empty deque leads from one sentinel to the other. -/
theorem Shaped.outermost_nil (side : End) (hl : l = []) :
    ∃ i, s.outermost side = .ok i ∧ (s.links.get i).isSentinel = true := by
  subst hl
  cases side with
  | first =>
    have ho := h.sound.owner (current?_atEnd s)
    refine ⟨s.endLink, h.ring.outermost_first h.sound (List.nil_append _) (current?_atEnd s), ?_⟩
    rw [Link.isSentinel, show (s.links.get s.endLink).owner = _ from ho]
    rfl
  | last =>
    have ho := h.sound.owner (current?_atBegin s)
    refine ⟨s.beginLink, h.ring.outermost_last h.sound (u := []) rfl (current?_atBegin s), ?_⟩
    rw [Link.isSentinel, show (s.links.get s.beginLink).owner = _ from ho]
    rfl

theorem Shaped.liveLinks : s.liveLinks = .ok ((l.map (·.1)).filterMap s.current?) := by
  refine h.ring.liveLinks h.sound (fun x hx => h.isSentinel hx) ?_
  rw [List.length_map]
  exact h.counted

/-- The owners of the current links of the linked nodes. -/
theorem Shaped.map_owner_current :
    ((l.map (·.1)).filterMap s.current?).map s.owner = l.map (·.1) := by
  have hall : ∀ xs : List Handle, (∀ x ∈ xs, x ∈ l.map (·.1)) →
      (xs.filterMap s.current?).map s.owner = xs := by
    intro xs
    induction xs with
    | nil => exact fun _ => rfl
    | cons x xs ih =>
      intro hxs
      obtain ⟨i, hi⟩ := h.exists_current? (hxs x (List.mem_cons_self ..))
      rw [List.filterMap_cons_some hi, List.map_cons, h.sound.owner hi,
        ih fun y hy => hxs y (List.mem_cons_of_mem _ hy)]
  exact hall _ fun _ hx => hx

/-- The versions do not belong to the list. -/
theorem Shaped.retimed (tl : Timeline) (n : Nat) :
    ({ s with timeline := tl, snapshotsOpened := n } : Store α).Shaped l where
  open_ := h.open_
  sound := { h.sound with }
  ring := { h.ring with }
  heads := h.heads
  counted := { h.counted with }
  element := h.element

/-- Links given back do not belong to the list. -/
theorem Shaped.frees (hf : Frees s t) (hd : t.disposed = s.disposed)
    (hs : t.Sound t.obsolete []) : t.Shaped l where
  open_ := hd.trans h.open_
  sound := hs
  ring := ⟨h.ring.nodup, h.ring.chain.imp fun _ _ => hf.adjacent⟩
  heads x := by rw [head?_eq_of_current? (hf.current? x)]; exact h.heads x
  counted := hf.counted h.counted
  element e he := by
    have hh := (h.heads e.1).2 (List.mem_map_of_mem he)
    obtain ⟨n, hn, hne⟩ := Option.map_eq_some_iff.1 (h.element e he)
    rw [Arena.head?, hn] at hh
    rw [hf.element hn hh, hne]

end Shaped

end SnapshotDeque.Store
