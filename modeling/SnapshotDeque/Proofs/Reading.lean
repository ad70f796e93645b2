import SnapshotDeque.Proofs.Removal

/-!
What is read off a deque. All of it can be told from the list that the deque holds: the pairs and
their number, the element at either end, and which nodes are linked.
-/

namespace SnapshotDeque.Store

variable {α : Type} {s : Store α} {l : List (Handle × α)}

/-- What is read off `s` is read off the list `l` of its linked nodes with their elements. -/
structure Reads (s : Store α) (l : List (Handle × α)) : Prop where
  entries : s.entries = l
  nodup : (l.map (·.1)).Nodup
  payload : ∀ e ∈ l, e.1.isSentinel = false
  len : s.len = l.length
  room : s.room = s.capacity - l.length
  peek : ∀ side : End, s.peek side = (side.outermost? l).map (·.2)
  isLinked : ∀ x, s.isLinked x = true ↔ x ∈ l.map (·.1)
  element : ∀ e ∈ l, s.element? e.1 = some e.2
  linked : ∀ x i, s.nodeInfo? x = some i → (i.handle = x ∧ (i.linked = true ↔ x ∈ l.map (·.1)))

theorem read_of_open {ρ : Type} (h : s.disposed = false) (otherwise : ρ) (f : Store α → ρ) :
    s.read otherwise f = f s := by
  rw [Store.read, h]
  rfl

section Shaped

variable (h : s.Shaped l)

include h

/-- The current link of a pair's node is its own and holds its element. -/
theorem Shaped.current_entry {e : Handle × α} (he : e ∈ l) :
    ∃ i, s.current? e.1 = some i ∧ s.owner i = e.1 ∧ (s.links.get i).element = some e.2 := by
  have hx : e.1 ∈ l.map (·.1) := List.mem_map_of_mem he
  obtain ⟨i, hi⟩ := h.exists_current? hx
  obtain ⟨n, hn, hh⟩ := exists_node_of_current? (h.isSentinel hx) hi
  refine ⟨i, hi, h.sound.owner hi, ?_⟩
  have hel := h.element e he
  rw [hn] at hel
  rw [h.sound.element hn hh]
  exact hel

theorem Shaped.entries : s.entries = l := by
  rw [Store.entries, h.liveLinks]
  dsimp only
  rw [List.filterMap_filterMap, List.filterMap_map]
  have hsome : ∀ e ∈ l, ((fun x : Handle => (s.current? x).bind fun i =>
      (s.links.get i).element.map (s.owner i, ·)) ∘ (·.1)) e = some e := by
    intro e he
    obtain ⟨i, hi, hown, hel⟩ := h.current_entry he
    change ((s.current? e.1).bind fun i => _) = _
    rw [hi, Option.bind_some, hel, hown]
    rfl
  rw [List.filterMap_congr hsome, List.filterMap_some]

theorem Shaped.peek (side : End) : s.peek side = (side.outermost? l).map (·.2) := by
  rw [Store.peek, read_of_open h.open_]
  cases he : side.outermost? l with
  | none =>
    obtain ⟨i, hi, hs⟩ := h.outermost_nil side (End.outermost?_eq_none he)
    rw [hi]
    change (s.links.get i).shown? = none
    rw [Link.shown?, hs]
    rfl
  | some e =>
    have hel : e ∈ l := by
      cases side with
      | first => exact List.mem_of_mem_head? he
      | last => exact List.mem_of_mem_getLast? he
    obtain ⟨j, hj, ho⟩ := h.outermost side he
    obtain ⟨i, hi, _, helt⟩ := h.current_entry hel
    rw [hj] at hi
    cases hi
    rw [ho]
    change (s.links.get j).shown? = some e.2
    rw [Link.shown?, h.isSentinel_current (List.mem_map_of_mem hel) hj]
    exact helt

theorem Shaped.reads : s.Reads l where
  entries := h.entries
  nodup := h.nodup
  payload e he := h.isSentinel (List.mem_map_of_mem he)
  len := by
    rw [Store.len, read_of_open h.open_]
    exact h.length_eq
  room := by
    rw [Store.room, read_of_open h.open_, Store.remainingCapacity, h.length_eq]
  peek := h.peek
  isLinked x := by
    rw [Store.isLinked, read_of_open h.open_]
    exact h.heads x
  element e he := by
    rw [Store.element?, read_of_open h.open_]
    exact h.element e he
  linked x i hi := by
    rw [Store.nodeInfo?, read_of_open h.open_] at hi
    obtain ⟨n, hn, rfl⟩ := Option.map_eq_some_iff.1 hi
    refine ⟨rfl, ?_⟩
    rw [← h.heads x, Arena.head?, hn]
    rfl

end Shaped

theorem Reads.contains [DecidableEq α] (h : s.Reads l) (ho : s.disposed = false) (a : α) :
    s.contains a = true ↔ a ∈ l.map (·.2) := by
  rw [Store.contains, read_of_open ho, h.entries, List.any_eq_true, List.mem_map]
  constructor
  · rintro ⟨e, he, hea⟩
    exact ⟨e, he, of_decide_eq_true hea⟩
  · rintro ⟨e, he, rfl⟩
    exact ⟨e, he, decide_eq_true rfl⟩

end SnapshotDeque.Store
