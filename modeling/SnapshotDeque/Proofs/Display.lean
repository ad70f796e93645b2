import SnapshotDeque.Snapshot
import SnapshotDeque.Proofs.Ends
import SnapshotDeque.Proofs.Spares

/-!
What a snapshot shows, and the walk along it. The links that were current when a snapshot was opened
stay seen at its version with their neighbours and elements, so that each one's pointers lead to the
next one's, however often those have been superseded since. A cursor stands at both ends of a piece
of that list; every step takes the item at one end, and what is left is a piece again.
-/

namespace SnapshotDeque

namespace Store

variable {α : Type} {s t : Store α}

/-- Link `p.1` is what a snapshot at `v` sees of a node that holds `p.2`. -/
structure Shows (s : Store α) (v : Version) (p : Nat × α) : Prop where
  lt : p.1 < s.links.size
  seen : s.links.Seen v p.1
  retained : s.Retained p.1
  payload : (s.owner p.1).isSentinel = false
  element : (s.links.get p.1).element = some p.2
  next : ∃ j, (s.links.get p.1).next = some j
  previous : ∃ j, (s.links.get p.1).previous = some j

/-- Each of two links leads to the other as its neighbour. -/
def Beside (s : Store α) (p q : Nat) : Prop :=
  (∃ j, (s.links.get p).next = some j ∧ s.links.Leads j q) ∧
    ∃ j, (s.links.get q).previous = some j ∧ s.links.Leads j p

/-- A piece of what a snapshot at `v` shows, front to back. -/
structure Row (s : Store α) (v : Version) (ps : List (Nat × α)) : Prop where
  shows_ : ∀ p ∈ ps, s.Shows v p
  chain : ps.IsChain fun p q => s.Beside p.1 q.1

/-- All that a snapshot shows. -/
structure Displays (s : Store α) (w : View) (ps : List (Nat × α)) : Prop where
  row : s.Row w.version ps
  size : w.size = ps.length
  first : ∀ p, ps.head? = some p → s.links.Leads w.first p.1
  last : ∀ p, ps.getLast? = some p → s.links.Leads w.last p.1

/-- The nodes of links, with their elements. -/
def named (s : Store α) (ps : List (Nat × α)) : List (Handle × α) :=
  ps.map fun p => (s.owner p.1, p.2)

/-! ## What is shown stays shown -/

theorem Row.rest {v : Version} {ps : List (Nat × α)} (h : s.Row v ps) (side : End) :
    s.Row v (side.rest ps) := by
  have hsub : (side.rest ps).Sublist ps := by
    cases side with
    | first => exact List.tail_sublist ps
    | last => exact List.dropLast_sublist ps
  refine ⟨fun p hp => h.shows_ p (hsub.subset hp), ?_⟩
  cases side with
  | first => exact h.chain.tail
  | last => exact h.chain.dropLast

section Saves

variable {v : Version} (h : Saves s t v)

include h

theorem Shows.saves {p : Nat × α} (hp : s.Shows v p) : t.Shows v p := by
  have hk := h.keeps hp.lt hp.seen
  refine ⟨Nat.lt_of_lt_of_le hp.lt h.grows.size_le, hk.seen, h.retained hp.lt hp.seen hp.retained,
    ?_, hk.element.trans hp.element, ?_, ?_⟩
  · rw [h.owner hp.lt]
    exact hp.payload
  · rw [hk.next]
    exact hp.next
  · rw [hk.previous]
    exact hp.previous

theorem Beside.saves {p q : Nat × α} (hp : s.Shows v p) (hq : s.Shows v q)
    (hpq : s.Beside p.1 q.1) : t.Beside p.1 q.1 := by
  obtain ⟨⟨j, hj, hjq⟩, k, hk, hkp⟩ := hpq
  exact ⟨⟨j, (h.keeps hp.lt hp.seen).next.trans hj, h.grows.leads hjq⟩,
    k, (h.keeps hq.lt hq.seen).previous.trans hk, h.grows.leads hkp⟩

theorem Row.saves {ps : List (Nat × α)} (hr : s.Row v ps) : t.Row v ps where
  shows_ p hp := (hr.shows_ p hp).saves h
  chain := hr.chain.imp_of_mem_imp fun p q hp hq hpq =>
    hpq.saves h (hr.shows_ p hp) (hr.shows_ q hq)

end Saves

theorem Displays.saves {w : View} {ps : List (Nat × α)} (hd : s.Displays w ps)
    (h : Saves s t w.version) : t.Displays w ps where
  row := hd.row.saves h
  size := hd.size
  first p hp := h.grows.leads (hd.first p hp)
  last p hp := h.grows.leads (hd.last p hp)

theorem Saves.named {v : Version} (h : Saves s t v) {ps : List (Nat × α)} (hr : s.Row v ps) :
    t.named ps = s.named ps := by
  refine List.map_congr_left fun p hp => ?_
  rw [h.owner (hr.shows_ p hp).lt]

/-- The node of a link that is shown is in the arena, with the element that is shown. -/
theorem Sound.node_of_shows {r : List Nat} {sp : List Handle} (h : s.Sound r sp)
    (hr : ∀ i ∈ s.obsolete, i ∈ r) {v : Version} {p : Nat × α} (hp : s.Shows v p) :
    ∃ n, s.arena.get? (s.owner p.1) = some n ∧ n.element = p.2 := by
  have hnode : ∃ n, s.arena.get? (s.owner p.1) = some n ∧
      (s.links.get p.1).element = some n.element := by
    rcases hp.retained with hc | ho
    · obtain ⟨n, hn, hh⟩ := exists_node_of_current? hp.payload hc
      exact ⟨n, hn, h.element hn hh⟩
    · exact h.retired_node (hr _ ho) hp.payload
  obtain ⟨n, hn, he⟩ := hnode
  rw [hp.element] at he
  exact ⟨n, hn, (Option.some.inj he).symm⟩

end Store

/-! ## The walk -/

namespace Cursor

variable {α : Type} {s : Store α}

/-- Cursor `c` stands at both ends of `ps`. -/
structure At (c : Cursor) (ps : List (Nat × α)) : Prop where
  remaining : c.remaining = ps.length
  front : ∀ p, ps.head? = some p → c.front = some p.1
  back : ∀ p, ps.getLast? = some p → c.back = some p.1

theorem shown?_of_shows {v : Version} {p : Nat × α} (h : s.Shows v p) :
    (s.links.get p.1).shown? = some p.2 := by
  have hp : (s.links.get p.1).isSentinel = false := h.payload
  rw [Link.shown?, hp]
  exact h.element

section Step

variable {c : Cursor} {ps : List (Nat × α)} (hr : s.Row c.version ps) (hc : c.At ps)

include hc

theorem step_of_nil (hps : ps = []) (t : LinkTable α) :
    c.nextFront t = (none, c) ∧ c.nextBack t = (none, c) := by
  subst hps
  have h0 : c.remaining = 0 := hc.remaining
  unfold nextFront nextBack
  rw [if_pos h0, if_pos h0]
  exact ⟨rfl, rfl⟩

include hr

theorem nextFront_cons (ht : s.links.Chained) {p : Nat × α} {rest : List (Nat × α)}
    (hps : ps = p :: rest) :
    ∃ d, c.nextFront s.links = (some p, d) ∧ d.version = c.version ∧ d.At rest := by
  subst hps
  have hf : c.front = some p.1 := hc.front p rfl
  have hrem : c.remaining = rest.length + 1 := hc.remaining
  have hp := hr.shows_ p (List.mem_cons_self ..)
  have hne : c.remaining ≠ 0 := by omega
  unfold nextFront
  rw [if_neg hne, hf]
  simp only [shown?_of_shows hp]
  refine ⟨_, rfl, rfl, ⟨by dsimp only; omega, fun q hq => ?_, fun q hq => ?_⟩⟩
  · obtain ⟨rest, rfl⟩ := List.head?_eq_some_iff.1 hq
    have hn0 : ¬ c.remaining - 1 = 0 := by rw [hrem]; simp
    obtain ⟨⟨j, hj, hjq⟩, _⟩ := (List.isChain_cons_cons.1 hr.chain).1
    have hseen := (hr.shows_ q (by simp)).seen
    simp only [if_neg hn0, hj, Option.bind_some]
    exact LinkTable.resolve_of_leads ht hjq hseen
  · cases rest with
    | nil => cases hq
    | cons q' rest => exact hc.back q (by rw [List.getLast?_cons_cons]; exact hq)

theorem nextBack_concat (ht : s.links.Chained) {p : Nat × α} {rest : List (Nat × α)}
    (hps : ps = rest ++ [p]) :
    ∃ d, c.nextBack s.links = (some p, d) ∧ d.version = c.version ∧ d.At rest := by
  subst hps
  have hb : c.back = some p.1 := hc.back p (List.getLast?_concat ..)
  have hrem : c.remaining = rest.length + 1 := by rw [hc.remaining, List.length_append]; rfl
  have hp := hr.shows_ p (by simp)
  have hne : c.remaining ≠ 0 := by omega
  unfold nextBack
  rw [if_neg hne, hb]
  simp only [shown?_of_shows hp]
  refine ⟨_, rfl, rfl, ⟨by dsimp only; omega, fun q hq => ?_, fun q hq => ?_⟩⟩
  · cases rest with
    | nil => cases hq
    | cons q' rest => exact hc.front q hq
  · obtain ⟨rest, rfl⟩ := List.getLast?_eq_some_iff.1 hq
    have hn0 : ¬ c.remaining - 1 = 0 := by rw [hrem]; simp
    have hch := hr.chain
    rw [List.append_assoc, List.singleton_append, List.isChain_append_cons_cons] at hch
    obtain ⟨_, j, hj, hjq⟩ := hch.2.1
    have hseen := (hr.shows_ q (by simp)).seen
    simp only [if_neg hn0, hj, Option.bind_some]
    exact LinkTable.resolve_of_leads ht hjq hseen

end Step

/-- One step of a cursor. -/
def step : End → LinkTable α → Cursor → Option (Nat × α) × Cursor
  | .first, t, c => c.nextFront t
  | .last, t, c => c.nextBack t

/-- A step takes the item at its end, if there is one left. -/
theorem step_spec (ht : s.links.Chained) {c : Cursor} {ps : List (Nat × α)}
    (hr : s.Row c.version ps) (hc : c.At ps) (side : End) :
    ∃ d, step side s.links c = (side.outermost? ps, d) ∧ d.version = c.version ∧
      d.At (side.rest ps) := by
  by_cases hps : ps = []
  · obtain ⟨hf, hb⟩ := step_of_nil hc hps s.links
    subst hps
    cases side with
    | first => exact ⟨c, hf, rfl, hc⟩
    | last => exact ⟨c, hb, rfl, hc⟩
  · cases side with
    | first =>
      obtain ⟨p, rest, rfl⟩ := List.exists_cons_of_ne_nil hps
      exact nextFront_cons hr hc ht rfl
    | last =>
      obtain ⟨rest, p, rfl⟩ := (List.eq_nil_or_concat ps).resolve_left hps
      rw [List.concat_eq_append] at *
      obtain ⟨d, hd, hv, ha⟩ := nextBack_concat hr hc ht rfl
      refine ⟨d, ?_, hv, ?_⟩
      · rw [End.outermost?, List.getLast?_concat]
        exact hd
      · rw [End.rest, List.dropLast_concat]
        exact ha

theorem at_ofView (ht : s.links.Chained) {w : View} {ps : List (Nat × α)} (h : s.Displays w ps) :
    (ofView s.links w).At ps ∧ (ofView s.links w).version = w.version := by
  unfold ofView
  by_cases h0 : w.size = 0
  · rw [if_pos h0]
    have hps : ps = [] := List.length_eq_zero_iff.1 (h.size.symm.trans h0)
    subst hps
    exact ⟨⟨rfl, nofun, nofun⟩, rfl⟩
  · rw [if_neg h0]
    refine ⟨⟨h.size, fun p hp => ?_, fun p hp => ?_⟩, rfl⟩
    · exact LinkTable.resolve_of_leads ht (h.first p hp)
        (h.row.shows_ p (List.mem_of_mem_head? hp)).seen
    · exact LinkTable.resolve_of_leads ht (h.last p hp)
        (h.row.shows_ p (List.mem_of_mem_getLast? hp)).seen

/-! ## Walks to the end -/

theorem collect_front (ht : s.links.Chained) : ∀ {ps : List (Nat × α)} {c : Cursor},
    s.Row c.version ps → c.At ps → collect (nextFront s.links) ps.length c = ps := by
  intro ps
  induction ps with
  | nil => exact fun _ _ => rfl
  | cons p ps ih =>
    intro c hr hc
    obtain ⟨d, hd, hv, ha⟩ := nextFront_cons hr hc ht rfl
    have hrd : s.Row d.version ps := by rw [hv]; exact hr.rest .first
    rw [List.length_cons, collect, hd]
    exact congrArg (p :: ·) (ih hrd ha)

theorem collect_back (ht : s.links.Chained) : ∀ {n : Nat} {ps : List (Nat × α)} {c : Cursor},
    n = ps.length → s.Row c.version ps → c.At ps →
      collect (nextBack s.links) n c = ps.reverse := by
  intro n
  induction n with
  | zero =>
    intro ps c hn _ _
    rw [List.length_eq_zero_iff.1 hn.symm]
    rfl
  | succ n ih =>
    intro ps c hn hr hc
    obtain ⟨rest, p, rfl⟩ := (List.eq_nil_or_concat ps).resolve_left
      (fun e => by rw [e] at hn; cases hn)
    rw [List.concat_eq_append] at *
    obtain ⟨d, hd, hv, ha⟩ := nextBack_concat hr hc ht rfl
    have hrd : s.Row d.version rest := by
      rw [hv]
      have := hr.rest .last
      rw [End.rest, List.dropLast_concat] at this
      exact this
    have hlen : n = rest.length := by simpa using hn
    rw [collect, hd, List.reverse_concat]
    exact congrArg (p :: ·) (ih hlen hrd ha)

theorem forward_ofView (ht : s.links.Chained) {w : View} {ps : List (Nat × α)}
    (h : s.Displays w ps) : forward s.links (ofView s.links w) = ps := by
  obtain ⟨ha, hv⟩ := at_ofView ht h
  rw [forward, ha.remaining]
  exact collect_front ht (by rw [hv]; exact h.row) ha

theorem backward_ofView (ht : s.links.Chained) {w : View} {ps : List (Nat × α)}
    (h : s.Displays w ps) : backward s.links (ofView s.links w) = ps.reverse := by
  obtain ⟨ha, hv⟩ := at_ofView ht h
  rw [backward, ha.remaining]
  exact collect_back ht rfl (by rw [hv]; exact h.row) ha

end Cursor

/-- What a walk of a snapshot gives in full, from the front and from the back. -/
theorem Store.Displays.nodes {w : View} {ps : List (Nat × α)} (hd : s.Displays w ps)
    (ht : s.links.Chained) (ho : s.disposed = false) :
    ({ view := w } : Snapshot).nodes s = .ok (s.named ps) ∧
      ({ view := w } : Snapshot).nodesReversed s = .ok (s.named ps).reverse := by
  have hc : ({ view := w } : Snapshot).cursor s = .ok (.ofView s.links w) := by
    rw [Snapshot.cursor, Snapshot.checkOpen, ho]
    rfl
  constructor
  · rw [Snapshot.nodes, hc]
    change Except.ok (s.named _) = _
    rw [Cursor.forward_ofView ht hd]
  · rw [Snapshot.nodesReversed, hc]
    change Except.ok (s.named _) = _
    rw [Cursor.backward_ofView ht hd, Store.named, Store.named, List.map_reverse]

end SnapshotDeque
