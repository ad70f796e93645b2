import Mathlib.Data.List.Chain
import SnapshotDeque.Proofs.Accounting

/-!
The live deque as a circuit. Its current links lead from one sentinel to the other and back again,
and each neighbour pointer names a link of the neighbour, superseded or not. Both ends count the
nodes on the way. Main statement: a deque that is not disposed is such a circuit, and no change
takes a count below zero, since what a count of zero would be lowered to makes no difference to it.
-/

namespace SnapshotDeque

variable {α ρ σ : Type}

/-! ## The walks from both ends -/

namespace Store

variable {s : Store α}

/-- `links` are the current links of a deque, as the walks from its two ends come by them. -/
structure Circuit (s : Store α) (links : List Nat) : Prop where
  forth : (s.beginLink :: (links ++ [s.endLink])).IsChain fun p n => s.nextOf p = .ok n
  back : (s.endLink :: (links.reverse ++ [s.beginLink])).IsChain fun n p => s.previousOf n = .ok p
  first : s.owner s.beginLink = .atBegin
  last : s.owner s.endLink = .atEnd
  payload : ∀ i ∈ links, (s.owner i).isSentinel = false
  /-- No node is passed twice. -/
  once : (links.map s.owner).Nodup
  /-- What a neighbour pointer names is the neighbour's current link or one that it superseded. -/
  next : (s.beginLink :: (links ++ [s.endLink])).IsChain fun p n =>
    ∃ j, (s.links.get p).next = some j ∧ s.owner j = s.owner n ∧ s.links.Leads j n
  previous : (s.beginLink :: (links ++ [s.endLink])).IsChain fun p n =>
    ∃ j, (s.links.get n).previous = some j ∧ s.owner j = s.owner p ∧ s.links.Leads j p
  heads : ∀ {x n}, s.arena.get? x = some n → ∀ i, n.head = some i ↔ i ∈ links ∧ s.owner i = x
  counts : s.Counted links.length
  /-- The deque itself finds just these links. -/
  found : s.liveLinks = .ok links

theorem isChain_filterMap {β γ : Type} {R : β → β → Prop} {P : γ → γ → Prop} {f : β → Option γ}
    (h : ∀ {x y}, R x y → ∃ p n, f x = some p ∧ f y = some n ∧ P p n) {xs : List β}
    (hxs : xs.IsChain R) : (xs.filterMap f).IsChain P := by
  induction xs with
  | nil => exact .nil
  | cons x xs ih =>
    cases xs with
    | nil =>
      rw [List.filterMap_cons]
      split
      · exact .nil
      · exact .singleton _
    | cons y ys =>
      obtain ⟨hxy, hys⟩ := List.isChain_cons_cons.1 hxs
      obtain ⟨p, n, hp, hn, hpn⟩ := h hxy
      have hrest := ih hys
      rw [List.filterMap_cons_some hn] at hrest
      rw [List.filterMap_cons_some hp, List.filterMap_cons_some hn]
      exact List.isChain_cons_cons.2 ⟨hpn, hrest⟩

theorem filterMap_ringOf (s : Store α) (l : List Handle) :
    (ringOf l).filterMap s.current? =
      s.beginLink :: (l.filterMap s.current? ++ [s.endLink]) := by
  simp [ringOf]

/-- What the current links of adjacent nodes have to do with each other goes all the way round. -/
theorem Ring.chain_current {l : List Handle} (h : s.Ring l) {P : Nat → Nat → Prop}
    (hP : ∀ {x y p n}, s.Adjacent x y → s.current? x = some p → s.current? y = some n → P p n) :
    (s.beginLink :: (l.filterMap s.current? ++ [s.endLink])).IsChain P := by
  rw [← filterMap_ringOf]
  refine isChain_filterMap (fun hxy => ?_) h.chain
  have ⟨p, n, hp, hn, _⟩ := hxy
  exact ⟨p, n, hp, hn, hP hxy hp hn⟩

theorem Shaped.circuit {l : List (Handle × α)} (h : s.Shaped l) :
    s.Circuit ((l.map (·.1)).filterMap s.current?) where
  forth := h.ring.chain_current h.sound.nextOf
  back := by
    have hc := h.ring.chain_current (P := fun p n => s.previousOf n = .ok p) h.sound.previousOf
    rw [← List.isChain_reverse] at hc
    simpa using hc
  first := h.sound.owner (current?_atBegin s)
  last := h.sound.owner (current?_atEnd s)
  payload i hi := by
    obtain ⟨x, hx, hi⟩ := List.mem_filterMap.1 hi
    rw [h.sound.owner hi]
    exact h.isSentinel hx
  once := by
    rw [h.map_owner_current]
    exact h.nodup
  next := h.ring.chain_current fun ⟨p, n, hp', hn', ⟨j, hj, hjn⟩, _⟩ hp hn => by
    obtain rfl := Option.some.inj (hp'.symm.trans hp)
    obtain rfl := Option.some.inj (hn'.symm.trans hn)
    exact ⟨j, hj, (hjn.owner h.sound.chained).symm, hjn⟩
  previous := h.ring.chain_current fun ⟨p, n, hp', hn', _, ⟨j, hj, hjp⟩⟩ hp hn => by
    obtain rfl := Option.some.inj (hp'.symm.trans hp)
    obtain rfl := Option.some.inj (hn'.symm.trans hn)
    exact ⟨j, hj, (hjp.owner h.sound.chained).symm, hjp⟩
  heads {x n} hn i := by
    have hc := current?_of_node hn
    rw [List.mem_filterMap, ← hc]
    constructor
    · intro hi
      refine ⟨⟨x, (h.heads x).1 ?_, hi⟩, h.sound.owner hi⟩
      rw [← current?_of_payload (Arena.isSentinel_of_get? hn), hi]
      rfl
    · rintro ⟨⟨y, _, hi⟩, rfl⟩
      rw [h.sound.owner hi]
      exact hi
  counts := by
    rw [← List.length_map s.owner, h.map_owner_current, List.length_map]
    exact h.counted
  found := h.liveLinks

end Store

/-! ## Every deque that is not disposed -/

/-- A circuit whose counts no change takes below zero. -/
structure Store.Spliced (s : Store α) : Prop where
  circuit : ∃ links, s.Circuit links
  lowers : ∀ {ρ : Type} (m : Mutation α ρ) (f : Nat → Nat), (∀ n, f (n + 1) = n) →
    m.runBy f (· - 1) s = m.run s

theorem Store.Formed.spliced {s : Store α} (h : s.Formed) : s.Spliced where
  circuit := by
    obtain ⟨l, hl⟩ := h
    exact ⟨_, hl.circuit⟩
  lowers m f hf := m.runBy_eq hf (fun _ => rfl) h

/-- As long as a deque is not disposed, its links lead from one sentinel to the other and back,
past every linked node once, and both ends count the nodes; in a session, after every command and at
every move of the next. -/
theorem open_deque_is_spliced (c : Config) :
    (∀ {α : Type} (w : World α), World.Reached c w → w.store.disposed = false →
      w.store.Spliced) ∧
    ∀ (s : Session) (cs : List Session.Command) (x : Session.Due × Session),
      Session.start c = .ok s → Session.Moves ([], (s.run cs).2) x →
      x.2.store.disposed = false → x.2.store.Spliced := by
  refine ⟨fun w hr ho => ?_, fun s cs x hs hx ho => ?_⟩
  · obtain ⟨ds, k, h⟩ := hr.account ho
    exact h.formed.spliced
  · obtain ⟨ds, h⟩ := hx.history (Session.history_run ⟨[], Session.history_start hs⟩ cs)
    obtain ⟨k, h⟩ := h.account ho
    exact h.formed.spliced

/-- The circuits of a deque and of a session in both of which the begin sentinel still names a link
of the first node that was superseded. -/
theorem double_spliced :
    (World.double.store.beginLink = 6 ∧ (World.double.store.links.get 6).next = some 2 ∧
      World.double.store.current? ⟨2, 0⟩ = some 4 ∧ World.double.store.Spliced) ∧
      Session.doubled.store.Spliced := by
  obtain ⟨hw, hs⟩ := open_deque_is_spliced {}
  exact ⟨⟨by decide +kernel, by decide +kernel, by decide +kernel,
    hw World.double World.reached_double (by decide)⟩,
    hs (.init {}) [] ([], Session.doubled) rfl Session.moves_doubled rfl⟩

end SnapshotDeque
