import SnapshotDeque.Proofs.Invariant

/-!
What a step of a change leaves alone. `Spares` says that nothing is lost that a pinned version can
see: each link seen there keeps its neighbours and its element, is not given back, and its node
stays in the arena. `Turnover` accounts for the nodes that come and go, and for what is said of the
latter.
-/

namespace SnapshotDeque

/-- The elements that are said to be disposed, in order. -/
def disposals {α : Type} (events : List (Event α)) : List α :=
  events.filterMap fun
    | .dispose a => some a
    | _ => none

namespace Store

variable {α : Type} {s t u : Store α}

/-- What the pinned versions of `s` see is in `t` as it was. -/
structure Guards (s t : Store α) : Prop where
  grows : s.links.Grows t.links
  keeps : ∀ {v i}, v ∈ s.timeline.pinned → i < s.links.size → s.links.Seen v i →
    s.links.Keeps t.links v i
  retained : ∀ {v i}, v ∈ s.timeline.pinned → i < s.links.size → s.links.Seen v i →
    s.Retained i → t.Retained i
  node : ∀ {v i n}, v ∈ s.timeline.pinned → i < s.links.size → s.links.Seen v i →
    s.Retained i → s.arena.get? (s.owner i) = some n →
    ∃ n', t.arena.get? (s.owner i) = some n' ∧ n'.id = n.id

/-- What version `v` sees of `s` is in `t` as it was. -/
structure Saves (s t : Store α) (v : Version) : Prop where
  grows : s.links.Grows t.links
  keeps : ∀ {i}, i < s.links.size → s.links.Seen v i → s.links.Keeps t.links v i
  retained : ∀ {i}, i < s.links.size → s.links.Seen v i → s.Retained i → t.Retained i
  node : ∀ {i n}, i < s.links.size → s.links.Seen v i → s.Retained i →
    s.arena.get? (s.owner i) = some n → ∃ n', t.arena.get? (s.owner i) = some n' ∧ n'.id = n.id

structure Spares (s t : Store α) : Prop extends Guards s t where
  config : t.config = s.config
  markers : t.timeline.markers = s.timeline.markers
  snapshotsOpened : t.snapshotsOpened = s.snapshotsOpened
  disposed : t.disposed = s.disposed
  emitting : t.emitting = s.emitting

/-- From `s` to `t`, the nodes in `born` come and those in `gone` go, the latter with an event for
each if there is somebody to hear it. -/
structure Turnover (s t : Store α) (born gone : List (NodeId × α)) : Prop where
  roster : (gone ++ t.arena.roster).Perm (born ++ s.arena.roster)
  nextId_le : s.arena.nextId ≤ t.arena.nextId
  born_nodup : (born.map (·.1)).Nodup
  born_fresh : ∀ x ∈ born, s.arena.nextId ≤ x.1.val ∧ x.1.val < t.arena.nextId
  silent : s.emitting = false → t.events = s.events
  heard : s.emitting = true → disposals t.events = disposals s.events ++ gone.map (·.2)

theorem Guards.owner (h : Guards s t) {i : Nat} (hi : i < s.links.size) :
    t.owner i = s.owner i := h.grows.owner hi

theorem Guards.refl (s : Store α) : Guards s s :=
  ⟨.refl _, fun _ _ hs => .refl hs, fun _ _ _ hr => hr, fun {_ _ n} _ _ _ _ hn => ⟨n, hn, rfl⟩⟩

theorem Guards.saves (h : Guards s t) {v : Version} (hv : v ∈ s.timeline.pinned) : Saves s t v :=
  ⟨h.grows, h.keeps hv, h.retained hv, h.node hv⟩

theorem Saves.owner {v : Version} (h : Saves s t v) {i : Nat} (hi : i < s.links.size) :
    t.owner i = s.owner i := h.grows.owner hi

theorem Saves.trans {v : Version} (h : Saves s t v) (h' : Saves t u v) : Saves s u v where
  grows := h.grows.trans h'.grows
  keeps hi hs :=
    have hk := h.keeps hi hs
    hk.trans (h'.keeps (Nat.lt_of_lt_of_le hi h.grows.size_le) hk.seen)
  retained hi hs hr :=
    h'.retained (Nat.lt_of_lt_of_le hi h.grows.size_le) (h.keeps hi hs).seen (h.retained hi hs hr)
  node {i n} hi hs hr hn := by
    obtain ⟨n', hn', hid⟩ := h.node hi hs hr hn
    rw [← h.owner hi] at hn' ⊢
    obtain ⟨m, hm, hid'⟩ := h'.node (Nat.lt_of_lt_of_le hi h.grows.size_le) (h.keeps hi hs).seen
      (h.retained hi hs hr) hn'
    exact ⟨m, hm, hid'.trans hid⟩

theorem Guards.trans (h : Guards s t) (h' : Guards t u)
    (hp : ∀ v ∈ s.timeline.pinned, v ∈ t.timeline.pinned) : Guards s u := by
  have hs : ∀ v ∈ s.timeline.pinned, Saves s u v := fun v hv =>
    (h.saves hv).trans (h'.saves (hp v hv))
  exact ⟨h.grows.trans h'.grows, fun hv => (hs _ hv).keeps, fun hv => (hs _ hv).retained,
    fun hv => (hs _ hv).node⟩

theorem Spares.pinned (h : Spares s t) : t.timeline.pinned = s.timeline.pinned := by
  rw [Timeline.pinned, h.markers]; rfl

theorem Spares.refl (s : Store α) : Spares s s := ⟨.refl s, rfl, rfl, rfl, rfl, rfl⟩

theorem Spares.trans (h : Spares s t) (h' : Spares t u) : Spares s u where
  toGuards := h.toGuards.trans h'.toGuards fun v hv => by rw [h.pinned]; exact hv
  config := h'.config.trans h.config
  markers := h'.markers.trans h.markers
  snapshotsOpened := h'.snapshotsOpened.trans h.snapshotsOpened
  disposed := h'.disposed.trans h.disposed
  emitting := h'.emitting.trans h.emitting

theorem Turnover.of_eq (hr : t.arena.roster = s.arena.roster)
    (hn : t.arena.nextId = s.arena.nextId) (he : t.events = s.events) : Turnover s t [] [] where
  roster := by rw [hr]
  nextId_le := Nat.le_of_eq hn.symm
  born_nodup := List.nodup_nil
  born_fresh _ hx := by cases hx
  silent _ := he
  heard _ := by rw [he, List.map_nil, List.append_nil]

theorem Turnover.trans {b g b' g' : List (NodeId × α)} (he : t.emitting = s.emitting)
    (h : Turnover s t b g) (h' : Turnover t u b' g') :
    Turnover s u (b ++ b') (g ++ g') where
  roster := by
    have h1 : (g ++ g' ++ u.arena.roster).Perm (g ++ (b' ++ t.arena.roster)) := by
      rw [List.append_assoc]
      exact h'.roster.append_left g
    have h2 : (g ++ (b' ++ t.arena.roster)).Perm (b' ++ (g ++ t.arena.roster)) := by
      rw [← List.append_assoc, ← List.append_assoc]
      exact List.perm_append_comm.append_right _
    have h3 : (b' ++ (g ++ t.arena.roster)).Perm (b ++ b' ++ s.arena.roster) := by
      refine (h.roster.append_left b').trans ?_
      rw [← List.append_assoc]
      exact List.perm_append_comm.append_right _
    exact (h1.trans h2).trans h3
  nextId_le := Nat.le_trans h.nextId_le h'.nextId_le
  born_nodup := by
    rw [List.map_append, List.nodup_append]
    refine ⟨h.born_nodup, h'.born_nodup, fun x hx y hy e => ?_⟩
    obtain ⟨a, ha, rfl⟩ := List.mem_map.1 hx
    obtain ⟨c, hc, rfl⟩ := List.mem_map.1 hy
    have h1 := (h.born_fresh a ha).2
    have h2 := (h'.born_fresh c hc).1
    rw [e] at h1
    omega
  born_fresh x hx := by
    have := h.nextId_le
    have := h'.nextId_le
    rcases List.mem_append.1 hx with hx | hx
    · have := h.born_fresh x hx; omega
    · have := h'.born_fresh x hx; omega
  silent hs := (h'.silent (he.trans hs)).trans (h.silent hs)
  heard hs := by
    rw [h'.heard (he.trans hs), h.heard hs, List.map_append, List.append_assoc]

theorem Turnover.size {b g : List (NodeId × α)} (h : Turnover s t b g) (hs : s.arena.Valid)
    (ht : t.arena.Valid) : g.length + t.arena.size = b.length + s.arena.size := by
  rw [hs.size, ht.size, ← List.length_append, ← List.length_append]
  exact h.roster.length_eq

/-- A node that goes is not there any more. -/
theorem Turnover.not_mem_roster {b g : List (NodeId × α)} (hs : s.arena.Valid)
    (h : Turnover s t b g) {x : NodeId × α} (hx : x ∈ g) : ∀ y ∈ t.arena.roster, y.1 ≠ x.1 := by
  have hnd : ((b ++ s.arena.roster).map (·.1)).Nodup := by
    rw [List.map_append, List.nodup_append]
    refine ⟨h.born_nodup, hs.ids_nodup, fun y hy z hz e => ?_⟩
    obtain ⟨a, ha, rfl⟩ := List.mem_map.1 hy
    obtain ⟨c, hc, rfl⟩ := List.mem_map.1 hz
    have h1 := (h.born_fresh a ha).1
    have h2 := hs.ids_lt c hc
    rw [e] at h1
    omega
  have hnd' := (h.roster.map (·.1)).nodup_iff.2 hnd
  rw [List.map_append, List.nodup_append] at hnd'
  intro y hy e
  exact hnd'.2.2 x.1 (List.mem_map_of_mem hx) y.1 (List.mem_map_of_mem hy) e.symm

/-- `t` is `s` after changes. -/
structure Changes (s t : Store α) (born gone : List (NodeId × α)) : Prop where
  spares : Spares s t
  turnover : Turnover s t born gone

/-- `t` is `s` after a part of a change. -/
structure Amends (s t : Store α) (born gone : List (NodeId × α)) : Prop
    extends Changes s t born gone where
  timeline : t.timeline = s.timeline

theorem Changes.refl (s : Store α) : Changes s s [] [] := ⟨.refl s, .of_eq rfl rfl rfl⟩

theorem Changes.trans {b g b' g' : List (NodeId × α)} (h : Changes s t b g)
    (h' : Changes t u b' g') : Changes s u (b ++ b') (g ++ g') :=
  ⟨h.spares.trans h'.spares, h.turnover.trans h.spares.emitting h'.turnover⟩

theorem Amends.refl (s : Store α) : Amends s s [] [] := ⟨.refl s, rfl⟩

theorem Amends.trans {b g b' g' : List (NodeId × α)} (h : Amends s t b g) (h' : Amends t u b' g') :
    Amends s u (b ++ b') (g ++ g') :=
  ⟨h.toChanges.trans h'.toChanges, h'.timeline.trans h.timeline⟩

theorem Amends.stamp {b g : List (NodeId × α)} (h : Amends s t b g) {v : Version}
    (hs : s.Stamp v) : t.Stamp v := by
  obtain ⟨he, ha⟩ := hs
  exact ⟨by rw [h.timeline]; exact he, by rw [h.timeline]; exact ha⟩

/-! ## Changes of neighbours and counts -/

theorem Sound.sameSpine {r : List Nat} {sp : List Handle} (h : s.Sound r sp) {l : LinkTable α}
    (hs : s.links.SameSpine l) : ({ s with links := l } : Store α).Sound r sp where
  chained := hs.chained h.chained
  arena := h.arena
  current_lt hx := by rw [hs.size]; exact h.current_lt hx
  owner hx := (hs.owner _).trans (h.owner hx)
  newer hx := (hs.newer _).trans (h.newer hx)
  obsoleteOn hx := (hs.obsoleteOn _).trans (h.obsoleteOn hx)
  element hn hi := (hs.element _).trans (h.element hn hi)
  retired_lt hi := by rw [hs.size]; exact h.retired_lt hi
  retired_ne {i} hi := by
    have := h.retired_ne hi
    simp only [Store.owner, hs.owner] at this ⊢
    exact this
  retired_node {i} hi := by
    have := h.retired_node hi
    simp only [Store.owner, hs.owner, hs.element] at this ⊢
    exact this
  nodup := h.nodup
  liveLinks {x n} hx := by
    have := h.liveLinks hx
    simp only [Store.owner, hs.owner] at this ⊢
    exact this
  occupied {x n} hx hn hsp := by
    have := h.occupied hx hn hsp
    simp only [Store.owner, hs.owner] at this ⊢
    exact this

theorem Stamped.sameSpine (h : s.Stamped) {l : LinkTable α} (hs : s.links.SameSpine l) :
    ({ s with links := l } : Store α).Stamped where
  timeline := h.timeline
  createdOn_le hi := by
    rw [hs.createdOn]
    exact h.createdOn_le (hs.size ▸ hi)
  tag hi := by
    have := h.tag hi
    simp only [hs.obsoleteOn, hs.createdOn] at this ⊢
    exact this
  sorted := by
    have := h.sorted
    simp only [hs.obsoleteOn] at this ⊢
    exact this

theorem Spares.sameSpine {l : LinkTable α} (hs : s.links.SameSpine l)
    (hk : ∀ {v i}, v ∈ s.timeline.pinned → i < s.links.size → s.links.Seen v i →
      (l.get i).previous = (s.links.get i).previous ∧ (l.get i).next = (s.links.get i).next) :
    Spares s { s with links := l } where
  config := rfl
  markers := rfl
  snapshotsOpened := rfl
  disposed := rfl
  emitting := rfl
  grows := hs.grows
  keeps hv hi hsn := ⟨hs.seen hsn, (hk hv hi hsn).1, (hk hv hi hsn).2, hs.element _⟩
  retained {v i} _ _ _ hr := by
    simp only [Retained, Store.owner, hs.owner] at hr ⊢
    exact hr
  node {v i n} _ _ _ _ hn := ⟨n, hn, rfl⟩

end Store

end SnapshotDeque
