import SnapshotDeque.Proofs.World

/-!
Reclamation safety. No change takes away what a snapshot shows that is still open after it, whether
links are given back at once or by a later pass: the links keep their elements and neighbours, the
nodes stay in the arena, and no observer is told that one of them is disposed.
-/

namespace SnapshotDeque

namespace Store

variable {α : Type} {s t : Store α} {h : Holding α}

/-- The links that a snapshot resolves to, front to back. -/
def shown (s : Store α) (v : View) : List (Nat × α) :=
  Cursor.forward s.links (.ofView s.links v)

/-- Everything that the snapshot `h` shows is there. -/
structure Intact (s : Store α) (h : Holding α) : Prop where
  contents : s.named (s.shown h.view) = h.contents
  element : ∀ p ∈ s.shown h.view, (s.links.get p.1).element = some p.2
  next : ∀ p ∈ s.shown h.view, ∃ j, (s.links.get p.1).next = some j
  previous : ∀ p ∈ s.shown h.view, ∃ j, (s.links.get p.1).previous = some j
  node : ∀ e ∈ h.contents, s.element? e.1 = some e.2
  info : ∀ e ∈ h.contents, ∃ i, s.nodeInfo? e.1 = some i ∧
    (i.linked = true ↔ e.1 ∈ s.entries.map (·.1))

/-- Nothing that the snapshot `h` shows is different in `t`, and no link that was current at its
version, be it that of a sentinel, has lost its neighbours or its element. -/
structure Leaves (s t : Store α) (h : Holding α) : Prop where
  keeps : ∀ i, i < s.links.size → s.links.Seen h.view.version i →
    s.links.Keeps t.links h.view.version i
  shown : t.shown h.view = s.shown h.view
  element : ∀ p ∈ s.shown h.view, (t.links.get p.1).element = (s.links.get p.1).element
  next : ∀ p ∈ s.shown h.view, (t.links.get p.1).next = (s.links.get p.1).next
  previous : ∀ p ∈ s.shown h.view, (t.links.get p.1).previous = (s.links.get p.1).previous
  node : ∀ e ∈ h.contents, ∃ n n', s.arena.get? e.1 = some n ∧ t.arena.get? e.1 = some n' ∧
    n'.id = n.id

theorem mem_named {ps : List (Nat × α)} {e : Handle × α} (he : e ∈ s.named ps) :
    ∃ p ∈ ps, s.owner p.1 = e.1 ∧ p.2 = e.2 := by
  obtain ⟨p, hp, rfl⟩ := List.mem_map.1 he
  exact ⟨p, hp, rfl, rfl⟩

section Displays

variable {l : List (Handle × α)} {ps : List (Nat × α)} (hl : s.Live l)
  (hd : s.Displays h.view ps)

include hl hd

theorem shown_of_displays : s.shown h.view = ps :=
  Cursor.forward_ofView hl.sound.chained hd

theorem intact_of_displays (hn : s.named ps = h.contents) : s.Intact h := by
  have hps := shown_of_displays hl hd
  have hnode : ∀ e ∈ h.contents, ∃ n, s.arena.get? e.1 = some n ∧ n.element = e.2 := by
    intro e he
    rw [← hn] at he
    obtain ⟨p, hp, ho, hpe⟩ := mem_named he
    obtain ⟨n, hn, hne⟩ := hl.sound.node_of_shows (fun _ hi => hi) (hd.row.shows_ p hp)
    rw [ho] at hn
    exact ⟨n, hn, hne.trans hpe⟩
  refine ⟨by rw [hps, hn], ?_, ?_, ?_, fun e he => ?_, fun e he => ?_⟩
  · rw [hps]
    exact fun p hp => (hd.row.shows_ p hp).element
  · rw [hps]
    exact fun p hp => (hd.row.shows_ p hp).next
  · rw [hps]
    exact fun p hp => (hd.row.shows_ p hp).previous
  · obtain ⟨n, hn, hne⟩ := hnode e he
    rw [Store.element?, read_of_open hl.open_, hn, Option.map_some, hne]
  · obtain ⟨n, hn, _⟩ := hnode e he
    have hi : ∃ i, s.nodeInfo? e.1 = some i := by
      rw [Store.nodeInfo?, read_of_open hl.open_, hn]
      exact ⟨_, rfl⟩
    obtain ⟨i, hi⟩ := hi
    refine ⟨i, hi, ?_⟩
    rw [hl.entries]
    exact (hl.reads.linked _ i hi).2

theorem leaves_of_saves {l' : List (Handle × α)} (hl' : t.Live l')
    (hs : Saves s t h.view.version) (hn : s.named ps = h.contents) : s.Leaves t h := by
  have hps := shown_of_displays hl hd
  have hkeep : ∀ p ∈ ps, s.links.Keeps t.links h.view.version p.1 := fun p hp =>
    hs.keeps (hd.row.shows_ p hp).lt (hd.row.shows_ p hp).seen
  refine ⟨fun i hi hseen => hs.keeps hi hseen, ?_, ?_, ?_, ?_, fun e he => ?_⟩
  · rw [hps, shown_of_displays hl' (hd.saves hs)]
  · rw [hps]
    exact fun p hp => (hkeep p hp).element
  · rw [hps]
    exact fun p hp => (hkeep p hp).next
  · rw [hps]
    exact fun p hp => (hkeep p hp).previous
  · rw [← hn] at he
    obtain ⟨p, hp, ho, _⟩ := mem_named he
    have hsh := hd.row.shows_ p hp
    obtain ⟨n, hn, _⟩ := hl.sound.node_of_shows (fun _ hi => hi) hsh
    obtain ⟨n', hn', hid⟩ := hs.node hsh.lt hsh.seen hsh.retained hn
    rw [ho] at hn hn'
    exact ⟨n, n', hn, hn', hid⟩

end Displays

end Store

namespace World

variable {α ρ : Type} {c : Config} {w : World α} {l : List (Handle × α)}

theorem Coherent.intact (hw : w.Coherent l) {h : Holding α} (hh : h ∈ w.held) :
    w.store.Intact h := by
  obtain ⟨ps, hd, hn⟩ := hw.displays h hh
  exact Store.intact_of_displays hw.live hd hn

/-- Whatever a snapshot shows is there as long as it is open; a change leaves it as it was if the
snapshot is still open afterwards, and the nodes that go with the change, which are the ones that
observers hear of as disposed, are none of those. -/
theorem shown_is_not_reclaimed (hr : Reached c w) (ho : w.store.disposed = false) :
    (∀ h ∈ w.held, w.store.Intact h) ∧
    ∀ {ρ : Type} (m : Mutation α ρ), w.Permits m →
      (w.after m).store.timeline.modification < .max → ∀ h ∈ (w.after m).held,
      (w.after m).store.Intact h ∧ (h ∈ w.held → Store.Leaves w.store (w.after m).store h) ∧
      ∃ born gone, Store.Turnover w.store (w.after m).store born gone ∧
        ∀ e ∈ h.contents, ∀ n, (w.after m).store.arena.get? e.1 = some n →
          n.id ∉ gone.map (·.1) := by
  obtain ⟨l, hw⟩ := hr.coherent ho
  refine ⟨fun h hh => hw.intact hh, ?_⟩
  intro ρ m hp hv h hh
  have hm := hw.disposes_of_held hh
  have hout := hw.after_outcome hp hv hm
  obtain ⟨l', hw'⟩ := hw.after hp hv hm
  obtain ⟨born, gone, hturn⟩ := hout.turnover
  refine ⟨hw'.intact hh, ?_, born, gone, hturn, ?_⟩
  · intro hold
    obtain ⟨ps, hd, hn⟩ := hw.displays h hold
    exact Store.leaves_of_saves hw.live hd hw'.live
      (hout.saves (hw.pinned hold) (hw'.pinned hh)) hn
  · intro e _ n hn hg
    obtain ⟨x, hx, hid⟩ := List.mem_map.1 hg
    have hmem := Arena.mem_roster_of_get? hw'.live.sound.arena.limit hn
    exact hturn.not_mem_roster hw.live.sound.arena hx _ hmem hid.symm

/-- A node that is polled is still there for the snapshot that shows it. -/
theorem single_survives_poll :
    (single.after (.poll .first)).store.Intact onSingle ∧
      Store.Leaves single.store (single.after (.poll .first)).store onSingle := by
  have h := (shown_is_not_reclaimed reached_single rfl).2 (.poll .first) trivial (by decide)
    onSingle (List.Mem.head [])
  exact ⟨h.1, h.2.1 (List.Mem.head [])⟩

end World

end SnapshotDeque
