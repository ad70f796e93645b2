import SnapshotDeque.Proofs.World

/-!
Snapshot isolation. A walk along a snapshot goes on from both ends while the deque is changed, other
snapshots come and go and reclamation passes run. Main statement: at every moment, what the walk has
given from the front, what it has still to give and what it has given from the back make up what the
snapshot was opened on.
-/

namespace SnapshotDeque.World

variable {α ρ : Type} {c : Config} {h : Holding α} {w : World α} {k : Cursor}
  {front back : List (Handle × α)}

/-- A walk along a held snapshot: the world and the cursor at some moment, and what the steps have
given from the front and from the back. Between any two steps the world may change, as long as the
snapshot is held. -/
inductive Walk (c : Config) (h : Holding α) :
    World α → Cursor → List (Handle × α) → List (Handle × α) → Prop
  | start {w : World α} : Reached c w → w.store.disposed = false → h ∈ w.held →
    Walk c h w (.ofView w.store.links h.view) [] []
  | change {ρ : Type} {w : World α} {k : Cursor} {front back : List (Handle × α)}
    (m : Mutation α ρ) : Walk c h w k front back → w.Permits m →
    (w.after m).store.timeline.modification < .max → h ∈ (w.after m).held →
    Walk c h (w.after m) k front back
  | deliver {w : World α} {k : Cursor} {front back : List (Handle × α)} :
    Walk c h w k front back → Walk c h w.delivered k front back
  | stepFront {w : World α} {k : Cursor} {front back : List (Handle × α)} :
    Walk c h w k front back → Walk c h w (k.nextFront w.store.links).2
      (front ++ w.store.named (k.nextFront w.store.links).1.toList) back
  | stepBack {w : World α} {k : Cursor} {front back : List (Handle × α)} :
    Walk c h w k front back → Walk c h w (k.nextBack w.store.links).2 front
      (back ++ w.store.named (k.nextBack w.store.links).1.toList)

/-- The links of `ps` are what a walk has still to give. -/
structure Before (w : World α) (h : Holding α) (k : Cursor) (front back : List (Handle × α))
    (ps : List (Nat × α)) : Prop where
  held : h ∈ w.held
  coherent : ∃ l, w.Coherent l
  row : w.store.Row h.view.version ps
  version : k.version = h.view.version
  cursor : k.At ps
  contents : h.contents = front ++ w.store.named ps ++ back.reverse

theorem Before.step {ps : List (Nat × α)} (hb : w.Before h k front back ps) (side : End) :
    ∃ d, Cursor.step side w.store.links k = (side.outermost? ps, d) ∧
      d.version = h.view.version ∧ d.At (side.rest ps) := by
  obtain ⟨l, hw⟩ := hb.coherent
  have hr := hb.row
  rw [← hb.version] at hr
  obtain ⟨d, hd, hv, ha⟩ := Cursor.step_spec hw.live.sound.chained hr hb.cursor side
  exact ⟨d, hd, hv.trans hb.version, ha⟩

theorem Before.stepFront {ps : List (Nat × α)} (hb : w.Before h k front back ps) :
    w.Before h (k.nextFront w.store.links).2
      (front ++ w.store.named (k.nextFront w.store.links).1.toList) back ps.tail := by
  obtain ⟨d, hd, hv, ha⟩ := hb.step .first
  have hd : k.nextFront w.store.links = (ps.head?, d) := hd
  rw [hd]
  refine ⟨hb.held, hb.coherent, hb.row.rest .first, hv, ha, ?_⟩
  rw [hb.contents]
  cases ps with
  | nil => simp [Store.named]
  | cons p ps => simp [Store.named]

theorem Before.stepBack {ps : List (Nat × α)} (hb : w.Before h k front back ps) :
    w.Before h (k.nextBack w.store.links).2 front
      (back ++ w.store.named (k.nextBack w.store.links).1.toList) ps.dropLast := by
  obtain ⟨d, hd, hv, ha⟩ := hb.step .last
  have hd : k.nextBack w.store.links = (ps.getLast?, d) := hd
  rw [hd]
  refine ⟨hb.held, hb.coherent, hb.row.rest .last, hv, ha, ?_⟩
  rw [hb.contents]
  rcases List.eq_nil_or_concat ps with rfl | ⟨ps, p, rfl⟩
  · simp [Store.named]
  · simp [Store.named]

/-- Another world in which the snapshot is still held, and what it shows is as it was. -/
theorem Before.transfer {w' : World α} {ps : List (Nat × α)} (hb : w.Before h k front back ps)
    (hh : h ∈ w'.held) (hw : ∃ l, w'.Coherent l)
    (hs : Store.Saves w.store w'.store h.view.version) : w'.Before h k front back ps :=
  ⟨hh, hw, hb.row.saves hs, hb.version, hb.cursor, by rw [hs.named hb.row]; exact hb.contents⟩

theorem Walk.before (hk : Walk c h w k front back) : ∃ ps, w.Before h k front back ps := by
  induction hk with
  | start hr ho hh =>
    obtain ⟨l, hw⟩ := hr.coherent ho
    obtain ⟨ps, hd, hn⟩ := hw.displays h hh
    obtain ⟨ha, hv⟩ := Cursor.at_ofView hw.live.sound.chained hd
    exact ⟨ps, hh, ⟨l, hw⟩, hd.row, hv, ha, by simp [hn]⟩
  | change m _ hp hv hh ih =>
    obtain ⟨ps, hb⟩ := ih
    obtain ⟨l, hw⟩ := hb.coherent
    have hm := hw.disposes_of_held hh
    obtain ⟨l', hw'⟩ := hw.after hp hv hm
    have hs := (hw.after_outcome hp hv hm).saves (hw.pinned hb.held) (hw'.pinned hh)
    exact ⟨ps, hb.transfer hh ⟨l', hw'⟩ hs⟩
  | deliver _ ih =>
    obtain ⟨ps, hb⟩ := ih
    obtain ⟨l, hw⟩ := hb.coherent
    exact ⟨ps, hb.transfer hb.held ⟨l, hw.delivered⟩ (saves_delivered _ _)⟩
  | stepFront _ ih =>
    obtain ⟨ps, hb⟩ := ih
    exact ⟨ps.tail, hb.stepFront⟩
  | stepBack _ ih =>
    obtain ⟨ps, hb⟩ := ih
    exact ⟨ps.dropLast, hb.stepBack⟩

/-- A walk gives every pair that the snapshot was opened on once and in order, from either end, and
knows before each step how many are left. -/
theorem walk_gives_contents (hk : Walk c h w k front back) :
    ({ view := h.view } : Snapshot).size w.store = .ok h.contents.length ∧
    ∃ rest, h.contents = front ++ rest ++ back.reverse ∧ k.remaining = rest.length ∧
      w.store.named (k.nextFront w.store.links).1.toList = rest.head?.toList ∧
      w.store.named (k.nextBack w.store.links).1.toList = rest.getLast?.toList := by
  obtain ⟨ps, hb⟩ := hk.before
  obtain ⟨l, hw⟩ := hb.coherent
  obtain ⟨qs, hd, hn⟩ := hw.displays h hb.held
  have hsize : h.view.size = h.contents.length := by
    rw [hd.size, ← hn, Store.named, List.length_map]
  refine ⟨?_, w.store.named ps, hb.contents, ?_, ?_, ?_⟩
  · rw [Snapshot.size, Snapshot.checkOpen, hw.live.open_, hsize]
    rfl
  · rw [hb.cursor.remaining, Store.named, List.length_map]
  · obtain ⟨d, hd, _⟩ := hb.step .first
    have hd : k.nextFront w.store.links = (ps.head?, d) := hd
    rw [hd, Store.named, Store.named, List.head?_map]
    cases ps.head? <;> rfl
  · obtain ⟨d, hd, _⟩ := hb.step .last
    have hd : k.nextBack w.store.links = (ps.getLast?, d) := hd
    rw [hd, Store.named, Store.named, List.getLast?_map]
    cases ps.getLast? <;> rfl

/-- A walk gives the node that was polled under it. -/
theorem walk_outlasts_poll :
    ({ view := onSingle.view } : Snapshot).size (single.after (.poll .first)).store = .ok 1 ∧
    (single.after (.poll .first)).store.named
      ((Cursor.ofView single.store.links onSingle.view).nextFront
        (single.after (.poll .first)).store.links).1.toList = [(⟨2, 0⟩, 7)] := by
  have hk : Walk {} onSingle (single.after (.poll .first))
      (.ofView single.store.links onSingle.view) [] [] :=
    .change (.poll .first) (.start reached_single rfl (List.Mem.head [])) trivial (by decide)
      (List.Mem.head [])
  obtain ⟨hsize, rest, hr, _, hf, _⟩ := walk_gives_contents hk
  have hrest : rest = [(⟨2, 0⟩, 7)] := by simpa [onSingle] using hr.symm
  rw [hrest] at hf
  exact ⟨hsize, hf⟩

end SnapshotDeque.World
