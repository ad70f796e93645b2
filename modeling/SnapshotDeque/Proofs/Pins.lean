import SnapshotDeque.Proofs.Calls
import SnapshotDeque.Proofs.Moves
import SnapshotDeque.Proofs.Stamping

/-!
What open snapshots hold on to. The markers of a timeline are those of the snapshots that are held,
a snapshot's number is given once, and once it is given up it is never held again. Main statement:
so it is in every world and in every session, in which a snapshot can be closed in effect only once.
-/

namespace SnapshotDeque

/-- The markers are just those of the snapshots in `views`, and tell where the baseline is. -/
structure Timeline.Pins (t : Timeline) (views : List View) : Prop where
  sorted : t.markers.Pairwise fun m n => m.version < n.version
  inhabited : ∀ m ∈ t.markers, m.snapshots ≠ [] ∧ m.snapshots.Nodup
  snapshots : ∀ m ∈ t.markers, ∀ id,
    id ∈ m.snapshots ↔ ∃ v ∈ views, v.version = m.version ∧ v.id = id
  marked : ∀ v ∈ views, ∃ m ∈ t.markers, m.version = v.version
  baseline : t.baseline = if t.modification ∈ t.pinned then some t.modification else none
  le : ∀ v ∈ t.pinned, v ≤ t.modification

namespace Timeline

variable {t : Timeline}

theorem Valid.baseline_eq (h : t.Valid) :
    t.baseline = if t.modification ∈ t.pinned then some t.modification else none := by
  split
  next hp => exact (h.baseline _).2 ⟨rfl, hp⟩
  next hp =>
    cases hb : t.baseline with
    | none => rfl
    | some b =>
      obtain ⟨rfl, hmem⟩ := (h.baseline b).1 hb
      exact absurd hmem hp

theorem Valid.pins (h : t.Valid) {views : List View}
    (hh : ∀ v id, t.Holds v id ↔ ∃ u ∈ views, u.version = v ∧ u.id = id) : t.Pins views where
  sorted := h.sorted
  inhabited m hm := ⟨h.inhabited m hm, (h.ascending m hm).imp fun hlt e => by
    rw [e] at hlt
    exact Nat.lt_irrefl _ hlt⟩
  snapshots m hm id := by
    rw [← hh]
    constructor
    · exact fun hid => ⟨m, hm, rfl, hid⟩
    · rintro ⟨n, hn, hv, hid⟩
      rwa [← h.marker_unique hn hm hv]
  marked v hv := by
    obtain ⟨m, hm, hmv, _⟩ := (hh v.version v.id).2 ⟨v, hv, rfl, rfl⟩
    exact ⟨m, hm, hmv⟩
  baseline := h.baseline_eq
  le := h.le

end Timeline

namespace World

variable {α ρ : Type} {c : Config} {w u : World α} {l : List (Handle × α)}

theorem Coherent.timeline_pins (hw : w.Coherent l) :
    w.store.timeline.Pins (w.held.map (·.view)) := by
  refine hw.live.stamped.timeline.pins fun v id => ?_
  rw [hw.holds]
  constructor
  · rintro ⟨h, hh, hv⟩
    exact ⟨h.view, List.mem_map_of_mem hh, hv⟩
  · rintro ⟨_, hu, hv⟩
    obtain ⟨h, hh, rfl⟩ := List.mem_map.1 hu
    exact ⟨h, hh, hv⟩

/-- Snapshots are numbered in the order in which they are opened. -/
theorem Coherent.numbered (hw : w.Coherent l) {m : Mutation α ρ} (hp : w.Permits m)
    (hv : (w.after m).store.timeline.modification < .max) (hm : m.disposes = false) :
    w.store.snapshotsOpened ≤ (w.after m).store.snapshotsOpened ∧
      ∀ g ∈ (w.after m).held, g ∈ w.held ∨ w.store.snapshotsOpened < g.view.id.val := by
  have hout := hw.after_outcome hp hv hm
  have hopened : ∀ {v : View} {cs : List (Handle × α)},
      Mutation.Opens w.store (w.after m).store v cs →
      (w.after m).held = ⟨v, cs⟩ :: w.held →
      w.store.snapshotsOpened ≤ (w.after m).store.snapshotsOpened ∧
        ∀ g ∈ (w.after m).held, g ∈ w.held ∨ w.store.snapshotsOpened < g.view.id.val := by
    intro v cs ho hheld
    refine ⟨by rw [ho.opened]; exact Nat.le_succ _, fun g hg => ?_⟩
    rw [hheld] at hg
    rcases List.mem_cons.1 hg with rfl | hg
    · exact Or.inr (by rw [ho.id]; exact Nat.lt_succ_self _)
    · exact Or.inl hg
  cases m with
  | openSnapshot =>
    obtain ⟨_, _, ⟨v, hr, _⟩, _⟩ := hw.opens rfl hout
    refine hopened (hout.pins v hr) ?_
    rw [World.after, hr, ← hw.live.entries]
    rfl
  | openPolled limit =>
    obtain ⟨_, _, ⟨v, hr, _⟩, _⟩ := hw.opens rfl hout
    refine hopened (hout.pins v hr) ?_
    rw [World.after, hr, ← hw.live.entries]
    rfl
  | closeSnapshot id v =>
    obtain ⟨_, _, ⟨p, hr⟩, _⟩ := hw.opens rfl hout
    refine ⟨Nat.le_of_eq hout.pins.1.symm, fun g hg => Or.inl ?_⟩
    rw [World.after, hr] at hg
    exact (List.mem_filter.1 hg).1
  | dispose => cases hm
  | _ => exact ⟨Nat.le_of_eq hout.pins.1.symm, fun g hg => Or.inl hg⟩

theorem Stretch.numbered {P : ∀ {ρ : Type}, World α → Mutation α ρ → Prop} (h : Stretch P w u)
    (hw : Reached c w) (ho : u.store.disposed = false) :
    w.store.snapshotsOpened ≤ u.store.snapshotsOpened ∧
      ∀ g ∈ u.held, g ∈ w.held ∨ w.store.snapshotsOpened < g.view.id.val := by
  induction h with
  | refl => exact ⟨Nat.le_refl _, fun g hg => Or.inl hg⟩
  | @change _ _ u m hs hp hv _ ih =>
    obtain ⟨hle, hheld⟩ := ih hw (disposed_of_after m ho)
    obtain ⟨l, hl⟩ := (hs.reached hw).coherent (disposed_of_after m ho)
    obtain ⟨hle', hheld'⟩ := hl.numbered hp hv (disposes_eq_false ho)
    refine ⟨Nat.le_trans hle hle', fun g hg => ?_⟩
    rcases hheld' g hg with hg | hg
    · exact hheld g hg
    · exact Or.inr (Nat.lt_of_le_of_lt hle hg)
  | deliver _ ih => exact ih hw ho

theorem Stretch.modification_le {P : ∀ {ρ : Type}, World α → Mutation α ρ → Prop}
    (h : Stretch P w u) : w.store.timeline.modification ≤ u.store.timeline.modification := by
  induction h with
  | refl => exact le_refl _
  | change m _ _ _ _ ih => exact le_trans ih (Edit.below_run m _).modification
  | deliver _ ih => exact ih

theorem Reached.lt_of_closing (hw : Reached c w) (id : SnapshotId) (v : Version) :
    (w.after (.closeSnapshot id v)).store.timeline.modification < .max := by
  have hlt := hw.modification_lt
  cases hd : w.store.disposed with
  | true => rwa [World.after, Mutation.run_of_disposed hd rfl]
  | false =>
    rw [World.after, Mutation.run_snd hd]
    change ((Mutation.base (.closeSnapshot id v : Mutation α Pass) w.store).closeSnapshot
      id v).2.timeline.modification < .max
    rwa [Store.modification_closeSnapshot, Store.timeline_base]

theorem Coherent.holds_closing (hw : w.Coherent l) (hr : Reached c w) {h : Holding α}
    (hh : h ∈ w.held) (v : Version) (id : SnapshotId) :
    (w.after (.closeSnapshot h.view.id h.view.version)).store.timeline.Holds v id ↔
      w.store.timeline.Holds v id ∧ ¬ (v = h.view.version ∧ id = h.view.id) :=
  (hw.after_outcome (m := .closeSnapshot h.view.id h.view.version) ⟨h, hh, rfl, rfl⟩
    (hr.lt_of_closing _ _) rfl).pins.2 v id

/-- Any change at all. -/
def Any {α ρ : Type} (_ : World α) (_ : Mutation α ρ) : Prop := True

/-- The deque of `w` is pinned by the snapshots that are held, and whatever is done to it keeps to
that. -/
structure Pinned (w : World α) : Prop where
  pins : w.store.timeline.Pins (w.held.map (·.view))
  ids : (w.held.map (·.view.id)).Nodup
  /-- The modification version is never taken back. -/
  rises : ∀ {u : World α}, Stretch Any w u →
    w.store.timeline.modification ≤ u.store.timeline.modification
  /-- What a change links or supersedes is stamped ahead of every pin there is by then. -/
  ahead : ∀ {ρ : Type} (m : Mutation α ρ), w.Permits m →
    (w.after m).store.timeline.modification < .max →
    ∀ i, w.store.links.size ≤ i → i < (w.after m).store.links.size →
    ∀ v, v ∈ w.store.timeline.pinned ∨ v ∈ (w.after m).store.timeline.pinned →
      v < ((w.after m).store.links.get i).createdOn
  /-- A snapshot opened later has a later number. -/
  numbered : ∀ {m : Mutation α View} {v : View}, m.IsOpening → (m.run w.store).1 = .ok v →
    (w.after m).store.timeline.modification < .max → ∀ {u : World α}, Stretch Any (w.after m) u →
    ∀ {m' : Mutation α View} {v' : View}, m'.IsOpening → (m'.run u.store).1 = .ok v' →
      (u.after m').store.timeline.modification < .max → v.id.val < v'.id.val
  /-- Closing a snapshot takes its hold and no other, and it is not held again. -/
  closes : ∀ h ∈ w.held,
    (∀ v id, (w.after (.closeSnapshot h.view.id h.view.version)).store.timeline.Holds v id ↔
      w.store.timeline.Holds v id ∧ ¬ (v = h.view.version ∧ id = h.view.id)) ∧
    ∀ {u : World α}, Stretch Any (w.after (.closeSnapshot h.view.id h.view.version)) u →
      u.store.disposed = false → ∀ v, ¬ u.store.timeline.Holds v h.view.id

theorem Coherent.id_of_opening (hw : w.Coherent l) {m : Mutation α View} {v : View}
    (hm : m.IsOpening) (hr : (m.run w.store).1 = .ok v)
    (hv : (w.after m).store.timeline.modification < .max) :
    v.id.val = w.store.snapshotsOpened + 1 ∧
      (w.after m).store.snapshotsOpened = w.store.snapshotsOpened + 1 := by
  rcases hm with rfl | ⟨limit, rfl⟩
  · have ho := (hw.after_outcome (m := .openSnapshot) trivial hv rfl).pins v hr
    exact ⟨congrArg SnapshotId.val ho.id, ho.opened⟩
  · have ho := (hw.after_outcome (m := .openPolled limit) trivial hv rfl).pins v hr
    exact ⟨congrArg SnapshotId.val ho.id, ho.opened⟩

theorem Reached.pinned (hr : Reached c w) (ho : w.store.disposed = false) : w.Pinned := by
  obtain ⟨l, hw⟩ := hr.coherent ho
  refine ⟨hw.timeline_pins, hw.ids, fun hs => hs.modification_le,
    fun m hp hv i hi hlt v hpin => hw.ahead hp hv hi hlt hpin, ?_, fun h hh => ⟨?_, ?_⟩⟩
  · intro m v hm hv hlt u hs m' v' hm' hv' hlt'
    have hr' : Reached c (w.after m) :=
      hr.change m (by rcases hm with rfl | ⟨_, rfl⟩ <;> trivial) hlt
    have hd := disposed_of_opening hm' hv'
    obtain ⟨k, hk⟩ := (hs.reached hr').coherent hd
    obtain ⟨hid, hopened⟩ := hw.id_of_opening hm hv hlt
    obtain ⟨hid', _⟩ := hk.id_of_opening hm' hv' hlt'
    have hle := (hs.numbered hr' hd).1
    omega
  · exact hw.holds_closing hr hh
  · intro u hs hu v hheld
    have hp : w.Permits (.closeSnapshot h.view.id h.view.version : Mutation α Pass) :=
      ⟨h, hh, rfl, rfl⟩
    have hlt := hr.lt_of_closing h.view.id h.view.version
    have hr' := hr.change _ hp hlt
    obtain ⟨k, hk⟩ := (hs.reached hr').coherent hu
    obtain ⟨g, hg, _, hid⟩ := (hk.holds v h.view.id).1 hheld
    have hout := hw.after_outcome hp hlt rfl
    rcases (hs.numbered hr' hu).2 g hg with hg | hg
    · obtain ⟨_, _, ⟨p, hres⟩, _⟩ := hw.opens rfl hout
      rw [World.after, hres] at hg
      exact of_decide_eq_true (List.mem_filter.1 hg).2 hid
    · have hle := hw.opened h hh
      have hsame := hout.pins.1
      rw [hid] at hg
      omega

end World

namespace Session

variable {c : Config} {m : Mode} {due : Due} {s t : Session} {k : Nat} {snapshot : Snapshot}

/-! ## Snapshots that are given up -/

/-- The snapshot in place `k` is closed or dropped. -/
def Ended (s : Session) (k : Nat) : Prop :=
  k < s.snapshots.size ∧ ∀ e, s.held? k = some e → e.snapshot.closed = true

theorem Keeps.ended (h : s.Keeps t) (he : s.Ended k) : t.Ended k := by
  refine ⟨Nat.lt_of_lt_of_le he.1 h.places, fun e hte => ?_⟩
  obtain ⟨f, hf, _, hc⟩ := h.held k he.1 e hte
  exact hc (he.2 f hf)

theorem Ended.congr (h : s.Ended k) (ht : t.snapshots = s.snapshots) : t.Ended k := by
  unfold Ended held? at *
  rwa [ht]

/-- No move gives a snapshot back that was given up. -/
theorem Move.ended {x y : Due × Session} (h : Move x y) (he : x.2.Ended k) : y.2.Ended k := by
  cases h with
  | post =>
    refine he.congr ?_
    dsimp only
    unfold Session.post
    split <;> rfl
  | keep hk => exact hk.ended he
  | skip _ => exact he
  | _ => exact he.congr rfl

theorem Moves.ended {x y : Due × Session} (h : Moves x y) (he : x.2.Ended k) : y.2.Ended k :=
  h.preserves (P := fun z => z.2.Ended k) Move.ended he

/-- The session with the snapshot in place `k` on its way to be closed. -/
def closing (s : Session) (k : Nat) : Session :=
  s.setEntry k fun e => { e with snapshot := { e.snapshot with closed := true }, closing := true }

theorem close_of_claim (h : s.claim k true = .ok snapshot) :
    s.close m k =
      if snapshot.closed then (.pass {}, s)
      else
        let x := (s.closing k).change m (.closeSnapshot snapshot.view.id snapshot.view.version)
        (.pass (match x.1 with | .ok p => p | .error _ => {}),
          x.2.setEntry k fun e => { e with closing := false }) := by
  unfold close
  rw [h]
  rfl

theorem drop_of_claim (h : s.claim k true = .ok snapshot) :
    s.drop m k =
      if snapshot.closed then (.done, s.without k)
      else (.done, ((s.without k).change m
        (.closeSnapshot snapshot.view.id snapshot.view.version)).2) := by
  unfold drop
  rw [h]
  rfl

variable {held : List (Holding Element)}

/-- What the deque of a session is left with when a snapshot gives up its hold, and nobody reacts to
what is disposed of with it. -/
theorem holds_change_closing (hr : World.Reached c { store := s.store, held })
    (ho : s.store.disposed = false) (hm : m.Still t) (ht : t.store = s.store)
    {h : Holding Element} (hh : h ∈ held) (v : Version) (id : SnapshotId) :
    (t.change m (.closeSnapshot h.view.id h.view.version)).2.store.timeline.Holds v id ↔
      s.store.timeline.Holds v id ∧ ¬ (v = h.view.version ∧ id = h.view.id) := by
  obtain ⟨l, hw⟩ := hr.coherent ho
  rw [← hw.holds_closing hr hh v id]
  rcases (store_change hm (.closeSnapshot h.view.id h.view.version)).1 with he | he
  · rw [he, ht]
    exact Iff.rfl
  · rw [he, ht]
    exact Iff.rfl

theorem holds_closing (hr : World.Reached c { store := s.store, held })
    (ho : s.store.disposed = false) (hm : m.Still s) (hcl : s.claim k true = .ok snapshot)
    (hc : snapshot.closed = false) {h : Holding Element} (hh : h ∈ held)
    (hv : h.view = snapshot.view) (v : Version) (id : SnapshotId) :
    ((s.close m k).2.store.timeline.Holds v id ↔
      s.store.timeline.Holds v id ∧ ¬ (v = h.view.version ∧ id = h.view.id)) ∧
    ((s.drop m k).2.store.timeline.Holds v id ↔
      s.store.timeline.Holds v id ∧ ¬ (v = h.view.version ∧ id = h.view.id)) := by
  have hne : ¬ snapshot.closed = true := by rw [hc]; exact Bool.false_ne_true
  rw [close_of_claim hcl, drop_of_claim hcl, if_neg hne, if_neg hne, ← hv]
  exact ⟨holds_change_closing (t := s.closing k) hr ho (hm.congr rfl) rfl hh v id,
    holds_change_closing (t := s.without k) hr ho (hm.congr rfl) rfl hh v id⟩

end Session

namespace Session

end Session

end SnapshotDeque
