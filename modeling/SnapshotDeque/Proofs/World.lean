import SnapshotDeque.Proofs.Init
import SnapshotDeque.Proofs.Outcome
import SnapshotDeque.Proofs.Reading

/-!
A deque together with the snapshots that are held of it. Changes come in any order, events are
handed on in between, and a snapshot can be closed once, by whoever holds it. Main statement: as
long as the deque is not disposed of, it holds some list, and every held snapshot shows what the
deque held when the snapshot was opened.
-/

namespace SnapshotDeque

/-- A snapshot that is held, and what it was opened on. -/
structure Holding (α : Type) where
  view : View
  contents : List (Handle × α)

structure World (α : Type) where
  store : Store α
  held : List (Holding α) := []

namespace World

variable {α ρ : Type}

/-- The snapshots that are held after a change with the given answer. Disposal ends them all. -/
def holdings (w : World α) : Mutation α ρ → Except Error ρ → List (Holding α)
  | .openSnapshot, .ok v => ⟨v, w.store.entries⟩ :: w.held
  | .openPolled limit, .ok v =>
    ⟨v, w.store.entries.take (Store.taken limit w.store.entries.length)⟩ :: w.held
  | .closeSnapshot id _, .ok _ => w.held.filter (·.view.id ≠ id)
  | .dispose, .ok _ => []
  | _, _ => w.held

def after (w : World α) (m : Mutation α ρ) : World α :=
  { store := (m.run w.store).2, held := w.holdings m (m.run w.store).1 }

/-- The recorded events are handed on. -/
def delivered (w : World α) : World α := { w with store := { w.store with events := [] } }

/-- Only a snapshot that is held can be closed. -/
def Permits (w : World α) : Mutation α ρ → Prop
  | .closeSnapshot id v => ∃ h ∈ w.held, h.view.version = v ∧ h.view.id = id
  | _ => True

/-- The worlds that a deque with an accepted configuration can come to, with modification versions
below the last one. -/
inductive Reached (c : Config) : World α → Prop
  | init : c.validate = .ok () → Reached c { store := .init c }
  | change {ρ : Type} {w : World α} (m : Mutation α ρ) : Reached c w → w.Permits m →
    (w.after m).store.timeline.modification < .max → Reached c (w.after m)
  | deliver {w : World α} : Reached c w → Reached c w.delivered

theorem saves_delivered (w : World α) (v : Version) : Store.Saves w.store w.delivered.store v :=
  ⟨.refl _, fun _ hs => .refl hs, fun _ _ hr => hr, fun {_ n} _ _ _ hn => ⟨n, hn, rfl⟩⟩

/-- The deque of `w` holds `l`, and the held snapshots are just the open ones. -/
structure Coherent (w : World α) (l : List (Handle × α)) : Prop where
  live : w.store.Live l
  displays : ∀ h ∈ w.held, ∃ ps, w.store.Displays h.view ps ∧ w.store.named ps = h.contents
  holds : ∀ v id, w.store.timeline.Holds v id ↔
    ∃ h ∈ w.held, h.view.version = v ∧ h.view.id = id
  ids : (w.held.map (·.view.id)).Nodup
  opened : ∀ h ∈ w.held, h.view.id.val ≤ w.store.snapshotsOpened

namespace Coherent

variable {w : World α} {l : List (Handle × α)} (hw : w.Coherent l) {t : Store α}

include hw

theorem pinned {h : Holding α} (hh : h ∈ w.held) : h.view.version ∈ w.store.timeline.pinned :=
  ((hw.holds _ _).2 ⟨h, hh, rfl, rfl⟩).mem_pinned

/-- What a snapshot shows that is held before and after a change. -/
theorem displays_of_saves {h : Holding α} (hh : h ∈ w.held)
    (hs : Store.Saves w.store t h.view.version) :
    ∃ ps, t.Displays h.view ps ∧ t.named ps = h.contents := by
  obtain ⟨ps, hd, hn⟩ := hw.displays h hh
  exact ⟨ps, hd.saves hs, (hs.named hd.row).trans hn⟩

/-- A snapshot shows what the deque held when it was opened, from the front and from the back. -/
theorem nodes {h : Holding α} (hh : h ∈ w.held) :
    ({ view := h.view } : Snapshot).nodes w.store = .ok h.contents ∧
      ({ view := h.view } : Snapshot).nodesReversed w.store = .ok h.contents.reverse := by
  obtain ⟨ps, hd, hn⟩ := hw.displays h hh
  rw [← hn]
  exact hd.nodes hw.live.sound.chained hw.live.open_

/-- The snapshots held after a change are those held before it or shown by the change. -/
theorem transfer {l' : List (Handle × α)} {held : List (Holding α)} (hl : t.Live l')
    (hs : ∀ {v}, v ∈ w.store.timeline.pinned → v ∈ t.timeline.pinned → Store.Saves w.store t v)
    (hd : ∀ h ∈ held, h ∈ w.held ∨ ∃ ps, t.Displays h.view ps ∧ t.named ps = h.contents)
    (hh : ∀ v id, t.timeline.Holds v id ↔ ∃ h ∈ held, h.view.version = v ∧ h.view.id = id)
    (hids : (held.map (·.view.id)).Nodup) (ho : ∀ h ∈ held, h.view.id.val ≤ t.snapshotsOpened) :
    Coherent { store := t, held } l' where
  live := hl
  displays h hmem := by
    rcases hd h hmem with hold | hnew
    · exact hw.displays_of_saves hold
        (hs (hw.pinned hold) ((hh _ _).2 ⟨h, hmem, rfl, rfl⟩).mem_pinned)
    · exact hnew
  holds := hh
  ids := hids
  opened := ho

theorem transfer_opened {l' c : List (Handle × α)} {v : View} (hl : t.Live l')
    (hs : ∀ {v}, v ∈ w.store.timeline.pinned → v ∈ t.timeline.pinned → Store.Saves w.store t v)
    (ho : Mutation.Opens w.store t v c) :
    Coherent { store := t, held := ⟨v, c⟩ :: w.held } l' := by
  refine hw.transfer hl hs (fun h hh => ?_) (fun u j => ?_) ?_ fun h hh => ?_
  · rcases List.mem_cons.1 hh with rfl | hh
    · exact Or.inr ho.displays
    · exact Or.inl hh
  · rw [ho.holds, hw.holds]
    constructor
    · rintro (⟨h, hh, hv⟩ | ⟨rfl, rfl⟩)
      · exact ⟨h, List.mem_cons_of_mem _ hh, hv⟩
      · exact ⟨⟨v, c⟩, List.mem_cons_self .., rfl, rfl⟩
    · rintro ⟨h, hh, hv⟩
      rcases List.mem_cons.1 hh with rfl | hh
      · exact Or.inr ⟨hv.1.symm, hv.2.symm⟩
      · exact Or.inl ⟨h, hh, hv⟩
  · rw [List.map_cons, List.nodup_cons]
    refine ⟨fun hm => ?_, hw.ids⟩
    obtain ⟨h, hh, he⟩ := List.mem_map.1 hm
    have hle := hw.opened h hh
    rw [he, ho.id] at hle
    exact Nat.not_succ_le_self _ hle
  · rw [ho.opened]
    rcases List.mem_cons.1 hh with rfl | hh
    · exact Nat.le_of_eq (congrArg SnapshotId.val ho.id)
    · exact Nat.le_succ_of_le (hw.opened h hh)

theorem transfer_closed {l' : List (Handle × α)} {id : SnapshotId} {v : Version} (hl : t.Live l')
    (hs : ∀ {v}, v ∈ w.store.timeline.pinned → v ∈ t.timeline.pinned → Store.Saves w.store t v)
    (hid : ∃ h ∈ w.held, h.view.version = v ∧ h.view.id = id)
    (ho : t.snapshotsOpened = w.store.snapshotsOpened)
    (hh : ∀ u j, t.timeline.Holds u j ↔ w.store.timeline.Holds u j ∧ ¬ (u = v ∧ j = id)) :
    Coherent { store := t, held := w.held.filter (·.view.id ≠ id) } l' := by
  have hsub : (w.held.filter (·.view.id ≠ id)).Sublist w.held := List.filter_sublist
  refine hw.transfer hl hs (fun h hm => Or.inl (hsub.subset hm)) (fun u j => ?_)
    (hw.ids.sublist (hsub.map _)) fun h hm => ?_
  · rw [hh, hw.holds]
    constructor
    · rintro ⟨⟨h, hm, hu, hj⟩, hne⟩
      refine ⟨h, List.mem_filter.2 ⟨hm, decide_eq_true fun e => hne ?_⟩, hu, hj⟩
      obtain ⟨g, hg, hgv, hgi⟩ := hid
      obtain rfl : h = g := List.inj_on_of_nodup_map hw.ids hm hg (e.trans hgi.symm)
      exact ⟨hu.symm.trans hgv, hj.symm.trans e⟩
    · rintro ⟨h, hm, hu, hj⟩
      obtain ⟨hm, hne⟩ := List.mem_filter.1 hm
      exact ⟨⟨h, hm, hu, hj⟩, fun e => of_decide_eq_true hne (hj.trans e.2)⟩
  · rw [ho]
    exact hw.opened h (hsub.subset hm)

theorem transfer_kept {l' : List (Handle × α)} (hl : t.Live l')
    (hs : ∀ {v}, v ∈ w.store.timeline.pinned → v ∈ t.timeline.pinned → Store.Saves w.store t v)
    (ho : t.snapshotsOpened = w.store.snapshotsOpened ∧
      t.timeline.markers = w.store.timeline.markers) :
    Coherent { store := t, held := w.held } l' := by
  refine hw.transfer hl hs (fun h hm => Or.inl hm) (fun u j => ?_) hw.ids fun h hm => ?_
  · rw [Timeline.Holds, ho.2]
    exact hw.holds u j
  · rw [ho.1]
    exact hw.opened h hm

theorem permits {m : Mutation α ρ} (hp : w.Permits m) : m.Permits w.store := by
  cases m with
  | closeSnapshot id v => exact (hw.holds v id).2 hp
  | _ => trivial

/-- A snapshot is opened, since no slot is needed for that. -/
theorem opens {m : Mutation α ρ} {r : Except Error ρ} (hm : m.additional = 0)
    (ho : m.Outcome w.store l r t) : ∃ l', t.Live l' ∧ m.Acts w.store.capacity
      (fun x => w.store.reclaimPending.arena.get? x = none) l r l' := by
  obtain ⟨l', hl, ha | ⟨_, hf, _⟩⟩ := ho.acts
  · exact ⟨l', hl, ha⟩
  · exact absurd (hw.live.fits hm) hf

theorem after_outcome {m : Mutation α ρ} (hp : w.Permits m)
    (hv : (w.after m).store.timeline.modification < .max) (hm : m.disposes = false) :
    m.Outcome w.store l (m.run w.store).1 (w.after m).store :=
  Store.outcome_run hw.live rfl (hw.permits hp) hm hv

theorem after {m : Mutation α ρ} (hp : w.Permits m)
    (hv : (w.after m).store.timeline.modification < .max) (hm : m.disposes = false) :
    ∃ l', (w.after m).Coherent l' := by
  have hout := hw.after_outcome hp hv hm
  have hl := hw.live.entries
  cases m with
  | openSnapshot =>
    obtain ⟨l', hl', ⟨v, hr, _⟩, _⟩ := hw.opens rfl hout
    refine ⟨l', ?_⟩
    have := hw.transfer_opened hl' hout.saves (hout.pins v hr)
    rw [World.after, hr, holdings, hl]
    exact this
  | openPolled limit =>
    obtain ⟨l', hl', ⟨v, hr, _⟩, _⟩ := hw.opens rfl hout
    refine ⟨l', ?_⟩
    have := hw.transfer_opened hl' hout.saves (hout.pins v hr)
    rw [World.after, hr, holdings, hl]
    exact this
  | closeSnapshot id v =>
    obtain ⟨l', hl', ⟨p, hr⟩, _⟩ := hw.opens rfl hout
    refine ⟨l', ?_⟩
    have := hw.transfer_closed hl' hout.saves hp hout.pins.1 hout.pins.2
    rw [World.after, hr, holdings]
    exact this
  | dispose => cases hm
  | _ =>
    obtain ⟨l', hl', _⟩ := hout.acts
    exact ⟨l', hw.transfer_kept hl' hout.saves hout.pins⟩

theorem disposes_of_held {m : Mutation α ρ} {h : Holding α} (hh : h ∈ (w.after m).held) :
    m.disposes = false := by
  cases m with
  | dispose =>
    obtain ⟨⟨a, ha⟩, _⟩ := Mutation.run_of_disposes (m := .dispose) hw.live.open_ rfl
    rw [World.after, ha] at hh
    cases hh
  | _ => rfl

theorem delivered : w.delivered.Coherent l := by
  refine hw.transfer_kept ?_ (fun _ _ => saves_delivered w _) ⟨rfl, rfl⟩
  exact { hw.live with
    sound := { hw.live.sound with }
    stamped := { hw.live.stamped with }
    ring := { hw.live.ring with }
    counted := { hw.live.counted with } }

end Coherent

theorem coherent_init (c : Config) : Coherent { store := (.init c : Store α) } [] where
  live := Store.live_init c
  displays := nofun
  holds _ _ := ⟨nofun, nofun⟩
  ids := List.nodup_nil
  opened := nofun

/-- Disposal is for good. -/
theorem after_disposed {w : World α} (m : Mutation α ρ) (h : w.store.disposed = true) :
    (w.after m).store.disposed = true := by
  cases m with
  | observe on => exact h
  | _ =>
    rw [World.after, Mutation.run_of_disposed h rfl]
    exact h

theorem disposes_eq_false {w : World α} {m : Mutation α ρ}
    (h : (w.after m).store.disposed = false) : m.disposes = false := by
  cases hm : m.disposes with
  | false => rfl
  | true =>
    cases hd : w.store.disposed with
    | true => rw [after_disposed m hd] at h; cases h
    | false => rw [World.after, (Mutation.run_of_disposes hd hm).2] at h; cases h

theorem Reached.coherent {c : Config} {w : World α} (h : Reached c w)
    (ho : w.store.disposed = false) : ∃ l, w.Coherent l := by
  induction h with
  | init _ => exact ⟨[], coherent_init c⟩
  | @change _ w m _ hp hv ih =>
    cases hd : w.store.disposed with
    | true =>
      rw [after_disposed m hd] at ho
      cases ho
    | false =>
      obtain ⟨l, hw⟩ := ih hd
      exact hw.after hp hv (disposes_eq_false ho)
  | deliver _ ih =>
    obtain ⟨l, hw⟩ := ih ho
    exact ⟨l, hw.delivered⟩

theorem after_config {w : World α} (m : Mutation α ρ)
    (hm : m.disposes = true ∨ w.store.disposed = true) :
    (w.after m).store.config = w.store.config := by
  cases hd : w.store.disposed with
  | true =>
    cases m with
    | observe on => rfl
    | _ => rw [World.after, Mutation.run_of_disposed hd rfl]
  | false =>
    rw [hd] at hm
    cases m with
    | dispose =>
      rw [World.after, Mutation.run_of_open hd]
      rfl
    | _ => exact absurd hm (by simp [Mutation.disposes])

theorem Reached.config {c : Config} {w : World α} (h : Reached c w) : w.store.config = c := by
  induction h with
  | init _ => rfl
  | @change _ w m hr hp hv ih =>
    by_cases hm : m.disposes = true ∨ w.store.disposed = true
    · rw [after_config m hm, ih]
    · rw [not_or, Bool.not_eq_true, Bool.not_eq_true] at hm
      obtain ⟨l, hw⟩ := hr.coherent hm.2
      exact (hw.after_outcome hp hv hm.1).config.trans ih
  | deliver _ ih => exact ih

/-- A change acts on the list of linked nodes if the slots suffice for it. -/
theorem Coherent.acts {w : World α} {l : List (Handle × α)} (hw : w.Coherent l)
    {m : Mutation α ρ} (hp : w.Permits m) (hv : (w.after m).store.timeline.modification < .max)
    (hm : m.disposes = false) (hf : m.Fits w.store) :
    m.Acts w.store.capacity (fun x => w.store.reclaimPending.arena.get? x = none) l
      (m.run w.store).1 (w.after m).store.entries := by
  obtain ⟨l', hl, ha | ⟨_, hn, _⟩⟩ := (hw.after_outcome hp hv hm).acts
  · rw [hl.entries]
    exact ha
  · exact absurd hf hn

/-! ## Runs -/

section Runs

variable {c : Config} {w u : World α} {v : View}

/-- A stretch of a run, in which `P` holds of every change where it is made. -/
inductive Stretch (P : ∀ {ρ : Type}, World α → Mutation α ρ → Prop) : World α → World α → Prop
  | refl (w : World α) : Stretch P w w
  | change {ρ : Type} {w u : World α} (m : Mutation α ρ) : Stretch P w u → u.Permits m →
    (u.after m).store.timeline.modification < .max → P u m → Stretch P w (u.after m)
  | deliver {w u : World α} : Stretch P w u → Stretch P w u.delivered

theorem Reached.modification_lt (h : Reached c w) : w.store.timeline.modification < .max := by
  induction h with
  | init _ => exact (by decide : Version.initial < .max)
  | change m _ _ hv _ => exact hv
  | deliver _ ih => exact ih

theorem Stretch.reached {P : ∀ {ρ : Type}, World α → Mutation α ρ → Prop} (h : Stretch P w u)
    (hw : Reached c w) : Reached c u := by
  induction h with
  | refl => exact hw
  | change m _ hp hv _ ih => exact (ih hw).change m hp hv
  | deliver _ ih => exact (ih hw).deliver

theorem disposed_of_after (m : Mutation α ρ) (h : (w.after m).store.disposed = false) :
    w.store.disposed = false := by
  cases hd : w.store.disposed with
  | false => rfl
  | true =>
    rw [after_disposed m hd] at h
    cases h

theorem disposed_of_opening {m : Mutation α View} (hm : m.IsOpening)
    (hr : (m.run w.store).1 = .ok v) : w.store.disposed = false := by
  cases hd : w.store.disposed with
  | false => rfl
  | true =>
    rw [Mutation.run_of_disposed hd (by rcases hm with rfl | ⟨_, rfl⟩ <;> rfl)] at hr
    cases hr

theorem held_of_opening {m : Mutation α View} (hm : m.IsOpening) (hr : (m.run w.store).1 = .ok v) :
    ∃ contents, (w.after m).held = ⟨v, contents⟩ :: w.held := by
  rcases hm with rfl | ⟨limit, rfl⟩
  · exact ⟨_, by rw [World.after, hr]; rfl⟩
  · exact ⟨_, by rw [World.after, hr]; rfl⟩

end Runs

/-- A deque with one node and a snapshot of that. -/
def single : World Nat :=
  (({ store := .init {} } : World Nat).after (.insert 7 .last)).after .openSnapshot

/-- The snapshot that is held in `single`. -/
def onSingle : Holding Nat := ⟨⟨⟨1⟩, .initial, 2, 2, 1⟩, [(⟨2, 0⟩, 7)]⟩

theorem reached_single : Reached {} single := by
  have hr : Reached {} ({ store := .init {} } : World Nat) := .init rfl
  have hi := hr.change (.insert (7 : Nat) .last) trivial (by decide)
  exact hi.change .openSnapshot trivial (by decide)

/-- A deque with a node that a snapshot is open on, and one after it that came later. -/
def double : World Nat := single.after (.insert 8 .last)

theorem reached_double : Reached {} double := reached_single.change _ trivial (by decide)

/-- A deque with a link that was superseded for a snapshot, and with both ends, too. The snapshot is
closed. -/
def outlived : World Nat :=
  let shown : World Nat :=
    (({ store := .init { reclaimBatch := 1 } } : World Nat).after (.insert 1 .last)).after
      .openSnapshot
  (shown.after (.insert 2 .last)).after (.closeSnapshot ⟨1⟩ .initial)

theorem reached_outlived : Reached { reclaimBatch := 1 } outlived := by
  have h0 : Reached { reclaimBatch := 1 }
      ({ store := .init { reclaimBatch := 1 } } : World Nat) := .init (by decide)
  have h1 := h0.change (.insert (1 : Nat) .last) trivial (by decide)
  have h2 := h1.change .openSnapshot trivial (by decide)
  have h3 := h2.change (.insert (2 : Nat) .last) trivial (by decide)
  refine h3.change (.closeSnapshot ⟨1⟩ .initial) ?_ (by decide)
  exact ⟨⟨⟨⟨1⟩, .initial, 2, 2, 1⟩, [(⟨2, 0⟩, 1)]⟩, List.Mem.head _, rfl, rfl⟩

end World

end SnapshotDeque
