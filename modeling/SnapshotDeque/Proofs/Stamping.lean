import SnapshotDeque.Proofs.World

/-!
Links are stamped ahead of all pins. A change that links or supersedes anything mints its stamp
first, so a link that it makes is no older than what would have been minted at its start; and that
is ahead of every version that was pinned by then.
-/

namespace SnapshotDeque

namespace Timeline

/-- What was minted is minted again until a snapshot is opened. -/
theorem advance_advance (t : Timeline) : t.advance.2.advance = t.advance := by
  unfold advance
  cases hb : t.baseline with
  | none => simp [hb]
  | some b =>
    by_cases hle : t.modification ≤ b
    · simp [hle]
    · simp [hle, hb]

theorem advance_le_pin (t : Timeline) (id : SnapshotId) :
    t.advance.1 ≤ (t.pin id).2.advance.1 := by
  cases hb : t.baseline with
  | none =>
    rw [advance_of_none hb]
    have hle := (t.pin id).2.modification_le_advance
    rw [advance_fst]
    exact hle
  | some b =>
    simp only [advance, pin, hb, Option.getD_some]
    split <;> exact le_refl _

end Timeline

namespace Store

variable {α ρ : Type} {s t : Store α} {w : Version}

/-- If no stamp before `w` can be minted in `s`, then none can in `t`, and what was linked in
between is stamped `w` or later. -/
def Stamps (w : Version) (s t : Store α) : Prop :=
  w ≤ s.timeline.advance.1 → w ≤ t.timeline.advance.1 ∧ s.links.size ≤ t.links.size ∧
    (∀ i, i < s.links.size → (t.links.get i).createdOn = (s.links.get i).createdOn) ∧
    ∀ i, s.links.size ≤ i → i < t.links.size → w ≤ (t.links.get i).createdOn

theorem Stamps.refl (w : Version) (s : Store α) : Stamps w s s :=
  fun hw => ⟨hw, Nat.le_refl _, fun _ _ => rfl, fun _ hi hlt => absurd hlt (Nat.not_lt.2 hi)⟩

theorem Stamps.trans {u : Store α} (h : Stamps w s t) (h' : Stamps w t u) : Stamps w s u := by
  intro hw
  obtain ⟨ht, hle, hkeep, hnew⟩ := h hw
  obtain ⟨hu, hle', hkeep', hnew'⟩ := h' ht
  refine ⟨hu, Nat.le_trans hle hle', fun i hi => ?_, fun i hi hlt => ?_⟩
  · exact (hkeep' i (Nat.lt_of_lt_of_le hi hle)).trans (hkeep i hi)
  · rcases Nat.lt_or_ge i t.links.size with hit | hit
    · rw [hkeep' i hit]
      exact hnew i hi hit
    · exact hnew' i hit hlt

theorem Stamps.of_links (ht : w ≤ s.timeline.advance.1 → w ≤ t.timeline.advance.1)
    (hs : t.links.size = s.links.size)
    (hc : ∀ i, (t.links.get i).createdOn = (s.links.get i).createdOn) : Stamps w s t :=
  fun hw => ⟨ht hw, Nat.le_of_eq hs.symm, fun i _ => hc i, fun _ hi hlt =>
    absurd (hs ▸ hlt) (Nat.not_lt.2 hi)⟩

theorem Stamps.lawful (w : Version) : Edit.Lawful (Stamps w (α := α)) fun v => w ≤ v where
  refl := .refl w
  trans := .trans
  other hl ht _ := .of_links (fun hw => by rw [ht]; exact hw) (by rw [hl]) fun _ => by rw [hl]
  links hs hc := .of_links id hs hc
  grow {s l} hv hs hc hw := by
    refine ⟨hw, hs ▸ Nat.le_succ _, hc, fun i hi hlt => ?_⟩
    obtain rfl : i = s.links.size := by
      have : i < l.size := hlt
      omega
    exact hv
  mint {s t} h hw := by
    refine h hw ?_
    rw [show s.timeline.advance.2.advance.1 = s.timeline.advance.1 by
      rw [Timeline.advance_advance]]
    exact hw
  pin s id := .of_links (fun hw => le_trans hw (s.timeline.advance_le_pin id)) rfl fun _ => rfl

/-- The number of links is a matter of linking and superseding alone. -/
theorem regular_size : Edit.Regular fun s t : Store α => t.links.size = s.links.size where
  refl _ := rfl
  trans h h' := h'.trans h
  other hl _ _ := by rw [hl]
  links hs _ := hs

theorem size_closeSnapshot (s : Store α) (id : SnapshotId) (v : Version) :
    (s.closeSnapshot id v).2.links.size = s.links.size := by
  unfold closeSnapshot
  split
  next wasLast timeline _ =>
  cases wasLast with
  | true => exact regular_size.reclaim { s with timeline } s.config.reclaimBatch
  | false => rfl

theorem size_base (m : Mutation α ρ) (s : Store α) : (m.base s).links.size = s.links.size := by
  unfold Mutation.base
  split
  · exact regular_size.reclaimPending s
  · rfl

theorem size_dispose (s : Store α) : s.dispose.links.size = s.links.size := by
  have hfold : ∀ (is : List Nat) (l : LinkTable α),
      (is.foldl (fun t i => t.modify i Link.release) l).size = l.size := by
    intro is
    induction is with
    | nil => exact fun l => rfl
    | cons i is ih => exact fun l => (ih _).trans (LinkTable.size_modify ..)
  exact (LinkTable.size_modify ..).trans (hfold _ _)

/-- What a change links is stamped no earlier than what would be minted at its start. -/
theorem createdOn_run (m : Mutation α ρ) (ho : s.disposed = false) {i : Nat}
    (hi : s.links.size ≤ i) (hlt : i < (m.run s).2.links.size) :
    s.timeline.advance.1 ≤ ((m.run s).2.links.get i).createdOn := by
  have hobeys : Edit.Obeys (Stamps s.timeline.advance.1) m.effect →
      s.timeline.advance.1 ≤ ((m.run s).2.links.get i).createdOn := by
    intro hx
    have hnew := hx (m.base s) (by rw [timeline_base])
    rw [← Mutation.run_snd ho, size_base] at hnew
    exact hnew.2.2.2 i hi hlt
  have hsame : (m.effect.after (m.base s)).links.size = (m.base s).links.size →
      s.timeline.advance.1 ≤ ((m.run s).2.links.get i).createdOn := by
    intro he
    rw [Mutation.run_snd ho, he, size_base] at hlt
    exact absurd hlt (Nat.not_lt.2 hi)
  have hl := Stamps.lawful (α := α) s.timeline.advance.1
  cases hm : m.reclaimsFirst with
  | false =>
    cases m with
    | dispose => exact hsame (size_dispose _)
    | observe on => exact hsame rfl
    | _ => cases hm
  | true =>
    cases hc : m.closes with
    | false => exact hobeys (hl.of_effect hm fun h => by simp [hc] at h)
    | true =>
      cases m with
      | closeSnapshot id v => exact hsame (size_closeSnapshot _ id v)
      | _ => cases hc

/-- What a snapshot that takes nodes out links and supersedes is stamped ahead of the snapshot. -/
theorem createdOn_openPolled {l : List (Handle × α)} (h : s.Live l) (limit : Option Nat) {i : Nat}
    (hi : s.links.size ≤ i)
    (hlt : i < ((.openPolled limit : Mutation α View).run s).2.links.size) :
    s.timeline.modification.next ≤
      (((.openPolled limit : Mutation α View).run s).2.links.get i).createdOn := by
  have hb := h.base (.openPolled limit : Mutation α View)
  rw [Mutation.run_snd h.open_] at hlt ⊢
  rw [← timeline_base (.openPolled limit : Mutation α View) s]
  rw [← size_base (.openPolled limit : Mutation α View) s] at hi
  generalize Mutation.base (.openPolled limit : Mutation α View) s = u at hb hi hlt ⊢
  obtain ⟨w, hw, _⟩ := returns_openSnapshot hb
  have hafter : (Edit.openPolled limit).after u =
      (Edit.take ((limit.map (min · w.size)).getD w.size) w).after u.opened := hw.after_bind _
  change i < ((Edit.openPolled limit).after u).links.size at hlt
  change _ ≤ (((Edit.openPolled limit).after u).links.get i).createdOn
  rw [hafter] at hlt ⊢
  have hnext : u.timeline.modification.next ≤ u.opened.timeline.advance.1 := by
    have hpin := hb.stamped.timeline.pin_fst ⟨u.snapshotsOpened + 1⟩
    change _ ≤ (u.timeline.pin ⟨u.snapshotsOpened + 1⟩).2.advance.1
    rw [Timeline.advance_of_some (by exact congrArg some hpin)]
    exact le_refl _
  have hl := Stamps.lawful (α := α) u.timeline.modification.next
  have hobeys : Edit.Obeys (Stamps u.timeline.modification.next)
      (Edit.take ((limit.map (min · w.size)).getD w.size) w : Edit α View) := by
    unfold Edit.take
    split
    · exact hl.of_pure _
    · refine hl.of_built (k := .going) (.mint fun v hv => ?_)
      unfold Edit.takeAt
      split
      · exact .bind (.unlinkEverything hv) fun _ => .pure _
      · exact .bind (.unlinkSeen _ hv _ _) fun _ => .pure _
  exact (hobeys u.opened hnext).2.2.2 i hi hlt

end Store

namespace World

variable {α ρ : Type} {w : World α} {l : List (Handle × α)}

/-- What a change links or supersedes is stamped ahead of all that is pinned before it or after
it. -/
theorem Coherent.ahead (hw : w.Coherent l) {m : Mutation α ρ} (hp : w.Permits m)
    (hv : (w.after m).store.timeline.modification < .max) {i : Nat}
    (hi : w.store.links.size ≤ i) (hlt : i < (w.after m).store.links.size) {v : Version}
    (hpin : v ∈ w.store.timeline.pinned ∨ v ∈ (w.after m).store.timeline.pinned) :
    v < ((w.after m).store.links.get i).createdOn := by
  have hm : m.disposes = false := by
    cases m with
    | dispose =>
      rw [World.after, Mutation.run_snd hw.live.open_] at hlt
      exact absurd (Store.size_dispose w.store ▸ hlt) (Nat.not_lt.2 hi)
    | _ => rfl
  obtain ⟨l', hw'⟩ := hw.after hp hv hm
  have hmax := lt_of_le_of_lt (hw'.live.stamped.createdOn_le hlt) hv
  have hadv := Store.createdOn_run m hw.live.open_ hi hlt
  have hold : ∀ u ∈ w.store.timeline.pinned, u < ((w.after m).store.links.get i).createdOn := by
    intro u hu
    obtain ⟨_, _, hlt⟩ := hw.live.stamped.timeline.advance
      (lt_of_le_of_lt w.store.timeline.modification_le_advance
        (w.store.timeline.advance_fst ▸ lt_of_le_of_lt hadv hmax))
    exact lt_of_lt_of_le (hlt u (by rw [Timeline.advance_pinned]; exact hu)) hadv
  rcases hpin with hpin | hpin
  · exact hold v hpin
  have hout := hw.after_outcome hp hv hm
  have hsame : (w.after m).store.timeline.markers = w.store.timeline.markers →
      v < ((w.after m).store.links.get i).createdOn := fun he =>
    hold v (by rw [Timeline.pinned, ← he]; exact hpin)
  have hnone : (w.after m).store.links.size = w.store.links.size →
      v < ((w.after m).store.links.get i).createdOn := fun he =>
    absurd (he ▸ hlt) (Nat.not_lt.2 hi)
  cases m with
  | openSnapshot =>
    obtain ⟨_, hr, _⟩ := Store.returns_openSnapshot (hw.live.base (.openSnapshot : Mutation α View))
    refine hnone ?_
    rw [World.after, Mutation.run_of_returns (m := .openSnapshot) hw.live.open_ hr]
    exact Store.size_base (.openSnapshot : Mutation α View) w.store
  | openPolled limit =>
    have hnext := Store.createdOn_openPolled hw.live limit hi hlt
    have hmod : w.store.timeline.modification < .max :=
      lt_of_le_of_lt (Edit.below_run (.openPolled limit) w.store).modification hv
    obtain ⟨_, _, ⟨r, hr, _⟩, _⟩ := hw.opens rfl hout
    obtain ⟨id, hid⟩ := hw'.live.stamped.timeline.exists_holds hpin
    rcases ((hout.pins r hr).holds v id).1 hid with hid | ⟨rfl, _⟩
    · exact hold v hid.mem_pinned
    · rw [hw.live.version_of_opening (Or.inr ⟨limit, rfl⟩) hv hr]
      exact lt_of_lt_of_le (Version.lt_next hmod) hnext
  | closeSnapshot id u =>
    refine hnone ?_
    rw [World.after, Mutation.run_snd hw.live.open_]
    exact (Store.size_closeSnapshot _ id u).trans
      (Store.size_base (.closeSnapshot id u : Mutation α Pass) w.store)
  | dispose => cases hm
  | _ => exact hsame hout.pins.2

end World

end SnapshotDeque
