import SnapshotDeque.Proofs.Outcome
import SnapshotDeque.Proofs.Telling

/-!
Every change but disposal leaves the store of a deque as one, and what it did can be told. That is
so whatever the change comes to, with whatever stamps and however many versions are left. What holds
along all the steps of changes holds of changes, too.
-/

namespace SnapshotDeque

/-- Which way nodes move in the course of a change, but for those that it disposes. -/
def Mutation.traffic {α ρ : Type} : Mutation α ρ → Traffic
  | insert .. => .coming
  | insertAll .. => .coming
  | _ => .going

namespace Store

variable {α ρ : Type} {s t : Store α} {v : Version} {l : List (Handle × α)}

/-- Whether this is the store of a deque that is not disposed. -/
def Formed (s : Store α) : Prop := ∃ l, s.Shaped l

/-- Whether a change stamped `v` may be under way. -/
def FormedAt (v : Version) (s : Store α) : Prop := s.Formed ∧ s.timeline.modification = v

theorem Shaped.formedAt (h : s.Shaped l) (hh : (Regime.told α v).Holds s []) : s.FormedAt v :=
  ⟨⟨l, h⟩, hh.2⟩

theorem Shaped.holds (h : s.Shaped l) (hv : s.timeline.modification = v) :
    (Regime.told α v).Holds s [] := ⟨h.sound, hv⟩

variable {K : Store α → Store α → Prop}

/-- From `s` to `t`, `P` is not lost, what happened can be told, and `K` holds. -/
def Carries (k : Traffic) (K : Store α → Store α → Prop) (P : Store α → Prop) (s t : Store α) :
    Prop :=
  P s → P t ∧ Told k s t ∧ K s t

section Carrying

variable {k : Traffic} (hK : Along K)

include hK

theorem composes_carries (k : Traffic) (P : Store α → Prop) :
    Edit.Composes (Carries k K P) where
  refl s hs := ⟨hs, .refl s, hK.refl s⟩
  trans h h' hs := ⟨(h' (h hs).1).1, (h hs).2.1.trans (h' (h hs).1).2.1,
    hK.trans (h hs).2.2 (h' (h hs).1).2.2⟩

/-- Where nothing is done. -/
theorem carries_refl (P : Store α → Prop) (s : Store α) : Carries k K P s s :=
  (composes_carries hK k P).refl s

/-! ## Versions -/

omit hK in
/-- Snapshots may be opened and closed and versions moved on, with nothing else to tell. -/
theorem formed_retimed (hs : s.Formed) (tl : Timeline)
    (h : s.timeline.modification ≤ tl.modification) (n : Nat) :
    Formed { s with timeline := tl, snapshotsOpened := n } ∧
      Told k s { s with timeline := tl, snapshotsOpened := n } := by
  obtain ⟨l, hl⟩ := hs
  exact ⟨⟨l, hl.retimed tl n⟩, [], 0, .of_still (.of_eq rfl rfl rfl rfl h) rfl rfl, nofun⟩

/-- Versions may be moved on and pinned, and snapshots numbered. -/
theorem carries_retimed (tl : Timeline) (h : s.timeline.modification ≤ tl.modification)
    (hp : ∀ w ∈ s.timeline.pinned, w ∈ tl.pinned) (n : Nat) :
    Carries k K Formed s { s with timeline := tl, snapshotsOpened := n } := fun hs =>
  (formed_retimed hs tl h n).imp id fun ht => ⟨ht, hK.retimed n h hp⟩

/-- A change with a stamp of its own. -/
theorem carries_of_minted {x : Edit α ρ} {f : Version → Edit α ρ}
    (hx : x s = (Edit.mint >>= f) s)
    (hf : Carries k K (FormedAt s.timeline.advance.1) s.minted
      ((f s.timeline.advance.1).after s.minted)) : Carries k K Formed s (x.after s) := by
  intro hs
  obtain ⟨hm, hsm, hk⟩ :=
    carries_retimed hK _ s.timeline.modification_le_advance
      (fun w hw => by rw [Timeline.advance_pinned]; exact hw) s.snapshotsOpened hs
  obtain ⟨ht, hmt, hk'⟩ := hf ⟨hm, s.timeline.advance_fst.symm⟩
  rw [Edit.after_congr hx, (Edit.returns_mint s).after_bind]
  exact ⟨ht.1, hsm.trans hmt, hK.trans hk hk'⟩

theorem carries_mint_bind {f : Version → Edit α ρ}
    (hf : ∀ v, Edit.Obeys (Carries k K (FormedAt v)) (f v)) :
    Edit.Obeys (Carries k K Formed) (Edit.mint >>= f) :=
  fun _ => carries_of_minted hK rfl (hf _ _)

/-! ## Linking -/

theorem carries_splice (a : α) (side : End) (v : Version) :
    Edit.Obeys (Carries .coming K (FormedAt v)) (Edit.splice a side v) := by
  rintro s ⟨⟨l, h⟩, hv⟩
  rcases Regime.splice_spec (R := (Regime.told α v).along hK) h (h.holds hv) a side with
    ⟨x, t, ht, hl, hh, hi, _⟩ | ⟨hf, _⟩
  · rw [ht.after]
    exact ⟨hl.formedAt hh, hi⟩
  · rw [hf.after]
    exact carries_refl hK _ s ⟨⟨l, h⟩, hv⟩

theorem carries_insert (a : α) (side : End) :
    Edit.Obeys (Carries .coming K Formed) (Edit.insert a side) :=
  (composes_carries hK .coming Formed).bind ((composes_carries hK .coming Formed).checkCapacity 1)
    fun _ => carries_mint_bind hK fun v => carries_splice hK a side v

theorem carries_insertAll (as : List α) (side : End) :
    Edit.Obeys (Carries .coming K Formed) (Edit.insertAll as side) := by
  have hC := composes_carries hK .coming Formed
  unfold Edit.insertAll
  refine hC.bind (hC.checkCapacity _) fun _ => ?_
  split
  · exact hC.of_pure _
  · refine carries_mint_bind hK fun v => ?_
    have hv := composes_carries hK .coming (FormedAt v)
    cases side with
    | first => exact hv.bind (hv.mapM (carries_splice hK · _ v) _) fun _ => hv.of_pure _
    | last => exact hv.mapM (carries_splice hK · _ v) _

/-! ## Unlinking -/

theorem carries_unlinkAt (h : s.Shaped l) {x : Handle} (hx : x ∈ l.map (·.1)) {i : Nat}
    (hi : s.current? x = some i)
    (v : Version) (a : ρ) :
    Carries .going K (FormedAt v) s ((do Edit.unlinkAt i v; return a : Edit α ρ).after s) := by
  rintro ⟨_, hv⟩
  obtain ⟨t, ht, hl, hh, hu⟩ :=
    Regime.returns_unlinkAt_of_mem (R := (Regime.told α v).along hK) h (h.holds hv) hx hi
  rw [ht.after_bind, (Edit.returns_pure a t).after]
  exact ⟨hl.formedAt hh, hu⟩

theorem carries_unlink (x : Handle) :
    Edit.Obeys (Carries .going K Formed) (Edit.unlink x : Edit α Bool) := by
  rintro s ⟨l, h⟩
  cases hs : x.isSentinel with
  | true =>
    rw [(fails_unlink hs s).after]
    exact carries_refl hK _ s ⟨l, h⟩
  | false =>
    by_cases hx : x ∈ l.map (·.1)
    · obtain ⟨i, hi⟩ := h.exists_current? hx
      refine carries_of_minted hK (unlink_of_mem h hx hi) ?_ ⟨l, h⟩
      exact carries_unlinkAt hK (s := s.minted) (h.retimed _ _) hx hi _ true
    · rw [(returns_unlink_of_not_mem h hs hx).after]
      exact carries_refl hK _ s ⟨l, h⟩

theorem carries_unlinkEach (xs : List Handle) :
    Edit.Obeys (Carries .going K Formed) (Edit.unlinkEach xs : Edit α Nat) := by
  have hC := composes_carries hK .going Formed
  refine hC.foldlM (fun _ x => hC.bind (carries_unlink hK x) fun _ => ?_) xs 0
  split <;> exact hC.of_pure _

theorem carries_poll (side : End) :
    Edit.Obeys (Carries .going K Formed) (Edit.poll side : Edit α (Option α)) := by
  rintro s ⟨l, h⟩
  cases he : side.outermost? l with
  | none =>
    rw [(returns_poll_of_nil h side (End.outermost?_eq_none he)).after]
    exact carries_refl hK _ s ⟨l, h⟩
  | some e =>
    obtain ⟨i, hi, heq⟩ := poll_of_outermost h he
    refine carries_of_minted hK heq ?_ ⟨l, h⟩
    exact carries_unlinkAt hK (s := s.minted) (h.retimed _ _)
      (List.mem_map_of_mem (rest_eq_filter h.nodup he).1) hi _ _

theorem carries_unlinkEverything (v : Version) :
    Edit.Obeys (Carries .going K (FormedAt v)) (Edit.unlinkEverything v : Edit α Nat) := by
  rintro s ⟨⟨l, h⟩, hv⟩
  obtain ⟨t, ht, hl, hh, hu⟩ :=
    Regime.returns_unlinkEverything (R := (Regime.told α v).along hK) h (h.holds hv)
  rw [ht.after]
  exact ⟨hl.formedAt hh, hu.clears⟩

theorem carries_clear : Edit.Obeys (Carries .going K Formed) (Edit.clear : Edit α Nat) :=
  carries_mint_bind hK fun v => carries_unlinkEverything hK v

/-! ## Snapshots -/

omit hK in
/-- A snapshot is always opened on what there is. -/
theorem exists_opened (h : s.Shaped l) :
    ∃ w, Edit.openSnapshot.Returns s w s.opened ∧ w.size = l.length := by
  have hout : ∀ side, ∃ i, s.opened.outermost side = .ok i := by
    intro side
    have ho : s.opened.Shaped l := h.retimed _ _
    cases he : side.outermost? l with
    | none =>
      obtain ⟨i, hi, _⟩ := ho.outermost_nil side (End.outermost?_eq_none he)
      exact ⟨i, hi⟩
    | some e =>
      obtain ⟨i, _, hi⟩ := ho.outermost side he
      exact ⟨i, hi⟩
  obtain ⟨first, hf⟩ := hout .first
  obtain ⟨last, hl⟩ := hout .last
  exact ⟨_, returns_openSnapshot_of_outermost hf hl, h.length_eq⟩

theorem carries_opened (s : Store α) : Carries .going K Formed s s.opened :=
  carries_retimed hK (s.timeline.pin ⟨s.snapshotsOpened + 1⟩).2 (le_refl _)
    (fun _ hw => Timeline.mem_pinned_pin_of_mem hw _) _

theorem carries_openSnapshot :
    Edit.Obeys (Carries .going K Formed) (Edit.openSnapshot : Edit α View) := by
  rintro s ⟨l, h⟩
  obtain ⟨w, hw, _⟩ := exists_opened h
  rw [hw.after]
  exact carries_opened hK s ⟨l, h⟩

/-- The nodes are unlinked one by one, until one of them cannot be shown. -/
theorem carries_unlinkSeen (seen v : Version) : ∀ {n : Nat} (last : Nat) {s : Store α}
    {l : List (Handle × α)}, s.Shaped l → n ≤ l.length →
      Carries .going K (FormedAt v) s ((Edit.unlinkSeen seen v n last).after s) := by
  intro n
  induction n with
  | zero => exact fun last s _ _ _ => (composes_carries hK .going _).of_pure last s
  | succ n ih =>
    intro last s l h hn hs
    obtain ⟨e, m, rfl⟩ := List.exists_cons_of_ne_nil (l := l) (by rintro rfl; simp at hn)
    obtain ⟨i, hi, ho⟩ := h.outermost (e := e) .first rfl
    unfold Edit.unlinkSeen
    rw [(Edit.returns_ask ho).after_bind, (Edit.returns_get s).after_bind]
    cases hr : s.links.resolve seen i with
    | none => exact carries_refl hK _ s hs
    | some j =>
      obtain ⟨t, ht, hl, hh, hu⟩ :=
        Regime.returns_unlinkAt (R := (Regime.told α v).along hK) (k := []) h (h.holds hs.2) hi
      obtain ⟨hf, hc, hk⟩ := ih _ hl (by simpa using hn) (hl.formedAt hh)
      rw [ht.after_bind]
      exact ⟨hf, hu.1.trans hc, hK.trans hu.2 hk⟩

theorem carries_takeAt {n : Nat} {w : View} (v : Version) (h : s.Shaped l) (hn : n ≤ l.length) :
    Carries .going K (FormedAt v) s ((Edit.takeAt n w v).after s) := by
  have hv := composes_carries hK .going (FormedAt v)
  unfold Edit.takeAt
  split
  · exact hv.bind (carries_unlinkEverything hK v) (fun _ => hv.of_pure _) s
  · intro hs
    obtain ⟨hf, hc⟩ := carries_unlinkSeen hK w.version v w.last h hn hs
    rcases Edit.after_bind (Edit.unlinkSeen w.version v n w.last)
      (fun last => pure { w with last, size := n }) s with ⟨a, t, ht, he⟩ | ⟨e, t, ht, he⟩ <;>
      rw [he] <;> rw [ht.after] at hf hc <;> exact ⟨hf, hc⟩

theorem carries_openPolled (limit : Option Nat) :
    Edit.Obeys (Carries .going K Formed) (Edit.openPolled limit : Edit α View) := by
  rintro s ⟨l, h⟩
  obtain ⟨w, hw, hsize⟩ := exists_opened h
  have ho := carries_opened hK s ⟨l, h⟩
  rw [Edit.after_congr (openPolled_apply hw limit)]
  suffices hc : Carries .going K Formed s.opened
      ((Edit.take (taken limit w.size) w).after s.opened) from
    ⟨(hc ho.1).1, ho.2.1.trans (hc ho.1).2.1, hK.trans ho.2.2 (hc ho.1).2.2⟩
  unfold Edit.take
  split
  · exact (composes_carries hK .going Formed).of_pure _ s.opened
  · refine carries_of_minted hK rfl (carries_takeAt hK (s := s.opened.minted) (l := l) _ ?_ ?_)
    · exact Shaped.retimed (s := s.opened) (h.retimed _ _) _ _
    · rw [← hsize]
      exact taken_le limit w.size

/-- Closing a snapshot is the one change that may unpin a version. -/
theorem carries_closeSnapshot (s : Store α) (id : SnapshotId) (v : Version)
    (hC : K s (s.letGo v id)) : Carries k K Formed s (s.closeSnapshot id v).2 := by
  intro hs
  have ht : (s.letGo v id).Formed ∧ Told k s (s.letGo v id) :=
    formed_retimed hs (s.timeline.unpin v id).2
    (le_of_eq (Timeline.unpin_modification _ _ _).symm) s.snapshotsOpened
  unfold closeSnapshot
  dsimp only
  split
  · obtain ⟨l, hl⟩ := ht.1
    obtain ⟨hr, hf⟩ := told_reclaim hl k s.config.reclaimBatch
    exact ⟨⟨l, hf⟩, ht.2.trans hr, hK.trans hC (hK.reclaim hl.sound _)⟩
  · exact ⟨ht.1, ht.2, hC⟩

/-! ## Changes -/

theorem carries_effect : ∀ {m : Mutation α ρ}, m.reclaimsFirst = true →
    (m.closes = true → ∀ s v id, K s (s.letGo v id)) →
    Edit.Obeys (Carries m.traffic K Formed) m.effect
  | .insert a side, _, _ => carries_insert hK a side
  | .insertAll as side, _, _ => carries_insertAll hK as side
  | .unlink x, _, _ => carries_unlink hK x
  | .unlinkEach xs, _, _ => carries_unlinkEach hK xs
  | .poll side, _, _ => carries_poll hK side
  | .clear, _, _ => carries_clear hK
  | .openSnapshot, _, _ => carries_openSnapshot hK
  | .openPolled limit, _, _ => carries_openPolled hK limit
  | .closeSnapshot id v, _, hC =>
    Edit.obeys_modifyGet fun s => carries_closeSnapshot hK s id v (hC rfl s v id)
  | .reclaim, _, _ => Edit.obeys_modifyGet fun _ ⟨l, hl⟩ =>
    ⟨⟨l, (told_reclaim hl .going _).2⟩, (told_reclaim hl _ _).1, hK.reclaim hl.sound _⟩
  | .settle, _, _ => (composes_carries hK _ Formed).of_pure ()

theorem carries_reclaimPending (k : Traffic) (s : Store α) :
    Carries k K Formed s s.reclaimPending := by
  rintro ⟨l, hl⟩
  obtain ⟨hr, hf⟩ := told_reclaimPending hl k
  refine ⟨⟨l, hf⟩, hr, ?_⟩
  unfold reclaimPending
  split
  · exact hK.reclaim hl.sound _
  · exact hK.refl s

theorem carries_run {m : Mutation α ρ} (hm : m.reclaimsFirst = true)
    (hC : m.closes = true → ∀ s v id, K s (s.letGo v id)) (s : Store α) :
    Carries m.traffic K Formed s (m.run s).2 := by
  rintro ⟨l, hl⟩
  rw [Mutation.run_snd hl.open_, Mutation.base, if_pos hm]
  exact (composes_carries hK m.traffic Formed).trans (carries_reclaimPending hK m.traffic s)
    (carries_effect hK hm hC _) ⟨l, hl⟩

end Carrying

/-- Whatever a change comes to, what it did can be told. -/
theorem told_run {m : Mutation α ρ} (hm : m.reclaimsFirst = true) (hs : s.Formed) :
    (m.run s).2.Formed ∧ Told m.traffic s (m.run s).2 :=
  (carries_run along_true hm (fun _ _ _ _ => trivial) s hs).imp id And.left

end Store

end SnapshotDeque
