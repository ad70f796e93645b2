import SnapshotDeque.Proofs.World

/-!
Sharing a version. As long as nothing is linked or unlinked, the modification version stays, and
snapshots opened meanwhile hold the same marker. Two changes move the version on although they find
nothing to do: clearing an empty deque, and an insertion that is refused a slot.
-/

namespace SnapshotDeque

namespace Mutation

variable {α ρ : Type}

/-- Whether the change is to unlink every node. -/
def clears : Mutation α ρ → Bool
  | clear => true
  | _ => false

end Mutation

namespace Store

variable {α ρ : Type} {s t : Store α} {l : List (Handle × α)}

section Rest

variable (h : s.Live l)

include h

/-- Unlinking nodes none of which is linked leaves the store as it is, up to the first sentinel. -/
theorem after_unlinkEach {xs : List Handle}
    (hx : ∀ x ∈ xs.takeWhile (!·.isSentinel), x ∉ l.map (·.1)) :
    (Edit.unlinkEach xs).after s = s := by
  change (xs.foldlM tally 0).after s = s
  generalize 0 = n
  induction xs with
  | nil => rfl
  | cons x xs ih =>
    cases hs : x.isSentinel with
    | true =>
      have hf : (tally n x : Edit α Nat).Fails s (.nodeNotPayload x) s :=
        Edit.Fails.bind (fails_unlink hs s)
      exact (Edit.Fails.bind hf).after
    | false =>
      rw [List.takeWhile_cons, hs] at hx
      have hr : (tally n x : Edit α Nat).Returns s n s :=
        (returns_unlink_of_not_mem h.toShaped hs (hx x (List.mem_cons_self ..))).bind
          (Edit.returns_pure n s)
      rw [List.foldlM_cons, hr.after_bind]
      exact ih fun y hy => hx y (List.mem_cons_of_mem _ hy)

theorem after_unlinkEach_of_entries {xs : List Handle}
    (hv : ((Edit.unlinkEach xs).after s).timeline.modification < .max)
    (ht : ((Edit.unlinkEach xs).after s).entries = l) : (Edit.unlinkEach xs).after s = s := by
  -- what is unlinked before the first sentinel is missing in the end
  have hfilter : l.filter (·.1 ∉ xs.takeWhile (!·.isSentinel)) = l := by
    have hpay : ∀ x ∈ xs.takeWhile (!·.isSentinel), x.isSentinel = false := fun x hx => by
      simpa using List.mem_takeWhile_imp hx
    cases hd : xs.dropWhile (!·.isSentinel) with
    | nil =>
      have hxs : xs.takeWhile (!·.isSentinel) = xs := by
        simpa [hd] using List.takeWhile_append_dropWhile (p := (!·.isSentinel)) (l := xs)
      rw [hxs] at hpay ⊢
      obtain ⟨t, _, hr, hl, _⟩ := returns_unlinkEach h hpay hv
      rw [hr.after, hl.entries] at ht
      exact ht
    | cons x ys =>
      have hxs := List.takeWhile_append_dropWhile (p := (!·.isSentinel)) (l := xs)
      rw [hd] at hxs
      have hsx : x.isSentinel = true := by
        have := List.head?_dropWhile_not (!·.isSentinel) xs
        rw [hd] at this
        simpa using this
      rw [← hxs] at hv
      obtain ⟨t, _, hr, hl, _⟩ := fails_unlinkEach h hpay hsx hv
      rw [hxs] at hr
      rw [hr.after, hl.entries] at ht
      exact ht
  refine after_unlinkEach h fun x hx hm => ?_
  obtain ⟨e, he, rfl⟩ := List.mem_map.1 hm
  have := List.filter_eq_self.1 hfilter e he
  exact of_decide_eq_true this hx

theorem after_insert_of_entries {a : α} {side : End}
    (hv : ((Edit.insert a side).after s).timeline.modification < .max)
    (hx : ∀ t, ¬ (Edit.insert a side).Fails s Arena.exhausted t)
    (ht : ((Edit.insert a side).after s).entries = l) : (Edit.insert a side).after s = s := by
  by_cases hn : s.capacity < l.length + 1
  · exact (fails_insert h side a hn).after
  · rcases insert_spec h side a (by omega) hv with ⟨x, t, hr, hl, _⟩ | ⟨t, hf, _⟩
    · rw [hr.after, hl.entries] at ht
      have hlen := congrArg List.length ht
      rw [End.length_add, List.length_singleton] at hlen
      omega
    · exact absurd hf (hx t)

theorem after_insertAll_of_entries {as : List α} {side : End}
    (hv : ((Edit.insertAll as side).after s).timeline.modification < .max)
    (hx : ∀ t, ¬ (Edit.insertAll as side).Fails s Arena.exhausted t)
    (ht : ((Edit.insertAll as side).after s).entries = l) :
    (Edit.insertAll as side).after s = s := by
  by_cases hn : s.capacity < l.length + as.length
  · exact (fails_insertAll h side as hn).after
  · cases has : as with
    | nil =>
      subst has
      exact ((returns_checkCapacity h.toShaped (Nat.le_of_not_lt hn)).bind
        (Edit.returns_pure [] s)).after
    | cons a as' =>
      rw [← has]
      have hm := Edit.lt_of_after (Edit.rises_effect (.insertAll as side)) hv
      rcases insertAll_spec h side as (by omega) hm with ⟨es, t, hes, hr, hl, _⟩ | ⟨t, _, _, hf, _⟩
      · rw [hr.after, hl.entries] at ht
        have hlen := congrArg List.length ht
        have hes := congrArg List.length hes
        rw [End.length_add] at hlen
        rw [List.length_map, has, List.length_cons] at hes
        omega
      · exact absurd hf (hx t)

theorem after_unlink_of_entries {x : Handle}
    (hv : ((Edit.unlink x).after s).timeline.modification < .max)
    (ht : ((Edit.unlink x).after s).entries = l) : (Edit.unlink x).after s = s := by
  cases hs : x.isSentinel with
  | true => exact (fails_unlink hs s).after
  | false =>
    by_cases hx : x ∈ l.map (·.1)
    · obtain ⟨t, _, hr, hl, _⟩ := returns_unlink_of_mem h hx hv
      rw [hr.after, hl.entries] at ht
      obtain ⟨e, he, rfl⟩ := List.mem_map.1 hx
      have := List.filter_eq_self.1 ht e he
      simp at this
    · exact (returns_unlink_of_not_mem h.toShaped hs hx).after

theorem after_poll_of_entries {side : End}
    (hv : ((Edit.poll side).after s).timeline.modification < .max)
    (ht : ((Edit.poll side).after s).entries = l) : (Edit.poll side).after s = s := by
  cases he : side.outermost? l with
  | none =>
    obtain ⟨i, hi, hsent⟩ := h.outermost_nil side (End.outermost?_eq_none he)
    refine Edit.Returns.after (a := none) ?_
    refine (Edit.returns_ask hi).bind ((Edit.returns_get s).bind ?_)
    rw [if_pos hsent]
    exact Edit.returns_pure none s
  | some e =>
    obtain ⟨t, _, hr, hl, _⟩ := returns_poll h side hv
    rw [hr.after, hl.entries] at ht
    have hpos : 0 < l.length := List.length_pos_of_mem (rest_eq_filter h.nodup he).1
    have hlen := congrArg List.length ht
    rw [End.length_rest] at hlen
    omega

theorem after_openPolled_of_entries {limit : Option Nat}
    (hv : ((Edit.openPolled limit).after s).timeline.modification < .max)
    (ht : ((Edit.openPolled limit).after s).entries = l) :
    (Edit.openPolled limit).after s = s.opened := by
  obtain ⟨w, hw, _, _, hd⟩ := returns_openSnapshot h
  have hsize : w.size = l.length := by rw [hd.size, rowOf, List.length_map]
  have hrun : (Edit.openPolled limit) s = Edit.take (taken limit l.length) w s.opened := by
    rw [← hsize]
    exact hw.bind_apply _
  obtain ⟨_, t, _, hr, _, _, hl, _⟩ := returns_openPolled h limit hv
  have hzero : taken limit l.length = 0 := by
    rw [hr.after, hl.entries] at ht
    have hlen := congrArg List.length ht
    have hle := taken_le limit l.length
    rw [List.length_drop] at hlen
    omega
  refine Edit.Returns.after (a := { w with size := 0 }) (hrun.trans ?_)
  unfold Edit.take
  rw [if_pos hzero]
  exact Edit.returns_pure { w with size := 0 } s.opened

/-- A change that links and unlinks nothing keeps the modification version. -/
theorem Live.modification_run {m : Mutation α ρ} (hm : m.disposes = false)
    (hc : m.clears = false) (hr : (m.run s).1 ≠ .error Arena.exhausted)
    (hv : (m.run s).2.timeline.modification < .max) (he : (m.run s).2.entries = l) :
    (m.run s).2.timeline.modification = s.timeline.modification := by
  have hb := h.base m
  have hslot : ∀ t, ¬ m.effect.Fails (m.base s) Arena.exhausted t := fun t hf => by
    rw [Mutation.run_of_fails h.open_ hf] at hr
    exact hr rfl
  rw [Mutation.run_snd h.open_] at hv he ⊢
  rw [← timeline_base m s]
  cases m with
  | insert a side =>
    exact congrArg (·.timeline.modification) (after_insert_of_entries hb hv hslot he)
  | insertAll as side =>
    exact congrArg (·.timeline.modification) (after_insertAll_of_entries hb hv hslot he)
  | unlink x => exact congrArg (·.timeline.modification) (after_unlink_of_entries hb hv he)
  | unlinkEach xs => exact congrArg (·.timeline.modification) (after_unlinkEach_of_entries hb hv he)
  | poll side => exact congrArg (·.timeline.modification) (after_poll_of_entries hb hv he)
  | clear => cases hc
  | openSnapshot =>
    obtain ⟨_, hw, _⟩ := returns_openSnapshot hb
    exact congrArg (·.timeline.modification) hw.after
  | openPolled limit =>
    exact congrArg (·.timeline.modification) (after_openPolled_of_entries hb hv he)
  | closeSnapshot id v =>
    exact modification_closeSnapshot _ id v
  | reclaim => exact congrArg Timeline.modification (timeline_reclaim _ _)
  | settle => rfl
  | dispose => cases hm
  | observe on => rfl

theorem Live.modification_openSnapshot :
    ((.openSnapshot : Mutation α View).run s).2.timeline.modification =
      s.timeline.modification := by
  obtain ⟨_, hr, _⟩ := returns_openSnapshot (h.base .openSnapshot)
  rw [Mutation.run_of_returns (m := .openSnapshot) h.open_ hr]
  change (Mutation.base (.openSnapshot : Mutation α View) s).timeline.modification = _
  rw [timeline_base]

end Rest

end Store

namespace World

variable {α ρ : Type} {c : Config} {w u : World α} {v v' : View}

/-- The change links nothing and unlinks nothing. -/
def Rests (w : World α) (m : Mutation α ρ) : Prop := (w.after m).store.entries = w.store.entries

/-- The change rests, is no clearing and is not refused a slot. -/
structure Idles (w : World α) (m : Mutation α ρ) : Prop where
  rests : w.Rests m
  clears : m.clears = false
  slot : (m.run w.store).1 ≠ .error Arena.exhausted

theorem Stretch.modification (h : Stretch Idles w u) (hw : Reached c w)
    (hu : u.store.disposed = false) :
    u.store.timeline.modification = w.store.timeline.modification := by
  induction h with
  | refl => rfl
  | @change _ w u m hs hp hv hi ih =>
    have hd := disposed_of_after m hu
    obtain ⟨l, hl⟩ := (hs.reached hw).coherent hd
    have he := hi.rests
    rw [Rests, hl.live.entries] at he
    rw [← ih hw hd]
    exact hl.live.modification_run (disposes_eq_false hu) hi.clears hi.slot hv he
  | deliver _ ih => exact ih hw hu

/-- Snapshots opened with nothing but idle changes between them share a version, and as long as the
earlier one is held, a marker. -/
theorem version_is_shared {m : Mutation α View} (hw : Reached c w)
    (hv : ((.openSnapshot : Mutation α View).run w.store).1 = .ok v)
    (hs : Stretch Idles (w.after .openSnapshot) u) (hm : m.IsOpening)
    (hv' : (m.run u.store).1 = .ok v') (hlt : (u.after m).store.timeline.modification < .max) :
    v'.version = v.version ∧ ((∃ h ∈ u.held, h.view = v) →
      ∃ k ∈ (u.after m).store.timeline.markers, k.version = v.version ∧
        v.id ∈ k.snapshots ∧ v'.id ∈ k.snapshots) := by
  obtain ⟨l, hl⟩ := hw.coherent (disposed_of_opening (Or.inl rfl) hv)
  have hopen := hl.live.modification_openSnapshot
  have hlt' := hw.modification_lt
  rw [← hopen] at hlt'
  have hw' : Reached c (w.after .openSnapshot) := hw.change .openSnapshot trivial hlt'
  have hu := hs.reached hw'
  have hd := disposed_of_opening hm hv'
  obtain ⟨k, hk⟩ := hu.coherent hd
  have hver : v'.version = v.version :=
    calc v'.version
      _ = u.store.timeline.modification := hk.live.version_of_opening hm hlt hv'
      _ = (w.after .openSnapshot).store.timeline.modification := hs.modification hw' hd
      _ = w.store.timeline.modification := hopen
      _ = v.version := (hl.live.version_of_opening (Or.inl rfl) hlt' hv).symm
  refine ⟨hver, ?_⟩
  rintro ⟨h, hh, rfl⟩
  -- both are held after the second opening, and a version has one marker
  obtain ⟨k', hk'⟩ := hk.after (by rcases hm with rfl | ⟨_, rfl⟩ <;> trivial) hlt
    (by rcases hm with rfl | ⟨_, rfl⟩ <;> rfl)
  obtain ⟨contents, hheld⟩ := held_of_opening hm hv'
  obtain ⟨a, ha, hav, hai⟩ :=
    (hk'.holds _ _).2 ⟨h, hheld ▸ List.mem_cons_of_mem _ hh, rfl, rfl⟩
  obtain ⟨b, hb, hbv, hbi⟩ := (hk'.holds _ _).2 ⟨_, hheld ▸ List.mem_cons_self .., rfl, rfl⟩
  obtain rfl := hk'.live.stamped.timeline.marker_unique ha hb (hav.trans (hbv.trans hver).symm)
  exact ⟨a, ha, hav, hai, hbi⟩

/-- A snapshot of a deque that nothing was put into. -/
def onNone : World Nat := ({ store := .init {} } : World Nat).after .openSnapshot

theorem reached_empty : Reached {} ({ store := .init {} } : World Nat) := .init rfl

/-- Polling an empty deque between two openings does not part them. -/
theorem version_is_shared_across_poll :
    ∃ k ∈ ((onNone.after (.poll .first)).after .openSnapshot).store.timeline.markers,
      k.version = .initial ∧ (⟨1⟩ : SnapshotId) ∈ k.snapshots ∧
        (⟨2⟩ : SnapshotId) ∈ k.snapshots := by
  have hs : Stretch Idles onNone (onNone.after (.poll .first)) :=
    .change (.poll .first) (.refl _) trivial (by decide)
      ⟨by unfold Rests; decide, rfl, by decide⟩
  have hv : ((.openSnapshot : Mutation Nat View).run (onNone.after (.poll .first)).store).1 =
      .ok ⟨⟨2⟩, .initial, 1, 0, 0⟩ := rfl
  have hshared := version_is_shared (v := ⟨⟨1⟩, .initial, 1, 0, 0⟩) reached_empty rfl hs
    (Or.inl rfl) hv (by decide)
  exact hshared.2 ⟨⟨⟨⟨1⟩, .initial, 1, 0, 0⟩, []⟩, List.Mem.head [], rfl⟩

/-- Clearing an empty deque links nothing and unlinks nothing, and yet it parts the snapshots opened
before and after it. -/
theorem version_is_parted_by_clear :
    ¬ ∀ (w u : World Nat) (v v' : View), Reached {} w →
      ((.openSnapshot : Mutation Nat View).run w.store).1 = .ok v →
      Stretch Rests (w.after .openSnapshot) u → u.store.disposed = false →
      ((.openSnapshot : Mutation Nat View).run u.store).1 = .ok v' →
      (u.after (.openSnapshot : Mutation Nat View)).store.timeline.modification < .max →
      v'.version = v.version := by
  intro h
  have hs : Stretch Rests onNone (onNone.after .clear) :=
    .change .clear (.refl _) trivial (by decide) (by unfold Rests; decide)
  have := h _ _ ⟨⟨1⟩, .initial, 1, 0, 0⟩ ⟨⟨2⟩, Version.initial.next, 1, 0, 0⟩ reached_empty
    rfl hs rfl rfl (by decide)
  exact absurd this (by decide)

end World

end SnapshotDeque
