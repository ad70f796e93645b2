import SnapshotDeque.Proofs.Retiring
import SnapshotDeque.Proofs.Safety

/-!
What a reclamation pass takes. The retired links wait in the order of their tags, so those that may
be released stand in front, and a pass releases as many of them as its budget allows. Whatever a
change retires is still needed when it is done, and whatever ceases to be needed does so when the
last snapshot of a version is closed, which starts a pass. Main statement: a pass releases just the
links that it may and nobody notices, and as long as no pass is cut short by its budget, no link is
left that might be released.
-/

namespace SnapshotDeque

namespace Store

variable {α ρ : Type} {s t : Store α} {l l' : List (Handle × α)}

/-! ## One pass -/

theorem Stamped.takeWhile_isReclaimable (h : s.Stamped) :
    s.obsolete.takeWhile s.isReclaimable = s.reclaimable := by
  obtain ⟨rest, ho⟩ := h.reclaimable_prefix
  have hall : ∀ i ∈ s.reclaimable, s.isReclaimable i = true := fun i hi => (List.mem_filter.1 hi).2
  have hrest : rest.filter s.isReclaimable = [] := by
    have hf : s.reclaimable ++ rest.filter s.isReclaimable = s.reclaimable := by
      rw [← List.filter_eq_self.2 hall, ← List.filter_append, List.filter_eq_self.2 hall, ho]
      rfl
    exact List.append_right_eq_self.1 hf
  rw [← ho, List.takeWhile_append_of_pos hall]
  cases rest with
  | nil => exact List.append_nil _
  | cons i rest =>
    have hi : ¬ s.isReclaimable i = true := List.filter_eq_nil_iff.1 hrest i (by simp)
    rw [List.takeWhile_cons_of_neg hi, List.append_nil]

/-- A pass takes what stands in front. -/
theorem Stamped.due_eq (h : s.Stamped) (budget : Nat) :
    s.due budget = s.obsolete.take (min budget s.reclaimable.length) := by
  unfold due
  rw [h.takeWhile_isReclaimable]
  conv_lhs => rw [List.prefix_iff_eq_take.1 h.reclaimable_prefix]
  exact List.take_take

theorem Stamped.length_due (h : s.Stamped) (budget : Nat) :
    (s.due budget).length = min budget s.reclaimable.length := by
  have hle := h.reclaimable_prefix.length_le
  rw [h.due_eq, List.length_take]
  omega

theorem isReclaimable_congr (hl : ∀ i, (t.links.get i).obsoleteOn = (s.links.get i).obsoleteOn)
    (hp : t.timeline.oldestPinned = s.timeline.oldestPinned) :
    t.isReclaimable = s.isReclaimable := by
  funext i
  unfold isReclaimable
  rw [hl, hp]

/-- What a pass leaves though it might be released is what its budget did not suffice for. -/
theorem Stamped.reclaimable_reclaim (h : s.Stamped) (budget : Nat) :
    (s.reclaim budget).2.reclaimable = s.reclaimable.drop budget := by
  have hcongr : (s.reclaim budget).2.isReclaimable = s.isReclaimable :=
    isReclaimable_congr (obsoleteOn_reclaim s budget) (by rw [timeline_reclaim])
  have hdue : ∀ i ∈ s.due budget, s.isReclaimable i = true := fun i hi =>
    List.mem_takeWhile_imp (List.mem_of_mem_take hi)
  have hsplit : s.reclaimable =
      s.due budget ++ (s.obsolete.drop (s.due budget).length).filter s.isReclaimable := by
    rw [reclaimable]
    conv_lhs => rw [← due_append_rest s budget]
    rw [List.filter_append, List.filter_eq_self.2 hdue]
  rw [reclaimable, hcongr, obsolete_reclaim]
  calc (s.obsolete.drop (s.due budget).length).filter s.isReclaimable
      = s.reclaimable.drop (s.due budget).length := by
        conv_rhs => rw [hsplit]
        exact List.drop_left.symm
    _ = s.reclaimable.drop budget := by
        rw [h.length_due]
        rcases Nat.le_total budget s.reclaimable.length with hle | hle
        · rw [Nat.min_eq_left hle]
        · rw [Nat.min_eq_right hle, List.drop_length, List.drop_of_length_le hle]

/-- Whether a pass stops at its budget though there is more to release. -/
def CutShort (s : Store α) : Prop :=
  (s.due s.config.reclaimBatch).length = s.config.reclaimBatch ∧
    (s.reclaim s.config.reclaimBatch).2.reclaimable ≠ []

theorem Stamped.reclaimable_of_not_cutShort (h : s.Stamped) (hc : ¬ s.CutShort) :
    (s.reclaim s.config.reclaimBatch).2.reclaimable = [] := by
  by_contra hne
  have hlt : (s.due s.config.reclaimBatch).length ≠ s.config.reclaimBatch := fun e => hc ⟨e, hne⟩
  rw [h.length_due] at hlt
  rw [h.reclaimable_reclaim] at hne
  exact hne (List.drop_of_length_le (by omega))

/-! ## The queue -/

/-- How the links wait that are retired. -/
structure Queued (s : Store α) : Prop where
  tag : ∀ i ∈ s.obsolete, ∃ v, (s.links.get i).obsoleteOn = some v ∧ v ≤ s.timeline.modification
  sorted : s.obsolete.Pairwise fun i j => ∀ v w, (s.links.get i).obsoleteOn = some v →
    (s.links.get j).obsoleteOn = some w → v ≤ w
  nodup : s.obsolete.Nodup
  not_current : ∀ i ∈ s.obsolete, ∀ x, s.current? x ≠ some i
  not_released : ∀ i ∈ s.obsolete, ¬ (s.links.get i).Released

theorem Live.queued (h : s.Live l) (ha : s.Anchored) : s.Queued where
  tag i hi := by
    obtain ⟨v, hv, _, hle⟩ := h.stamped.tag hi
    exact ⟨v, hv, hle⟩
  sorted := h.stamped.sorted
  nodup := h.sound.nodup
  not_current i hi x hx := h.sound.retired_ne hi ((h.sound.owner hx).symm ▸ hx)
  not_released i hi := ha.not_released hi

/-- What a pass with the given budget does to `s`, and what it says of that. -/
structure Drained (s : Store α) (budget : Nat) (p : Pass) (t : Store α) : Prop where
  links : t.links =
    (s.obsolete.take (min budget s.reclaimable.length)).foldl LinkTable.release s.links
  obsolete : t.obsolete = s.obsolete.drop (min budget s.reclaimable.length)
  linksReclaimed : p.links = min budget s.reclaimable.length
  nodesDisposed : p.nodes + t.arena.size = s.arena.size
  remaining : p.remaining = t.obsolete.length
  idle : s.obsolete = [] → p = {}
  entries : t.entries = s.entries
  length : t.length = s.length
  timeline : t.timeline = s.timeline

theorem Live.drained (h : s.Live l) (budget : Nat) :
    ∃ p t gone, s.reclaim budget = (p, t) ∧ s.Drained budget p t ∧ t.Live l ∧
      GivesBack s t gone := by
  obtain ⟨t, gone, he, hs, hst, hg, ho⟩ := reclaim_spec h.sound h.stamped budget
  have hl := h.givesBack hg hs hst
  have ht : (s.reclaim budget).2 = t := by rw [he]
  have hsize := hg.turnover.size h.sound.arena hl.sound.arena
  refine ⟨_, t, gone, he, ?_, hl, hg⟩
  rw [h.stamped.length_due] at ho
  refine ⟨?_, ho, h.stamped.length_due budget, by simpa using hsize, ?_, fun hn => ?_,
    hl.entries.trans h.entries.symm, hl.length_eq.trans h.length_eq.symm, hg.timeline⟩
  · rw [← ht, links_reclaim, h.stamped.due_eq]
  · rw [ho, List.length_drop, h.stamped.length_due]
  · have hp : (s.reclaim budget).1 = {} := by simp [reclaim, hn]
    rw [← hp, he]

/-! ## What is left to release -/

theorem reclaimPending_of_idle (h : s.reclaimable = []) : s.reclaimPending = s := by
  unfold reclaimPending
  cases ho : s.obsolete with
  | nil => rfl
  | cons i is =>
    have hi : ¬ s.isReclaimable i = true := List.filter_eq_nil_iff.1 h i (by simp [ho])
    rw [if_neg (by simpa using hi)]

/-- Whatever is retired was retired on a version that is not before any pin: only the modification
version is pinned anew. -/
theorem Retires.reclaimable_eq_nil (h : Retires s t) (hs : s.Live l) (ht : t.Live l')
    (hp : ∀ v ∈ t.timeline.pinned, v ∈ s.timeline.pinned ∨ v = s.timeline.modification)
    (hr : s.reclaimable = []) : t.reclaimable = [] := by
  have hle : ∀ v ∈ t.timeline.pinned, v ≤ s.timeline.modification := fun v hv =>
    (hp v hv).elim (hs.stamped.timeline.le v) fun e => le_of_eq e
  refine List.filter_eq_nil_iff.2 fun i hi hir => ?_
  obtain ⟨v, hv, hlt⟩ := exists_tag_of_isReclaimable hir
  rcases h.queue i hi with hold | ⟨hn, hne⟩
  · -- it may not be released in `s`, and no pin of `s` is lost
    obtain ⟨w, hw, _⟩ := hs.stamped.tag hold
    obtain rfl : w = v := Option.some.inj ((h.kept hw).symm.trans hv)
    refine List.filter_eq_nil_iff.1 hr i hold ((isReclaimable_iff hw).2 (lt_of_lt_of_le hlt ?_))
    rcases s.timeline.oldestPinned_cases with ⟨_, ho⟩ | hmem
    · rw [ho]
      exact t.timeline.oldestPinned.val_le
    · exact ht.stamped.timeline.oldestPinned_le (h.pinned _ hmem)
  · obtain ⟨w, hw⟩ := List.exists_mem_of_ne_nil _ hne
    have hold := ht.stamped.timeline.oldestPinned_le hw
    have htag := (h.tagged hn hv).1
    exact absurd hlt (not_lt_of_ge (le_trans hold (le_trans (hle w hw) htag)))

/-- A version that is held by others stays pinned, and else a pass follows. -/
theorem reclaimable_closeSnapshot (hs : s.Live l) {id : SnapshotId} {v : Version}
    (hid : s.timeline.Holds v id) (hr : s.reclaimable = [])
    (hc : (s.timeline.unpin v id).1 = true → ¬ (s.letGo v id).CutShort) :
    (s.closeSnapshot id v).2.reclaimable = [] := by
  unfold closeSnapshot
  dsimp only
  split
  next hu => exact (hs.letGo hid).stamped.reclaimable_of_not_cutShort (hc hu)
  next hu =>
    have hpin := Timeline.pinned_unpin_of_not_last (Bool.not_eq_true _ ▸ hu)
    have hcongr : (s.letGo v id).isReclaimable = s.isReclaimable := by
      refine isReclaimable_congr (fun _ => rfl) ?_
      unfold Timeline.oldestPinned
      rw [show (s.letGo v id).timeline.pinned = _ from hpin]
    rw [← hr]
    exact congrArg (s.obsolete.filter ·) hcongr

end Store

/-- The stores in which a change begins a pass: the pass that comes before every change if there is
something to release, and its own. -/
def Mutation.passes {α ρ : Type} (m : Mutation α ρ) (s : Store α) : List (Store α) :=
  let pending := if s.obsolete.head?.any s.isReclaimable then [s] else []
  if s.disposed then [] else
  match m with
  | closeSnapshot id v =>
    if (s.reclaimPending.timeline.unpin v id).1 then pending ++ [s.reclaimPending.letGo v id]
    else pending
  | reclaim => pending ++ [s.reclaimPending]
  | dispose => []
  | observe _ => []
  | _ => pending

namespace World

variable {α ρ : Type} {c : Config} {w u : World α} {l : List (Handle × α)}

/-- Whether no pass of a change is cut short. -/
def Unhurried {ρ : Type} (w : World α) (m : Mutation α ρ) : Prop :=
  ∀ s ∈ m.passes w.store, ¬ s.CutShort

theorem reclaimable_after (hw : w.Coherent l) {m : Mutation α ρ} (hp : w.Permits m)
    (hv : (w.after m).store.timeline.modification < .max) (hm : m.disposes = false)
    (hc : w.Unhurried m) (hr : w.store.reclaimable = []) :
    (w.after m).store.reclaimable = [] := by
  have hpend := Store.reclaimPending_of_idle hr
  obtain ⟨l', hl'⟩ := hw.after hp hv hm
  cases hf : m.reclaimsFirst with
  | false =>
    cases m with
    | dispose => cases hm
    | observe on => exact hr
    | _ => cases hf
  | true =>
    cases hcl : m.closes with
    | false =>
      have hret : Store.Retires w.store (w.after m).store :=
        (Store.carries_run Store.along_retires hf (fun h => by simp [hcl] at h) w.store
          ⟨l, hw.live.toShaped⟩).2.2
      exact hret.reclaimable_eq_nil hw.live hl'.live (fun v hv' => hw.pinned_after hp hv hm hv') hr
    | true =>
      cases m with
      | closeSnapshot id v =>
        have hrun : (w.after (.closeSnapshot id v : Mutation α Pass)).store =
            (w.store.reclaimPending.closeSnapshot id v).2 := Mutation.run_snd hw.live.open_
        rw [hrun, hpend]
        refine Store.reclaimable_closeSnapshot hw.live (hw.permits hp) hr fun hu => hc _ ?_
        simp [Mutation.passes, hw.live.open_, hpend, hu]
      | _ => cases hcl

/-- As long as no pass is cut short, nothing is left to release. -/
theorem Stretch.reclaimable_eq_nil (h : Stretch (fun w m => w.Unhurried m) w u) (hw : Reached c w)
    (hr : w.store.reclaimable = []) : u.store.reclaimable = [] := by
  induction h with
  | refl => exact hr
  | @change ρ w u m hu hp hv hq ih =>
    have hru : Reached c u := hu.reached hw
    replace ih := ih hw hr
    cases hd : u.store.disposed with
    | true =>
      cases m with
      | observe on => exact ih
      | _ =>
        rw [World.after, Mutation.run_of_disposed hd rfl]
        exact ih
    | false =>
      cases hm : m.disposes with
      | true =>
        cases m with
        | dispose =>
          rw [store_after_dispose hd]
          rfl
        | _ => cases hm
      | false =>
        obtain ⟨l, hl⟩ := hru.coherent hd
        exact reclaimable_after hl hp hv hm hq ih
  | deliver _ ih => exact ih hw hr

/-- Disposal leaves nothing in the queue. -/
theorem Reached.obsolete_of_disposed (h : Reached c w) (ho : w.store.disposed = true) :
    w.store.obsolete = [] := by
  induction h with
  | init _ => cases ho
  | @change ρ w m hr hp hv ih =>
    cases hd : w.store.disposed with
    | true =>
      cases m with
      | observe on => exact ih hd
      | _ =>
        rw [World.after, Mutation.run_of_disposed hd rfl]
        exact ih hd
    | false =>
      cases hm : m.disposes with
      | true =>
        cases m with
        | dispose =>
          rw [store_after_dispose hd]
          rfl
        | _ => cases hm
      | false =>
        obtain ⟨l, hl⟩ := hr.coherent hd
        obtain ⟨l', hl'⟩ := hl.after hp hv hm
        rw [hl'.live.open_] at ho
        cases ho
  | deliver _ ih => exact ih ho

/-- A pass is noticed by no snapshot. -/
theorem Coherent.drained (hw : w.Coherent l) (budget : Nat) :
    ∃ p t, w.store.reclaim budget = (p, t) ∧ w.store.Drained budget p t ∧
      ∀ h ∈ w.held, Store.Leaves w.store t h ∧
        ({ view := h.view } : Snapshot).nodes w.store = .ok h.contents ∧
        ({ view := h.view } : Snapshot).nodes t = .ok h.contents := by
  obtain ⟨p, t, gone, he, hd, hl, hg⟩ := hw.live.drained budget
  have ht : Coherent { store := t, held := w.held } l := hw.transfer_kept hl
    (fun hv _ => hg.spares.saves hv) ⟨hg.spares.snapshotsOpened, hg.spares.markers⟩
  refine ⟨p, t, he, hd, fun h hh => ⟨?_, (hw.nodes hh).1, (ht.nodes hh).1⟩⟩
  obtain ⟨ps, hps, hn⟩ := hw.displays h hh
  exact Store.leaves_of_saves hw.live hps hl (hg.spares.saves (hw.pinned hh)) hn

theorem Coherent.pinned_of_held (hw : w.Coherent l) (hh : w.held = []) :
    w.store.timeline.pinned = [] := by
  refine List.eq_nil_iff_forall_not_mem.2 fun v hv => ?_
  obtain ⟨id, hid⟩ := hw.live.stamped.timeline.exists_holds hv
  obtain ⟨h, hm, _⟩ := (hw.holds v id).1 hid
  simp [hh] at hm

/-- The retired links wait in the order of their tags, none of them in use or given back; a pass
releases as many of those in front as it may, whatever its budget, says so, and changes nothing
that can be seen. In a run in which no pass is cut short all that wait are still needed, so none
does once no snapshot is held. -/
theorem retired_links_drain_in_order (c : Config) :
    (∀ w : World α, Reached c w → w.store.disposed = false → w.store.Queued ∧
      ∀ budget, ∃ p t, w.store.reclaim budget = (p, t) ∧ w.store.Drained budget p t ∧
        ∀ h ∈ w.held, Store.Leaves w.store t h ∧
          ({ view := h.view } : Snapshot).nodes w.store = .ok h.contents ∧
          ({ view := h.view } : Snapshot).nodes t = .ok h.contents) ∧
    ∀ w : World α, c.validate = .ok () →
      Stretch (fun w m => w.Unhurried m) { store := .init c } w →
      (∀ i ∈ w.store.obsolete, ∃ v, (w.store.links.get i).obsoleteOn = some v ∧
        w.store.timeline.oldestPinned ≤ v) ∧
      (w.held = [] → w.store.obsolete = []) := by
  refine ⟨fun w hw ho => ?_, fun w hc h => ?_⟩
  · obtain ⟨l, hl⟩ := hw.coherent ho
    exact ⟨hl.live.queued (hw.anchored ho), hl.drained⟩
  · have hw : Reached c w := h.reached (.init hc)
    have hnone : w.store.reclaimable = [] := h.reclaimable_eq_nil (.init hc) rfl
    cases ho : w.store.disposed with
    | true => simp [hw.obsolete_of_disposed ho]
    | false =>
      obtain ⟨l, hl⟩ := hw.coherent ho
      have htag : ∀ i ∈ w.store.obsolete, ∃ v, (w.store.links.get i).obsoleteOn = some v ∧
          v ≤ w.store.timeline.modification ∧ w.store.timeline.oldestPinned ≤ v := by
        intro i hi
        obtain ⟨v, hv, _, hle⟩ := hl.live.stamped.tag hi
        refine ⟨v, hv, hle, not_lt.1 fun hlt => ?_⟩
        exact List.filter_eq_nil_iff.1 hnone i hi ((Store.isReclaimable_iff hv).2 hlt)
      refine ⟨fun i hi => ?_, fun hh => List.eq_nil_iff_forall_not_mem.2 fun i hi => ?_⟩
      · obtain ⟨v, hv, _, hold⟩ := htag i hi
        exact ⟨v, hv, hold⟩
      · obtain ⟨v, _, hle, hold⟩ := htag i hi
        have hmax : w.store.timeline.oldestPinned = .max := by
          rw [Timeline.oldestPinned, hl.pinned_of_held hh]
          rfl
        exact absurd (lt_of_le_of_lt hle hw.modification_lt) (not_lt_of_ge (hmax ▸ hold))

/-- A pass with a budget of one takes the first of two links. With the usual budget, closing the
snapshot leaves none of what an insertion retired for it. -/
theorem outlived_drains_in_order :
    (outlived.store.reclaim 1).2.obsolete = [0] ∧
      (((single.after (.insert 8 .last)).after (.closeSnapshot ⟨1⟩ .initial)).store.obsolete =
        []) := by
  obtain ⟨hone, -⟩ := retired_links_drain_in_order (α := Nat) { reclaimBatch := 1 }
  obtain ⟨p, t, he, hd, -⟩ := (hone outlived reached_outlived rfl).2 1
  have ho : outlived.store.obsolete = [2, 0] := by decide
  have hr : outlived.store.reclaimable = [2, 0] := by decide
  refine ⟨by rw [he, hd.obsolete, hr, ho]; rfl, ?_⟩
  have hrun : Stretch (fun w m => w.Unhurried m) { store := .init {} }
      ((single.after (.insert 8 .last)).after (.closeSnapshot ⟨1⟩ .initial)) := by
    unfold single
    refine .change (.closeSnapshot ⟨1⟩ .initial) (.change (.insert 8 .last)
      (.change .openSnapshot (.change (.insert 7 .last) (.refl _) trivial ?_ ?_) trivial ?_ ?_)
      trivial ?_ ?_) ⟨onSingle, List.Mem.head _, rfl, rfl⟩ ?_ ?_
    all_goals first | decide | (unfold Unhurried Store.CutShort; decide)
  exact ((retired_links_drain_in_order {}).2 _ rfl hrun).2 (by decide)

end World

end SnapshotDeque
