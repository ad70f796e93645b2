import Mathlib.Data.List.Basic
import Mathlib.Data.List.Pairwise
import Mathlib.Order.Defs.LinearOrder
import SnapshotDeque.Timeline

/-!
The timeline as a record of who holds what. A well-formed timeline keeps its markers in ascending
order, none of them empty and none ahead of the modification version, and the baseline is there
exactly if the modification version itself is held. Main statements: a change is stamped with a
version ahead of every held one, a new snapshot holds the modification version, and giving up a hold
removes just that hold.
-/

namespace SnapshotDeque

instance : LinearOrder Version where
  le_refl v := Nat.le_refl v.val
  le_trans _ _ _ := Nat.le_trans
  lt_iff_le_not_ge _ _ := Nat.lt_iff_le_and_not_ge
  le_antisymm _ _ h h' := Version.ext (Nat.le_antisymm h h')
  le_total v w := Nat.le_total v.val w.val
  toDecidableLE := inferInstance
  toDecidableEq := inferInstance
  toDecidableLT := inferInstance
  compare_eq_compareOfLessAndEq v w := by
    change compare v.val w.val = _
    rw [Nat.compare_eq_ite_lt]
    unfold compareOfLessAndEq
    by_cases h : v = w
    · simp [h, Version.lt_iff]
    · have : v.val ≠ w.val := fun e => h (Version.ext e)
      by_cases hlt : v.val < w.val
      · simp [Version.lt_iff, hlt]
      · simp [Version.lt_iff, hlt, h, Nat.lt_of_le_of_ne (Nat.le_of_not_lt hlt) this.symm]

namespace Timeline

/-- `id` holds `v`. -/
def Holds (t : Timeline) (v : Version) (id : SnapshotId) : Prop :=
  ∃ m ∈ t.markers, m.version = v ∧ id ∈ m.snapshots

structure Valid (t : Timeline) : Prop where
  sorted : t.markers.Pairwise fun m n => m.version < n.version
  inhabited : ∀ m ∈ t.markers, m.snapshots ≠ []
  ascending : ∀ m ∈ t.markers, m.snapshots.Pairwise fun i j => i.val < j.val
  le : ∀ v ∈ t.pinned, v ≤ t.modification
  baseline : ∀ b, t.baseline = some b ↔ b = t.modification ∧ b ∈ t.pinned

theorem valid_fresh : Valid {} where
  sorted := List.Pairwise.nil
  inhabited := by simp
  ascending := by simp
  le := by simp [pinned]
  baseline := by simp [pinned]

theorem mem_pinned {t : Timeline} {v : Version} :
    v ∈ t.pinned ↔ ∃ m ∈ t.markers, m.version = v := by
  simp [pinned]

/-- A version has one marker. -/
theorem Valid.marker_unique {t : Timeline} (ht : t.Valid) {m n : Marker} (hm : m ∈ t.markers)
    (hn : n ∈ t.markers) (h : m.version = n.version) : m = n := by
  have hv : m.version.val = n.version.val := congrArg _ h
  obtain ⟨i, hi, rfl⟩ := List.getElem_of_mem hm
  obtain ⟨j, hj, rfl⟩ := List.getElem_of_mem hn
  have hs := List.pairwise_iff_getElem.1 ht.sorted
  rcases Nat.lt_trichotomy i j with hij | rfl | hij
  · exact absurd hv (Nat.ne_of_lt (hs i j hi hj hij))
  · rfl
  · exact absurd hv (Nat.ne_of_gt (hs j i hj hi hij))

theorem Holds.mem_pinned {t : Timeline} {v : Version} {id : SnapshotId} (h : t.Holds v id) :
    v ∈ t.pinned := by
  obtain ⟨m, hm, hv, _⟩ := h
  exact Timeline.mem_pinned.2 ⟨m, hm, hv⟩

theorem Valid.exists_holds {t : Timeline} (ht : t.Valid) {v : Version} (hv : v ∈ t.pinned) :
    ∃ id, t.Holds v id := by
  obtain ⟨m, hm, rfl⟩ := Timeline.mem_pinned.1 hv
  obtain ⟨id, hid⟩ := List.exists_mem_of_ne_nil _ (ht.inhabited m hm)
  exact ⟨id, m, hm, rfl, hid⟩

/-! ## The oldest and the newest pin -/

theorem Valid.oldestPinned_le {t : Timeline} (ht : t.Valid) {v : Version} (hv : v ∈ t.pinned) :
    t.oldestPinned ≤ v := by
  have hs : t.pinned.Pairwise (· < ·) := List.pairwise_map.2 ht.sorted
  unfold oldestPinned
  cases hp : t.pinned with
  | nil => rw [hp] at hv; cases hv
  | cons w ws =>
    rw [hp] at hv hs
    rw [List.head?_cons, Option.getD_some]
    rcases List.mem_cons.1 hv with rfl | hv
    · exact Nat.le_refl _
    · exact Nat.le_of_lt (List.rel_of_pairwise_cons hs hv)

/-- The oldest pin is one of the pins, if there are any. -/
theorem oldestPinned_cases (t : Timeline) :
    t.pinned = [] ∧ t.oldestPinned = .max ∨ t.oldestPinned ∈ t.pinned := by
  unfold oldestPinned
  cases t.pinned with
  | nil => exact Or.inl ⟨rfl, rfl⟩
  | cons v vs => exact Or.inr (List.mem_cons_self ..)

theorem Valid.isObserved_iff {t : Timeline} (ht : t.Valid) {c : Version} :
    t.isObserved c = true ↔ ∃ v ∈ t.pinned, c ≤ v := by
  have hs : t.pinned.Pairwise (· < ·) := List.pairwise_map.2 ht.sorted
  unfold isObserved
  rcases List.eq_nil_or_concat t.pinned with hp | ⟨ws, w, hp⟩
  · simp [hp]
  · rw [List.concat_eq_append] at hp
    rw [hp] at hs ⊢
    rw [List.getLast?_concat]
    simp only [decide_eq_true_eq]
    refine ⟨fun h => ⟨w, by simp, h⟩, ?_⟩
    rintro ⟨v, hv, hc⟩
    rcases List.mem_append.1 hv with hv | hv
    · have hvw : v < w := (List.pairwise_append.1 hs).2.2 v hv w (by simp)
      exact Nat.le_trans hc (Nat.le_of_lt hvw)
    · rw [List.mem_singleton.1 hv] at hc
      exact hc

/-! ## Stamping a change -/

theorem advance_of_none {t : Timeline} (h : t.baseline = none) :
    t.advance = (t.modification, t) := by
  rw [advance, h]

theorem advance_of_some {t : Timeline} (h : t.baseline = some t.modification) :
    t.advance = (t.modification.next,
      { t with modification := t.modification.next, baseline := none }) := by
  rw [advance, h]
  exact if_pos (Nat.le_refl t.modification.val)

/-- The version of a change is the modification version from then on, and ahead of every pin. -/
theorem Valid.advance {t : Timeline} (ht : t.Valid) (hv : t.modification < .max) :
    t.advance.2.Valid ∧ t.advance.2.modification = t.advance.1 ∧
      ∀ w ∈ t.advance.2.pinned, w < t.advance.1 := by
  cases hb : t.baseline with
  | none =>
    rw [advance_of_none hb]
    refine ⟨ht, rfl, fun w hw => ?_⟩
    rcases Nat.lt_or_eq_of_le (ht.le w hw) with h | h
    · exact h
    · have := (ht.baseline w).2 ⟨Version.ext h, hw⟩
      rw [hb] at this; cases this
  | some b =>
    obtain ⟨rfl, _⟩ := (ht.baseline b).1 hb
    rw [advance_of_some hb]
    have hlt : t.modification < t.modification.next := Version.lt_next hv
    refine ⟨⟨ht.sorted, ht.inhabited, ht.ascending, ?_, ?_⟩, rfl, ?_⟩
    · intro w hw
      exact Nat.le_trans (ht.le w hw) (Nat.le_of_lt hlt)
    · intro w
      refine ⟨fun h => (by cases h), ?_⟩
      rintro ⟨rfl, hw⟩
      exact absurd (ht.le _ hw) (Nat.not_le_of_lt hlt)
    · intro w hw
      exact Nat.lt_of_le_of_lt (ht.le w hw) hlt

@[simp] theorem advance_markers (t : Timeline) : t.advance.2.markers = t.markers := by
  unfold advance; split <;> try split
  all_goals rfl

@[simp] theorem advance_pinned (t : Timeline) : t.advance.2.pinned = t.pinned := by
  simp [pinned]

theorem advance_fst (t : Timeline) : t.advance.1 = t.advance.2.modification := by
  unfold advance; split <;> try split
  all_goals rfl

theorem modification_le_advance (t : Timeline) : t.modification ≤ t.advance.2.modification := by
  unfold advance
  cases t.baseline with
  | none => exact Nat.le_refl _
  | some b =>
    by_cases h : t.modification ≤ b
    · simp only [if_pos h]
      have := t.modification.val_le
      rw [Version.le_iff] at h ⊢
      simp only [Version.next]
      have := b.val_le
      omega
    · simp only [if_neg h]
      exact Nat.le_refl _

/-! ## Holding a version -/

theorem mem_insertId {id x : SnapshotId} {xs : List SnapshotId} :
    x ∈ insertId id xs ↔ x = id ∨ x ∈ xs := by
  induction xs with
  | nil => simp [insertId]
  | cons y ys ih => grind [insertId]

theorem insertId_ne_nil (id : SnapshotId) (xs : List SnapshotId) : insertId id xs ≠ [] :=
  List.ne_nil_of_mem (mem_insertId.2 (Or.inl rfl))

theorem pairwise_insertId {id : SnapshotId} {xs : List SnapshotId}
    (h : xs.Pairwise fun i j => i.val < j.val) :
    (insertId id xs).Pairwise fun i j => i.val < j.val := by
  induction xs with
  | nil => simp [insertId]
  | cons y ys ih =>
    obtain ⟨hy, hys⟩ := List.pairwise_cons.1 h
    unfold insertId
    split
    next hlt =>
      refine List.pairwise_cons.2 ⟨fun z hz => ?_, h⟩
      rcases List.mem_cons.1 hz with rfl | hz
      · exact hlt
      · exact Nat.lt_trans hlt (hy z hz)
    next hle =>
      split
      next => exact h
      next hne =>
        refine List.pairwise_cons.2 ⟨fun z hz => ?_, ih hys⟩
        rcases mem_insertId.1 hz with rfl | hz
        · have : z.val ≠ y.val := fun e => hne (by cases z; cases y; cases e; rfl)
          omega
        · exact hy z hz

theorem mem_hold {v : Version} {id : SnapshotId} {n : Marker} {ms : List Marker}
    (hs : ms.Pairwise fun m n => m.version < n.version) :
    n ∈ hold v id ms ↔
      (n ∈ ms ∧ n.version ≠ v) ∨
      (n.version = v ∧ ((∃ m ∈ ms, m.version = v ∧ n.snapshots = insertId id m.snapshots) ∨
        (∀ m ∈ ms, m.version ≠ v) ∧ n.snapshots = [id])) := by
  induction ms with
  | nil =>
    obtain ⟨w, ids⟩ := n
    simp [hold]
  | cons m ms ih =>
    obtain ⟨hm, hms⟩ := List.pairwise_cons.1 hs
    have hlt : ∀ {a b : Version}, a < b → a ≠ b := fun h e => Nat.ne_of_lt h (congrArg _ e)
    obtain ⟨w, ids⟩ := n
    unfold hold
    split
    next hv =>
      have hne : ∀ x ∈ m :: ms, x.version ≠ v := by
        intro x hx
        rcases List.mem_cons.1 hx with rfl | hx
        · exact (hlt hv).symm
        · exact (hlt (Nat.lt_trans hv (hm x hx))).symm
      grind
    next =>
      split
      next hv =>
        have hne : ∀ x ∈ ms, x.version ≠ v := fun x hx => hv ▸ (hlt (hm x hx)).symm
        grind
      next => grind

theorem pairwise_hold {v : Version} {id : SnapshotId} {ms : List Marker}
    (hs : ms.Pairwise fun m n => m.version < n.version) :
    (hold v id ms).Pairwise fun m n => m.version < n.version := by
  induction ms with
  | nil => simp [hold]
  | cons m ms ih =>
    obtain ⟨hm, hms⟩ := List.pairwise_cons.1 hs
    unfold hold
    split
    next hv =>
      refine List.pairwise_cons.2 ⟨fun x hx => ?_, hs⟩
      rcases List.mem_cons.1 hx with rfl | hx
      · exact hv
      · exact Nat.lt_trans hv (hm x hx)
    next hv =>
      split
      next => exact List.pairwise_cons.2 ⟨hm, hms⟩
      next hne =>
        refine List.pairwise_cons.2 ⟨fun x hx => ?_, ih hms⟩
        rcases (mem_hold hms).1 hx with ⟨hx, _⟩ | ⟨hx, _⟩
        · exact hm x hx
        · have : v.val ≠ m.version.val := fun e => hne (Version.ext e)
          rw [Version.lt_iff] at hv ⊢
          rw [hx]
          omega

theorem mem_pinned_pin {t : Timeline} (ht : t.Valid) {id : SnapshotId} {w : Version} :
    w ∈ (t.pin id).2.pinned ↔ w ∈ t.pinned ∨ w = (t.pin id).1 := by
  simp only [mem_pinned, pin, mem_hold ht.sorted]
  constructor
  · rintro ⟨m, ⟨hm, _⟩ | ⟨hv, _⟩, rfl⟩
    · exact Or.inl ⟨m, hm, rfl⟩
    · exact Or.inr hv
  · intro h
    by_cases hw : w = t.baseline.getD t.modification
    · by_cases hm : ∃ m ∈ t.markers, m.version = w
      · obtain ⟨m, hm, hv⟩ := hm
        exact ⟨⟨w, insertId id m.snapshots⟩, Or.inr ⟨hw, Or.inl ⟨m, hm, hv.trans hw, rfl⟩⟩, rfl⟩
      · refine ⟨⟨w, [id]⟩, Or.inr ⟨hw, Or.inr ⟨fun m hm' hv => hm ⟨m, hm', ?_⟩, rfl⟩⟩, rfl⟩
        exact hv.trans hw.symm
    · obtain ⟨m, hm, rfl⟩ := h.resolve_right hw
      exact ⟨m, Or.inl ⟨hm, hw⟩, rfl⟩

/-- What is pinned stays so when a snapshot is opened, whatever the order of the markers. -/
theorem mem_pinned_pin_of_mem {t : Timeline} {w : Version} (h : w ∈ t.pinned) (id : SnapshotId) :
    w ∈ (t.pin id).2.pinned := by
  have hkept : ∀ (v : Version) (ms : List Marker), w ∈ ms.map (·.version) →
      w ∈ (hold v id ms).map (·.version) := by
    intro v ms
    induction ms with
    | nil => simp
    | cons m ms ih =>
      intro hw
      unfold hold
      split
      · exact List.mem_cons_of_mem _ hw
      · split
        · exact hw
        · rw [List.map_cons, List.mem_cons] at hw ⊢
          exact hw.imp_right ih
  exact hkept _ _ h

theorem Valid.pin_fst {t : Timeline} (ht : t.Valid) (id : SnapshotId) :
    (t.pin id).1 = t.modification := by
  unfold pin
  cases hb : t.baseline with
  | none => rfl
  | some b => exact ((ht.baseline b).1 hb).1

theorem Valid.pin {t : Timeline} (ht : t.Valid) (id : SnapshotId) : (t.pin id).2.Valid where
  sorted := pairwise_hold ht.sorted
  inhabited m hm := by
    rcases (mem_hold ht.sorted).1 hm with ⟨hm, _⟩ | ⟨_, ⟨n, _, _, h⟩ | ⟨_, h⟩⟩
    · exact ht.inhabited m hm
    · rw [h]; exact insertId_ne_nil id _
    · rw [h]; exact List.cons_ne_nil _ _
  ascending m hm := by
    rcases (mem_hold ht.sorted).1 hm with ⟨hm, _⟩ | ⟨_, ⟨n, hn, _, h⟩ | ⟨_, h⟩⟩
    · exact ht.ascending m hm
    · rw [h]; exact pairwise_insertId (ht.ascending n hn)
    · rw [h]; exact List.pairwise_singleton _ _
  le w hw := by
    rcases (mem_pinned_pin ht).1 hw with hw | rfl
    · exact ht.le w hw
    · rw [ht.pin_fst]; exact Nat.le_refl t.modification.val
  baseline b := by
    have hb : (t.pin id).2.baseline = some (t.pin id).1 := rfl
    rw [hb, mem_pinned_pin ht, ht.pin_fst, Option.some.injEq]
    exact ⟨fun h => ⟨h.symm, Or.inr h.symm⟩, fun h => h.1.symm⟩

theorem holds_pin {t : Timeline} (ht : t.Valid) {id j : SnapshotId} {w : Version} :
    (t.pin id).2.Holds w j ↔ t.Holds w j ∨ w = t.modification ∧ j = id := by
  rw [← ht.pin_fst id]
  simp only [Holds, pin, mem_hold ht.sorted]
  constructor
  · rintro ⟨m, ⟨hm, _⟩ | ⟨hv, ⟨n, hn, hnv, h⟩ | ⟨_, h⟩⟩, rfl, hj⟩
    · exact Or.inl ⟨m, hm, rfl, hj⟩
    · rw [h] at hj
      rcases mem_insertId.1 hj with rfl | hj
      · exact Or.inr ⟨hv, rfl⟩
      · exact Or.inl ⟨n, hn, hnv.trans hv.symm, hj⟩
    · rw [h] at hj
      exact Or.inr ⟨hv, List.mem_singleton.1 hj⟩
  · intro h
    by_cases hw : w = t.baseline.getD t.modification
    · by_cases hm : ∃ m ∈ t.markers, m.version = w
      · obtain ⟨m, hm, hv⟩ := hm
        refine ⟨⟨w, insertId id m.snapshots⟩,
          Or.inr ⟨hw, Or.inl ⟨m, hm, hv.trans hw, rfl⟩⟩, rfl, mem_insertId.2 ?_⟩
        rcases h with ⟨n, hn, hnv, hj⟩ | ⟨_, rfl⟩
        · -- only one marker has that version
          have hmn : n = m := ht.marker_unique hn hm (hnv.trans hv.symm)
          exact Or.inr (hmn ▸ hj)
        · exact Or.inl rfl
      · refine ⟨⟨w, [id]⟩, Or.inr ⟨hw, Or.inr ⟨fun m hm' hv => hm ⟨m, hm', ?_⟩, rfl⟩⟩, rfl, ?_⟩
        · exact hv.trans hw.symm
        · rcases h with ⟨n, hn, hnv, _⟩ | ⟨_, rfl⟩
          · exact absurd ⟨n, hn, hnv⟩ hm
          · exact List.mem_singleton.2 rfl
    · obtain ⟨m, hm, rfl, hj⟩ := h.resolve_right fun h => hw h.1
      exact ⟨m, Or.inl ⟨hm, hw⟩, rfl, hj⟩

/-! ## Giving up a hold -/

theorem Valid.marker?_eq {t : Timeline} (ht : t.Valid) {m : Marker} (hm : m ∈ t.markers) :
    t.marker? m.version = some m := by
  unfold marker?
  cases hf : t.markers.find? (·.version = m.version) with
  | none => exact absurd (List.find?_eq_none.1 hf m hm) (by simp)
  | some n =>
    have hn : n.version = m.version := by simpa using List.find?_some hf
    rw [ht.marker_unique (List.mem_of_find?_eq_some hf) hm hn]

@[simp] theorem unpin_modification (t : Timeline) (v : Version) (id : SnapshotId) :
    (t.unpin v id).2.modification = t.modification := by
  unfold unpin
  split
  · rfl
  · dsimp only
    split <;> rfl

/-- As long as a version has another holder, it stays pinned. -/
theorem pinned_unpin_of_not_last {t : Timeline} {v : Version} {id : SnapshotId}
    (h : (t.unpin v id).1 = false) : (t.unpin v id).2.pinned = t.pinned := by
  unfold unpin at h ⊢
  cases hm : t.marker? v with
  | none => rfl
  | some m =>
    rw [hm] at h
    dsimp only at h ⊢
    split at h
    · cases h
    next hr =>
      rw [if_neg hr]
      simp only [pinned, List.map_map]
      refine List.map_congr_left fun n _ => ?_
      simp only [Function.comp_apply]
      split <;> rfl

theorem unpin_sorted {t : Timeline} (ht : t.Valid) (v : Version) (id : SnapshotId) :
    (t.unpin v id).2.markers.Pairwise fun m n => m.version < n.version := by
  unfold unpin
  split
  next => exact ht.sorted
  next m _ =>
    dsimp only
    split
    · exact ht.sorted.filter _
    · refine List.pairwise_map.2 (ht.sorted.imp fun {a b} h => ?_)
      split <;> split <;> exact h

theorem mem_unpin {t : Timeline} (ht : t.Valid) {v : Version} {id : SnapshotId}
    (h : t.Holds v id) {n : Marker} :
    n ∈ (t.unpin v id).2.markers ↔
      (n ∈ t.markers ∧ n.version ≠ v) ∨
      (n.version = v ∧ n.snapshots ≠ [] ∧
        ∃ m ∈ t.markers, m.version = v ∧ n.snapshots = m.snapshots.erase id) := by
  obtain ⟨m, hm, rfl, _⟩ := h
  obtain ⟨w, ids⟩ := n
  unfold unpin
  simp only [ht.marker?_eq hm]
  have hu : ∀ x ∈ t.markers, x.version = m.version → x = m := fun x hx => ht.marker_unique hx hm
  split
  next he =>
    have he : m.snapshots.erase id = [] := by simpa using he
    grind
  next he =>
    have he : m.snapshots.erase id ≠ [] := by simpa using he
    simp only [List.mem_map]
    constructor
    · rintro ⟨x, hx, hw⟩
      split at hw
      next hv =>
        obtain rfl := hu x hx hv
        cases hw
        exact Or.inr ⟨rfl, he, x, hm, rfl, rfl⟩
      next hv =>
        subst hw
        exact Or.inl ⟨hx, hv⟩
    · rintro (⟨hn, hv⟩ | ⟨hv, _, x, hx, hxv, hs⟩)
      · exact ⟨_, hn, if_neg hv⟩
      · obtain rfl := hu x hx hxv
        refine ⟨x, hx, ?_⟩
        rw [if_pos rfl, ← hs, ← hv]

theorem holds_unpin {t : Timeline} (ht : t.Valid) {v w : Version} {id j : SnapshotId}
    (h : t.Holds v id) :
    (t.unpin v id).2.Holds w j ↔ t.Holds w j ∧ ¬ (w = v ∧ j = id) := by
  constructor
  · rintro ⟨n, hn, rfl, hj⟩
    rcases (mem_unpin ht h).1 hn with ⟨hn, hv⟩ | ⟨hv, _, m, hm, hmv, hs⟩
    · exact ⟨⟨n, hn, rfl, hj⟩, fun hc => hv hc.1⟩
    · have hd : m.snapshots.Nodup :=
        (ht.ascending m hm).imp fun hlt e => Nat.ne_of_lt hlt (congrArg _ e)
      rw [hs] at hj
      obtain ⟨hne, hj⟩ := (List.Nodup.mem_erase_iff hd).1 hj
      exact ⟨⟨m, hm, hmv.trans hv.symm, hj⟩, fun hc => hne hc.2⟩
  · rintro ⟨⟨n, hn, rfl, hj⟩, hne⟩
    by_cases hv : n.version = v
    · have hmem : j ∈ n.snapshots.erase id := by
        refine (List.mem_erase_of_ne fun e => hne ⟨hv, e⟩).2 hj
      exact ⟨⟨n.version, n.snapshots.erase id⟩,
        (mem_unpin ht h).2 (Or.inr ⟨hv, List.ne_nil_of_mem hmem, n, hn, hv, rfl⟩), rfl, hmem⟩
    · exact ⟨n, (mem_unpin ht h).2 (Or.inl ⟨hn, hv⟩), rfl, hj⟩

theorem Valid.unpin_inhabited {t : Timeline} (ht : t.Valid) {v : Version} {id : SnapshotId}
    (h : t.Holds v id) : ∀ n ∈ (t.unpin v id).2.markers, n.snapshots ≠ [] := by
  intro n hn
  rcases (mem_unpin ht h).1 hn with ⟨hn, _⟩ | ⟨_, hne, _⟩
  · exact ht.inhabited n hn
  · exact hne

theorem mem_pinned_of_unpin {t : Timeline} (ht : t.Valid) {v w : Version} {id : SnapshotId}
    (h : t.Holds v id) (hw : w ∈ (t.unpin v id).2.pinned) : w ∈ t.pinned := by
  obtain ⟨n, hn, rfl⟩ := mem_pinned.1 hw
  obtain ⟨j, hj⟩ := List.exists_mem_of_ne_nil _ (ht.unpin_inhabited h n hn)
  exact ((holds_unpin ht h).1 ⟨n, hn, rfl, hj⟩).1.mem_pinned

/-- The baseline goes with the marker of its version. -/
theorem unpin_baseline {t : Timeline} (ht : t.Valid) {v b : Version} {id : SnapshotId}
    (h : t.Holds v id) :
    (t.unpin v id).2.baseline = some b ↔
      t.baseline = some b ∧ (b = v → b ∈ (t.unpin v id).2.pinned) := by
  have hmem : v ∈ (t.unpin v id).2.pinned ↔
      ∃ m ∈ t.markers, m.version = v ∧ m.snapshots.erase id ≠ [] := by
    rw [mem_pinned]
    constructor
    · rintro ⟨n, hn, hv⟩
      rcases (mem_unpin ht h).1 hn with ⟨_, hv'⟩ | ⟨_, hne, m, hm, hmv, hs⟩
      · exact absurd hv hv'
      · exact ⟨m, hm, hmv, hs ▸ hne⟩
    · rintro ⟨m, hm, hmv, hne⟩
      exact ⟨⟨v, m.snapshots.erase id⟩,
        (mem_unpin ht h).2 (Or.inr ⟨rfl, hne, m, hm, hmv, rfl⟩), rfl⟩
  have hb : (b = v → b ∈ (t.unpin v id).2.pinned) ↔
      (b = v → ∃ m ∈ t.markers, m.version = v ∧ m.snapshots.erase id ≠ []) :=
    forall_congr' fun e => e ▸ hmem
  rw [hb]
  obtain ⟨m, hm, rfl, _⟩ := h
  have hu : ∀ x ∈ t.markers, x.version = m.version → x = m := fun x hx => ht.marker_unique hx hm
  unfold unpin
  simp only [ht.marker?_eq hm]
  by_cases he : m.snapshots.erase id = [] <;> grind

theorem Valid.unpin {t : Timeline} (ht : t.Valid) {v : Version} {id : SnapshotId}
    (h : t.Holds v id) : (t.unpin v id).2.Valid where
  sorted := unpin_sorted ht v id
  inhabited := ht.unpin_inhabited h
  ascending n hn := by
    rcases (mem_unpin ht h).1 hn with ⟨hn, _⟩ | ⟨_, _, m, hm, _, hs⟩
    · exact ht.ascending n hn
    · rw [hs]; exact (ht.ascending m hm).sublist List.erase_sublist
  le w hw := by
    rw [unpin_modification]
    exact ht.le w (mem_pinned_of_unpin ht h hw)
  baseline b := by
    have hb := ht.baseline b
    have hmono : b ≠ v → b ∈ t.pinned → b ∈ (t.unpin v id).2.pinned := by
      intro hne hp
      obtain ⟨j, hj⟩ := ht.exists_holds hp
      exact ((holds_unpin ht h).2 ⟨hj, fun hc => hne hc.1⟩).mem_pinned
    have hsub := mem_pinned_of_unpin ht (w := b) h
    rw [unpin_baseline ht h, unpin_modification]
    grind

end Timeline

end SnapshotDeque
