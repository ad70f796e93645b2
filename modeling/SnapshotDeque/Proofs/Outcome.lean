import SnapshotDeque.Proofs.Insertion
import SnapshotDeque.Proofs.Opening

/-!
What a change comes to, as a change of the list that the deque holds, and what it keeps for the
snapshots that are open after it. Main statement: every change that does not dispose of the deque
acts on the list as the same change of a plain list would, unless an insertion runs out of slots.
-/

namespace SnapshotDeque

namespace Mutation

variable {α ρ : Type}

/-- How many nodes a change makes if the capacity admits them. -/
def additional : Mutation α ρ → Nat
  | insert _ _ => 1
  | insertAll as _ => as.length
  | _ => 0

/-- Whether the slots suffice for the nodes that a change makes, if the capacity admits them. -/
def Fits (m : Mutation α ρ) (s : Store α) : Prop :=
  s.length + m.additional ≤ s.capacity →
    s.reclaimPending.arena.size + m.additional + 2 ≤ Arena.slotLimit

/-- The change of a list of nodes with their elements, from `l` to `l'` with the answer `r`, where
no more than `cap` nodes may be linked and the handles in `vacant` name no node. -/
def Acts (cap : Nat) (vacant : Handle → Prop) (l : List (Handle × α)) :
    Mutation α ρ → Except Error ρ → List (Handle × α) → Prop
  | insert a side, r, l' =>
    if cap < l.length + 1 then r = .error (.capacityExceeded cap) ∧ l' = l
    else ∃ x, vacant x ∧ r = .ok x ∧ l' = side.add [(x, a)] l
  | insertAll as side, r, l' =>
    if cap < l.length + as.length then r = .error (.capacityExceeded cap) ∧ l' = l
    else ∃ es, es.map (·.2) = as ∧ (∀ e ∈ es, vacant e.1) ∧ r = .ok (es.map (·.1)) ∧
      l' = side.add es l
  | unlink x, r, l' =>
    if x.isSentinel then r = .error (.nodeNotPayload x) ∧ l' = l
    else r = .ok (decide (x ∈ l.map (·.1))) ∧ l' = l.filter (·.1 ≠ x)
  | unlinkEach xs, r, l' =>
    match xs.find? (·.isSentinel) with
    | some x => r = .error (.nodeNotPayload x) ∧
      l' = l.filter (·.1 ∉ xs.takeWhile (!·.isSentinel))
    | none => r = .ok (l.countP (·.1 ∈ xs)) ∧ l' = l.filter (·.1 ∉ xs)
  | poll side, r, l' => r = .ok ((side.outermost? l).map (·.2)) ∧ l' = side.rest l
  | clear, r, l' => r = .ok l.length ∧ l' = []
  | openSnapshot, r, l' => (∃ w, r = .ok w ∧ w.size = l.length) ∧ l' = l
  | openPolled limit, r, l' =>
    (∃ w, r = .ok w ∧ w.size = Store.taken limit l.length) ∧
      l' = l.drop (Store.taken limit l.length)
  | closeSnapshot _ _, r, l' => (∃ p, r = .ok p) ∧ l' = l
  | reclaim, r, l' => (∃ p, r = .ok p) ∧ l' = l
  | settle, r, l' => r = .ok () ∧ l' = l
  | dispose, r, _ => r = .ok ()
  | observe _, r, l' => r = .ok () ∧ l' = l

theorem Acts.mono {m : Mutation α ρ} {cap : Nat} {vacant vacant' : Handle → Prop}
    {l l' : List (Handle × α)} {r : Except Error ρ} (h : m.Acts cap vacant l r l')
    (hv : ∀ x, vacant x → vacant' x) : m.Acts cap vacant' l r l' := by
  cases m with
  | insert a side =>
    by_cases hn : cap < l.length + 1
    · exact (if_pos hn).mpr ((if_pos hn).mp h)
    · obtain ⟨x, hx, h⟩ := (if_neg hn).mp h
      exact (if_neg hn).mpr ⟨x, hv x hx, h⟩
  | insertAll as side =>
    by_cases hn : cap < l.length + as.length
    · exact (if_pos hn).mpr ((if_pos hn).mp h)
    · obtain ⟨es, hes, hx, h⟩ := (if_neg hn).mp h
      exact (if_neg hn).mpr ⟨es, hes, fun e he => hv _ (hx e he), h⟩
  | _ => exact h

/-- A snapshot `w` is opened that shows `c`. -/
structure Opens (s t : Store α) (w : View) (c : List (Handle × α)) : Prop where
  id : w.id = ⟨s.snapshotsOpened + 1⟩
  opened : t.snapshotsOpened = s.snapshotsOpened + 1
  holds : ∀ v j, t.timeline.Holds v j ↔ s.timeline.Holds v j ∨ v = w.version ∧ j = w.id
  displays : ∃ ps, t.Displays w ps ∧ t.named ps = c

/-- Which snapshots a change opens and closes. -/
def Pins (s : Store α) (l : List (Handle × α)) (t : Store α) : Mutation α ρ → Except Error ρ → Prop
  | openSnapshot, r => ∀ w, r = .ok w → Opens s t w l
  | openPolled limit, r => ∀ w, r = .ok w → Opens s t w (l.take (Store.taken limit l.length))
  | closeSnapshot id v, _ => t.snapshotsOpened = s.snapshotsOpened ∧
    ∀ w j, t.timeline.Holds w j ↔ s.timeline.Holds w j ∧ ¬ (w = v ∧ j = id)
  | _, _ => t.snapshotsOpened = s.snapshotsOpened ∧ t.timeline.markers = s.timeline.markers

def disposes : Mutation α ρ → Bool
  | dispose => true
  | _ => false

/-- Only a hold that is there can be given up. -/
def Permits (s : Store α) : Mutation α ρ → Prop
  | closeSnapshot id v => s.timeline.Holds v id
  | _ => True

/-- What change `m` makes of the store `s` of a deque that holds `l`: the answer `r` and the
store `t`. -/
structure Outcome (m : Mutation α ρ) (s : Store α) (l : List (Handle × α)) (r : Except Error ρ)
    (t : Store α) : Prop where
  acts : ∃ l', t.Live l' ∧
    (m.Acts s.capacity (fun x => s.reclaimPending.arena.get? x = none) l r l' ∨
      r = .error Arena.exhausted ∧ ¬ m.Fits s ∧ t.arena.slots.size = Arena.slotLimit)
  saves : ∀ {v}, v ∈ s.timeline.pinned → v ∈ t.timeline.pinned → Store.Saves s t v
  turnover : ∃ born gone, Store.Turnover s t born gone
  config : t.config = s.config
  pins : m.Pins s l t r

/-! ## Running a change -/

/-- The store in which a change begins. -/
def base (m : Mutation α ρ) (s : Store α) : Store α :=
  if m.reclaimsFirst then s.reclaimPending else s

theorem run_of_disposed {m : Mutation α ρ} {s : Store α} (h : s.disposed = true)
    (hm : m.needsDeque = true) : m.run s = (.error .disposed, s) := by
  unfold run
  rw [h, hm]
  rfl

/-- Disposal succeeds. -/
theorem run_of_disposes {m : Mutation α ρ} {s : Store α} (ho : s.disposed = false)
    (hm : m.disposes = true) : (∃ a, (m.run s).1 = .ok a) ∧ (m.run s).2.disposed = true := by
  cases m with
  | dispose =>
    unfold run
    rw [ho]
    exact ⟨⟨(), rfl⟩, rfl⟩
  | _ => cases hm

section Run

variable {m : Mutation α ρ} {s t : Store α} (ho : s.disposed = false)

include ho

theorem run_of_open : m.run s =
    match m.effect (m.base s) with
    | .ok a t => (.ok a, t)
    | .error e t => (.error e, t) := by
  unfold run
  rw [ho, Bool.and_false, if_neg Bool.false_ne_true]
  rfl

theorem run_of_returns {a : ρ} (h : m.effect.Returns (m.base s) a t) : m.run s = (.ok a, t) := by
  rw [run_of_open ho, h]

theorem run_of_fails {e : Error} (h : m.effect.Fails (m.base s) e t) :
    m.run s = (.error e, t) := by
  rw [run_of_open ho, h]

/-- What a change leaves, whatever it comes to. -/
theorem run_snd : (m.run s).2 = m.effect.after (m.base s) := by
  rw [run_of_open ho, Edit.after]
  cases m.effect (m.base s) <;> rfl

end Run

/-- To settle is to reclaim what is pending. -/
theorem run_settle (ho : s.disposed = false) :
    (settle : Mutation α Unit).run s = (.ok (), s.reclaimPending) := run_of_open ho

/-- Whether the change opens a snapshot, be it one that takes nodes out. -/
def IsOpening (m : Mutation α View) : Prop := m = .openSnapshot ∨ ∃ limit, m = .openPolled limit

end Mutation

namespace Store

variable {α ρ : Type} {s t : Store α} {l : List (Handle × α)}

theorem Live.settled (h : s.Live l) :
    ∃ gone, s.reclaimPending.Live l ∧ GivesBack s s.reclaimPending gone := by
  obtain ⟨gone, hs, hst, hg⟩ := reclaimPending_spec h.sound h.stamped
  exact ⟨gone, h.givesBack hg hs hst, hg⟩

theorem timeline_base (m : Mutation α ρ) (s : Store α) : (m.base s).timeline = s.timeline := by
  unfold Mutation.base
  split
  · exact timeline_reclaimPending s
  · rfl

theorem Live.base (h : s.Live l) (m : Mutation α ρ) : (m.base s).Live l := by
  unfold Mutation.base
  split
  · obtain ⟨_, hl, _⟩ := h.settled
    exact hl
  · exact h

theorem Changes.outcome {m : Mutation α ρ} {r : Except Error ρ} {born gone : List (NodeId × α)}
    (hc : Changes s t born gone)
    (ha : ∃ l', t.Live l' ∧
      (m.Acts s.capacity (fun x => s.reclaimPending.arena.get? x = none) l r l' ∨
        r = .error Arena.exhausted ∧ ¬ m.Fits s ∧ t.arena.slots.size = Arena.slotLimit))
    (hp : t.snapshotsOpened = s.snapshotsOpened ∧ t.timeline.markers = s.timeline.markers →
      m.Pins s l t r) : m.Outcome s l r t :=
  ⟨ha, fun hv _ => hc.spares.saves hv, ⟨born, gone, hc.turnover⟩, hc.spares.config,
    hp ⟨hc.spares.snapshotsOpened, hc.spares.markers⟩⟩

section Outcomes

variable (h : s.Live l)

include h

/-- Every slot is made when every slot is taken. -/
theorem Live.slots_size (hf : s.arena.size + 2 = Arena.slotLimit) :
    s.arena.slots.size = Arena.slotLimit := by
  have hc := h.sound.arena.count
  have hl := h.sound.arena.limit
  omega

/-- The slots suffice as they are for a change that makes no node. -/
theorem Live.fits {m : Mutation α ρ} (hm : m.additional = 0) : m.Fits s := by
  intro _
  obtain ⟨_, h0, _⟩ := h.settled
  have hc := h0.sound.arena.count
  have hl := h0.sound.arena.limit
  omega

theorem Live.after_lt {m : Mutation α ρ} {r : Except Error ρ} (hr : m.run s = (r, t))
    (hv : t.timeline.modification < .max) :
    (m.effect.after (m.base s)).timeline.modification < .max := by
  rw [← Mutation.run_snd h.open_, hr]
  exact hv

theorem outcome_insert {a : α} {side : End} {r : Except Error Handle}
    (hr : (Mutation.insert a side).run s = (r, t)) (hv : t.timeline.modification < .max) :
    (Mutation.insert a side).Outcome s l r t := by
  obtain ⟨gone, h0, hg⟩ := h.settled
  have hcap : s.reclaimPending.capacity = s.capacity := by
    rw [Store.capacity, hg.spares.config]; rfl
  by_cases hn : s.capacity < l.length + 1
  · have hf := fails_insert h0 side a (by rw [hcap]; exact hn)
    rw [Mutation.run_of_fails (m := .insert a side) h.open_ hf] at hr
    cases hr
    exact hg.toChanges.outcome ⟨l, h0, Or.inl ((if_pos hn).mpr ⟨by rw [hcap], rfl⟩)⟩ id
  · rcases insert_spec h0 side a (by omega) (h.after_lt hr hv) with
      ⟨x, u, ht, hl, hk⟩ | ⟨u, hf, hl, hc, hfull, hlt⟩
    · obtain ⟨born, _, hc⟩ := hk.changes
      rw [Mutation.run_of_returns (m := .insert a side) h.open_ ht] at hr
      cases hr
      refine (hg.toChanges.trans hc).outcome ⟨_, hl, Or.inl ((if_neg hn).mpr ?_)⟩ id
      exact ⟨x, hk.fresh _ (List.mem_singleton.2 rfl), rfl, rfl⟩
    · rw [Mutation.run_of_fails (m := .insert a side) h.open_ hf] at hr
      cases hr
      refine (hg.toChanges.trans hc).outcome
        ⟨l, hl, Or.inr ⟨rfl, fun hfit => ?_, hl.slots_size hfull⟩⟩ id
      have : s.reclaimPending.arena.size + 1 + 2 ≤ Arena.slotLimit :=
        hfit (by rw [h.length_eq]; exact Nat.le_of_not_lt hn)
      omega

theorem outcome_insertAll {as : List α} {side : End} {r : Except Error (List Handle)}
    (hr : (Mutation.insertAll as side).run s = (r, t)) (hv : t.timeline.modification < .max) :
    (Mutation.insertAll as side).Outcome s l r t := by
  obtain ⟨gone, h0, hg⟩ := h.settled
  have hcap : s.reclaimPending.capacity = s.capacity := by
    rw [Store.capacity, hg.spares.config]; rfl
  by_cases hn : s.capacity < l.length + as.length
  · have hf := fails_insertAll h0 side as (by rw [hcap]; exact hn)
    rw [Mutation.run_of_fails (m := .insertAll as side) h.open_ hf] at hr
    cases hr
    exact hg.toChanges.outcome ⟨l, h0, Or.inl ((if_pos hn).mpr ⟨by rw [hcap], rfl⟩)⟩ id
  · have hm := Edit.lt_of_after (Edit.rises_effect (.insertAll as side)) (h.after_lt hr hv)
    rcases insertAll_spec h0 side as (by omega) hm with
      ⟨es, u, hes, ht, hl, hk⟩ | ⟨u, l', born, hf, hl, _, hc, hfull, hlt⟩
    · obtain ⟨born, _, hc⟩ := hk.changes
      rw [Mutation.run_of_returns (m := .insertAll as side) h.open_ ht] at hr
      cases hr
      refine (hg.toChanges.trans hc).outcome ⟨_, hl, Or.inl ((if_neg hn).mpr ?_)⟩ id
      exact ⟨es, hes, hk.fresh, rfl, rfl⟩
    · rw [Mutation.run_of_fails (m := .insertAll as side) h.open_ hf] at hr
      cases hr
      refine (hg.toChanges.trans hc).outcome
        ⟨l', hl, Or.inr ⟨rfl, fun hfit => ?_, hl.slots_size hfull⟩⟩ id
      have : s.reclaimPending.arena.size + as.length + 2 ≤ Arena.slotLimit :=
        hfit (by rw [h.length_eq]; exact Nat.le_of_not_lt hn)
      omega

theorem outcome_unlink {x : Handle} {r : Except Error Bool}
    (hr : (Mutation.unlink x).run s = (r, t)) (hv : t.timeline.modification < .max) :
    (Mutation.unlink x).Outcome s l r t := by
  obtain ⟨gone, h0, hg⟩ := h.settled
  by_cases hx : x.isSentinel = true
  · rw [Mutation.run_of_fails (m := .unlink x) h.open_ (fails_unlink hx _)] at hr
    cases hr
    exact hg.toChanges.outcome ⟨l, h0, Or.inl ((if_pos hx).mpr ⟨rfl, rfl⟩)⟩ id
  · by_cases hm : x ∈ l.map (·.1)
    · obtain ⟨u, gone', ht, hl, hc⟩ := returns_unlink_of_mem h0 hm (h.after_lt hr hv)
      rw [Mutation.run_of_returns (m := .unlink x) h.open_ ht] at hr
      cases hr
      refine (hg.toChanges.trans hc).outcome ⟨_, hl, Or.inl ((if_neg hx).mpr ⟨?_, rfl⟩)⟩ id
      rw [decide_eq_true hm]
    · have ht := returns_unlink_of_not_mem h0.toShaped (by simpa using hx) hm
      rw [Mutation.run_of_returns (m := .unlink x) h.open_ ht] at hr
      cases hr
      refine hg.toChanges.outcome ⟨_, h0, Or.inl ((if_neg hx).mpr ⟨?_, ?_⟩)⟩ id
      · rw [decide_eq_false hm]
      · refine (List.filter_eq_self.2 fun e he => ?_).symm
        exact decide_eq_true fun e' => hm (List.mem_map.2 ⟨e, he, e'⟩)

theorem outcome_unlinkEach {xs : List Handle} {r : Except Error Nat}
    (hr : (Mutation.unlinkEach xs).run s = (r, t)) (hv : t.timeline.modification < .max) :
    (Mutation.unlinkEach xs).Outcome s l r t := by
  obtain ⟨gone, h0, hg⟩ := h.settled
  have hv' := h.after_lt hr hv
  cases hf : xs.find? (·.isSentinel) with
  | none =>
    have hxs : ∀ x ∈ xs, x.isSentinel = false := fun x hx => by
      simpa using List.find?_eq_none.1 hf x hx
    obtain ⟨u, gone', ht, hl, hc⟩ := returns_unlinkEach h0 hxs hv'
    rw [Mutation.run_of_returns (m := .unlinkEach xs) h.open_ ht] at hr
    cases hr
    refine (hg.toChanges.trans hc).outcome ⟨_, hl, Or.inl ?_⟩ id
    simp only [Mutation.Acts, hf, and_self]
  | some x =>
    obtain ⟨hx, ys, zs, rfl, hys⟩ := List.find?_eq_some_iff_append.1 hf
    have hys' : ∀ y ∈ ys, y.isSentinel = false := fun y hy => by simpa using hys y hy
    have htake : (ys ++ x :: zs).takeWhile (!·.isSentinel) = ys := by
      rw [List.takeWhile_append_of_pos (by simpa using hys'),
        List.takeWhile_cons_of_neg (by simp [hx]), List.append_nil]
    obtain ⟨u, gone', ht, hl, hc⟩ := fails_unlinkEach h0 hys' hx hv'
    rw [Mutation.run_of_fails (m := .unlinkEach (ys ++ x :: zs)) h.open_ ht] at hr
    cases hr
    refine (hg.toChanges.trans hc).outcome ⟨_, hl, Or.inl ?_⟩ id
    simp only [Mutation.Acts, hf, htake, and_self]

theorem outcome_poll {side : End} {r : Except Error (Option α)}
    (hr : (Mutation.poll side).run s = (r, t)) (hv : t.timeline.modification < .max) :
    (Mutation.poll side).Outcome s l r t := by
  obtain ⟨gone, h0, hg⟩ := h.settled
  obtain ⟨u, gone', ht, hl, hc⟩ := returns_poll h0 side (h.after_lt hr hv)
  rw [Mutation.run_of_returns (m := .poll side) h.open_ ht] at hr
  cases hr
  exact (hg.toChanges.trans hc).outcome ⟨_, hl, Or.inl ⟨rfl, rfl⟩⟩ id

theorem outcome_clear {r : Except Error Nat} (hr : (.clear : Mutation α Nat).run s = (r, t))
    (hv : t.timeline.modification < .max) : (.clear : Mutation α Nat).Outcome s l r t := by
  obtain ⟨gone, h0, hg⟩ := h.settled
  obtain ⟨u, gone', ht, hl, hc⟩ := returns_clear h0 (h.after_lt hr hv)
  rw [Mutation.run_of_returns (m := .clear) h.open_ ht] at hr
  cases hr
  exact (hg.toChanges.trans hc).outcome ⟨_, hl, Or.inl ⟨rfl, rfl⟩⟩ id

omit h in
/-- A snapshot is opened after the pass that comes before every change. -/
theorem outcome_opening {m : Mutation α View} {r : Except Error View} {w : View} {n : Nat}
    {u : Store α} {gone gone' : List (NodeId × α)} (hg : GivesBack s u gone) (hl : u.Live l)
    (hid : w.id = ⟨u.snapshotsOpened + 1⟩) (hver : w.version = u.timeline.modification)
    (hc : Changes u.opened t [] gone') (hd : t.Displays w ((u.rowOf l).take n))
    (hp : Mutation.Opens s t w (l.take n) → m.Pins s l t r)
    (ha : ∃ l', t.Live l' ∧
      m.Acts s.capacity (fun x => s.reclaimPending.arena.get? x = none) l r l') :
    m.Outcome s l r t := by
  have hsv : ∀ {v}, v ∈ s.timeline.pinned → Saves s t v := fun {v} hv => by
    have hv' : v ∈ u.timeline.pinned := by rw [hg.spares.pinned]; exact hv
    have ho : v ∈ u.opened.timeline.pinned := (mem_pinned_opened hl).2 (Or.inl hv')
    exact ((hg.spares.saves hv).trans (saves_retimed u _ _ v)).trans (hc.spares.saves ho)
  have hturn : Turnover s t ([] ++ ([] ++ [])) (gone ++ ([] ++ gone')) := by
    refine hg.turnover.trans hg.spares.emitting ?_
    exact Turnover.trans (t := u.opened) rfl (.of_eq rfl rfl rfl) hc.turnover
  refine ⟨?_, fun hv _ => hsv hv, ⟨_, _, hturn⟩, hc.spares.config.trans hg.spares.config, hp ?_⟩
  · obtain ⟨l', hl', ha⟩ := ha
    exact ⟨l', hl', Or.inl ha⟩
  · refine ⟨?_, ?_, fun v j => ?_, _, hd, ?_⟩
    · rw [hid, hg.spares.snapshotsOpened]
    · rw [hc.spares.snapshotsOpened]
      exact congrArg (· + 1) hg.spares.snapshotsOpened
    · have hm : t.timeline.Holds v j ↔ u.opened.timeline.Holds v j := by
        rw [Timeline.Holds, hc.spares.markers]
        rfl
      rw [hm, hid, hver, ← hg.timeline]
      exact Timeline.holds_pin hl.stamped.timeline
    · have hname : t.named (u.rowOf l) = l := by
        refine Eq.trans (List.map_congr_left fun p hp => ?_) hl.named_current
        rw [show t.owner p.1 = u.owner p.1 from
          hc.spares.grows.owner (hl.row_current.shows_ p hp).lt]
      exact List.map_take.trans (congrArg (List.take n) hname)

theorem outcome_openSnapshot {r : Except Error View}
    (hr : (.openSnapshot : Mutation α View).run s = (r, t)) :
    (.openSnapshot : Mutation α View).Outcome s l r t := by
  obtain ⟨gone, h0, hg⟩ := h.settled
  obtain ⟨w, ht, hid, hver, hd⟩ := returns_openSnapshot h0
  rw [Mutation.run_of_returns (m := .openSnapshot) h.open_ ht] at hr
  cases hr
  have hsize : w.size = l.length := by rw [hd.size, rowOf, List.length_map]
  have hall : l.take l.length = l := List.take_length
  refine outcome_opening (n := l.length) hg h0 hid hver (.refl _) ?_ ?_
    ⟨l, h0.opened, ⟨w, rfl, hsize⟩, rfl⟩
  · rw [List.take_of_length_le (by rw [rowOf, List.length_map])]
    exact hd
  · intro ho v hv
    cases hv
    rw [← hall]
    exact ho

theorem outcome_openPolled {limit : Option Nat} {r : Except Error View}
    (hr : (.openPolled limit : Mutation α View).run s = (r, t))
    (hv : t.timeline.modification < .max) :
    (.openPolled limit : Mutation α View).Outcome s l r t := by
  obtain ⟨gone, h0, hg⟩ := h.settled
  obtain ⟨w, u, gone', ht, hid, hver, hl, hc, hd⟩ :=
    returns_openPolled h0 limit (h.after_lt hr hv)
  rw [Mutation.run_of_returns (m := .openPolled limit) h.open_ ht] at hr
  cases hr
  have hsize : w.size = taken limit l.length := by
    rw [hd.size, List.length_take, rowOf, List.length_map]
    exact Nat.min_eq_left (taken_le limit _)
  refine outcome_opening hg h0 hid hver hc hd ?_ ⟨_, hl, ⟨w, rfl, hsize⟩, rfl⟩
  intro ho v hv
  cases hv
  exact ho

theorem outcome_closeSnapshot {id : SnapshotId} {v : Version} {r : Except Error Pass}
    (hid : s.timeline.Holds v id)
    (hr : (.closeSnapshot id v : Mutation α Pass).run s = (r, t)) :
    (.closeSnapshot id v : Mutation α Pass).Outcome s l r t := by
  obtain ⟨gone, h0, hg⟩ := h.settled
  have hid0 : s.reclaimPending.timeline.Holds v id := by rw [hg.timeline]; exact hid
  obtain ⟨p, u, gone', hcl, hl, hg'⟩ := closeSnapshot_spec h0 hid0
  have ht := Edit.returns_modifyGet (fun s => s.closeSnapshot id v) s.reclaimPending
  rw [hcl] at ht
  dsimp only at ht
  rw [Mutation.run_of_returns (m := .closeSnapshot id v) h.open_ ht] at hr
  cases hr
  have hturn : Turnover s t ([] ++ ([] ++ [])) (gone ++ ([] ++ gone')) := by
    refine hg.turnover.trans hg.spares.emitting ?_
    exact Turnover.trans (t := s.reclaimPending.letGo v id) rfl (.of_eq rfl rfl rfl) hg'.turnover
  refine ⟨⟨l, hl, Or.inl ⟨⟨p, rfl⟩, rfl⟩⟩, fun {w} hw hw' => ?_, ⟨_, _, hturn⟩,
    hg'.spares.config.trans hg.spares.config,
    hg'.spares.snapshotsOpened.trans hg.spares.snapshotsOpened, fun w j => ?_⟩
  · rw [hg'.spares.pinned] at hw'
    refine (hg.spares.saves hw).trans (Saves.trans ?_ (hg'.spares.saves hw'))
    exact saves_retimed _ _ _ w
  · rw [hg'.timeline, ← hg.timeline]
    exact Timeline.holds_unpin h0.stamped.timeline hid0

theorem outcome_reclaim {r : Except Error Pass} (hr : (.reclaim : Mutation α Pass).run s = (r, t)) :
    (.reclaim : Mutation α Pass).Outcome s l r t := by
  obtain ⟨gone, h0, hg⟩ := h.settled
  obtain ⟨u, gone', hre, hs, hst, hg', _⟩ :=
    reclaim_spec h0.sound h0.stamped s.reclaimPending.config.reclaimBatch
  have ht := Edit.returns_modifyGet (fun s : Store α => s.reclaim s.config.reclaimBatch)
    s.reclaimPending
  rw [hre] at ht
  dsimp only at ht
  rw [Mutation.run_of_returns (m := .reclaim) h.open_ ht] at hr
  cases hr
  exact (hg.toChanges.trans hg'.toChanges).outcome
    ⟨l, h0.givesBack hg' hs hst, Or.inl ⟨⟨_, rfl⟩, rfl⟩⟩ id

theorem outcome_settle {r : Except Error Unit} (hr : (.settle : Mutation α Unit).run s = (r, t)) :
    (.settle : Mutation α Unit).Outcome s l r t := by
  obtain ⟨gone, h0, hg⟩ := h.settled
  rw [Mutation.run_of_returns (m := .settle) h.open_ (Edit.returns_pure () _)] at hr
  cases hr
  exact hg.toChanges.outcome ⟨l, h0, Or.inl ⟨rfl, rfl⟩⟩ id

theorem outcome_observe {on : Bool} {r : Except Error Unit}
    (hr : (.observe on : Mutation α Unit).run s = (r, t)) :
    (.observe on : Mutation α Unit).Outcome s l r t := by
  rw [Mutation.run_of_returns (m := .observe on) h.open_ (Edit.returns_modify _ s)] at hr
  cases hr
  refine ⟨⟨l, ?_, Or.inl ⟨rfl, rfl⟩⟩, fun {v} _ _ => ?_, ⟨[], [], .of_eq rfl rfl rfl⟩,
    rfl, rfl, rfl⟩
  · exact { h with
      sound := { h.sound with }
      stamped := { h.stamped with }
      ring := { h.ring with }
      counted := { h.counted with } }
  · exact ⟨.refl _, fun _ hs => .refl hs, fun _ _ hr => hr, fun {_ n} _ _ _ hn => ⟨n, hn, rfl⟩⟩

/-- Every change, as long as the deque is not disposed of. -/
theorem outcome_run {m : Mutation α ρ} {r : Except Error ρ} (hr : m.run s = (r, t))
    (hp : m.Permits s) (hm : m.disposes = false) (hv : t.timeline.modification < .max) :
    m.Outcome s l r t := by
  cases m with
  | insert a side => exact outcome_insert h hr hv
  | insertAll as side => exact outcome_insertAll h hr hv
  | unlink x => exact outcome_unlink h hr hv
  | unlinkEach xs => exact outcome_unlinkEach h hr hv
  | poll side => exact outcome_poll h hr hv
  | clear => exact outcome_clear h hr hv
  | openSnapshot => exact outcome_openSnapshot h hr
  | openPolled limit => exact outcome_openPolled h hr hv
  | closeSnapshot id v => exact outcome_closeSnapshot h hp hr
  | reclaim => exact outcome_reclaim h hr
  | settle => exact outcome_settle h hr
  | dispose => cases hm
  | observe on => exact outcome_observe h hr

/-- A snapshot holds the version that the next change would be stamped with, had it not been
opened. -/
theorem Live.version_of_opening {m : Mutation α View} {v : View} (hm : m.IsOpening)
    (hv : (m.run s).2.timeline.modification < .max) (hr : (m.run s).1 = .ok v) :
    v.version = s.timeline.modification := by
  have hb := h.base m
  rw [← timeline_base m s]
  rcases hm with rfl | ⟨limit, rfl⟩
  · obtain ⟨w, hw, _, hver, _⟩ := returns_openSnapshot hb
    rw [Mutation.run_of_returns (m := .openSnapshot) h.open_ hw] at hr
    cases hr
    exact hver
  · rw [Mutation.run_snd h.open_] at hv
    obtain ⟨w, t, _, hw, _, hver, _⟩ := returns_openPolled hb limit hv
    rw [Mutation.run_of_returns (m := .openPolled limit) h.open_ hw] at hr
    cases hr
    exact hver

end Outcomes

end Store

end SnapshotDeque
