import SnapshotDeque.Proofs.Rising
import SnapshotDeque.Proofs.Unlinking

/-!
Removal of nodes. Unlinking a node takes it from the list, wherever it stands and whatever is
retained for snapshots; clearing takes all of them.
-/

namespace SnapshotDeque.Store

variable {α : Type} {s t u : Store α} {v : Version}

/-! ## Unlinking one node -/

theorem Live.changing {l : List (Handle × α)} (h : s.Live l) (hs : s.Stamp v) : s.Changing v [] :=
  ⟨h.sound, h.stamped, hs⟩

theorem Live.givesBack {l : List (Handle × α)} {g : List (NodeId × α)} (h : s.Live l)
    (hg : GivesBack s t g) (hs : t.Sound t.obsolete []) (hst : t.Stamped) : t.Live l :=
  ⟨h.toShaped.frees hg.toFrees hg.spares.disposed hs, hst⟩

theorem returns_unlinkAt {k m : List (Handle × α)} {x : Handle} {a : α}
    (h : s.Live (k ++ (x, a) :: m)) (hs : s.Stamp v) {i : Nat} (hi : s.current? x = some i) :
    ∃ t gone, (Edit.unlinkAt i v).Returns s () t ∧ t.Live (k ++ m) ∧ Unlinks s t v x gone := by
  obtain ⟨t, ht, hl, hc, gone, hu⟩ :=
    Regime.returns_unlinkAt (R := .stamped α v) h.toShaped (h.changing hs) hi
  exact ⟨t, gone, ht, ⟨hl, hc.stamped⟩, hu⟩

/-! ## Stamps -/

/-- The store once the next stamp is drawn. -/
def minted (s : Store α) : Store α := { s with timeline := s.timeline.advance.2 }

theorem Live.retimed {l : List (Handle × α)} (h : s.Live l) {tl : Timeline} (ht : tl.Valid)
    (hle : s.timeline.modification ≤ tl.modification) (n : Nat) :
    ({ s with timeline := tl, snapshotsOpened := n } : Store α).Live l where
  toShaped := h.toShaped.retimed tl n
  stamped := {
    timeline := ht
    createdOn_le := fun hi => le_trans (h.stamped.createdOn_le hi) hle
    tag := fun hi => by
      obtain ⟨w, hw, hlt, hwm⟩ := h.stamped.tag hi
      exact ⟨w, hw, hlt, le_trans hwm hle⟩
    sorted := h.stamped.sorted }

theorem Live.minted_of_lt {l : List (Handle × α)} (h : s.Live l)
    (hv : s.timeline.modification < .max) :
    s.minted.Live l ∧ s.minted.Stamp s.timeline.advance.1 ∧ Changes s s.minted [] [] := by
  obtain ⟨htl, hm, hp⟩ := h.stamped.timeline.advance hv
  refine ⟨h.retimed htl s.timeline.modification_le_advance s.snapshotsOpened, ⟨hm.symm, ?_⟩, ?_,
    .of_eq rfl rfl rfl⟩
  · exact fun w hw => hp w (by simpa [Store.minted] using hw)
  · exact { Spares.refl s with markers := Timeline.advance_markers _ }

theorem Live.minted {l : List (Handle × α)} (h : s.Live l) (hv : s.timeline.advance.1 < .max) :
    s.minted.Live l ∧ s.minted.Stamp s.timeline.advance.1 ∧ Changes s s.minted [] [] :=
  h.minted_of_lt (lt_of_le_of_lt s.timeline.modification_le_advance (s.timeline.advance_fst ▸ hv))

/-! ## Unlinking -/

theorem fails_unlink {x : Handle} (hx : x.isSentinel = true) (s : Store α) :
    (Edit.unlink x).Fails s (.nodeNotPayload x) s := by
  unfold Edit.unlink
  rw [if_pos hx]
  exact (Edit.fails_throw _ s).bind

section Shaped

variable {l : List (Handle × α)} (h : s.Shaped l) {x : Handle}

include h

theorem returns_unlink_of_not_mem (hx : x.isSentinel = false) (hn : x ∉ l.map (·.1)) :
    (Edit.unlink x).Returns s false s := by
  unfold Edit.unlink
  rw [if_neg (by simp [hx])]
  refine (Edit.returns_get s).bind ?_
  rw [h.head?_eq_none hn]
  exact Edit.returns_pure _ s

/-- A linked node is unlinked with a stamp of its own. -/
theorem unlink_of_mem (hx : x ∈ l.map (·.1)) {i : Nat} (hi : s.current? x = some i) :
    Edit.unlink x s = (Edit.mint >>= fun v => do Edit.unlinkAt i v; return true) s := by
  have hpay := h.isSentinel hx
  unfold Edit.unlink
  rw [if_neg (by simp [hpay])]
  refine ((Edit.returns_get s).bind_apply _).trans ?_
  rw [(current?_of_payload hpay).symm.trans hi]

theorem returns_poll_of_nil (side : End) (hl : l = []) : (Edit.poll side).Returns s none s := by
  obtain ⟨i, hi, hs⟩ := h.outermost_nil side hl
  unfold Edit.poll
  refine (Edit.returns_ask hi).bind ((Edit.returns_get s).bind ?_)
  rw [if_pos hs]
  exact Edit.returns_pure none s

/-- The node at one end is unlinked with a stamp of its own. -/
theorem poll_of_outermost {side : End} {e : Handle × α} (he : side.outermost? l = some e) :
    ∃ i, s.current? e.1 = some i ∧ Edit.poll side s =
      (Edit.mint >>= fun v => do Edit.unlinkAt i v; return some e.2) s := by
  have hel := (rest_eq_filter h.nodup he).1
  obtain ⟨i, hi, ho⟩ := h.outermost side he
  refine ⟨i, hi, ?_⟩
  unfold Edit.poll
  refine ((Edit.returns_ask ho).bind_apply _).trans ?_
  change (if (s.links.get i).isSentinel = true then _ else _ : Edit α (Option α)) s = _
  rw [h.isSentinel_current (List.mem_map_of_mem hel) hi, ← h.element e hel, ← h.sound.owner hi]
  rfl

end Shaped

section Unlink

variable {l : List (Handle × α)} (h : s.Live l) {x : Handle}

include h

/-- The node of a pair is unlinked. -/
theorem returns_unlinkAt_of_mem (hx : x ∈ l.map (·.1)) {i : Nat} (hi : s.current? x = some i)
    (hs : s.Stamp v) :
    ∃ t gone, (Edit.unlinkAt i v).Returns s () t ∧ t.Live (l.filter (·.1 ≠ x)) ∧
      Unlinks s t v x gone := by
  obtain ⟨t, ht, hl, hc, gone, hu⟩ :=
    Regime.returns_unlinkAt_of_mem (R := .stamped α v) h.toShaped (h.changing hs) hx hi
  exact ⟨t, gone, ht, ⟨hl, hc.stamped⟩, hu⟩

/-- As a change of its own. -/
theorem returns_unlinkAt_minted (hx : x ∈ l.map (·.1)) {i : Nat} (hi : s.current? x = some i)
    (hv : s.timeline.advance.1 < .max) :
    ∃ t gone, (Edit.unlinkAt i s.timeline.advance.1).Returns s.minted () t ∧
      t.Live (l.filter (·.1 ≠ x)) ∧ Changes s t [] gone := by
  obtain ⟨hl, hst, hch⟩ := h.minted hv
  obtain ⟨t, gone, ht, hlt, hu⟩ := returns_unlinkAt_of_mem hl hx (i := i) hi hst
  exact ⟨t, gone, ht, hlt, hch.trans hu.toChanges⟩

theorem returns_unlink_of_mem (hx : x ∈ l.map (·.1))
    (hv : ((Edit.unlink x).after s).timeline.modification < .max) :
    ∃ t gone, (Edit.unlink x).Returns s true t ∧ t.Live (l.filter (·.1 ≠ x)) ∧
      Changes s t [] gone := by
  obtain ⟨i, hi⟩ := h.exists_current? hx
  have heq := unlink_of_mem h.toShaped hx hi
  have hv' := Edit.advance_lt_of_after heq
    (fun _ => (Edit.Built.bind (.unlinkAt i trivial) fun _ => .pure true).rises) hv
  obtain ⟨t, gone, ht, hlt, hch⟩ := returns_unlinkAt_minted h hx hi hv'
  refine ⟨t, gone, heq.trans ?_, hlt, hch⟩
  exact (Edit.returns_mint s).bind (ht.bind (Edit.returns_pure true t))

end Unlink

/-! ## Unlinking several nodes -/

theorem countP_cons_of_nodup {l : List (Handle × α)} (hnd : (l.map (·.1)).Nodup) (x : Handle)
    (xs : List Handle) :
    l.countP (·.1 ∈ x :: xs) =
      (if x ∈ l.map (·.1) then 1 else 0) + (l.filter (·.1 ≠ x)).countP (·.1 ∈ xs) := by
  induction l with
  | nil => simp
  | cons e l ih =>
    rw [List.map_cons, List.nodup_cons] at hnd
    have ih := ih hnd.2
    by_cases he : e.1 = x
    · have hx : x ∉ l.map (·.1) := he ▸ hnd.1
      rw [if_neg hx] at ih
      rw [List.countP_cons_of_pos (by simp [he]), ih, List.filter_cons_of_neg (by simp [he]),
        if_pos (by simp [he])]
      omega
    · rw [List.filter_cons_of_pos (by simpa using he)]
      have hx : x ∈ (e :: l).map (·.1) ↔ x ∈ l.map (·.1) := by
        simp only [List.map_cons, List.mem_cons, or_iff_right_iff_imp]
        exact fun h => absurd h.symm he
      rw [List.countP_cons, ih, List.countP_cons]
      simp only [hx, List.mem_cons, he, false_or]
      omega

theorem filter_cons_not_mem (l : List (Handle × α)) (x : Handle) (xs : List Handle) :
    l.filter (·.1 ∉ x :: xs) = (l.filter (·.1 ≠ x)).filter (·.1 ∉ xs) := by
  rw [List.filter_filter]
  refine List.filter_congr fun e _ => ?_
  simp only [List.mem_cons, not_or, ← Bool.decide_and, and_comm]

/-- One step of a fold of unlinkings. -/
def tally (n : Nat) (x : Handle) : Edit α Nat := do
  return if ← Edit.unlink x then n + 1 else n

theorem rises_tally (n : Nat) (x : Handle) : Edit.Rises (tally n x : Edit α Nat) :=
  (Edit.Built.bind (.unlink x) fun _ => by split <;> exact .pure _).rises

theorem returns_tallyAll : ∀ {xs : List Handle} {s : Store α} {l : List (Handle × α)} (c : Nat),
    s.Live l → (∀ x ∈ xs, x.isSentinel = false) →
      ((xs.foldlM tally c).after s).timeline.modification < .max →
      ∃ t gone, (xs.foldlM tally c).Returns s (c + l.countP (·.1 ∈ xs)) t ∧
        t.Live (l.filter (·.1 ∉ xs)) ∧ Changes s t [] gone := by
  intro xs
  induction xs with
  | nil =>
    intro s l c h _ _
    refine ⟨s, [], ?_, ?_, .refl s⟩
    · have hc : l.countP (fun e => e.1 ∈ ([] : List Handle)) = 0 := by simp
      rw [hc]
      exact Edit.returns_pure c s
    · have hf : l.filter (fun e => e.1 ∉ ([] : List Handle)) = l := by simp
      rw [hf]
      exact h
  | cons x xs ih =>
    intro s l c h hxs hv
    rw [List.foldlM_cons] at hv ⊢
    have hv1 : ((Edit.unlink x).after s).timeline.modification < .max := by
      refine lt_of_le_of_lt (le_trans ?_ (Edit.after_le_bind (fun n => ?_) s)) hv
      · exact Edit.after_le_bind (fun _ => by split <;> exact Below.lawful.of_pure _) s
      · exact Below.lawful.foldlM rises_tally xs n
    have hpay := hxs x (List.mem_cons_self ..)
    have hstep : ∃ b t gone, (Edit.unlink x).Returns s b t ∧
        b = decide (x ∈ l.map (·.1)) ∧ t.Live (l.filter (·.1 ≠ x)) ∧ Changes s t [] gone := by
      by_cases hx : x ∈ l.map (·.1)
      · obtain ⟨t, gone, ht, hl, hc⟩ := returns_unlink_of_mem h hx hv1
        exact ⟨true, t, gone, ht, by simp [hx], hl, hc⟩
      · have hf : l.filter (fun e => decide (e.1 ≠ x)) = l :=
          List.filter_eq_self.2 fun e he => by
            simpa using fun e' : e.1 = x => hx (e' ▸ List.mem_map_of_mem he)
        refine ⟨false, s, [], returns_unlink_of_not_mem h.toShaped hpay hx, by simp [hx], ?_,
          .refl s⟩
        rw [hf]
        exact h
    obtain ⟨b, t, gone, ht, hb, hl, hc⟩ := hstep
    have htally : (tally c x).Returns s (if b then c + 1 else c) t :=
      ht.bind (by split <;> exact Edit.returns_pure _ t)
    rw [htally.after_bind] at hv
    obtain ⟨u, gone', hu, hlu, hcu⟩ :=
      ih _ hl (fun y hy => hxs y (List.mem_cons_of_mem _ hy)) hv
    refine ⟨u, gone ++ gone', ?_, ?_, hc.trans hcu⟩
    · rw [countP_cons_of_nodup h.nodup]
      have := Edit.Returns.bind (f := fun n => xs.foldlM tally n) htally hu
      subst hb
      by_cases hx : x ∈ l.map (·.1)
      · simp only [hx, decide_true, if_true] at this ⊢
        rw [← Nat.add_assoc]
        exact this
      · simp only [hx, decide_false, Bool.false_eq_true, if_false, Nat.zero_add] at this ⊢
        exact this
    · rw [filter_cons_not_mem]
      exact hlu

section UnlinkEach

variable {l : List (Handle × α)} (h : s.Live l) {xs : List Handle}
  (hxs : ∀ x ∈ xs, x.isSentinel = false)

include h hxs

theorem returns_unlinkEach (hv : ((Edit.unlinkEach xs).after s).timeline.modification < .max) :
    ∃ t gone, (Edit.unlinkEach xs).Returns s (l.countP (·.1 ∈ xs)) t ∧
      t.Live (l.filter (·.1 ∉ xs)) ∧ Changes s t [] gone := by
  obtain ⟨t, gone, ht, hl, hc⟩ := returns_tallyAll 0 h hxs hv
  rw [Nat.zero_add] at ht
  exact ⟨t, gone, ht, hl, hc⟩

/-- A sentinel among the nodes stops the others behind it. -/
theorem fails_unlinkEach {x : Handle} {ys : List Handle} (hx : x.isSentinel = true)
    (hv : ((Edit.unlinkEach (xs ++ x :: ys)).after s).timeline.modification < .max) :
    ∃ t gone, (Edit.unlinkEach (xs ++ x :: ys)).Fails s (.nodeNotPayload x) t ∧
      t.Live (l.filter (·.1 ∉ xs)) ∧ Changes s t [] gone := by
  change (((xs ++ x :: ys).foldlM tally 0).after s).timeline.modification < .max at hv
  rw [List.foldlM_append] at hv
  have hv' := lt_of_le_of_lt
    (Edit.after_le_bind (fun n => Below.lawful.foldlM rises_tally (x :: ys) n) s) hv
  obtain ⟨t, gone, ht, hl, hc⟩ := returns_tallyAll 0 h hxs hv'
  refine ⟨t, gone, ?_, hl, hc⟩
  change ((xs ++ x :: ys).foldlM tally 0).Fails s _ t
  rw [List.foldlM_append]
  refine ht.bind_fails ?_
  rw [List.foldlM_cons]
  exact (fails_unlink hx t).bind.bind

end UnlinkEach

/-! ## Polling -/

section Outermost

variable {l : List (Handle × α)} (h : s.Live l) (side : End)

include h

theorem returns_poll (hv : ((Edit.poll side).after s).timeline.modification < .max) :
    ∃ t gone, (Edit.poll side).Returns s ((side.outermost? l).map (·.2)) t ∧
      t.Live (side.rest l) ∧ Changes s t [] gone := by
  cases he : side.outermost? l with
  | none =>
    have hl := End.outermost?_eq_none he
    refine ⟨s, [], returns_poll_of_nil h.toShaped side hl, ?_, .refl s⟩
    subst hl
    cases side <;> exact h
  | some e =>
    obtain ⟨hel, hrest⟩ := rest_eq_filter h.nodup he
    obtain ⟨i, hi, heq⟩ := poll_of_outermost h.toShaped he
    have hv' := Edit.advance_lt_of_after heq
      (fun _ => (Edit.Built.bind (.unlinkAt i trivial) fun _ => .pure _).rises) hv
    obtain ⟨t, gone, ht, hlt, hc⟩ := returns_unlinkAt_minted h (List.mem_map_of_mem hel) hi hv'
    refine ⟨t, gone, heq.trans ?_, by rw [hrest]; exact hlt, hc⟩
    exact (Edit.returns_mint s).bind (ht.bind (Edit.returns_pure _ t))

end Outermost

/-! ## Unlinking everything -/

section UnlinkEverything

variable {l : List (Handle × α)} (h : s.Live l)

include h

theorem returns_unlinkEverything (hs : s.Stamp v) :
    ∃ t gone, (Edit.unlinkEverything v).Returns s l.length t ∧ t.Live [] ∧
      Amends s t [] gone := by
  obtain ⟨t, ht, hl, hc, hu⟩ :=
    Regime.returns_unlinkEverything (R := .stamped α v) h.toShaped (h.changing hs)
  obtain ⟨gone, ha⟩ := hu.clears
  exact ⟨t, gone, ht, ⟨hl, hc.stamped⟩, ha⟩

theorem returns_clear (hv : (Edit.clear.after s).timeline.modification < .max) :
    ∃ t gone, Edit.clear.Returns s l.length t ∧ t.Live [] ∧ Changes s t [] gone := by
  have hv' := Edit.advance_lt_of_after (f := Edit.unlinkEverything) rfl
    (fun _ => (Edit.Built.unlinkEverything trivial).rises) hv
  obtain ⟨hl, hst, hch⟩ := h.minted hv'
  obtain ⟨t, gone, ht, hlt, ham⟩ := returns_unlinkEverything hl hst
  exact ⟨t, gone, (Edit.returns_mint s).bind ht, hlt, hch.trans ham.toChanges⟩

end UnlinkEverything

end SnapshotDeque.Store
