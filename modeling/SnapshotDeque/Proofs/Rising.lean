import SnapshotDeque.Proofs.Obeying

/-!
Neither the modification version nor a slot of the arena is ever taken back, whether an edit returns
or fails. So bounds on them after a run hold at every moment of the run.
-/

namespace SnapshotDeque

namespace Store

variable {α : Type} {s t u : Store α}

/-- From `s` to `t` neither the modification version nor a slot is taken back. -/
structure Below (s t : Store α) : Prop where
  modification : s.timeline.modification ≤ t.timeline.modification
  slots : s.arena.slots.size ≤ t.arena.slots.size

theorem Below.refl (s : Store α) : s.Below s := ⟨le_refl _, Nat.le_refl _⟩

theorem Below.trans (h : s.Below t) (h' : t.Below u) : s.Below u :=
  ⟨le_trans h.modification h'.modification, Nat.le_trans h.slots h'.slots⟩

theorem Below.of_eq (ht : t.timeline = s.timeline)
    (hs : s.arena.slots.size ≤ t.arena.slots.size) : s.Below t :=
  ⟨by rw [ht], hs⟩

/-- There are versions left, and there are no more than `n` slots. -/
structure Within (n : Nat) (s : Store α) : Prop where
  modification : s.timeline.modification < .max
  slots : s.arena.slots.size ≤ n

theorem Below.within {n : Nat} (h : s.Below t) (ht : t.Within n) : s.Within n :=
  ⟨lt_of_le_of_lt h.modification ht.modification, Nat.le_trans h.slots ht.slots⟩

theorem Below.lawful : Edit.Lawful (Below (α := α)) fun _ => True where
  refl := .refl
  trans := .trans
  other _ ht hs := .of_eq ht hs
  links _ _ := .of_eq rfl (Nat.le_refl _)
  grow _ _ _ := .of_eq rfl (Nat.le_refl _)
  mint {s _} h := ⟨le_trans s.timeline.modification_le_advance (h trivial).modification,
    (h trivial).slots⟩
  pin _ _ := ⟨le_refl _, Nat.le_refl _⟩

theorem regular_timeline :
    Edit.Regular fun s t : Store α => t.timeline = s.timeline where
  refl _ := rfl
  trans h h' := h'.trans h
  other _ ht _ := ht
  links _ _ := rfl

@[simp] theorem timeline_reclaim (s : Store α) (budget : Nat) :
    (s.reclaim budget).2.timeline = s.timeline := regular_timeline.reclaim s budget

@[simp] theorem timeline_reclaimPending (s : Store α) :
    s.reclaimPending.timeline = s.timeline := regular_timeline.reclaimPending s

theorem modification_closeSnapshot (s : Store α) (id : SnapshotId) (v : Version) :
    (s.closeSnapshot id v).2.timeline.modification = s.timeline.modification := by
  have hun := Timeline.unpin_modification s.timeline v id
  unfold closeSnapshot
  split
  next wasLast timeline hu =>
  rw [hu] at hun
  cases wasLast with
  | true => exact (congrArg Timeline.modification (timeline_reclaim _ _)).trans hun
  | false => exact hun

theorem below_closeSnapshot (s : Store α) (id : SnapshotId) (v : Version) :
    s.Below (s.closeSnapshot id v).2 := by
  refine ⟨le_of_eq (modification_closeSnapshot s id v).symm, ?_⟩
  unfold closeSnapshot
  split
  next wasLast timeline _ =>
  cases wasLast with
  | true => exact (Below.lawful.reclaim { s with timeline } s.config.reclaimBatch).slots
  | false => exact Nat.le_refl _

end Store

namespace Edit

open Store (Below)

variable {α ρ σ : Type}

/-- Whatever `x` comes to, the modification version and the slots are not less than before. -/
abbrev Rises (x : Edit α ρ) : Prop := Obeys Below x

theorem Built.rises {k : Traffic} {x : Edit α ρ} (h : Built k (fun _ => True) x) : Rises x :=
  Below.lawful.of_built h

theorem rises_effect (m : Mutation α ρ) : Rises m.effect := by
  cases hm : m.reclaimsFirst with
  | true => exact Below.lawful.of_effect hm fun _ => Store.below_closeSnapshot
  | false =>
    cases m with
    | dispose =>
      exact obeys_modify fun s => ⟨le_refl _, Nat.le_of_eq (by simp [Store.dispose, Arena.drain])⟩
    | observe on => exact obeys_modify fun _ => .of_eq rfl (Nat.le_refl _)
    | _ => cases hm

/-- No change takes the modification version or a slot back. -/
theorem below_run (m : Mutation α ρ) (s : Store α) : s.Below (m.run s).2 := by
  unfold Mutation.run
  split
  · exact .refl s
  · have hr := rises_effect m (if m.reclaimsFirst then s.reclaimPending else s)
    have ht : s.Below (if m.reclaimsFirst then s.reclaimPending else s) := by
      split
      · exact Below.lawful.reclaimPending s
      · exact .refl s
    have hr := ht.trans hr
    unfold Edit.after at hr
    dsimp only
    split <;> rename_i h <;> rw [h] at hr <;> exact hr

theorem after_le_bind {x : Edit α ρ} {f : ρ → Edit α σ} (hf : ∀ a, Rises (f a)) (s : Store α) :
    (x.after s).timeline.modification ≤ ((x >>= f).after s).timeline.modification := by
  rcases after_bind x f s with ⟨a, t, ht, he⟩ | ⟨e, t, ht, he⟩
  · rw [he, ht.after]
    exact (hf a t).modification
  · rw [he, ht.after]

theorem lt_of_after {x : Edit α ρ} {s : Store α} {w : Version} (hx : Rises x)
    (hw : (x.after s).timeline.modification < w) : s.timeline.modification < w :=
  lt_of_le_of_lt (hx s).modification hw

/-- A change that starts with a new stamp ends on a modification version that is no less. -/
theorem advance_lt_of_after {x : Edit α ρ} {f : Version → Edit α ρ} {s : Store α} {w : Version}
    (hx : x s = (Edit.mint >>= f) s) (hf : ∀ v, Rises (f v))
    (hw : (x.after s).timeline.modification < w) : s.timeline.advance.1 < w := by
  have hr := hf s.timeline.advance.1 { s with timeline := s.timeline.advance.2 }
  have he : x.after s = (Edit.mint >>= f).after s := by unfold Edit.after; rw [hx]
  rw [he] at hw
  refine lt_of_le_of_lt ?_ hw
  rcases after_bind Edit.mint f s with ⟨v, t, ht, he⟩ | ⟨e, t, ht, he⟩
  · rw [he]
    cases ht
    rw [Timeline.advance_fst]
    exact hr.modification
  · cases ht

end Edit

end SnapshotDeque
