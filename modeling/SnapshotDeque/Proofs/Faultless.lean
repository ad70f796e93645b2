import SnapshotDeque.Proofs.World

/-!
No change of a deque ends in an internal failure, but for the one that refuses a node its slot when
all of them are taken: the walks never leave the list, no link is superseded twice, and the two ends
agree on what is between them.
-/

namespace SnapshotDeque

/-- An internal failure. -/
def Error.isInternal : Error → Bool
  | internal _ => true
  | _ => false

/-- Any failure but an internal one, or, where `n` slots are made, that a deque needs more of them
than there can be. -/
def Error.Expected (n : Nat) (e : Error) : Prop :=
  e.isInternal = false ∨ e = Arena.exhausted ∧ Arena.slotLimit ≤ n

namespace Mutation

variable {α ρ : Type}

theorem Acts.isInternal_eq_false {m : Mutation α ρ} {cap : Nat} {vacant : Handle → Prop}
    {l l' : List (Handle × α)} {r : Except Error ρ} (h : m.Acts cap vacant l r l') {e : Error}
    (he : r = .error e) : e.isInternal = false := by
  subst he
  cases m with
  | insert a side =>
    by_cases hn : cap < l.length + 1
    · obtain ⟨he, _⟩ := (if_pos hn).mp h
      cases he
      rfl
    · obtain ⟨x, _, he, _⟩ := (if_neg hn).mp h
      cases he
  | insertAll as side =>
    by_cases hn : cap < l.length + as.length
    · obtain ⟨he, _⟩ := (if_pos hn).mp h
      cases he
      rfl
    · obtain ⟨es, _, _, he, _⟩ := (if_neg hn).mp h
      cases he
  | unlink x =>
    by_cases hx : x.isSentinel = true
    · obtain ⟨he, _⟩ := (if_pos hx).mp h
      cases he
      rfl
    · obtain ⟨he, _⟩ := (if_neg hx).mp h
      cases he
  | unlinkEach xs =>
    simp only [Acts] at h
    split at h
    · obtain ⟨he, _⟩ := h
      cases he
      rfl
    · obtain ⟨he, _⟩ := h
      cases he
  | openSnapshot => obtain ⟨⟨w, he, _⟩, _⟩ := h; cases he
  | openPolled limit => obtain ⟨⟨w, he, _⟩, _⟩ := h; cases he
  | closeSnapshot id v => obtain ⟨⟨p, he⟩, _⟩ := h; cases he
  | reclaim => obtain ⟨⟨p, he⟩, _⟩ := h; cases he
  | dispose => cases h
  | poll side => obtain ⟨he, _⟩ := h; cases he
  | clear => obtain ⟨he, _⟩ := h; cases he
  | settle => obtain ⟨he, _⟩ := h; cases he
  | observe on => obtain ⟨he, _⟩ := h; cases he

end Mutation

namespace World

variable {α ρ : Type} {c : Config} {w : World α} {m : Mutation α ρ}

/-- The one internal failure there is comes from a deque that needs more slots than there are. -/
theorem Reached.error_of_run (hr : Reached c w) (hp : w.Permits m)
    (hv : (w.after m).store.timeline.modification < .max) {e : Error}
    (he : (m.run w.store).1 = .error e) :
    e.isInternal = false ∨ e = Arena.exhausted ∧ ¬ m.Fits w.store ∧
      (w.after m).store.arena.slots.size = Arena.slotLimit := by
  cases hd : w.store.disposed with
  | true =>
    cases m with
    | observe on => cases he
    | _ =>
      rw [Mutation.run_of_disposed hd rfl] at he
      cases he
      exact Or.inl rfl
  | false =>
    cases hm : m.disposes with
    | true =>
      obtain ⟨⟨a, ha⟩, _⟩ := Mutation.run_of_disposes hd hm
      rw [ha] at he
      cases he
    | false =>
      obtain ⟨l, hw⟩ := hr.coherent hd
      obtain ⟨l', _, ha | ⟨hx, hf, hs⟩⟩ := (hw.after_outcome hp hv hm).acts
      · exact Or.inl (ha.isInternal_eq_false he)
      · rw [hx] at he
        cases he
        exact Or.inr ⟨rfl, hf, hs⟩

end World

end SnapshotDeque
