import SnapshotDeque.Proofs.Insertion
import SnapshotDeque.Proofs.Sweeping

/-!
Linking several elements at once and one by one. All at once they get one stamp, drawn ahead of all,
and their number is held against the capacity; one by one each draws a stamp and is held against it
alone. Main statement: what is not refused for its number comes to the same, to the last pointer.
-/

namespace SnapshotDeque

namespace Edit

variable {α ρ σ : Type}

/-- Inserts one element after the other, in such an order that they end up as they are given. -/
def insertEach (elements : List α) (side : End) : Edit α (List Handle) :=
  inOrder (insert · side) elements side

end Edit

namespace Store

variable {α : Type} {s t : Store α} {v : Version} {l : List (Handle × α)}

/-! ## One by one -/

/-- An insertion whose stamp is drawn already. -/
theorem insert_of_drawn (h : s.Shaped l) (hv : s.Drawn v) (hn : l.length + 1 ≤ s.capacity) (a : α)
    (side : End) : Edit.insert a side s = Edit.splice a side v s := by
  rw [insert_apply side h a hn, (Edit.returns_mint s).bind_apply, hv]

/-- It makes no difference to an insertion that its stamp is drawn already. -/
theorem insert_minted (h : s.Shaped l) (hn : l.length + 1 ≤ s.capacity) (a : α) (side : End) :
    Edit.insert a side s.minted = Edit.insert a side s := by
  rw [insert_of_drawn (s := s.minted) (h.retimed _ _) (drawn_minted s) hn]
  exact ((insert_apply side h a hn).trans ((Edit.returns_mint s).bind_apply _)).symm

theorem mapM_insert_minted (h : s.Shaped l) (side : End) {as : List α} (has : as ≠ [])
    (hn : l.length + 1 ≤ s.capacity) :
    (as.mapM (Edit.insert · side)) s.minted = (as.mapM (Edit.insert · side)) s := by
  obtain ⟨a, as, rfl⟩ := List.exists_cons_of_ne_nil has
  rw [List.mapM_cons]
  exact Edit.bind_congr_apply (insert_minted h hn a side) _

/-- By induction on the elements: each is put there under the stamp that is drawn, and the list
grows by one, if there is a slot for it. -/
theorem mapM_insert_of_drawn (side : End) : ∀ (as : List α) {s : Store α}
    {l : List (Handle × α)}, s.Shaped l → s.Changing v [] → s.Drawn v →
    l.length + as.length ≤ s.capacity →
    (as.mapM (Edit.insert · side)) s = (as.mapM (Edit.splice · side v)) s := by
  intro as
  induction as with
  | nil => exact fun _ _ _ _ => rfl
  | cons a as ih =>
    intro s l h hc hv hn
    rw [List.length_cons] at hn
    have heq := insert_of_drawn h hv (by omega) a side
    rw [List.mapM_cons, List.mapM_cons]
    rcases Regime.splice_spec (R := .stamped α v) h hc a side with
      ⟨x, t, ht, hl, hct, hi, _⟩ | ⟨hf, -⟩
    · have hcap : t.capacity = s.capacity := congrArg Config.effectiveCapacity hi.spares.config
      rw [Edit.Returns.bind_apply (heq.trans ht), ht.bind_apply]
      refine Edit.bind_congr_apply (ih hl hct (hv.congr hi.timeline) ?_) _
      rw [End.length_add, List.length_singleton, hcap]
      omega
    · exact (Edit.Fails.bind (heq.trans hf)).trans hf.bind.symm

theorem insertEach_minted (h : s.Shaped l) (side : End) {as : List α} (has : as ≠ [])
    (hn : l.length + 1 ≤ s.capacity) :
    Edit.insertEach as side s.minted = Edit.insertEach as side s := by
  cases side with
  | first =>
    have hr : as.reverse ≠ [] := fun hr => has (List.reverse_eq_nil_iff.1 hr)
    exact Edit.bind_congr_apply (mapM_insert_minted h .first hr hn) _
  | last => exact mapM_insert_minted h .last has hn

theorem insertEach_of_drawn (h : s.Shaped l) (hc : s.Changing v []) (hv : s.Drawn v) (side : End)
    (as : List α) (hn : l.length + as.length ≤ s.capacity) :
    Edit.insertEach as side s = Edit.inOrder (Edit.splice · side v) as side s := by
  cases side with
  | first =>
    rw [← as.length_reverse] at hn
    exact Edit.bind_congr_apply (mapM_insert_of_drawn .first as.reverse h hc hv hn) _
  | last => exact mapM_insert_of_drawn .last as h hc hv hn

/-! ## All at once -/

section Fill

variable (h : s.Live l) (hm : s.timeline.modification < .max) (as : List α) (side : End)
  (hn : l.length + as.length ≤ s.capacity)

include h hm hn

theorem insertAll_eq_insertEach : Edit.insertAll as side s = Edit.insertEach as side s := by
  by_cases has : as = []
  · subst has
    rw [insertAll_nil side h.toShaped hn]
    cases side <;> rfl
  · obtain ⟨hl, hst, -⟩ := h.minted_of_lt hm
    have hpos := List.length_pos_iff.2 has
    rw [insertAll_apply side h.toShaped has hn, (Edit.returns_mint s).bind_apply,
      ← insertEach_minted h.toShaped side has (by omega)]
    exact (insertEach_of_drawn hl.toShaped (hl.changing hst) (drawn_minted s) side as hn).symm

end Fill

/-- Inserting several elements at once comes to what inserting them one by one comes to, but that
they are refused together if they do not all fit. -/
structure FillsAlike (s : Store α) (as : List α) (side : End) : Prop where
  refused_iff : (∃ n t, (Edit.insertAll as side).Fails s (.capacityExceeded n) t) ↔
    s.capacity < s.length + as.length
  refused : s.capacity < s.length + as.length →
    (Edit.insertAll as side).Fails s (.capacityExceeded s.capacity) s
  /-- The same answer, and the same store. -/
  alike : s.length + as.length ≤ s.capacity →
    Edit.insertAll as side s = Edit.insertEach as side s
  /-- The elements come in at the end, unless the arena runs out of slots. -/
  entries : s.length + as.length ≤ s.capacity →
    (∃ es t, es.map (·.2) = as ∧ (Edit.insertAll as side).Returns s (es.map (·.1)) t ∧
        t.entries = side.add es s.entries) ∨
      ∃ t, (Edit.insertAll as side).Fails s Arena.exhausted t ∧
        Arena.slotLimit < s.arena.size + as.length + 2

theorem Live.fillsAlike (h : s.Live l) (hm : s.timeline.modification < .max) (as : List α)
    (side : End) : s.FillsAlike as side := by
  have hentries : s.length + as.length ≤ s.capacity →
      (∃ es t, es.map (·.2) = as ∧ (Edit.insertAll as side).Returns s (es.map (·.1)) t ∧
        t.entries = side.add es s.entries) ∨
      ∃ t, (Edit.insertAll as side).Fails s Arena.exhausted t ∧
        Arena.slotLimit < s.arena.size + as.length + 2 := by
    intro hn
    rw [h.length_eq] at hn
    rcases insertAll_spec h side as hn hm with
      ⟨es, t, hes, ht, hl, -⟩ | ⟨t, -, -, hf, -, -, -, -, hfull⟩
    · exact Or.inl ⟨es, t, hes, ht, by rw [hl.entries, h.entries]⟩
    · exact Or.inr ⟨t, hf, hfull⟩
  have hrefused : s.capacity < s.length + as.length →
      (Edit.insertAll as side).Fails s (.capacityExceeded s.capacity) s := by
    rw [h.length_eq]
    exact fails_insertAll h side as
  refine ⟨⟨?_, fun hn => ⟨_, _, hrefused hn⟩⟩, hrefused, fun hn => ?_, hentries⟩
  · rintro ⟨n, t, hf⟩
    by_contra hn
    unfold Edit.Fails at hf
    rcases hentries (Nat.le_of_not_lt hn) with ⟨es, u, -, ht, -⟩ | ⟨u, hx, -⟩
    · rw [ht] at hf
      cases hf
    · rw [hx] at hf
      cases hf
  · rw [h.length_eq] at hn
    exact insertAll_eq_insertEach h hm as side hn

end Store

namespace World

variable {α : Type} {c : Config} {w : World α}

/-- Elements that are not too many may come in all at once or one by one. -/
theorem insertAll_matches_inserts (h : Reached c w) (ho : w.store.disposed = false) (as : List α)
    (side : End) : w.store.FillsAlike as side := by
  obtain ⟨l, hw⟩ := h.coherent ho
  exact hw.live.fillsAlike h.modification_lt as side

/-- A snapshot is open, and the element that it shows has others put before it. -/
theorem single_fills_alike :
    single.store.disposed = false ∧ single.store.entries = [(⟨2, 0⟩, 7)] ∧
      single.store.FillsAlike [8, 9] .first :=
  ⟨by decide, by decide +kernel, insertAll_matches_inserts reached_single (by decide) [8, 9] .first⟩

end World

end SnapshotDeque
