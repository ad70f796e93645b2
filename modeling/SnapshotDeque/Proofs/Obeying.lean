import SnapshotDeque.Proofs.Anatomy

/-!
Relations between the store before an edit and the store after it, whether the edit returns or
fails. A relation that the few kinds of elementary steps keep is kept by every edit that is built of
them: `Lawful` lists what is asked of the relation, and `Lawful.of_built` draws the conclusion.
-/

namespace SnapshotDeque

def Mutation.closes {α ρ : Type} : Mutation α ρ → Bool
  | closeSnapshot _ _ => true
  | _ => false

namespace Edit

variable {α ρ σ : Type}

/-- The store that an edit leaves, whatever it comes to. -/
def after (x : Edit α ρ) (s : Store α) : Store α :=
  match x s with
  | .ok _ t => t
  | .error _ t => t

/-- Whatever `x` comes to, the store before it is related to the store after it. -/
def Obeys (R : Store α → Store α → Prop) (x : Edit α ρ) : Prop := ∀ s, R s (x.after s)

/-- The relation `R` is kept by sequences of what keeps it. -/
structure Composes (R : Store α → Store α → Prop) : Prop where
  refl : ∀ s, R s s
  trans : ∀ {s t u}, R s t → R t u → R s u

/-- The relation `R` is kept by the elementary steps that make no link and leave the versions as
they are. -/
structure Regular (R : Store α → Store α → Prop) : Prop extends Composes R where
  /-- What is not about links and versions may change in any way, as long as no slot is lost. -/
  other : ∀ {s t}, t.links = s.links → t.timeline = s.timeline →
    s.arena.slots.size ≤ t.arena.slots.size → R s t
  links : ∀ {s l}, l.size = s.links.size →
    (∀ i, (l.get i).createdOn = (s.links.get i).createdOn) → R s { s with links := l }

/-- The relation `R` is kept by all elementary steps. Links are only made with stamps of which `P`
holds, and `P` may be taken to hold of what a step mints. -/
structure Lawful (R : Store α → Store α → Prop) (P : Version → Prop) : Prop
    extends Regular R where
  grow : ∀ {s l}, P (l.get s.links.size).createdOn → l.size = s.links.size + 1 →
    (∀ i, i < s.links.size → (l.get i).createdOn = (s.links.get i).createdOn) →
    R s { s with links := l }
  mint : ∀ {s t}, (P s.timeline.advance.1 → R { s with timeline := s.timeline.advance.2 } t) →
    R s t
  pin : ∀ s id, R s { s with timeline := (s.timeline.pin id).2 }

theorem after_congr {x y : Edit α ρ} {s t : Store α} (h : x s = y t) : x.after s = y.after t := by
  unfold Edit.after
  rw [h]

theorem Returns.after {x : Edit α ρ} {s t : Store α} {a : ρ} (h : Returns x s a t) :
    x.after s = t := by
  unfold Edit.after
  rw [h]

theorem Fails.after {x : Edit α ρ} {s t : Store α} {e : Error} (h : Fails x s e t) :
    x.after s = t := by
  unfold Edit.after
  rw [h]

theorem Returns.after_bind {x : Edit α ρ} {s t : Store α} {a : ρ} (h : Returns x s a t)
    (f : ρ → Edit α σ) : (x >>= f).after s = (f a).after t := by
  unfold Edit.after
  rw [h.bind_apply]

theorem after_bind (x : Edit α ρ) (f : ρ → Edit α σ) (s : Store α) :
    (∃ a t, Returns x s a t ∧ (x >>= f).after s = (f a).after t) ∨
      ∃ e t, Fails x s e t ∧ (x >>= f).after s = t := by
  cases h : x s with
  | ok a t => exact Or.inl ⟨a, t, h, Returns.after_bind h f⟩
  | error e t =>
    exact Or.inr ⟨e, t, h, (Fails.bind h).after⟩

theorem obeys_modify {R : Store α → Store α → Prop} {f : Store α → Store α}
    (h : ∀ s : Store α, R s (f s)) : Obeys R (modify f : Edit α Unit) := h

theorem obeys_modifyGet {R : Store α → Store α → Prop} {f : Store α → ρ × Store α}
    (h : ∀ s : Store α, R s (f s).2) : Obeys R (modifyGet f : Edit α ρ) := h

namespace Composes

variable {R : Store α → Store α → Prop} (hR : Composes R)

include hR

theorem bind {x : Edit α ρ} {f : ρ → Edit α σ} (hx : Obeys R x) (hf : ∀ a, Obeys R (f a)) :
    Obeys R (x >>= f) := by
  intro s
  have hs := hx s
  rcases after_bind x f s with ⟨a, t, ht, he⟩ | ⟨e, t, ht, he⟩
  · rw [he]
    rw [ht.after] at hs
    exact hR.trans hs (hf a t)
  · rw [he]
    rw [ht.after] at hs
    exact hs

theorem of_pure (a : ρ) : Obeys R (pure a : Edit α ρ) := fun s => hR.refl s

theorem of_get : Obeys R (get : Edit α (Store α)) := fun s => hR.refl s

theorem of_throw (e : Error) : Obeys R (throw e : Edit α ρ) := fun s => hR.refl s

theorem of_ask (f : Store α → Except Error ρ) : Obeys R (Edit.ask f) := by
  intro s
  cases h : f s with
  | ok a =>
    rw [(returns_ask h).after]
    exact hR.refl s
  | error e =>
    rw [(fails_ask h).after]
    exact hR.refl s

theorem foldlM {β : Type} {f : ρ → β → Edit α ρ} (h : ∀ a b, Obeys R (f a b)) :
    ∀ (bs : List β) (a : ρ), Obeys R (bs.foldlM f a) := by
  intro bs
  induction bs with
  | nil => exact hR.of_pure
  | cons b bs ih => exact fun a => hR.bind (h a b) ih

theorem mapM {β : Type} {f : β → Edit α ρ} (h : ∀ b, Obeys R (f b)) :
    ∀ bs : List β, Obeys R (bs.mapM f) := by
  intro bs
  induction bs with
  | nil =>
    rw [List.mapM_nil]
    exact hR.of_pure _
  | cons b bs ih =>
    rw [List.mapM_cons]
    exact hR.bind (h b) fun _ => hR.bind ih fun _ => hR.of_pure _

/-- A part of the store is put back that was made from what it was. -/
theorem of_ask_modify {f : Store α → Except Error ρ} {g : ρ → Store α → Store α}
    {k : ρ → Edit α σ} (h : ∀ s a, f s = .ok a → R s (g a s)) (hk : ∀ a, Obeys R (k a)) :
    Obeys R (Edit.ask f >>= fun a => (modify (g a) : Edit α Unit) >>= fun _ => k a) := by
  intro s
  cases ha : f s with
  | ok a =>
    rw [(returns_ask ha).after_bind, (returns_modify (g a) s).after_bind]
    exact hR.trans (h s a ha) (hk a _)
  | error e =>
    rw [((fails_ask ha).bind).after]
    exact hR.refl s

theorem checkCapacity (n : Nat) : Obeys R (Edit.checkCapacity n : Edit α Unit) := by
  unfold Edit.checkCapacity
  refine hR.bind hR.of_get fun s => ?_
  split
  · exact hR.of_throw _
  · exact hR.of_pure _

/-- What is built of steps that keep the relation keeps it. -/
theorem of_built {k : Traffic} {P : Version → Prop}
    (step : ∀ {s t}, Store.Step k P s t → R s t)
    (mint : ∀ {s t}, (P s.timeline.advance.1 → R { s with timeline := s.timeline.advance.2 } t) →
      R s t)
    (emit : ∀ (e : Event α) (s : Store α), R s (s.emit e))
    (release : k = .going → ∀ (s : Store α) (i : Nat),
      R s { (s.release {} i).1 with
        totals := (s.release {} i).1.totals.recordReleased (s.release {} i).2 })
    {x : Edit α ρ} (h : Built k P x) : Obeys R x := by
  induction h with
  | pure a => exact hR.of_pure a
  | fail e => exact hR.of_throw e
  | ask _ => exact hR.of_ask _
  | look _ _ ih => exact hR.bind hR.of_get ih
  | bind _ _ ih ih' => exact hR.bind ih ih'
  | @mint ρ f _ ih =>
    intro s
    rw [(returns_mint s).after_bind]
    exact mint fun hv => ih _ hv _
  | step _ hs => exact obeys_modifyGet fun s => step (hs s)
  | askStep _ _ hs _ ih => exact hR.of_ask_modify (fun s a ha => step (hs s a ha)) ih
  | emit e => exact obeys_modify (emit e)
  | release hk i => exact obeys_modify fun s => release hk s i

end Composes

namespace Regular

variable {R : Store α → Store α → Prop} (hR : Regular R)

include hR

theorem emit (e : Event α) (s : Store α) : R s (Store.emit e s) := by
  unfold Store.emit
  split
  · exact hR.other rfl rfl (Nat.le_refl _)
  · exact hR.refl s

theorem disposeNode (x : Handle) (s : Store α) (p : Pass) : R s (Store.disposeNode x s p).1 := by
  unfold Store.disposeNode
  split
  · split
    · split
      · rename_i n arena h
        obtain ⟨_, _, he⟩ := Option.map_eq_some_iff.1 h
        cases he
        have hv : R s { s with arena := s.arena.vacated x } :=
          hR.other rfl rfl (Nat.le_of_eq Arena.slots_size_vacated.symm)
        exact hR.trans hv (hR.emit _ _)
      · exact hR.refl s
    · exact hR.refl s
  · exact hR.refl s

theorem release (s : Store α) (p : Pass) (i : Nat) : R s (s.release p i).1 := by
  have hcut : R s { s with links := s.links.release i } :=
    hR.links (LinkTable.size_release ..) (LinkTable.createdOn_release _ _)
  have hcount : R { s with links := s.links.release i } { s with
      links := s.links.release i
      arena := s.arena.modify (s.owner i) fun n => { n with liveLinks := n.liveLinks - 1 } } :=
    hR.other rfl rfl (Nat.le_of_eq (Arena.slots_size_modify ..).symm)
  exact hR.trans (hR.trans hcut hcount) (hR.disposeNode _ _ _)

theorem reclaim (s : Store α) (budget : Nat) : R s (s.reclaim budget).2 := by
  have hfold : ∀ (due : List Nat) (x : Store α × Pass),
      R x.1 (due.foldl (fun x i => x.1.release x.2 i) x).1 := by
    intro due
    induction due with
    | nil => exact fun x => hR.refl x.1
    | cons i due ih => exact fun x => hR.trans (hR.release x.1 x.2 i) (ih _)
  unfold Store.reclaim
  split
  · exact hR.refl s
  · have hrest : R s { s with obsolete := s.obsolete.drop (s.due budget).length } :=
      hR.other rfl rfl (Nat.le_refl _)
    exact hR.trans (hR.trans hrest (hfold (s.due budget) (_, {})))
      (hR.other rfl rfl (Nat.le_refl _))

theorem reclaimPending (s : Store α) : R s s.reclaimPending := by
  unfold Store.reclaimPending
  split
  · exact hR.reclaim s _
  · exact hR.refl s

end Regular

namespace Lawful

variable {R : Store α → Store α → Prop} {P : Version → Prop} (hR : Lawful R P)

include hR

theorem of_step {k : Traffic} {s t : Store α} (h : Store.Step k P s t) : R s t := by
  cases h with
  | other hl ht ha _ => exact hR.other hl ht (Nat.le_of_eq (by rw [ha]))
  | links hs hd =>
    refine hR.links hs fun i => ?_
    rcases Nat.lt_or_ge i s.links.size with hi | hi
    · exact hd.createdOn i hi
    · rw [LinkTable.get_of_size_le hi, LinkTable.get_of_size_le (hs ▸ hi)]
  | grow hs hp hd => exact hR.grow hp hs hd.createdOn
  | pin id => exact hR.pin s id
  | node x _ => exact hR.other rfl rfl (Nat.le_of_eq (Arena.slots_size_modify ..).symm)
  | enter _ he => exact hR.other rfl rfl (Arena.slots_size_of_insert he)

/-- What is built of steps keeps the relation. -/
theorem of_built {k : Traffic} {x : Edit α ρ} (h : Built k P x) : Obeys R x :=
  hR.toComposes.of_built hR.of_step hR.mint (fun e s => hR.emit e s)
    (fun _ s i => hR.trans (hR.release s {} i) (hR.other rfl rfl (Nat.le_refl _))) h

/-- Every change but disposal is built of such steps, and closing a snapshot unpins a version
besides. -/
theorem of_effect : ∀ {m : Mutation α ρ}, m.reclaimsFirst = true →
    (m.closes = true → ∀ (s : Store α) id v, R s (s.closeSnapshot id v).2) → Obeys R m.effect
  | .insert a side, _, _ => hR.of_built (.insert a side)
  | .insertAll as side, _, _ => hR.of_built (.insertAll as side)
  | .unlink x, _, _ => hR.of_built (.unlink x)
  | .unlinkEach xs, _, _ => hR.of_built (.unlinkEach xs)
  | .poll side, _, _ => hR.of_built (.poll side)
  | .clear, _, _ => hR.of_built .clear
  | .openSnapshot, _, _ => hR.of_built .openSnapshot
  | .openPolled limit, _, _ => hR.of_built (.openPolled limit)
  | .closeSnapshot id v, _, hC => obeys_modifyGet fun s => hC rfl s id v
  | .reclaim, _, _ => obeys_modifyGet fun s => hR.reclaim s _
  | .settle, _, _ => hR.of_pure ()

end Lawful

end Edit

end SnapshotDeque
