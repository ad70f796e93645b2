import SnapshotDeque.Proofs.Outcome
import SnapshotDeque.Proofs.Tenancy

/-!
Which way nodes move in the course of a change. A pass, a removal and disposal take nodes out of the
arena, and an insertion only puts some in; so a change takes nodes out before it puts others in.
Main statements: what any change does to the slots, and that each handle it gives out finds a new
node.
-/

namespace SnapshotDeque

namespace Store

open Arena (Lets Ferries)

variable {α ρ : Type} {s t : Store α} {k : Traffic}

/-! ## Giving links back -/

theorem lets_disposeNode (ha : s.arena.Valid) (x : Handle) (p : Pass) :
    Lets s.arena (s.disposeNode x p).1.arena := by
  unfold disposeNode
  split
  · rename_i n hn
    split
    · split
      · rename_i n' b hb
        obtain ⟨_, _, he⟩ := Option.map_eq_some_iff.1 hb
        cases he
        rw [arena_emit]
        exact Arena.lets_vacated ha hn
      · exact .refl ha
    · exact .refl ha
  · exact .refl ha

theorem lets_release (ha : s.arena.Valid) (p : Pass) (i : Nat) :
    Lets s.arena (s.release p i).1.arena := by
  have hm : Lets s.arena (s.withoutLink i).arena :=
    Arena.ferries_modify (f := fun n => { n with liveLinks := n.liveLinks - 1 }) ha (s.owner i)
      (fun _ => ⟨rfl, rfl⟩) .going
  exact hm.trans (lets_disposeNode hm.valid _ _)

theorem lets_reclaim (ha : s.arena.Valid) (budget : Nat) :
    Lets s.arena (s.reclaim budget).2.arena := by
  have hfold : ∀ (due : List Nat) (x : Store α × Pass), x.1.arena.Valid →
      Lets x.1.arena (due.foldl (fun x i => x.1.release x.2 i) x).1.arena := by
    intro due
    induction due with
    | nil => exact fun x hx => .refl hx
    | cons i due ih =>
      intro x hx
      have hr := lets_release hx x.2 i
      exact hr.trans (ih _ hr.valid)
  unfold reclaim
  split
  · exact .refl ha
  · exact hfold (s.due budget)
      ({ s with obsolete := s.obsolete.drop (s.due budget).length }, {}) ha

theorem lets_reclaimPending (ha : s.arena.Valid) : Lets s.arena s.reclaimPending.arena := by
  unfold reclaimPending
  split
  · exact lets_reclaim ha _
  · exact .refl ha

theorem lets_closeSnapshot (ha : s.arena.Valid) (id : SnapshotId) (v : Version) :
    Lets s.arena (s.closeSnapshot id v).2.arena := by
  unfold closeSnapshot
  dsimp only
  split
  · have hc : ({ s with timeline := (s.timeline.unpin v id).2 } : Store α).arena.Valid := ha
    exact lets_reclaim hc _
  · exact .refl ha

/-! ## Edits -/

/-- If the arena of `s` is sound, that of `t` comes of it by traffic one way. -/
def Ferried (k : Traffic) (s t : Store α) : Prop := s.arena.Valid → Ferries k s.arena t.arena

theorem composes_ferried (k : Traffic) : Edit.Composes (Ferried (α := α) k) where
  refl _ ha := .refl ha k
  trans h h' ha := (h ha).trans (h' (h ha).valid)

theorem Step.ferried (h : Step k (fun _ => True) s t) : Ferried k s t := by
  intro ha
  cases h with
  | other _ _ hb _ =>
    rw [hb]
    exact .refl ha k
  | node x hf => exact Arena.ferries_modify ha x hf k
  | enter hk he =>
    subst hk
    exact (Arena.takes_insert ha he).1
  | _ => exact .refl ha k

end Store

namespace Edit

open Store (Ferried)

variable {α ρ σ : Type} {k : Traffic} {s t u : Store α}

/-- In the course of an edit nodes only come or only go. -/
theorem Built.ferried {x : Edit α ρ} (h : Built k (fun _ => True) x) : Obeys (Ferried k) x := by
  refine (Store.composes_ferried k).of_built (fun h => h.ferried) (fun h ha => h trivial ha)
    (fun e s ha => ?_) (fun hk s i ha => ?_) h
  · rw [Store.arena_emit]
    exact .refl ha k
  · subst hk
    exact Store.lets_release ha {} i

/-- In the course of an edit in which nodes only come no slot falls vacant. -/
theorem Built.free_suffix {x : Edit α ρ} (h : Built .coming (fun _ => True) x) :
    Obeys (fun s t => t.arena.free <:+ s.arena.free) x := by
  have hc : Composes fun s t : Store α => t.arena.free <:+ s.arena.free :=
    ⟨fun _ => List.suffix_refl _, fun h h' => h'.trans h⟩
  refine hc.of_built (fun h => ?_) (fun h => h trivial) (fun e s => ?_) (fun hk => by cases hk) h
  · cases h with
    | other _ _ hb _ => exact hb ▸ List.suffix_refl _
    | node x _ => exact (Arena.free_modify ..).symm ▸ List.suffix_refl _
    | enter _ he => exact Arena.free_of_insert he
    | _ => exact List.suffix_refl _
  · exact (Store.arena_emit ..).symm ▸ List.suffix_refl _

/-! ## The handles that are given out -/

/-- Whenever `x` returns, the handles that `f` reads off its answer find new nodes. -/
def Admits (f : ρ → List Handle) (x : Edit α ρ) : Prop :=
  ∀ {s a t}, s.arena.Valid → x.Returns s a t → ∀ h ∈ f a, Arena.Enters s.arena t.arena h

section Admits

variable {f : σ → List Handle}

theorem admits_pure {b : σ} (hf : f b = []) : Admits f (pure b : Edit α σ) := by
  intro s a t _ hr h hh
  cases hr
  rw [hf] at hh
  cases hh

theorem admits_get {g : Store α → Edit α σ} (hg : ∀ s, Admits f (g s)) :
    Admits f (get >>= g) := fun {s} => hg s

theorem Built.takes {x : Edit α ρ} {a : ρ} (h : Built .coming (fun _ => True) x)
    (hs : s.arena.Valid) (hr : x.Returns s a t) : Arena.Takes s.arena t.arena := by
  have hx := h.ferried s hs
  rwa [hr.after] at hx

theorem admits_bind {x : Edit α ρ} {g : ρ → Edit α σ} (hx : Built .coming (fun _ => True) x)
    (hg : ∀ a, Admits f (g a)) : Admits f (x >>= g) := by
  intro s b u hs hr h hh
  obtain ⟨a, t, h1, h2⟩ := hr.exists_of_bind
  have ht := hx.takes hs h1
  exact (hg a ht.valid h2 h hh).mono ht.nextId

theorem admits_mint {g : Version → Edit α σ} (hg : ∀ v, Admits f (g v)) :
    Admits f (Edit.mint >>= g) := by
  intro s b u hs hr h hh
  have ht : ({ s with timeline := s.timeline.advance.2 } : Store α).arena.Valid := hs
  exact hg s.timeline.advance.1 ht ((Returns.bind_apply (returns_mint s) g).symm.trans hr) h hh

/-- Several handles are given out one after the other. -/
theorem admits_mapM {β : Type} {g : β → Edit α Handle}
    (hb : ∀ b, Built .coming (fun _ => True) (g b)) (hg : ∀ b, Admits (fun x => [x]) (g b)) :
    ∀ bs : List β, Admits id (bs.mapM g) := by
  intro bs
  induction bs with
  | nil =>
    rw [List.mapM_nil]
    exact admits_pure rfl
  | cons b bs ih =>
    rw [List.mapM_cons]
    intro s xs u hs hr h hh
    obtain ⟨x, t, h1, hrest⟩ := hr.exists_of_bind
    obtain ⟨ys, t', h2, h3⟩ := hrest.exists_of_bind
    cases h3
    have ht := (hb b).takes hs h1
    rcases List.mem_cons.1 hh with rfl | hh
    · exact (hg b hs h1 h (List.mem_singleton.2 rfl)).takes
        ((Built.mapM hb bs).takes ht.valid h2)
    · exact (ih ht.valid h2 h hh).mono ht.nextId

end Admits

/-- Whatever it does, an insertion gives out the handle of the node that it began with. -/
theorem eq_of_enlist {x y : Handle} {a : α} {side : End} {v : Version} {p n : Nat}
    (h : (enlist x a side v p n).Returns s y t) : y = x := by
  unfold enlist at h
  obtain ⟨_, _, _, h⟩ := h.exists_of_bind
  obtain ⟨_, _, _, h⟩ := h.exists_of_bind
  obtain ⟨_, _, _, h⟩ := h.exists_of_bind
  obtain ⟨_, _, _, h⟩ := h.exists_of_bind
  obtain ⟨_, _, _, h⟩ := h.exists_of_bind
  obtain ⟨_, _, _, h⟩ := h.exists_of_bind
  obtain ⟨_, _, _, h⟩ := h.exists_of_bind
  obtain ⟨_, _, _, h⟩ := h.exists_of_bind
  obtain ⟨_, _, _, h⟩ := h.exists_of_bind
  obtain ⟨_, _, _, h⟩ := h.exists_of_bind
  cases h
  rfl

theorem admits_spliceBetween (a : α) (side : End) (v : Version) (p n : Nat) :
    Admits (fun x => [x]) (Edit.spliceBetween a side v p n) := by
  intro s y u hs hr h hh
  rw [List.mem_singleton.1 hh]
  rw [spliceBetween_eq] at hr
  obtain ⟨xb, t, h1, hrest⟩ := hr.exists_of_bind
  have h3 := (Returns.bind_apply (returns_modify _ t) _).symm.trans hrest
  obtain rfl := eq_of_enlist h3
  cases he : s.arena.insert a with
  | error e => cases (fails_ask he).symm.trans h1
  | ok xb' =>
    cases (returns_ask he).symm.trans h1
    obtain ⟨ht, hget⟩ := Arena.takes_insert hs he
    have hrest := (Built.enlist xb.1 a side trivial p n).takes
      (s := { s with arena := xb.2 }) ht.valid h3
    exact Arena.Enters.takes ⟨_, hget, Nat.le_refl _⟩ hrest

theorem admits_splice (a : α) (side : End) (v : Version) :
    Admits (fun x => [x]) (Edit.splice a side v) := by
  cases side with
  | first =>
    exact admits_get fun _ => admits_bind (.ask fun _ _ _ => rfl) fun _ =>
      admits_spliceBetween _ _ _ _ _
  | last =>
    exact admits_get fun _ => admits_bind (.ask fun _ _ _ => rfl) fun _ =>
      admits_spliceBetween _ _ _ _ _

theorem admits_insert (a : α) (side : End) : Admits (fun x => [x]) (Edit.insert a side) :=
  admits_bind (.checkCapacity 1) fun _ => admits_mint fun v => admits_splice a side v

theorem admits_insertAll (as : List α) (side : End) : Admits id (Edit.insertAll as side) := by
  have hall := fun v => admits_mapM (fun a : α => Built.splice a side (v := v) trivial)
    fun a => admits_splice a side v
  unfold Edit.insertAll
  apply admits_bind (.checkCapacity _)
  intro _
  split
  · exact admits_pure rfl
  · refine admits_mint fun v => ?_
    cases side with
    | first =>
      intro s xs u hs hr h hh
      obtain ⟨ys, t, h1, h2⟩ := hr.exists_of_bind
      cases h2
      exact hall v _ hs h1 h (List.mem_reverse.1 hh)
    | last => exact hall v as

end Edit

namespace Mutation

open Arena (Lets Shifts Enters)

variable {α ρ : Type} {s : Store α}

/-- The handles that are given out with an answer. -/
def given : Mutation α ρ → Except Error ρ → List Handle
  | insert _ _, .ok x => [x]
  | insertAll _ _, .ok xs => xs
  | _, _ => []

theorem lets_base (m : Mutation α ρ) (ha : s.arena.Valid) : Lets s.arena (m.base s).arena := by
  unfold base
  split
  · exact Store.lets_reclaimPending ha
  · exact .refl ha

/-- In the course of a change, whatever it comes to, nodes go before others come. -/
theorem shifts_run (m : Mutation α ρ) (ha : s.disposed = false → s.arena.Valid) :
    Shifts s.arena (m.run s).2.arena := by
  cases hd : s.disposed with
  | true =>
    cases m with
    | observe on => exact .refl _
    | _ =>
      rw [run_of_disposed hd rfl]
      exact .refl _
  | false =>
    have hb := m.lets_base (ha hd)
    rw [run_snd hd]
    cases m with
    | insert a side => exact hb.shifts_of_ferries ((Edit.Built.insert a side).ferried _ hb.valid)
    | insertAll as side =>
      exact hb.shifts_of_ferries ((Edit.Built.insertAll as side).ferried _ hb.valid)
    | unlink x => exact hb.shifts_of_ferries ((Edit.Built.unlink x).ferried _ hb.valid)
    | unlinkEach xs => exact hb.shifts_of_ferries ((Edit.Built.unlinkEach xs).ferried _ hb.valid)
    | poll side => exact hb.shifts_of_ferries ((Edit.Built.poll side).ferried _ hb.valid)
    | clear => exact hb.shifts_of_ferries (Edit.Built.clear.ferried _ hb.valid)
    | openSnapshot => exact hb.shifts_of_ferries (Edit.Built.openSnapshot.ferried _ hb.valid)
    | openPolled limit =>
      exact hb.shifts_of_ferries ((Edit.Built.openPolled limit).ferried _ hb.valid)
    | closeSnapshot id v => exact (hb.trans (Store.lets_closeSnapshot hb.valid id v)).shifts
    | reclaim => exact (hb.trans (Store.lets_reclaim hb.valid _)).shifts
    | settle => exact hb.shifts
    | dispose => exact Arena.shifts_drain s.arena
    | observe on => exact .refl _

/-- Each handle that is given out finds a new node. -/
theorem enters_of_given {m : Mutation α ρ} {x : Handle} (ha : s.disposed = false → s.arena.Valid)
    (hx : x ∈ m.given (m.run s).1) : Enters s.arena (m.run s).2.arena x := by
  cases hd : s.disposed with
  | true =>
    cases m with
    | observe on => cases hx
    | _ =>
      rw [run_of_disposed hd rfl] at hx
      cases hx
  | false =>
    have hb := m.lets_base (ha hd)
    have hle : s.arena.nextId ≤ (m.base s).arena.nextId := Nat.le_of_eq hb.nextId.symm
    cases he : m.effect (m.base s) with
    | error e t =>
      rw [run_of_fails hd he] at hx
      cases m <;> cases hx
    | ok a t =>
      rw [run_of_returns hd he] at hx ⊢
      cases m with
      | insert e side => exact (Edit.admits_insert e side hb.valid he x hx).mono hle
      | insertAll es side => exact (Edit.admits_insertAll es side hb.valid he x hx).mono hle
      | _ => cases hx

end Mutation

end SnapshotDeque
