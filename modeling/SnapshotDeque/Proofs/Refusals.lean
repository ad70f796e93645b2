import SnapshotDeque.Proofs.Handles

/-!
Refusals. An edit judges what it is asked for before it does anything: once it has begun, only
internal failures can stop it. So a change that is turned down, be it by a failure or by the answer
that there was nothing to do, leaves what the pass before it left. Main statement: a call that comes
to nothing leaves no trace but that of one reclamation pass.
-/

namespace SnapshotDeque

/-- A failure that tells the caller that the call could not be carried out on the deque as it is. -/
def Error.isRefusal : Error → Bool
  | capacityExceeded _ => true
  | nodeNotPayload _ => true
  | empty => true
  | _ => false

theorem Error.isInternal_of_isRefusal {e : Error} (h : e.isRefusal = true) :
    e.isInternal = false := by
  cases e with
  | internal m => cases h
  | _ => rfl

/-! ## Internal failures -/

/-- The only failures of a look are internal ones. -/
def InternalOnly {ρ : Type} (x : Except Error ρ) : Prop :=
  ∀ e, x = .error e → e.isInternal = true

namespace InternalOnly

variable {α ρ σ : Type}

theorem ok (a : ρ) : InternalOnly (.ok a : Except Error ρ) := nofun

theorem fault (message : String) : InternalOnly (.error (.internal message) : Except Error ρ) := by
  rintro e ⟨⟩
  rfl

theorem bind {x : Except Error ρ} {f : ρ → Except Error σ} (hx : InternalOnly x)
    (hf : ∀ a, InternalOnly (f a)) : InternalOnly (x >>= f) := by
  intro e he
  cases x with
  | ok a => exact hf a e he
  | error e' =>
    cases he
    exact hx _ rfl

theorem head (s : Store α) (x : Handle) : InternalOnly (s.head x) := by
  unfold Store.head
  split
  · exact ok _
  split
  · exact ok _
  split
  · exact ok _
  · exact fault _

theorem nextOf (s : Store α) (i : Nat) : InternalOnly (s.nextOf i) := by
  unfold Store.nextOf
  split
  · exact head s _
  · exact fault _

theorem previousOf (s : Store α) (i : Nat) : InternalOnly (s.previousOf i) := by
  unfold Store.previousOf
  split
  · exact head s _
  · exact fault _

theorem outermost (s : Store α) : ∀ side, InternalOnly (s.outermost side)
  | .first => nextOf s _
  | .last => previousOf s _

theorem linksFrom (s : Store α) (n i : Nat) : InternalOnly (s.linksFrom n i) := by
  induction n generalizing i with
  | zero =>
    unfold Store.linksFrom
    split
    · exact ok _
    · exact fault _
  | succ n ih =>
    unfold Store.linksFrom
    split
    · exact ok _
    · exact (nextOf s i).bind fun j => (ih j).bind fun _ => ok _

theorem liveLinks (s : Store α) : InternalOnly s.liveLinks :=
  (outermost s .first).bind fun i => linksFrom s _ i

theorem fork (t : LinkTable α) (i : Nat) (v : Version) : InternalOnly (t.fork i v) := by
  unfold LinkTable.fork
  dsimp only
  split
  · exact fault _
  split
  · exact fault _
  · exact ok _

theorem insert (a : Arena α) (x : α) : InternalOnly (a.insert x) := by
  unfold Arena.insert
  dsimp only
  split
  · exact ok _
  split
  · exact ok _
  · exact fault _

end InternalOnly

namespace Edit

variable {α ρ σ β : Type}

/-- Once begun, the edit can be stopped by internal failures only. -/
def Unrefused (x : Edit α ρ) : Prop := ∀ s e t, Fails x s e t → e.isInternal = true

namespace Unrefused

theorem of_returns {x : Edit α ρ} (h : ∀ s, ∃ a t, Returns x s a t) : Unrefused x := by
  intro s e t he
  obtain ⟨a, u, hr⟩ := h s
  cases hr.symm.trans he

theorem of_pure (a : ρ) : Unrefused (pure a : Edit α ρ) :=
  of_returns fun s => ⟨a, s, returns_pure a s⟩

theorem of_get : Unrefused (get : Edit α (Store α)) := of_returns fun s => ⟨s, s, returns_get s⟩

theorem of_modify (f : Store α → Store α) : Unrefused (modify f : Edit α Unit) :=
  of_returns fun s => ⟨(), f s, returns_modify f s⟩

theorem of_modifyGet (f : Store α → ρ × Store α) : Unrefused (modifyGet f : Edit α ρ) :=
  of_returns fun s => ⟨_, _, returns_modifyGet f s⟩

theorem fault (message : String) : Unrefused (Edit.fault message : Edit α ρ) := by
  rintro s e t ⟨⟩
  rfl

theorem ask {f : Store α → Except Error ρ} (h : ∀ s, InternalOnly (f s)) :
    Unrefused (Edit.ask f) := by
  intro s e t he
  unfold Fails Edit.ask at he
  split at he
  · cases he
  · rename_i e' hf
    cases he
    exact h s _ hf

theorem bind {x : Edit α ρ} {f : ρ → Edit α σ} (hx : Unrefused x) (hf : ∀ a, Unrefused (f a)) :
    Unrefused (x >>= f) := by
  intro s e t h
  cases hr : x s with
  | ok a u => exact hf a u e t ((Returns.bind_apply hr f).symm.trans h)
  | error e' u =>
    cases (Fails.bind (f := f) hr).symm.trans h
    exact hx s _ _ hr

theorem forM {f : β → Edit α PUnit} (h : ∀ b, Unrefused (f b)) (bs : List β) :
    Unrefused (bs.forM f) := by
  induction bs with
  | nil => exact of_pure _
  | cons b bs ih => exact (h b).bind fun _ => ih

theorem mapM {f : β → Edit α ρ} (h : ∀ b, Unrefused (f b)) (bs : List β) :
    Unrefused (bs.mapM f) := by
  induction bs with
  | nil =>
    rw [List.mapM_nil]
    exact of_pure _
  | cons b bs ih =>
    rw [List.mapM_cons]
    exact (h b).bind fun _ => ih.bind fun _ => of_pure _

theorem mint : Unrefused (Edit.mint : Edit α Version) := of_modifyGet _

theorem editLinks (f : LinkTable α → LinkTable α) : Unrefused (Edit.editLinks f) := of_modify _

theorem join (p n : Nat) : Unrefused (Edit.join p n : Edit α Unit) := editLinks _

theorem retire (i : Nat) : Unrefused (Edit.retire i : Edit α Unit) := of_modify _

theorem newLink (l : Link α) : Unrefused (Edit.newLink l) := of_modifyGet _

theorem install (i : Nat) : Unrefused (Edit.install i : Edit α Unit) := by
  unfold Edit.install
  refine of_get.bind fun s => ?_
  dsimp only
  split
  · exact of_modify _
  split
  · exact of_modify _
  refine of_get.bind fun s => ?_
  split
  · exact of_modify _
  · exact fault _

theorem writable (i : Nat) (v : Version) : Unrefused (Edit.writable i v : Edit α Nat) := by
  unfold Edit.writable
  refine of_get.bind fun s => ?_
  dsimp only
  split
  · exact of_pure _
  · refine (ask fun s => InternalOnly.fork s.links i v).bind fun x => ?_
    exact (of_modify _).bind fun _ => (install _).bind fun _ => (retire _).bind fun _ => of_pure _

theorem checkSplice (p n : Nat) : Unrefused (Edit.checkSplice p n : Edit α Unit) := by
  unfold Edit.checkSplice
  refine of_get.bind fun s => ?_
  dsimp only
  split
  · exact of_pure _
  · exact fault _

theorem recount (f : Nat → Nat) (v : Version) : Unrefused (Edit.recount f v : Edit α Unit) :=
  of_get.bind fun _ => (writable _ v).bind fun _ =>
    of_get.bind fun _ => (writable _ v).bind fun _ =>
    editLinks _

theorem splice (a : α) (side : End) (v : Version) : Unrefused (Edit.splice a side v) := by
  have between (p n : Nat) : Unrefused (Edit.spliceBetween a side v p n) := by
    rw [spliceBetween_eq]
    refine (ask fun s => InternalOnly.insert s.arena a).bind fun x => (of_modify _).bind fun _ => ?_
    refine (writable _ v).bind fun _ => (writable _ v).bind fun _ => (newLink _).bind fun _ => ?_
    refine (join _ _).bind fun _ => (join _ _).bind fun _ => (install _).bind fun _ => ?_
    refine (checkSplice _ _).bind fun _ => (checkSplice _ _).bind fun _ => ?_
    exact (recount _ v).bind fun _ => (of_modify _).bind fun _ => of_pure _
  cases side with
  | first =>
    exact of_get.bind fun _ => (ask fun s => InternalOnly.nextOf s _).bind fun _ => between _ _
  | last =>
    exact of_get.bind fun _ => (ask fun s => InternalOnly.previousOf s _).bind fun _ => between _ _

theorem detach (x : Handle) (v : Version) : Unrefused (Edit.detach x v : Edit α Unit) := by
  unfold Edit.detach
  refine of_get.bind fun s => ?_
  split
  · exact fault _
  · refine (of_modify _).bind fun _ => (of_modify _).bind fun _ => of_get.bind fun s => ?_
    dsimp only
    split
    · exact (editLinks _).bind fun _ => retire _
    · exact of_modify _

theorem unlinkAt (i : Nat) (v : Version) : Unrefused (Edit.unlinkAt i v : Edit α Unit) := by
  refine (ask fun s => InternalOnly.nextOf s i).bind fun _ => ?_
  refine (ask fun s => InternalOnly.previousOf s i).bind fun _ => ?_
  refine (writable _ v).bind fun _ => (writable _ v).bind fun _ => (join _ _).bind fun _ => ?_
  exact (checkSplice _ _).bind fun _ => (recount _ v).bind fun _ => of_get.bind fun _ => detach _ v

theorem unlink {x : Handle} (hx : x.isSentinel = false) :
    Unrefused (Edit.unlink x : Edit α Bool) := by
  unfold Edit.unlink
  rw [if_neg (by simp [hx])]
  refine of_get.bind fun s => ?_
  split
  · exact of_pure _
  · exact mint.bind fun v => (unlinkAt _ v).bind fun _ => of_pure _

theorem poll (side : End) : Unrefused (Edit.poll side : Edit α (Option α)) := by
  refine (ask fun s => InternalOnly.outermost s side).bind fun i => of_get.bind fun s => ?_
  dsimp only
  split
  · exact of_pure _
  · exact mint.bind fun v => (unlinkAt _ v).bind fun _ => of_pure _

theorem unlinkEverything (v : Version) : Unrefused (Edit.unlinkEverything v : Edit α Nat) := by
  refine (ask InternalOnly.liveLinks).bind fun _ => of_get.bind fun s => ?_
  dsimp only
  split
  · exact of_pure _
  · refine (writable _ v).bind fun _ => of_get.bind fun _ => (writable _ v).bind fun _ => ?_
    refine (join _ _).bind fun _ => (editLinks _).bind fun _ => (checkSplice _ _).bind fun _ => ?_
    exact (forM (fun _ => detach _ v) _).bind fun _ => of_pure _

theorem openSnapshot : Unrefused (Edit.openSnapshot : Edit α View) := by
  refine of_get.bind fun _ => (of_modify _).bind fun _ => (of_modifyGet _).bind fun _ => ?_
  refine (ask fun s => InternalOnly.outermost s _).bind fun _ => ?_
  exact (ask fun s => InternalOnly.outermost s _).bind fun _ => of_get.bind fun _ => of_pure _

theorem unlinkSeen (seen v : Version) (n last : Nat) :
    Unrefused (Edit.unlinkSeen seen v n last : Edit α Nat) := by
  induction n generalizing last with
  | zero => exact of_pure _
  | succ n ih =>
    refine (ask fun s => InternalOnly.outermost s .first).bind fun i => of_get.bind fun s => ?_
    split
    · exact fault _
    · exact (unlinkAt i v).bind fun _ => ih _

theorem openPolled (limit : Option Nat) : Unrefused (Edit.openPolled limit : Edit α View) := by
  refine openSnapshot.bind fun view => ?_
  dsimp only
  split
  · exact of_pure _
  · refine mint.bind fun v => ?_
    split
    · exact (unlinkEverything v).bind fun _ => of_pure _
    · exact (unlinkSeen _ v _ _).bind fun _ => of_pure _

theorem foldlM {f : ρ → β → Edit α ρ} {bs : List β} (h : ∀ b ∈ bs, ∀ a, Unrefused (f a b)) (a : ρ) :
    Unrefused (bs.foldlM f a) := by
  induction bs generalizing a with
  | nil => exact of_pure a
  | cons b bs ih =>
    exact (h b (List.mem_cons_self ..) a).bind fun a =>
      ih (fun d hd => h d (List.mem_cons_of_mem _ hd)) a

theorem unlinkEach {xs : List Handle} (hxs : ∀ x ∈ xs, x.isSentinel = false) :
    Unrefused (Edit.unlinkEach xs : Edit α Nat) :=
  foldlM (fun x hx n => (unlink (hxs x hx)).bind fun _ => by split <;> exact of_pure _) 0

end Unrefused

/-! ## Refused edits -/

/-- An edit that is refused has done nothing. -/
def Judges (x : Edit α ρ) : Prop :=
  ∀ s e t, Fails x s e t → e.isInternal = false → t = s

theorem Unrefused.judges {x : Edit α ρ} (h : Unrefused x) : Judges x := fun s e t he hi => by
  rw [h s e t he] at hi
  cases hi

/-- The room is judged first. -/
theorem judges_checkCapacity_bind {n : Nat} {f : Unit → Edit α ρ} (hf : ∀ a, Unrefused (f a)) :
    Judges (checkCapacity n >>= f) := by
  intro s e t he hi
  cases hc : checkCapacity n s with
  | ok a u =>
    have hfail : Fails (f a) u e t := (Returns.bind_apply hc f).symm.trans he
    rw [hf a u e t hfail] at hi
    cases hi
  | error e' u =>
    cases (Fails.bind (f := f) hc).symm.trans he
    change (if s.length + n > s.capacity then throw _ else pure () : Edit α Unit) s = _ at hc
    split at hc <;> cases hc
    rfl

theorem judges_insert (a : α) (side : End) : Judges (Edit.insert a side) :=
  judges_checkCapacity_bind fun _ => Unrefused.mint.bind fun v => .splice a side v

theorem judges_insertAll (as : List α) (side : End) : Judges (Edit.insertAll as side) := by
  refine judges_checkCapacity_bind fun _ => ?_
  split
  · exact .of_pure _
  · refine Unrefused.mint.bind fun v => ?_
    cases side with
    | first => exact (Unrefused.mapM (fun a => .splice a .first v) _).bind fun _ => .of_pure _
    | last => exact .mapM (fun a => .splice a .last v) _

theorem judges_unlink (x : Handle) : Judges (Edit.unlink x : Edit α Bool) := by
  cases hx : x.isSentinel with
  | false => exact (Unrefused.unlink hx).judges
  | true =>
    intro s e t he _
    cases (Store.fails_unlink hx s).symm.trans he
    rfl

/-- A node that was not linked is left alone. -/
theorem unlink_eq_false {x : Handle} {s t : Store α} (h : Returns (Edit.unlink x) s false t) :
    t = s := by
  unfold Edit.unlink at h
  split at h
  · obtain ⟨_, _, hthrow, _⟩ := h.exists_of_bind
    cases hthrow
  · obtain ⟨_, _, hget, h⟩ := h.exists_of_bind
    cases hget
    split at h
    · cases h
      rfl
    · obtain ⟨_, _, _, h⟩ := h.exists_of_bind
      obtain ⟨_, _, _, h⟩ := h.exists_of_bind
      cases h

/-- If none of the nodes was linked, all are left alone. -/
theorem unlinkEach_eq_zero {xs : List Handle} {s t : Store α}
    (h : Returns (Edit.unlinkEach xs) s 0 t) : t = s := by
  have hall : ∀ (xs : List Handle) (n : Nat) {s t : Store α} {k : Nat},
      Returns (xs.foldlM Store.tally n) s k t → n ≤ k ∧ (k = n → t = s) := by
    intro xs
    induction xs with
    | nil =>
      rintro n s t k ⟨⟩
      exact ⟨Nat.le_refl _, fun _ => rfl⟩
    | cons x xs ih =>
      intro n s t k h
      rw [List.foldlM_cons] at h
      obtain ⟨j, u, hu, h⟩ := h.exists_of_bind
      obtain ⟨hle, heq⟩ := ih j h
      obtain ⟨b, w, hw, hu⟩ := hu.exists_of_bind
      cases b with
      | false =>
        cases hu
        obtain rfl := unlink_eq_false hw
        exact ⟨hle, heq⟩
      | true =>
        cases hu
        have hle : n + 1 ≤ k := hle
        exact ⟨Nat.le_of_succ_le hle, fun he => absurd hle (by omega)⟩
  exact (hall xs 0 h).2 rfl

end Edit

namespace Store

variable {α : Type} {s t : Store α} {l : List (Handle × α)}

/-- A poll that finds nothing leaves the deque alone. -/
theorem Shaped.poll_eq_none (hl : s.Shaped l) {side : End}
    (h : (Edit.poll side).Returns s none t) : t = s := by
  cases he : side.outermost? l with
  | none =>
    cases (returns_poll_of_nil hl side (End.outermost?_eq_none he)).symm.trans h
    rfl
  | some e =>
    obtain ⟨i, _, hp⟩ := poll_of_outermost hl he
    obtain ⟨_, _, _, h⟩ := Edit.Returns.exists_of_bind (hp.symm.trans h)
    obtain ⟨_, _, _, h⟩ := h.exists_of_bind
    cases h

end Store

namespace Mutation

variable {α ρ : Type}

/-- The answers by which a change says that it was refused or found nothing to take. Of several
nodes, those in front of a sentinel are unlinked before it is refused. -/
def Declined : Mutation α ρ → Except Error ρ → Prop
  | unlink _, .ok linked => linked = false
  | unlinkEach _, .ok count => count = 0
  | poll _, .ok element => element = none
  | _, .ok _ => False
  | unlinkEach xs, .error e => e.isRefusal = true ∧ ∀ x ∈ xs, x.isSentinel = false
  | _, .error e => e.isRefusal = true

theorem Declined.isInternal {m : Mutation α ρ} {e : Error} (h : m.Declined (.error e)) :
    e.isInternal = false := by
  cases m with
  | unlinkEach xs => exact e.isInternal_of_isRefusal h.1
  | _ => exact e.isInternal_of_isRefusal h

theorem Declined.judges {m : Mutation α ρ} {e : Error} (h : m.Declined (.error e)) :
    Edit.Judges m.effect := by
  cases m with
  | insert a side => exact Edit.judges_insert a side
  | insertAll as side => exact Edit.judges_insertAll as side
  | unlink x => exact Edit.judges_unlink x
  | unlinkEach xs => exact (Edit.Unrefused.unlinkEach h.2).judges
  | poll side => exact (Edit.Unrefused.poll side).judges
  | clear => exact (Edit.Unrefused.mint.bind fun v => .unlinkEverything v).judges
  | openSnapshot => exact Edit.Unrefused.openSnapshot.judges
  | openPolled limit => exact (Edit.Unrefused.openPolled limit).judges
  | closeSnapshot id v => exact (Edit.Unrefused.of_modifyGet _).judges
  | reclaim => exact (Edit.Unrefused.of_modifyGet _).judges
  | settle => exact (Edit.Unrefused.of_pure ()).judges
  | dispose => exact (Edit.Unrefused.of_modify _).judges
  | observe on => exact (Edit.Unrefused.of_modify _).judges

/-- A change that is declined does nothing. -/
theorem Declined.effect {m : Mutation α ρ} {s t : Store α} {l : List (Handle × α)} {a : ρ}
    (hl : s.Live l) (h : m.Declined (.ok a)) (ht : m.effect.Returns s a t) : t = s := by
  cases m with
  | unlink x =>
    obtain rfl : a = false := h
    exact Edit.unlink_eq_false ht
  | unlinkEach xs =>
    obtain rfl : a = 0 := h
    exact Edit.unlinkEach_eq_zero ht
  | poll side =>
    obtain rfl : a = none := h
    exact hl.poll_eq_none ht
  | _ => exact h.elim

/-- Every change that can be declined reclaims first. -/
theorem Declined.base {m : Mutation α ρ} {s : Store α} (h : m.Declined (m.run s).1)
    (ho : s.disposed = false) : m.base s = s.reclaimPending := by
  cases m with
  | dispose =>
    rw [run_of_open ho] at h
    exact h.elim
  | observe on =>
    rw [run_of_open ho] at h
    exact h.elim
  | _ => rfl

/-- A change that is declined leaves what the pass before it left. -/
theorem Declined.run {m : Mutation α ρ} {s : Store α} {l : List (Handle × α)} (hl : s.Live l)
    (h : m.Declined (m.run s).1) : (m.run s).2 = s.reclaimPending := by
  obtain ⟨_, h0, _⟩ := hl.settled
  have hb := h.base hl.open_
  cases hx : m.effect (m.base s) with
  | ok a t =>
    rw [run_of_returns hl.open_ hx] at h ⊢
    rw [hb] at hx
    exact h.effect h0 hx
  | error e t =>
    rw [run_of_fails hl.open_ hx] at h ⊢
    rw [hb] at hx
    exact h.judges _ e t hx h.isInternal

end Mutation

namespace Session

variable {ρ : Type} {m : Mode} {s : Session}

/-- The session after one reclamation pass, with what the pass recorded handed on. -/
def settled (m : Mode) (s : Session) : Session :=
  let s := { s with store := s.store.reclaimPending }
  if m.batch then s else m.deliver s.post

theorem change_snd (m : Mode) (x : Mutation Element ρ) (s : Session) :
    (s.change m x).2 =
      let s := { s with store := (x.run s.store).2 }
      if m.batch then s else m.deliver s.post := by
  unfold change
  dsimp only
  split <;> rfl

theorem settled_of_declined {l : List (Handle × Element)} (hl : s.store.Live l)
    {x : Mutation Element ρ} (h : x.Declined (s.change m x).1) :
    (s.change m x).2 = s.settled m := by
  rw [change_fst] at h
  rw [change_snd, h.run hl]
  rfl

/-- An answer by which a call says that it was refused. -/
def Answer.refuses (a : Answer) : Bool := a.failure?.any Error.isRefusal

/-- The answers by which a call on the deque says that it was refused or had nothing to take. -/
def Call.Declined : Call → Answer → Prop
  | .offer _ _, .flag done => done = false
  | .unlink _, .flag linked => linked = false
  | .poll _, .element e => e = none
  | _, a => a.refuses = true

/-- The answers by which a removal through a snapshot says that it was refused or had nothing to
take. -/
def SnapshotCall.Declined : SnapshotCall → Answer → Prop
  | .unlink _, .flag linked => linked = false
  | .remove _, .flag linked => linked = false
  | .removeAll _, .number count => count = 0
  | .removeIf _, .number count => count = 0
  | .retainOnly _, .number count => count = 0
  | _, a => a.refuses = true

/-- Makes a change and goes on with what it gave. -/
theorem settled_of_changing {l : List (Handle × Element)} (hl : s.store.Live l)
    {x : Mutation Element ρ} {f : ρ → Session → Answer × Session} {D : Answer → Prop}
    (h : D (s.changing m x f).1) (hok : ∀ a t, D (f a t).1 → x.Declined (.ok a) ∧ (f a t).2 = t)
    (herr : ∀ e, D (.failed e) → x.Declined (.error e)) :
    (s.changing m x f).2 = s.settled m := by
  obtain ⟨r, t, hr⟩ : ∃ r t, s.change m x = (r, t) := ⟨_, _, rfl⟩
  have hs := settled_of_declined (m := m) (x := x) hl
  rw [hr] at hs
  cases r with
  | ok a =>
    rw [changing_of_ok hr] at h ⊢
    obtain ⟨hd, ht⟩ := hok a t h
    exact ht.trans (hs hd)
  | error e =>
    rw [changing_of_error hr] at h ⊢
    exact hs (herr e h)

/-- A change that refuses nothing once it is made. -/
theorem settled_of_failing {l : List (Handle × Element)} (hl : s.store.Live l)
    {x : Mutation Element ρ} {f : ρ → Session → Answer × Session} {D : Answer → Prop}
    (h : D (s.changing m x f).1) (hok : ∀ a t, ¬ D (f a t).1)
    (herr : ∀ e, D (.failed e) → x.Declined (.error e)) :
    (s.changing m x f).2 = s.settled m :=
  settled_of_changing hl h (fun a t hd => absurd hd (hok a t)) herr

theorem perform_of_declined {l : List (Handle × Element)} (hl : s.store.Live l) {call : Call}
    (h : call.Declined (s.perform m call).1) :
    (s.perform m call).2 = s ∨ (s.perform m call).2 = s.settled m := by
  cases call with
  | insert e side =>
    exact Or.inr (settled_of_failing hl h (fun _ _ => Bool.false_ne_true) fun _ hd => hd)
  | insertAll es side =>
    exact Or.inr (settled_of_failing hl h (fun _ _ => Bool.false_ne_true) fun _ hd => hd)
  | offer e side =>
    have hs := settled_of_declined (m := m) (x := .insert e side) hl
    revert h
    simp only [perform]
    split <;> rename_i hr <;> rw [hr] at hs
    · intro h
      cases h
    · exact fun _ => Or.inr (hs rfl)
    · exact fun h => Or.inr (hs h)
  | unlink node =>
    revert h
    simp only [perform, onNode]
    split
    · exact fun h => Or.inr (settled_of_changing hl h (fun _ _ hd => ⟨hd, rfl⟩) fun _ hd => hd)
    · exact fun _ => Or.inl rfl
  | poll side => exact Or.inr (settled_of_changing hl h (fun _ _ hd => ⟨hd, rfl⟩) fun _ hd => hd)
  | remove side =>
    refine Or.inr (settled_of_changing hl h (fun a _ hd => ?_) fun _ hd => hd)
    cases a with
    | none => exact ⟨rfl, rfl⟩
    | some e => cases hd
  | clear => exact Or.inr (settled_of_failing hl h (fun _ _ => Bool.false_ne_true) fun _ hd => hd)
  | reclaim => exact Or.inr (settled_of_failing hl h (fun _ _ => Bool.false_ne_true) fun _ hd => hd)
  | dispose => exact Or.inr (settled_of_failing hl h (fun _ _ => Bool.false_ne_true) fun _ hd => hd)
  | openSnapshot =>
    exact Or.inr (settled_of_failing hl h (fun _ _ => Bool.false_ne_true) fun _ hd => hd)
  | openPolled limit =>
    exact Or.inr (settled_of_failing hl h (fun _ _ => Bool.false_ne_true) fun _ hd => hd)
  | live =>
    revert h
    simp only [perform, live]
    split
    · intro h
      cases h
    · refine fun h => Or.inr (settled_of_changing hl h (fun a t hd => ?_) fun _ hd => hd)
      dsimp only at hd
      split at hd <;> cases hd
  | unregister id => cases h
  | isLinked node => exact Or.inl (onNode_snd fun _ => rfl)
  | element node => exact Or.inl (onNode_snd fun _ => rfl)
  | nodeInfo node => exact Or.inl (onNode_snd fun _ => rfl)
  | counts id =>
    refine Or.inl ?_
    simp only [perform]
    split <;> rfl
  | _ => exact Or.inl rfl

end Session

/-! ## Nodes that a snapshot shows -/

theorem Test.mem_of_select {α β : Type} {p : Test α} {value : β → α} {b : β} :
    ∀ {bs : List β} {q : p.State}, b ∈ p.select value q bs → b ∈ bs := by
  intro bs
  induction bs with
  | nil => exact fun h => h
  | cons c bs ih =>
    intro q h
    unfold Test.select at h
    dsimp only at h
    split at h
    · rcases List.mem_cons.1 h with rfl | h
      · exact List.mem_cons_self ..
      · exact List.mem_cons_of_mem _ (ih h)
    · exact List.mem_cons_of_mem _ (ih h)

namespace Snapshot

variable {α : Type} {snapshot : Snapshot} {d : Store α} {p : Test α}

/-- No sentinel is among the nodes that a snapshot shows. -/
theorem isSentinel_of_nodes {ps : List (Handle × α)} (h : snapshot.nodes d = .ok ps) :
    ∀ e ∈ ps, e.1.isSentinel = false := by
  unfold nodes at h
  cases hc : snapshot.cursor d with
  | error e =>
    rw [hc] at h
    cases h
  | ok c =>
    rw [hc] at h
    cases h
    intro e he
    obtain ⟨⟨i, a⟩, hi, rfl⟩ := List.mem_map.1 he
    have hs := Cursor.shown_of_mem_forward hi
    unfold Link.shown? at hs
    split at hs
    · cases hs
    · rename_i hn
      exact Bool.eq_false_iff.2 hn

theorem isSentinel_of_find {h : Handle} {a : α} (hf : snapshot.find? d p = .ok (some (h, a))) :
    h.isSentinel = false := by
  unfold find? at hf
  cases hn : snapshot.nodes d with
  | error e =>
    rw [hn] at hf
    cases hf
  | ok ps =>
    rw [hn] at hf
    have hf : p.first? (·.2) p.start ps = some (h, a) := Except.ok.inj hf
    exact isSentinel_of_nodes hn _ (Test.mem_of_first? hf)

theorem isSentinel_of_picked {xs : List Handle} (h : snapshot.picked d p = .ok xs) :
    ∀ x ∈ xs, x.isSentinel = false := by
  unfold picked at h
  cases hn : snapshot.nodes d with
  | error e =>
    rw [hn] at h
    cases h
  | ok ps =>
    rw [hn] at h
    cases h
    intro x hx
    obtain ⟨e, he, rfl⟩ := List.mem_map.1 hx
    exact isSentinel_of_nodes hn e (Test.mem_of_select he)

end Snapshot

namespace Session

variable {m : Mode} {s : Session} {l : List (Handle × Element)} (hl : s.store.Live l)

include hl

theorem unlinkPicked_of_declined {picked : Except Error (List Handle)}
    (hp : ∀ xs, picked = .ok xs → ∀ x ∈ xs, x.isSentinel = false) {D : Answer → Prop}
    (h : D (s.unlinkPicked m picked).1) (hok : ∀ n, D (.number n) → n = 0)
    (herr : ∀ e, D (.failed e) → e.isRefusal = true) :
    (s.unlinkPicked m picked).2 = s ∨ (s.unlinkPicked m picked).2 = s.settled m := by
  revert h
  unfold unlinkPicked
  split
  · exact fun _ => Or.inl rfl
  · exact fun _ => Or.inl rfl
  · rename_i xs _
    exact fun h => Or.inr (settled_of_changing hl h (fun n _ hd => ⟨hok n hd, rfl⟩)
      fun e hd => ⟨herr e hd, hp xs rfl⟩)

theorem consult_of_declined {snapshot : Snapshot} {call : SnapshotCall}
    (h : call.Declined (s.consult m snapshot call).1) :
    (s.consult m snapshot call).2 = s ∨ (s.consult m snapshot call).2 = s.settled m := by
  cases call with
  | unlink node =>
    revert h
    simp only [consult, onNode]
    split
    · split
      · exact fun _ => Or.inl rfl
      · exact fun h => Or.inr (settled_of_changing hl h (fun _ _ hd => ⟨hd, rfl⟩) fun _ hd => hd)
    · exact fun _ => Or.inl rfl
  | remove a =>
    revert h
    simp only [consult]
    split
    · exact fun _ => Or.inl rfl
    · exact fun _ => Or.inl rfl
    · exact fun h => Or.inr (settled_of_changing hl h (fun _ _ hd => ⟨hd, rfl⟩) fun _ hd => hd)
  | removeAll as =>
    exact unlinkPicked_of_declined hl (fun _ => Snapshot.isSentinel_of_picked) h (fun _ hd => hd)
      fun _ hd => hd
  | removeIf p =>
    exact unlinkPicked_of_declined hl (fun _ => Snapshot.isSentinel_of_picked) h (fun _ hd => hd)
      fun _ hd => hd
  | retainOnly p =>
    exact unlinkPicked_of_declined hl (fun _ => Snapshot.isSentinel_of_picked) h (fun _ hd => hd)
      fun _ hd => hd
  | _ => exact Or.inl rfl

omit hl in
/-- The calls of `s` that are refused or find nothing leave no trace: the session stays as it is, or
as one reclamation pass leaves it. -/
structure Traceless (s : Session) : Prop where
  call : ∀ (m : Mode) (call : Call), call.Declined (s.perform m call).1 →
    (s.perform m call).2 = s ∨ (s.perform m call).2 = s.settled m
  consult : ∀ (m : Mode) (snapshot : Snapshot) (call : SnapshotCall),
    call.Declined (s.consult m snapshot call).1 →
      (s.consult m snapshot call).2 = s ∨ (s.consult m snapshot call).2 = s.settled m

end Session

/-- A change that is refused or finds nothing leaves what one reclamation pass leaves, and every
element where it was; the calls of a session do so, too, on their own, in a batch and in what an
observer does. -/
theorem declined_leaves_no_trace (c : Config) :
    (∀ {α ρ : Type} (w : World α) (m : Mutation α ρ), World.Reached c w →
      w.store.disposed = false → m.Declined (m.run w.store).1 →
      (m.run w.store).2 = w.store.reclaimPending ∧
        (m.run w.store).2.entries = w.store.entries) ∧
    (∀ (s : Session) (held : List (Holding Session.Element)),
      World.Reached c { store := s.store, held } → s.store.disposed = false → s.Traceless) ∧
    ∀ (s : Session) (cs : List Session.Command), Session.start c = .ok s →
      (s.run cs).2.store.timeline.modification < .max → (s.run cs).2.store.disposed = false →
      (s.run cs).2.Traceless := by
  have hsession (s : Session) (held : List (Holding Session.Element))
      (hr : World.Reached c { store := s.store, held }) (ho : s.store.disposed = false) :
      s.Traceless := by
    obtain ⟨l, hw⟩ := hr.coherent ho
    exact ⟨fun m call h => Session.perform_of_declined hw.live h,
      fun m snapshot call h => Session.consult_of_declined hw.live h⟩
  refine ⟨fun w m hr ho hd => ?_, hsession, fun s cs hs hv ho => ?_⟩
  · obtain ⟨l, hw⟩ := hr.coherent ho
    obtain ⟨_, h0, _⟩ := hw.live.settled
    have ht := hd.run hw.live
    exact ⟨ht, by rw [ht, h0.entries, hw.live.entries]⟩
  · obtain ⟨held, hr, _⟩ := (Session.backed_run hs cs hv).reached
    exact hsession _ held hr ho

/-- There is room for one element, and a pass releases one link. -/
def Config.narrow : Config := { capacity := some 1, reclaimBatch := 1 }

/-- The deque is full, and a link waits that a snapshot needed. -/
def World.littered : World Nat :=
  ((({ store := .init .narrow } : World Nat).after .openSnapshot).after (.insert 7 .last)).after
    (.closeSnapshot ⟨1⟩ .initial)

theorem World.reached_littered : Reached .narrow littered := by
  have hr : Reached .narrow ({ store := .init .narrow } : World Nat) := .init rfl
  have ho := hr.change .openSnapshot trivial (by decide)
  have hi := ho.change (.insert (7 : Nat) .last) trivial (by decide)
  exact hi.change (.closeSnapshot ⟨1⟩ .initial) ⟨_, List.mem_cons_self .., rfl, rfl⟩ (by decide)

/-- Two elements do not fit, so none of them is linked; the pass before has released what waited. A
snapshot that shows nothing has nothing to remove. -/
theorem World.littered_refuses_elements :
    ((Mutation.insertAll [8, 9] .last).run littered.store).1 = .error (.capacityExceeded 1) ∧
      ((Mutation.insertAll [8, 9] .last).run littered.store).2 = littered.store.reclaimPending ∧
      ((Mutation.insertAll [8, 9] .last).run littered.store).2.entries = [(⟨2, 0⟩, 7)] ∧
      littered.store.obsolete = [0] ∧ littered.store.reclaimPending.obsolete = [] ∧
      let s := Session.init .narrow
      ((s.perform .delivering (.remove .first)).2 = s ∨
        (s.perform .delivering (.remove .first)).2 = s.settled .delivering) ∧
      ((s.consult .delivering ⟨⟨⟨1⟩, .initial, 0, 0, 0⟩, false⟩ (.remove (.int 7))).2 = s ∨
        (s.consult .delivering ⟨⟨⟨1⟩, .initial, 0, 0, 0⟩, false⟩ (.remove (.int 7))).2 =
          s.settled .delivering) := by
  obtain ⟨hw, hs, hr⟩ := declined_leaves_no_trace .narrow
  obtain ⟨ht, he⟩ := hw littered (.insertAll [8, 9] .last) reached_littered rfl rfl
  have hi := hs (.init .narrow) [] (.init rfl) rfl
  have hi' := hr (.init .narrow) [] rfl (by decide) rfl
  exact ⟨rfl, ht, he, by decide, by decide, hi.call .delivering (.remove .first) rfl,
    hi'.consult .delivering _ (.remove (.int 7)) rfl⟩

end SnapshotDeque
