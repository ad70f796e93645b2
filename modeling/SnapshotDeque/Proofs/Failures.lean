import SnapshotDeque.Proofs.Refusals

/-!
Why calls fail. Whatever the call and wherever it is made, its failure can be told from the state
before it: the closed snapshot comes first, then the disposed deque, then what the call itself asks
for. Main statement: a call fails for the first of these reasons that applies, and if none does it
succeeds.
-/

namespace SnapshotDeque

/-! ## Capacity -/

namespace Store

variable {α ρ : Type} {s t : Store α} {l l' : List (Handle × α)}

/-- A change of a list that keeps to the capacity leaves a list that does. -/
theorem length_le_of_acts {m : Mutation α ρ} {cap : Nat} {vacant : Handle → Prop}
    {r : Except Error ρ} (h : m.Acts cap vacant l r l') (hm : m.disposes = false)
    (hl : l.length ≤ cap) : l'.length ≤ cap := by
  cases m with
  | insert a side =>
    by_cases hn : cap < l.length + 1
    · rw [((if_pos hn).mp h).2]
      exact hl
    · obtain ⟨x, _, _, rfl⟩ := (if_neg hn).mp h
      rw [End.length_add]
      exact Nat.le_of_not_lt hn
  | insertAll as side =>
    by_cases hn : cap < l.length + as.length
    · rw [((if_pos hn).mp h).2]
      exact hl
    · obtain ⟨es, rfl, _, _, rfl⟩ := (if_neg hn).mp h
      rw [List.length_map] at hn
      rw [End.length_add]
      exact Nat.le_of_not_lt hn
  | unlink x =>
    by_cases hx : x.isSentinel = true
    · rw [((if_pos hx).mp h).2]
      exact hl
    · rw [((if_neg hx).mp h).2]
      exact Nat.le_trans (List.length_filter_le _ _) hl
  | unlinkEach xs =>
    simp only [Mutation.Acts] at h
    split at h <;> obtain ⟨_, rfl⟩ := h <;> exact Nat.le_trans (List.length_filter_le _ _) hl
  | poll side =>
    rw [h.2, End.length_rest]
    exact Nat.le_trans (Nat.sub_le _ _) hl
  | openPolled limit =>
    rw [h.2, List.length_drop]
    exact Nat.le_trans (Nat.sub_le _ _) hl
  | dispose => cases hm
  | clear =>
    rw [h.2]
    exact Nat.zero_le _
  | openSnapshot =>
    rw [h.2]
    exact hl
  | closeSnapshot id v =>
    rw [h.2]
    exact hl
  | reclaim =>
    rw [h.2]
    exact hl
  | settle =>
    rw [h.2]
    exact hl
  | observe on =>
    rw [h.2]
    exact hl

/-- Several nodes are inserted only if there is room for all of them, even if the slots run out. -/
theorem Live.length_insertAll_le (h : s.Live l) (as : List α) (side : End)
    (hl : l.length ≤ s.capacity)
    (hv : ((Edit.insertAll as side).after s).timeline.modification < .max) :
    ((Edit.insertAll as side).after s).entries.length ≤ s.capacity := by
  by_cases hn : s.capacity < l.length + as.length
  · rw [(fails_insertAll h side as hn).after, h.entries]
    exact hl
  · have hm := Edit.lt_of_after (Edit.rises_effect (.insertAll as side)) hv
    rcases insertAll_spec h side as (Nat.le_of_not_lt hn) hm with
      ⟨es, t, rfl, ht, hlt, _⟩ | ⟨t, l', _, ht, hlt, hle, _⟩
    · rw [ht.after, hlt.entries, End.length_add]
      rw [List.length_map] at hn
      exact Nat.le_of_not_lt hn
    · rw [ht.after, hlt.entries]
      omega

theorem Live.length_insert_le (h : s.Live l) (a : α) (side : End) (hl : l.length ≤ s.capacity)
    (hv : ((Edit.insert a side).after s).timeline.modification < .max) :
    ((Edit.insert a side).after s).entries.length ≤ s.capacity := by
  by_cases hn : s.capacity < l.length + 1
  · rw [(fails_insert h side a hn).after, h.entries]
    exact hl
  · rcases insert_spec h side a (Nat.le_of_not_lt hn) hv with ⟨x, t, ht, hlt, _⟩ | ⟨t, ht, hlt, _⟩
    · rw [ht.after, hlt.entries, End.length_add]
      exact Nat.le_of_not_lt hn
    · rw [ht.after, hlt.entries]
      exact hl

end Store

namespace World

variable {α ρ : Type} {c : Config} {w : World α}

theorem Coherent.length_after_le {l : List (Handle × α)} (hw : w.Coherent l) {m : Mutation α ρ}
    (hp : w.Permits m) (hv : (w.after m).store.timeline.modification < .max)
    (hm : m.disposes = false) (hl : l.length ≤ w.store.capacity) :
    (w.after m).store.entries.length ≤ w.store.capacity := by
  obtain ⟨_, h0, hg⟩ := hw.live.settled
  have hcap : w.store.reclaimPending.capacity = w.store.capacity := by
    rw [Store.capacity, hg.spares.config]
    rfl
  have hrun : (w.after m).store = m.effect.after (m.base w.store) := Mutation.run_snd hw.live.open_
  by_cases hf : m.Fits w.store
  · exact Store.length_le_of_acts (hw.acts hp hv hm hf) hm hl
  · rw [hrun] at hv ⊢
    rw [← hcap] at hl ⊢
    cases m with
    | insert a side => exact h0.length_insert_le a side hl hv
    | insertAll as side => exact h0.length_insertAll_le as side hl hv
    | _ => exact absurd (hw.live.fits rfl) hf

/-- No more nodes are linked than the capacity admits. -/
theorem Reached.length_le (hr : Reached c w) (ho : w.store.disposed = false) :
    w.store.entries.length ≤ w.store.capacity := by
  induction hr with
  | init _ =>
    rw [(Store.live_init c).entries]
    exact Nat.zero_le _
  | @change _ w m hr hp hv ih =>
    have hd := disposed_of_after m ho
    obtain ⟨l, hw⟩ := hr.coherent hd
    have hm := disposes_eq_false ho
    have hcap : (w.after m).store.capacity = w.store.capacity := by
      rw [Store.capacity, (hr.change m hp hv).config, Store.capacity, hr.config]
    rw [hcap]
    exact hw.length_after_le hp hv hm (by rw [← hw.live.entries]; exact ih hd)
  | @deliver w hr ih =>
    obtain ⟨l, hw⟩ := hr.coherent ho
    rw [hw.delivered.live.entries, ← hw.live.entries]
    exact ih ho

end World

/-! ## Reasons -/

/-- The failure of a result, if it is one. -/
def Error.ofResult? {ρ : Type} : Except Error ρ → Option Error
  | .ok _ => none
  | .error e => some e

namespace Store

variable {α : Type}

def disposal? (d : Store α) : Option Error := if d.disposed then some .disposed else none

/-- There is no room for `n` more elements. -/
def crowding? (d : Store α) (n : Nat) : Option Error :=
  if d.room < n then some (.capacityExceeded d.capacity) else none

def emptiness? (d : Store α) : Option Error := if d.len = 0 then some .empty else none

end Store

def Handle.sentry? (x : Handle) : Option Error :=
  if x.isSentinel then some (.nodeNotPayload x) else none

/-- Why a change fails, if it does. -/
def Mutation.failure? {α ρ : Type} (d : Store α) : Mutation α ρ → Option Error
  | insert _ _ => d.disposal?.or (d.crowding? 1)
  | insertAll as _ => d.disposal?.or (d.crowding? as.length)
  | unlink x => d.disposal?.or x.sentry?
  | unlinkEach xs => d.disposal?.or ((xs.find? (·.isSentinel)).bind Handle.sentry?)
  | observe _ => none
  | _ => d.disposal?

/-- Why a look into a snapshot fails, if it does. -/
def Snapshot.obstacle? {α : Type} (snapshot : Snapshot) (d : Store α) : Option Error :=
  if snapshot.closed then some (.snapshotClosed snapshot.view.id) else d.disposal?

namespace Session

/-- Why a call on the deque fails, if it does. Getting an element is the one call for which a
disposed deque is an empty one. -/
def Call.failure? (s : Session) : Call → Option Error
  | .insert _ _ => s.store.disposal?.or (s.store.crowding? 1)
  | .insertAll es _ => s.store.disposal?.or (s.store.crowding? es.length)
  | .unlink node => (s.handle? node).bind fun x => s.store.disposal?.or x.sentry?
  | .remove _ => s.store.disposal?.or s.store.emptiness?
  | .get _ => s.store.emptiness?
  | .offer _ _ | .poll _ | .clear | .live | .reclaim | .dispose | .openSnapshot | .openPolled _ =>
    s.store.disposal?
  | _ => none

/-- Why a call on a snapshot fails, if it does. -/
def SnapshotCall.failure? (s : Session) (snapshot : Snapshot) : SnapshotCall → Option Error
  | .id | .version | .isClosed | .debug | .malformed _ => none
  | .unlink node => (s.handle? node).bind fun x => (snapshot.obstacle? s.store).or x.sentry?
  | _ => snapshot.obstacle? s.store

end Session

/-! ## Changes -/

namespace World

variable {α ρ : Type} {c : Config} {w : World α}

/-- A change of an open deque fails for the reason that it gives. -/
theorem failure_of_acts {l l' : List (Handle × α)} {m : Mutation α ρ} {vacant : Handle → Prop}
    {r : Except Error ρ} (hl : w.store.Live l) (hc : l.length ≤ w.store.capacity)
    (h : m.Acts w.store.capacity vacant l r l') : Error.ofResult? r = m.failure? w.store := by
  have hd : w.store.disposal? = none := by
    rw [Store.disposal?, hl.open_]
    rfl
  have hcrowd (n : Nat) : w.store.crowding? n =
      if w.store.capacity < l.length + n then some (.capacityExceeded w.store.capacity)
      else none := by
    rw [Store.crowding?, hl.reads.room]
    exact if_congr (by omega) rfl rfl
  cases m with
  | insert a side =>
    rw [Mutation.failure?, hd, Option.none_or, hcrowd]
    split
    · rename_i hn
      rw [((if_pos hn).mp h).1]
      rfl
    · rename_i hn
      obtain ⟨x, _, rfl, _⟩ := (if_neg hn).mp h
      rfl
  | insertAll as side =>
    rw [Mutation.failure?, hd, Option.none_or, hcrowd]
    split
    · rename_i hn
      rw [((if_pos hn).mp h).1]
      rfl
    · rename_i hn
      obtain ⟨es, _, _, rfl, _⟩ := (if_neg hn).mp h
      rfl
  | unlink x =>
    rw [Mutation.failure?, hd, Option.none_or, Handle.sentry?]
    split
    · rename_i hx
      rw [((if_pos hx).mp h).1]
      rfl
    · rename_i hx
      rw [((if_neg hx).mp h).1]
      rfl
  | unlinkEach xs =>
    rw [Mutation.failure?, hd, Option.none_or]
    simp only [Mutation.Acts] at h
    split at h <;> rename_i hx <;> rw [hx, h.1]
    · have hs : (fun x : Handle => x.isSentinel) _ = true := List.find?_some hx
      rw [Option.bind_some, Handle.sentry?, if_pos hs]
      rfl
    · rfl
  | openSnapshot =>
    obtain ⟨⟨_, rfl, _⟩, _⟩ := h
    exact hd.symm
  | openPolled limit =>
    obtain ⟨⟨_, rfl, _⟩, _⟩ := h
    exact hd.symm
  | closeSnapshot id v =>
    obtain ⟨⟨_, rfl⟩, _⟩ := h
    exact hd.symm
  | reclaim =>
    obtain ⟨⟨_, rfl⟩, _⟩ := h
    exact hd.symm
  | poll side =>
    rw [h.1]
    exact hd.symm
  | clear =>
    rw [h.1]
    exact hd.symm
  | settle =>
    rw [h.1]
    exact hd.symm
  | dispose =>
    rw [show r = .ok () from h]
    exact hd.symm
  | observe on =>
    rw [h.1]
    rfl

/-- A disposed deque refuses every change, and only that. -/
theorem failure_of_disposed {m : Mutation α ρ} {d : Store α} (h : d.disposed = true) :
    Error.ofResult? (m.run d).1 = m.failure? d := by
  have hd : d.disposal? = some .disposed := by
    rw [Store.disposal?, h]
    rfl
  cases m with
  | observe on => rfl
  | _ =>
    rw [Mutation.run_of_disposed h rfl]
    simp only [Mutation.failure?, hd, Option.some_or, Error.ofResult?]

theorem Reached.failure_run (hr : Reached c w) {m : Mutation α ρ} (hp : w.Permits m)
    (hf : w.store.disposed = false → m.Fits w.store)
    (hv : (w.after m).store.timeline.modification < .max) :
    Error.ofResult? (m.run w.store).1 = m.failure? w.store := by
  cases ho : w.store.disposed with
  | true => exact failure_of_disposed ho
  | false =>
    obtain ⟨l, hw⟩ := hr.coherent ho
    have hc : l.length ≤ w.store.capacity := by
      rw [← hw.live.entries]
      exact hr.length_le ho
    cases hm : m.disposes with
    | false => exact failure_of_acts hw.live hc (hw.acts hp hv hm (hf ho))
    | true =>
      obtain ⟨⟨a, ha⟩, _⟩ := Mutation.run_of_disposes ho hm
      rw [ha]
      cases m with
      | dispose =>
        change none = w.store.disposal?
        rw [Store.disposal?, ho]
        rfl
      | _ => cases hm

end World

namespace Session

variable {ρ : Type} {c : Config} {m : Mode} {s : Session}

/-! ## Calls -/

/-- No delivery takes a version or a slot back. -/
def Mode.Rises (m : Mode) : Prop := ∀ s : Session, s.store.Below (m.deliver s).store

theorem rises_outermost : Mode.outermost.Rises := fun s =>
  (leads_deliverFrom (c := {}) (n := 0) [] s).rises

theorem rises_delivering : Mode.delivering.Rises := fun s => .refl s.store

section Rises

variable (hm : m.Rises)

include hm

theorem below_change_of_rises (x : Mutation Element ρ) (s : Session) :
    (x.run s.store).2.Below (s.change m x).2.store := by
  rw [change_snd]
  dsimp only
  split
  · exact .refl _
  · refine Store.Below.trans ?_ (hm _)
    exact (leads_post (c := {}) (n := 0) { s with store := (x.run s.store).2 }).rises

theorem below_changing {x : Mutation Element ρ} {f : ρ → Session → Answer × Session}
    (hf : ∀ a (t : Session), t.store.Below (f a t).2.store) :
    (x.run s.store).2.Below (s.changing m x f).2.store := by
  have hb := below_change_of_rises hm x s
  obtain ⟨r, t, hr⟩ : ∃ r t, s.change m x = (r, t) := ⟨_, _, rfl⟩
  rw [hr] at hb
  cases r with
  | ok a =>
    rw [changing_of_ok hr]
    exact hb.trans (hf a t)
  | error e =>
    rw [changing_of_error hr]
    exact hb

end Rises

/-- A call on a node that is only looked at. -/
theorem failure_onNode {node : NodeRef} {f : Handle → Answer × Session}
    (h : ∀ x, (f x).1.failure? = none) : (s.onNode node f).1.failure? = none := by
  unfold onNode
  split
  · exact h _
  · rfl

/-- A call that makes a change fails as the change does, or as what it makes of its answer. -/
theorem failure_changing {x : Mutation Element ρ} {f : ρ → Session → Answer × Session}
    {g : ρ → Option Error} (hf : ∀ a t, (f a t).1.failure? = g a) :
    (s.changing m x f).1.failure? =
      match (x.run s.store).1 with
      | .ok a => g a
      | .error e => some e := by
  rw [← change_fst (s := s) (m := m) x]
  obtain ⟨r, t, hr⟩ : ∃ r t, s.change m x = (r, t) := ⟨_, _, rfl⟩
  rw [hr]
  cases r with
  | ok a =>
    rw [changing_of_ok hr]
    exact hf a t
  | error e =>
    rw [changing_of_error hr]
    rfl

section Reached

variable {held : List (Holding Element)} (hr : World.Reached c { store := s.store, held })
  (hm : m.Rises)

include hr hm

/-- A call that makes a change, and succeeds if that does. -/
theorem failure_of_changing {x : Mutation Element ρ} {f : ρ → Session → Answer × Session}
    (hp : World.Permits { store := s.store, held } x)
    (hx : s.store.disposed = false → x.Fits s.store)
    (hf : ∀ a t, (f a t).1.failure? = none) (hs : ∀ a (t : Session), t.store.Below (f a t).2.store)
    (hv : (s.changing m x f).2.store.timeline.modification < .max) :
    (s.changing m x f).1.failure? = x.failure? s.store := by
  have hv' := lt_of_le_of_lt (below_changing hm hs).modification hv
  rw [failure_changing hf, ← hr.failure_run hp hx hv']
  cases (x.run s.store).1 <;> rfl

/-- A call that makes a change for which no slots are needed. -/
theorem failure_of_changing_plain {x : Mutation Element ρ} {f : ρ → Session → Answer × Session}
    (hp : World.Permits { store := s.store, held } x) (hx : x.additional = 0)
    (hf : ∀ a t, (f a t).1.failure? = none) (hs : ∀ a (t : Session), t.store.Below (f a t).2.store)
    (hv : (s.changing m x f).2.store.timeline.modification < .max) :
    (s.changing m x f).1.failure? = x.failure? s.store :=
  failure_of_changing hr hm hp (fun ho => fits_of_additional hr ho hx) hf hs hv

theorem failure_offer {e : Element} {side : End} (hf : (Mutation.insert e side).Fits s.store)
    (hv : (s.perform m (.offer e side)).2.store.timeline.modification < .max) :
    (s.perform m (.offer e side)).1.failure? = s.store.disposal? := by
  have hb := below_change_of_rises hm (.insert e side) s
  have hfst := change_fst (s := s) (m := m) (.insert e side)
  have hfail := hr.failure_run (m := .insert e side) trivial (fun _ => hf)
  have hnone : s.store.disposal? = none ∨ s.store.disposal? = some .disposed := by
    unfold Store.disposal?
    split <;> simp
  rw [Mutation.failure?] at hfail
  revert hv
  simp only [perform]
  split <;> rename_i h <;> rw [h] at hb hfst <;> intro hv <;>
    rw [← hfst] at hfail <;> replace hfail := hfail (lt_of_le_of_lt hb.modification hv)
  · exact (Option.or_eq_none_iff.1 hfail.symm).1.symm
  · rcases hnone with hn | hn
    · exact hn.symm
    · rw [hn] at hfail
      cases hfail
  · rename_i _ hne
    rcases hnone with hn | hn
    · rw [hn, Option.none_or, Store.crowding?] at hfail
      split at hfail <;> cases hfail
      exact absurd rfl (hne _)
    · rw [hn] at hfail ⊢
      exact hfail

omit hr hm in
theorem failure_elementOrEmpty (x : Option Element) :
    (elementOrEmpty x).failure? = if x = none then some .empty else none := by
  cases x <;> rfl

omit hm in
/-- What a deque that is not disposed has at its ends. -/
theorem emptiness_of_open (ho : s.store.disposed = false) (side : End) :
    s.store.emptiness? =
      if (side.outermost? s.store.entries).map (·.2) = none then some .empty else none := by
  have hl : side.outermost? s.store.entries = none ↔ s.store.entries = [] := by
    cases side with
    | first => exact List.head?_eq_none_iff
    | last => exact List.getLast?_eq_none_iff
  rw [Store.emptiness?, (reads hr ho).1.len]
  refine if_congr ?_ rfl rfl
  rw [Option.map_eq_none_iff, hl, List.length_eq_zero_iff]

omit hm in
/-- Getting finds a disposed deque empty. -/
theorem failure_get (side : End) :
    (s.perform m (.get side)).1.failure? = s.store.emptiness? := by
  change (elementOrEmpty (s.store.peek side)).failure? = _
  rw [failure_elementOrEmpty]
  cases ho : s.store.disposed with
  | false => rw [emptiness_of_open hr ho side, (reads hr ho).1.peek]
  | true => simp [Store.emptiness?, Store.len, Store.peek, Store.read, ho]

theorem failure_remove (side : End)
    (hv : (s.perform m (.remove side)).2.store.timeline.modification < .max) :
    (s.perform m (.remove side)).1.failure? = s.store.disposal?.or s.store.emptiness? := by
  have hv' : ((Mutation.poll side).run s.store).2.timeline.modification < .max :=
    lt_of_le_of_lt (below_changing hm fun _ t => .refl t.store).modification hv
  change (s.changing m (.poll side) fun e s => (elementOrEmpty e, s)).1.failure? = _
  rw [failure_changing fun a _ => failure_elementOrEmpty a]
  cases ho : s.store.disposed with
  | true =>
    rw [Mutation.run_of_disposed ho rfl, Store.disposal?, ho]
    rfl
  | false =>
    obtain ⟨l, hw⟩ := hr.coherent ho
    obtain ⟨ha, _⟩ := hw.acts (m := .poll side) trivial hv' rfl (hw.live.fits rfl)
    rw [ha, Store.disposal?, ho, emptiness_of_open hr ho side, hw.live.entries]
    rfl

theorem failure_live (hv : (s.live m).2.store.timeline.modification < .max) :
    (s.live m).1.failure? = s.store.disposal? := by
  revert hv
  unfold live
  split
  · rename_i hd
    intro _
    rw [Store.disposal?, hd]
    rfl
  · refine failure_of_changing_plain hr hm (x := .openSnapshot) trivial rfl (fun v t => ?_)
      fun v t => ?_
    · dsimp only
      split <;> rfl
    · exact (Edit.below_run _ _).trans (below_change_of_rises hm _ t)

theorem failure_perform {call : Call} (hf : call.Fits s.store)
    (hv : (s.perform m call).2.store.timeline.modification < .max) :
    (s.perform m call).1.failure? = call.failure? s := by
  have same (t : Session) : t.store.Below t.store := .refl _
  cases call with
  | insert e side =>
    exact failure_of_changing hr hm (x := .insert e side) trivial (fun _ => hf) (fun _ _ => rfl)
      (fun _ t => same t) hv
  | insertAll es side =>
    exact failure_of_changing hr hm (x := .insertAll es side) trivial (fun _ => hf)
      (fun _ _ => rfl) (fun _ t => same t) hv
  | offer e side => exact failure_offer hr hm hf hv
  | unlink node =>
    simp only [perform, onNode] at hv ⊢
    rw [Call.failure?]
    split
    · rename_i x hx
      rw [hx] at hv ⊢
      exact failure_of_changing_plain hr hm (x := .unlink x) trivial rfl (fun _ _ => rfl)
        (fun _ t => same t) hv
    · rename_i hx
      rw [hx]
      rfl
  | poll side =>
    exact failure_of_changing_plain hr hm (x := .poll side) trivial rfl (fun _ _ => rfl)
      (fun _ t => same t) hv
  | remove side => exact failure_remove hr hm side hv
  | get side => exact failure_get hr side
  | clear =>
    exact failure_of_changing_plain hr hm (x := .clear) trivial rfl (fun _ _ => rfl)
      (fun _ t => same t) hv
  | live => exact failure_live hr hm hv
  | reclaim =>
    exact failure_of_changing_plain hr hm (x := .reclaim) trivial rfl (fun _ _ => rfl)
      (fun _ t => same t) hv
  | dispose =>
    exact failure_of_changing_plain hr hm (x := .dispose) trivial rfl (fun _ _ => rfl)
      (fun _ t => same t) hv
  | openSnapshot =>
    exact failure_of_changing_plain hr hm (x := .openSnapshot) trivial rfl (fun _ _ => rfl)
      (fun _ t => same t) hv
  | openPolled limit =>
    exact failure_of_changing_plain hr hm (x := .openPolled limit) trivial rfl (fun _ _ => rfl)
      (fun _ t => same t) hv
  | isLinked node => exact failure_onNode fun _ => rfl
  | element node => exact failure_onNode fun _ => rfl
  | nodeInfo node => exact failure_onNode fun _ => rfl
  | counts id =>
    simp only [perform]
    split <;> rfl
  | _ => rfl

theorem failure_unlinkPicked {picked : Except Error (List Handle)} {e? : Option Error}
    (he : Error.ofResult? picked = e?) (hd : e? = none → s.store.disposal? = none)
    (hp : ∀ xs, picked = .ok xs → ∀ x ∈ xs, x.isSentinel = false)
    (hv : (s.unlinkPicked m picked).2.store.timeline.modification < .max) :
    (s.unlinkPicked m picked).1.failure? = e? := by
  revert hv
  unfold unlinkPicked
  split
  · exact fun _ => he
  · exact fun _ => he
  · rename_i xs _
    intro hv
    have hx : xs.find? (·.isSentinel) = none :=
      List.find?_eq_none.2 fun x hx => Bool.not_eq_true _ ▸ hp xs rfl x hx
    rw [failure_of_changing_plain hr hm (x := .unlinkEach xs) trivial rfl (fun _ _ => rfl)
      (fun _ t => .refl t.store) hv, Mutation.failure?, hx, hd he.symm]
    exact he

end Reached

/-! ## Calls on snapshots -/

section Looks

variable {α β γ : Type} {snapshot : Snapshot} {d : Store α}

theorem ofResult_bind {x : Except Error β} {f : β → Except Error γ}
    (hf : ∀ b, Error.ofResult? (f b) = none) : Error.ofResult? (x >>= f) = Error.ofResult? x := by
  cases x with
  | ok b => exact hf b
  | error e => rfl

theorem ofResult_checkOpen (snapshot : Snapshot) (d : Store α) :
    Error.ofResult? (snapshot.checkOpen d) = snapshot.obstacle? d := by
  unfold Snapshot.checkOpen Snapshot.obstacle? Store.disposal?
  split
  · rfl
  · split <;> rfl

theorem ofResult_cursor : Error.ofResult? (snapshot.cursor d) = snapshot.obstacle? d :=
  (ofResult_bind fun _ => rfl).trans (ofResult_checkOpen snapshot d)

theorem ofResult_nodes : Error.ofResult? (snapshot.nodes d) = snapshot.obstacle? d :=
  (ofResult_bind fun _ => rfl).trans ofResult_cursor

theorem ofResult_nodesReversed :
    Error.ofResult? (snapshot.nodesReversed d) = snapshot.obstacle? d :=
  (ofResult_bind fun _ => rfl).trans ofResult_cursor

theorem ofResult_elements : Error.ofResult? (snapshot.elements d) = snapshot.obstacle? d :=
  (ofResult_bind fun _ => rfl).trans ofResult_nodes

theorem ofResult_picked {p : Test α} :
    Error.ofResult? (snapshot.picked d p) = snapshot.obstacle? d :=
  (ofResult_bind fun _ => rfl).trans ofResult_nodes

/-- A call that looks into a snapshot and shows what it sees. -/
theorem failure_of_look {x : Except Error β} {g : β → γ} {f : γ → Answer}
    (hx : Error.ofResult? x = snapshot.obstacle? d) (hf : ∀ b, (f b).failure? = none) :
    (Answer.ofExcept f (do return g (← x))).failure? = snapshot.obstacle? d := by
  rw [← hx]
  cases x with
  | ok b => exact hf (g b)
  | error e => rfl

/-- Nothing stands in the way of a snapshot only if its deque is not disposed. -/
theorem disposal_of_obstacle (h : snapshot.obstacle? d = none) : d.disposal? = none := by
  unfold Snapshot.obstacle? at h
  split at h
  · cases h
  · exact h

end Looks

theorem failure_consult {held : List (Holding Element)}
    (hr : World.Reached c { store := s.store, held }) (hm : m.Rises) {snapshot : Snapshot}
    {call : SnapshotCall}
    (hv : (s.consult m snapshot call).2.store.timeline.modification < .max) :
    (s.consult m snapshot call).1.failure? = call.failure? s snapshot := by
  cases call with
  | unlink node =>
    revert hv
    simp only [consult, onNode]
    rw [SnapshotCall.failure?]
    split
    · rename_i x hx
      rw [hx, Option.bind_some]
      have hc := ofResult_checkOpen snapshot s.store
      split <;> rename_i he <;> rw [he] at hc
      · intro _
        rw [← hc]
        rfl
      · intro hv
        rw [failure_of_changing_plain hr hm (x := .unlink x) trivial rfl (fun _ _ => rfl)
          (fun _ t => .refl t.store) hv, Mutation.failure?, ← hc, disposal_of_obstacle hc.symm]
        rfl
    · rename_i hx
      rw [hx]
      exact fun _ => rfl
  | remove a =>
    have hc : Error.ofResult? (snapshot.find? s.store (.ofPredicate (· = a))) =
        snapshot.obstacle? s.store := (ofResult_bind fun _ => rfl).trans ofResult_nodes
    revert hv
    simp only [consult]
    split <;> rename_i he <;> rw [he] at hc
    · exact fun _ => hc
    · exact fun _ => hc
    · rename_i x _
      intro hv
      refine Eq.trans ?_ hc
      rw [failure_of_changing_plain hr hm (x := .unlink x) trivial rfl (fun _ _ => rfl)
          (fun _ t => .refl t.store) hv, Mutation.failure?, disposal_of_obstacle hc.symm,
          Handle.sentry?, Snapshot.isSentinel_of_find he]
      rfl
  | removeAll as =>
    exact failure_unlinkPicked hr hm ofResult_picked disposal_of_obstacle
      (fun _ => Snapshot.isSentinel_of_picked) hv
  | removeIf p =>
    exact failure_unlinkPicked hr hm ofResult_picked disposal_of_obstacle
      (fun _ => Snapshot.isSentinel_of_picked) hv
  | retainOnly p =>
    exact failure_unlinkPicked hr hm ofResult_picked disposal_of_obstacle
      (fun _ => Snapshot.isSentinel_of_picked) hv
  | size => exact failure_of_look (ofResult_checkOpen _ _) fun _ => rfl
  | isEmpty => exact failure_of_look (ofResult_checkOpen _ _) fun _ => rfl
  | elements => exact failure_of_look ofResult_nodes fun _ => rfl
  | elementsReversed => exact failure_of_look ofResult_nodesReversed fun _ => rfl
  | nodes => exact failure_of_look ofResult_cursor fun _ => rfl
  | nodesReversed => exact failure_of_look ofResult_cursor fun _ => rfl
  | links => exact failure_of_look ofResult_cursor fun _ => rfl
  | first => exact failure_of_look ofResult_cursor fun _ => rfl
  | last => exact failure_of_look ofResult_cursor fun _ => rfl
  | firstNode => exact failure_of_look ofResult_cursor fun _ => rfl
  | lastNode => exact failure_of_look ofResult_cursor fun _ => rfl
  | find p => exact failure_of_look ofResult_nodes fun _ => rfl
  | contains a => exact failure_of_look ofResult_elements fun _ => rfl
  | position a => exact failure_of_look ofResult_elements fun _ => rfl
  | _ => rfl

/-- The calls of `s` fail for the reasons that can be told beforehand, and else they succeed. -/
structure Foretold (s : Session) : Prop where
  call : ∀ (m : Mode) (call : Call), m.Rises → call.Fits s.store →
    (s.perform m call).2.store.timeline.modification < .max →
    (s.perform m call).1.failure? = call.failure? s
  consult : ∀ (m : Mode) (snapshot : Snapshot) (call : SnapshotCall), m.Rises →
    (s.consult m snapshot call).2.store.timeline.modification < .max →
    (s.consult m snapshot call).1.failure? = call.failure? s snapshot

end Session

/-- Which failure a change ends in does not depend on how the deque came to its state: it is the
first of the reasons that there are, and none if there is none. So it is for the calls of a session,
on the deque and on snapshots, on their own, in a batch and in what an observer does. -/
theorem failures_are_foretold (c : Config) :
    (∀ {α ρ : Type} (w : World α) (m : Mutation α ρ), World.Reached c w → w.Permits m →
      m.Fits w.store → (w.after m).store.timeline.modification < .max →
      Error.ofResult? (m.run w.store).1 = m.failure? w.store) ∧
    (∀ (s : Session) (held : List (Holding Session.Element)),
      World.Reached c { store := s.store, held } → s.Foretold) ∧
    ∀ (s : Session) (cs : List Session.Command), Session.start c = .ok s →
      (s.run cs).2.store.timeline.modification < .max → (s.run cs).2.Foretold := by
  have hsession (s : Session) (held : List (Holding Session.Element))
      (hr : World.Reached c { store := s.store, held }) : s.Foretold :=
    ⟨fun _ _ hm hf hv => Session.failure_perform hr hm hf hv,
      fun _ _ _ hm hv => Session.failure_consult hr hm hv⟩
  refine ⟨fun w m hr hp hf hv => hr.failure_run hp (fun _ => hf) hv, hsession,
    fun s cs hs hv => ?_⟩
  obtain ⟨held, hr, _⟩ := (Session.backed_run hs cs hv).reached
  exact hsession _ held hr

/-- A session whose deque is disposed. -/
def Session.ended : Session :=
  { Session.init .narrow with store := (Mutation.dispose.run (Store.init .narrow)).2 }

theorem Session.reached_ended :
    World.Reached .narrow { store := Session.ended.store, held := [] } := by
  have hr : World.Reached .narrow ({ store := .init .narrow } : World Session.Element) := .init rfl
  exact hr.change .dispose trivial (by decide)

/-- Where one element has room, two have none. After disposal a removal fails for that, but through
a closed snapshot it fails since that is closed; and an empty deque has nothing to remove. -/
theorem failures_of_ended :
    ((Mutation.insertAll [8, 9] .last).run World.littered.store).1 =
        .error (.capacityExceeded 1) ∧
      (Session.ended.perform .delivering (.remove .first)).1.failure? = some .disposed ∧
      (Session.ended.consult .delivering ⟨⟨⟨1⟩, .initial, 0, 0, 0⟩, true⟩
        (.removeAll [])).1.failure? = some (.snapshotClosed ⟨1⟩) ∧
      ((Session.init .narrow).perform .outermost (.remove .first)).1.failure? = some .empty := by
  obtain ⟨hw, hs, hr⟩ := failures_are_foretold .narrow
  have hfull := hw World.littered (.insertAll [8, 9] .last) World.reached_littered trivial
    (fun _ => by decide) (by decide)
  have he := hs Session.ended [] Session.reached_ended
  have hi := hr (.init .narrow) [] rfl (by decide)
  have hinit : ((Session.init .narrow).perform .outermost (.remove .first)).2 = .init .narrow :=
    Session.deliver_of_outbox rfl
  refine ⟨?_, he.call .delivering (.remove .first) Session.rises_delivering trivial (by decide),
    he.consult .delivering _ (.removeAll []) Session.rises_delivering (by decide),
    hi.call .outermost (.remove .first) Session.rises_outermost trivial ?_⟩
  · cases h : ((Mutation.insertAll [8, 9] .last).run World.littered.store).1 with
    | ok hs =>
      rw [h] at hfull
      cases hfull
    | error e =>
      rw [h] at hfull
      exact congrArg Except.error (Option.some.inj hfull)
  · change ((Session.init .narrow).perform .outermost _).2.store.timeline.modification < _
    rw [hinit]
    decide

/-- To get an element of a disposed deque is not refused as everything else is: it is found to be
empty. -/
theorem get_finds_disposed_empty :
    ¬ ∀ (c : Config) (s : Session) (cs : List Session.Command) (side : End),
      Session.start c = .ok s → (s.run cs).2.store.disposed = true →
      ((s.run cs).2.perform .outermost (.get side)).1 = .failed .disposed := by
  intro h
  let disposed : Session := { Session.init {} with store := (Store.init {}).dispose }
  have hr : ((Session.init {}).run [.call .dispose]).2 = disposed := by
    change { disposed.deliver with heard := [] } = _
    rw [Session.deliver_of_outbox rfl]
    rfl
  have he := h {} (.init {}) [.call .dispose] .first rfl (by rw [hr]; rfl)
  rw [hr] at he
  cases he

end SnapshotDeque
