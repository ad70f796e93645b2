import SnapshotDeque.Proofs.Sessions

/-!
The calls of a session as operations on a list. In a batch, and wherever nobody reacts to the events
of a call, the answer of a call and the list that the deque holds after it can be told from the list
that it held before.
-/

namespace SnapshotDeque.Session

/-- What unlinking a node comes to on a list. -/
def UnlinkActs (l : List (Handle × Element)) (x : Handle) (a : Answer)
    (l' : List (Handle × Element)) : Prop :=
  if x.isSentinel then a = .failed (.nodeNotPayload x) ∧ l' = l
  else a = .flag (decide (x ∈ l.map (·.1))) ∧ l' = l.filter (·.1 ≠ x)

/-- The answer `a` of a call on a deque that holds `l` and may hold `cap` nodes, and the list `l'`
that it holds afterwards. -/
def Call.Acts (cap : Nat) (s : Session) (l : List (Handle × Element)) :
    Call → Answer → List (Handle × Element) → Prop
  | .insert e side, a, l' =>
    if cap < l.length + 1 then a = .failed (.capacityExceeded cap) ∧ l' = l
    else ∃ x, x ∉ l.map (·.1) ∧ a = .handle x ∧ l' = side.add [(x, e)] l
  | .insertAll es side, a, l' =>
    if cap < l.length + es.length then a = .failed (.capacityExceeded cap) ∧ l' = l
    else ∃ ps, ps.map (·.2) = es ∧ (∀ p ∈ ps, p.1 ∉ l.map (·.1)) ∧ a = .handles (ps.map (·.1)) ∧
      l' = side.add ps l
  | .offer e side, a, l' =>
    if cap < l.length + 1 then a = .flag false ∧ l' = l
    else ∃ x, x ∉ l.map (·.1) ∧ a = .flag true ∧ l' = side.add [(x, e)] l
  | .unlink node, a, l' => ∀ x, s.handle? node = some x → UnlinkActs l x a l'
  | .poll side, a, l' => a = .element ((side.outermost? l).map (·.2)) ∧ l' = side.rest l
  | .remove side, a, l' => a = elementOrEmpty ((side.outermost? l).map (·.2)) ∧ l' = side.rest l
  | .clear, a, l' => a = .number l.length ∧ l' = []
  | .openPolled limit, a, l' =>
    (∃ id v k, a = .opened id v k) ∧ l' = l.drop (Store.taken limit l.length)
  | .openSnapshot, a, l' => (∃ id v k, a = .opened id v k) ∧ l' = l
  | .live, a, l' => a = .elements (l.map (·.2)) ∧ l' = l
  | .peek side, a, l' => a = .element ((side.outermost? l).map (·.2)) ∧ l' = l
  | .get side, a, l' => a = elementOrEmpty ((side.outermost? l).map (·.2)) ∧ l' = l
  | .len, a, l' => a = .number l.length ∧ l' = l
  | .room, a, l' => a = .number (cap - l.length) ∧ l' = l
  | .isEmpty, a, l' => a = .flag (decide (l = [])) ∧ l' = l
  | .isLinked node, a, l' =>
    (∀ x, s.handle? node = some x → a = .flag (decide (x ∈ l.map (·.1)))) ∧ l' = l
  | .contains e, a, l' => a = .flag (decide (e ∈ l.map (·.2))) ∧ l' = l
  | .dispose, a, _ => a = .done
  | _, _, l' => l' = l

/-- Whether the slots suffice for the nodes that a call makes. -/
def Call.Fits (d : Store Element) : Call → Prop
  | .insert e side => (Mutation.insert e side).Fits d
  | .insertAll es side => (Mutation.insertAll es side).Fits d
  | .offer e side => (Mutation.insert e side).Fits d
  | _ => True

/-- Whether a call only looks at what a snapshot shows. -/
def SnapshotCall.looks : SnapshotCall → Bool
  | .unlink _ => false
  | .remove _ => false
  | .removeAll _ => false
  | .removeIf _ => false
  | .retainOnly _ => false
  | _ => true

/-- Nobody reacts to the events of a call before it has returned: they wait to be delivered, or no
observer has a reaction left. -/
def Mode.Still (m : Mode) (s : Session) : Prop :=
  m.batch = true ∨ m.deliver = id ∨ m.deliver = Session.deliver ∧ s.weight = 0

variable {ρ : Type} {m : Mode} {s t : Session}

/-! ## Sessions in which nobody reacts -/

theorem hear_of_weight (h : s.weight = 0) (id : ObserverId) (e : Event Element) :
    (s.hear id e).store = s.store ∧ (s.hear id e).weight = 0 := by
  cases ho : s.observer? id with
  | none => simp [hear, ho, h]
  | some o =>
    have hw := weight_setObserver ho (o.respond e).next
    have hr := o.weight_respond e
    simp only [hear, ho]
    cases hc : (o.respond e).commands with
    | none =>
      simp only [hc, Option.map_none, Option.getD_none] at hr
      refine ⟨rfl, ?_⟩
      simp only [react, weight_log]
      omega
    | some cs =>
      simp only [hc, Option.map_some, Option.getD_some] at hr
      omega

theorem deliverFrom_of_weight (due : List (ObserverId × Event Element)) (h : s.weight = 0) :
    (deliverFrom due s).store = s.store ∧ (deliverFrom due s).weight = 0 := by
  fun_induction deliverFrom due s with
  | case1 s id e due ih =>
    obtain ⟨hs, hw⟩ := hear_of_weight h id e
    exact ⟨(ih hw).1.trans hs, (ih hw).2⟩
  | case2 s _ => exact ⟨rfl, h⟩
  | case3 s events outbox _ ih => exact ih h

theorem Mode.Still.congr (hm : m.Still s) (h : t.weight = s.weight) : m.Still t := by
  rcases hm with hm | hm | ⟨hm, hw⟩
  · exact Or.inl hm
  · exact Or.inr (Or.inl hm)
  · exact Or.inr (Or.inr ⟨hm, h.trans hw⟩)

theorem Mode.Still.deliver (hm : m.Still s) (hb : m.batch = false) :
    (m.deliver s).store = s.store ∧ m.Still (m.deliver s) := by
  rcases hm with hm | hm | ⟨hm, hw⟩
  · rw [hb] at hm
    cases hm
  · refine ⟨?_, Or.inr (Or.inl hm)⟩
    rw [hm]
    rfl
  · obtain ⟨hs, hw'⟩ := deliverFrom_of_weight [] hw
    rw [show m.deliver s = deliverFrom [] s from congrFun hm s]
    exact ⟨hs, Or.inr (Or.inr ⟨hm, hw'⟩)⟩

/-! ## Changes and what calls make of them -/

/-- The events of a change are handed on or they wait. -/
theorem store_change (hm : m.Still s) (x : Mutation Element ρ) :
    ((s.change m x).2.store = (x.run s.store).2 ∨
      (s.change m x).2.store = { (x.run s.store).2 with events := [] }) ∧
      m.Still (s.change m x).2 := by
  have hpost : ∀ t : Session,
      t.post.store = t.store ∨ t.post.store = { t.store with events := [] } := by
    intro t
    unfold post
    split
    · exact Or.inl rfl
    · exact Or.inr rfl
  have ht : m.Still { s with store := (x.run s.store).2 } := hm.congr rfl
  unfold change
  dsimp only
  split
  · exact ⟨Or.inl rfl, ht⟩
  · rename_i hb
    have hp : m.Still ({ s with store := (x.run s.store).2 } : Session).post :=
      ht.congr (weight_congr (observers_post _))
    obtain ⟨hd, hs⟩ := hp.deliver (by simpa using hb)
    rw [hd]
    exact ⟨hpost _, hs⟩

theorem modification_le_of_still (hm : m.Still s) (x : Mutation Element ρ) :
    s.store.timeline.modification ≤ (s.change m x).2.store.timeline.modification := by
  have hle := (Edit.below_run x s.store).modification
  rcases (store_change hm x).1 with h | h
  · rw [h]
    exact hle
  · rw [h]
    exact hle

theorem changing_of_ok {x : Mutation Element ρ} {f : ρ → Session → Answer × Session} {a : ρ}
    {t : Session} (h : s.change m x = (.ok a, t)) : s.changing m x f = f a t := by
  unfold changing
  rw [h]

theorem changing_of_error {x : Mutation Element ρ} {f : ρ → Session → Answer × Session}
    {e : Error} {t : Session} (h : s.change m x = (.error e, t)) :
    s.changing m x f = (.failed e, t) := by
  unfold changing
  rw [h]

theorem onNode_snd {node : NodeRef} {f : Handle → Answer × Session} (h : ∀ x, (f x).2 = s) :
    (s.onNode node f).2 = s := by
  unfold onNode
  split
  · exact h _
  · rfl

theorem consult_of_looks {snapshot : Snapshot} {call : SnapshotCall} (h : call.looks = true) :
    (s.consult m snapshot call).2 = s := by
  cases call with
  | unlink node => cases h
  | remove a => cases h
  | removeAll as => cases h
  | removeIf p => cases h
  | retainOnly p => cases h
  | _ => rfl

/-- Disposing of an open deque always goes through. -/
theorem dispose_acts {cap : Nat} (ho : s.store.disposed = false) :
    Call.dispose.Acts cap s s.store.entries (s.perform m .dispose).1
      (s.perform m .dispose).2.store.entries := by
  obtain ⟨r, t, h⟩ : ∃ r t, s.change m .dispose = (r, t) := ⟨_, _, rfl⟩
  obtain ⟨⟨a, ha⟩, _⟩ := Mutation.run_of_disposes (m := .dispose) ho rfl
  have hfst := change_fst (s := s) (m := m) .dispose
  rw [ha, h] at hfst
  cases hfst
  rw [perform, changing_of_ok h]
  rfl

/-- A change of the session is one of its world. -/
theorem reached_change {c : Config} {held : List (Holding Element)}
    (hr : World.Reached c { store := s.store, held }) (hm : m.Still s) {x : Mutation Element ρ}
    (hp : World.Permits { store := s.store, held } x) {r : Except Error ρ} {t : Session}
    (h : s.change m x = (r, t)) (hv : t.store.timeline.modification < .max) :
    r = (x.run s.store).1 ∧ (x.run s.store).2.timeline.modification < .max ∧
      World.Reached c
        { store := t.store, held := World.holdings { store := s.store, held } x r } := by
  obtain ⟨hsnd, _⟩ := store_change hm x
  have hfst := change_fst (s := s) (m := m) x
  rw [h] at hfst hsnd
  have hfst : r = (x.run s.store).1 := hfst
  rw [hfst]
  rcases hsnd with hsnd | hsnd
  · rw [show t.store = _ from hsnd] at hv ⊢
    exact ⟨rfl, hv, hr.change x hp hv⟩
  · rw [show t.store = _ from hsnd] at hv ⊢
    exact ⟨rfl, hv, (hr.change x hp hv).deliver⟩

section Reached

variable {c : Config} {held : List (Holding Element)}
  (hr : World.Reached c { store := s.store, held }) (ho : s.store.disposed = false) (hm : m.Still s)

include hr ho hm

/-- A change of the session acts on the list of linked nodes. -/
theorem change_acts {x : Mutation Element ρ} (hp : World.Permits { store := s.store, held } x)
    (hx : x.disposes = false) (hf : x.Fits s.store) {r : Except Error ρ} {t : Session}
    (h : s.change m x = (r, t)) (hv : t.store.timeline.modification < .max) :
    x.Acts c.effectiveCapacity (· ∉ s.store.entries.map (·.1)) s.store.entries r
      t.store.entries := by
  obtain ⟨hfst, hv', _⟩ := reached_change hr hm hp h hv
  obtain ⟨l, hw⟩ := hr.coherent ho
  obtain ⟨l', hw'⟩ := hw.after hp hv' hx
  have ht : t.store.entries = (x.run s.store).2.entries := by
    have hsnd := (store_change hm x).1
    rw [h] at hsnd
    rcases hsnd with hsnd | hsnd
    · rw [show t.store = _ from hsnd]
    · rw [show t.store = _ from hsnd]
      exact hw'.delivered.live.entries.trans hw'.live.entries.symm
  have ha := hw.acts hp hv' hx hf
  rw [Store.capacity, hr.config] at ha
  rw [ht, hw.live.entries, hfst]
  obtain ⟨_, h0, _⟩ := hw.live.settled
  exact ha.mono fun y hy => h0.not_mem_of_fresh hy

/-- A change that does not dispose of the deque leaves it open. -/
theorem disposed_change {x : Mutation Element ρ} (hp : World.Permits { store := s.store, held } x)
    (hx : x.disposes = false) {r : Except Error ρ} {t : Session} (h : s.change m x = (r, t))
    (hv : t.store.timeline.modification < .max) : t.store.disposed = false := by
  obtain ⟨_, hv', _⟩ := reached_change hr hm hp h hv
  obtain ⟨l, hw⟩ := hr.coherent ho
  obtain ⟨l', hw'⟩ := hw.after hp hv' hx
  have hsnd := (store_change hm x).1
  rw [h] at hsnd
  rcases hsnd with hsnd | hsnd
  · rw [show t.store = _ from hsnd]
    exact hw'.live.open_
  · rw [show t.store = _ from hsnd]
    exact hw'.live.open_

omit hm in
theorem reads : s.store.Reads s.store.entries ∧ s.store.capacity = c.effectiveCapacity := by
  obtain ⟨l, hw⟩ := hr.coherent ho
  rw [hw.live.entries]
  exact ⟨hw.live.reads, by rw [Store.capacity, hr.config]⟩

omit hm in
theorem fits_of_additional {x : Mutation Element ρ} (hx : x.additional = 0) : x.Fits s.store := by
  obtain ⟨l, hw⟩ := hr.coherent ho
  exact hw.live.fits hx

/-- A change and what a call makes of its answer. -/
theorem changing_acts {x : Mutation Element ρ} {f : ρ → Session → Answer × Session}
    (hp : World.Permits { store := s.store, held } x) (hx : x.disposes = false)
    (hf : x.Fits s.store) (hs : ∀ a t, (f a t).2.store = t.store)
    (hv : (s.changing m x f).2.store.timeline.modification < .max) :
    ∃ r t, x.Acts c.effectiveCapacity (· ∉ s.store.entries.map (·.1)) s.store.entries r
        (s.changing m x f).2.store.entries ∧
      (∀ a, r = .ok a → (s.changing m x f).1 = (f a t).1) ∧
      ∀ e, r = .error e → (s.changing m x f).1 = .failed e := by
  obtain ⟨r, t, h⟩ : ∃ r t, s.change m x = (r, t) := ⟨_, _, rfl⟩
  cases r with
  | ok a =>
    rw [changing_of_ok h] at hv ⊢
    rw [hs] at hv ⊢
    refine ⟨_, t, change_acts hr ho hm hp hx hf h hv, fun b hb => ?_, nofun⟩
    cases hb
    rfl
  | error e =>
    rw [changing_of_error h] at hv ⊢
    refine ⟨_, t, change_acts hr ho hm hp hx hf h hv, nofun, fun b hb => ?_⟩
    cases hb
    rfl

theorem unlink_changing_acts {x : Handle}
    (hv : (s.changing m (.unlink x) fun b s => (.flag b, s)).2.store.timeline.modification < .max) :
    UnlinkActs s.store.entries x (s.changing m (.unlink x) fun b s => (.flag b, s)).1
      (s.changing m (.unlink x) fun b s => (.flag b, s)).2.store.entries := by
  obtain ⟨r, t, ha, hok, herr⟩ := changing_acts hr ho hm (x := .unlink x) trivial rfl
    (fits_of_additional hr ho rfl) (fun _ _ => rfl) hv
  by_cases hs : x.isSentinel = true
  · obtain ⟨he, hl⟩ := (if_pos hs).mp ha
    exact (if_pos hs).mpr ⟨herr _ he, hl⟩
  · obtain ⟨he, hl⟩ := (if_neg hs).mp ha
    exact (if_neg hs).mpr ⟨hok _ he, hl⟩

/-- The elements of the deque, through a snapshot of its own. -/
theorem live_acts (hv : (s.live m).2.store.timeline.modification < .max) :
    (s.live m).1 = .elements (s.store.entries.map (·.2)) ∧
      (s.live m).2.store.entries = s.store.entries := by
  obtain ⟨r, t, h⟩ : ∃ r t, s.change m .openSnapshot = (r, t) := ⟨_, _, rfl⟩
  -- what follows the opening is read off once the opened snapshot is known to be held
  obtain ⟨f, hlive, hsnd, hfst⟩ : ∃ f, s.live m = s.changing m .openSnapshot f ∧
      (∀ v t, (f v t).2 = (t.change m (.closeSnapshot v.id v.version)).2) ∧
      ∀ v t es, ({ view := v } : Snapshot).elements t.store = .ok es →
        (f v t).1 = .elements es := by
    unfold live
    rw [ho]
    refine ⟨_, if_neg Bool.false_ne_true, fun v t => rfl, fun v t es hes => ?_⟩
    simp only [hes]
  rw [hlive] at hv ⊢
  have hm' : m.Still t := by
    have hs := (store_change hm .openSnapshot).2
    rw [h] at hs
    exact hs
  have ht : t.store.timeline.modification < .max := by
    cases r with
    | error e =>
      rw [changing_of_error h] at hv
      exact hv
    | ok v =>
      rw [changing_of_ok h, hsnd] at hv
      exact (modification_le_of_still hm' _).trans_lt hv
  obtain ⟨⟨v, rfl, _⟩, hl⟩ := change_acts hr ho hm (x := .openSnapshot) trivial rfl
    (fits_of_additional hr ho rfl) h ht
  rw [changing_of_ok h, hsnd] at hv ⊢
  obtain ⟨_, _, hr'⟩ := reached_change hr hm (x := .openSnapshot) trivial h ht
  have ho' := disposed_change hr ho hm (x := .openSnapshot) trivial rfl h ht
  obtain ⟨l', hw⟩ := hr'.coherent ho'
  have hmem : (⟨v, s.store.entries⟩ : Holding Element) ∈ World.holdings
      { store := s.store, held } .openSnapshot (.ok v) := List.mem_cons_self ..
  have hn := (hw.nodes hmem).1
  constructor
  · refine hfst v t _ ?_
    rw [Snapshot.elements, hn]
    rfl
  · obtain ⟨_, hc⟩ := change_acts hr' ho' hm' (x := .closeSnapshot v.id v.version)
      ⟨_, hmem, rfl, rfl⟩ rfl (fits_of_additional hr' ho' rfl) rfl hv
    exact hc.trans hl

/-- An element that finds no room comes back to the caller, and the deque is as it was. -/
theorem offer_acts {e : Element} {side : End} (hf : (Mutation.insert e side).Fits s.store)
    (hv : (s.perform m (.offer e side)).2.store.timeline.modification < .max) :
    (Call.offer e side).Acts c.effectiveCapacity s s.store.entries (s.perform m (.offer e side)).1
      (s.perform m (.offer e side)).2.store.entries := by
  obtain ⟨r, t, h⟩ : ∃ r t, s.change m (.insert e side) = (r, t) := ⟨_, _, rfl⟩
  have ht : (s.perform m (.offer e side)).2 = t := by
    rw [perform, h]
    split <;> rename_i h' <;> cases h' <;> rfl
  rw [ht] at hv ⊢
  have ha := change_acts hr ho hm (x := .insert e side) trivial rfl hf h hv
  by_cases hn : c.effectiveCapacity < s.store.entries.length + 1
  · obtain ⟨rfl, hl⟩ := (if_pos hn).mp ha
    exact (if_pos hn).mpr ⟨by rw [perform, h], hl⟩
  · obtain ⟨x, hx, rfl, hl⟩ := (if_neg hn).mp ha
    exact (if_neg hn).mpr ⟨x, hx, by rw [perform, h], hl⟩

theorem perform_acts (call : Call) (hf : call.Fits s.store)
    (hv : (s.perform m call).2.store.timeline.modification < .max) :
    call.Acts c.effectiveCapacity s s.store.entries (s.perform m call).1
      (s.perform m call).2.store.entries := by
  obtain ⟨hrd, hcap⟩ := reads hr ho
  cases call with
  | insert e side =>
    obtain ⟨r, t, ha, hok, herr⟩ :=
      changing_acts hr ho hm (x := .insert e side) trivial rfl hf (fun _ _ => rfl) hv
    by_cases hn : c.effectiveCapacity < s.store.entries.length + 1
    · obtain ⟨he, hl⟩ := (if_pos hn).mp ha
      exact (if_pos hn).mpr ⟨herr _ he, hl⟩
    · obtain ⟨x, hx, he, hl⟩ := (if_neg hn).mp ha
      exact (if_neg hn).mpr ⟨x, hx, hok _ he, hl⟩
  | insertAll es side =>
    obtain ⟨r, t, ha, hok, herr⟩ :=
      changing_acts hr ho hm (x := .insertAll es side) trivial rfl hf (fun _ _ => rfl) hv
    by_cases hn : c.effectiveCapacity < s.store.entries.length + es.length
    · obtain ⟨he, hl⟩ := (if_pos hn).mp ha
      exact (if_pos hn).mpr ⟨herr _ he, hl⟩
    · obtain ⟨ps, hps, hx, he, hl⟩ := (if_neg hn).mp ha
      exact (if_neg hn).mpr ⟨ps, hps, hx, hok _ he, hl⟩
  | offer e side => exact offer_acts hr ho hm hf hv
  | unlink node =>
    intro x hx
    have hp : s.perform m (.unlink node) = s.changing m (.unlink x) fun b s => (.flag b, s) := by
      rw [perform, onNode, hx]
    rw [hp] at hv ⊢
    exact unlink_changing_acts hr ho hm hv
  | poll side =>
    obtain ⟨r, t, ⟨he, hl⟩, hok, _⟩ := changing_acts hr ho hm (x := .poll side) trivial rfl
      (fits_of_additional hr ho rfl) (fun _ _ => rfl) hv
    exact ⟨hok _ he, hl⟩
  | remove side =>
    obtain ⟨r, t, ⟨he, hl⟩, hok, _⟩ := changing_acts hr ho hm (x := .poll side) trivial rfl
      (fits_of_additional hr ho rfl) (fun _ _ => rfl) hv
    exact ⟨hok _ he, hl⟩
  | clear =>
    obtain ⟨r, t, ⟨he, hl⟩, hok, _⟩ := changing_acts hr ho hm (x := .clear) trivial rfl
      (fits_of_additional hr ho rfl) (fun _ _ => rfl) hv
    exact ⟨hok _ he, hl⟩
  | reclaim =>
    obtain ⟨r, t, ⟨_, hl⟩, _⟩ := changing_acts hr ho hm (x := .reclaim) trivial rfl
      (fits_of_additional hr ho rfl) (fun _ _ => rfl) hv
    exact hl
  | openSnapshot =>
    obtain ⟨r, t, ⟨⟨w, he, _⟩, hl⟩, hok, _⟩ := changing_acts hr ho hm (x := .openSnapshot)
      trivial rfl (fits_of_additional hr ho rfl) (fun _ _ => rfl) hv
    exact ⟨⟨_, _, _, hok _ he⟩, hl⟩
  | openPolled limit =>
    obtain ⟨r, t, ⟨⟨w, he, _⟩, hl⟩, hok, _⟩ := changing_acts hr ho hm (x := .openPolled limit)
      trivial rfl (fits_of_additional hr ho rfl) (fun _ _ => rfl) hv
    exact ⟨⟨_, _, _, hok _ he⟩, hl⟩
  | peek side =>
    refine ⟨?_, rfl⟩
    rw [perform, hrd.peek]
  | get side =>
    refine ⟨?_, rfl⟩
    rw [perform, hrd.peek]
  | len =>
    refine ⟨?_, rfl⟩
    rw [perform, hrd.len]
  | room =>
    refine ⟨?_, rfl⟩
    rw [perform, hrd.room, hcap]
  | isEmpty =>
    refine ⟨?_, rfl⟩
    rw [perform, hrd.len]
    exact congrArg Answer.flag (decide_eq_decide.2 List.length_eq_zero_iff)
  | isLinked node =>
    refine ⟨fun x hx => ?_, ?_⟩
    · rw [perform, onNode, hx]
      exact congrArg Answer.flag (Bool.eq_iff_iff.2 (by simpa using hrd.isLinked x))
    · exact congrArg (fun t : Session => t.store.entries)
        (onNode_snd (f := fun h => (.flag (s.store.isLinked h), s)) fun _ => rfl)
  | contains e =>
    refine ⟨?_, rfl⟩
    rw [perform]
    exact congrArg Answer.flag (Bool.eq_iff_iff.2 (by simpa using hrd.contains ho e))
  | dispose => exact dispose_acts ho
  | unregister id =>
    let t : Session := { s with registered := s.registered.filter (· ≠ ⟨id⟩) }
    have ha := change_acts (s := t) hr ho (hm.congr rfl) (x := .observe !t.registered.isEmpty)
      trivial rfl (fits_of_additional (s := t) hr ho rfl) rfl hv
    exact ha.2
  | element node =>
    exact congrArg (fun t : Session => t.store.entries)
      (onNode_snd (f := fun h => (.element (s.store.element? h), s)) fun _ => rfl)
  | nodeInfo node =>
    exact congrArg (fun t : Session => t.store.entries)
      (onNode_snd (f := fun h => (.nodeInfo (s.store.nodeInfo? h), s)) fun _ => rfl)
  | live => exact live_acts hr ho hm hv
  | counts id =>
    rw [perform]
    split <;> rfl
  | _ => rfl

/-- What unlinking through an open snapshot comes to. -/
theorem unlink_consult_acts {snapshot : Snapshot} {node : NodeRef} {x : Handle}
    (hc : snapshot.closed = false) (hx : s.handle? node = some x)
    (hv : (s.consult m snapshot (.unlink node)).2.store.timeline.modification < .max) :
    UnlinkActs s.store.entries x (s.consult m snapshot (.unlink node)).1
      (s.consult m snapshot (.unlink node)).2.store.entries := by
  have hp : s.consult m snapshot (.unlink node) =
      s.changing m (.unlink x) fun b s => (.flag b, s) := by
    rw [consult, onNode, hx]
    dsimp only
    rw [Snapshot.checkOpen, hc, ho]
    rfl
  rw [hp] at hv ⊢
  exact unlink_changing_acts hr ho hm hv

end Reached

end SnapshotDeque.Session
