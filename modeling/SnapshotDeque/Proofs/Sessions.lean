import SnapshotDeque.Proofs.Backed

/-!
Sessions keep to worlds. Whatever calls, batches, walks and reactions of observers a session is made
of, its deque goes through changes of one world, and no answer reports a failure that should not
be. Main statements: what holds at the start of a session holds to its end, and all failures in its
answers and its log are expected ones.
-/

namespace SnapshotDeque

namespace Session

variable {c : Config} {n : Nat} {s t u : Session} {ρ : Type} {lent : List View}

/-- A session can go from `s` to `t`, and in doing so closes the snapshots in `lent` or puts them
into the table: the modification version is not taken back, and the session is backed as before. -/
structure Leads (c : Config) (n : Nat) (lent : List View) (s t : Session) : Prop where
  rises : s.store.Below t.store
  backed : ∀ {own}, t.store.Within n → Backed c n (lent ++ own) s → Backed c n own t

/-- A session can go from `s` on with an answer in which all failures are expected. -/
structure Answers (c : Config) (n : Nat) (lent : List View) (s : Session) (x : Answer × Session) :
    Prop extends Leads c n lent s x.2 where
  fine : ∀ {own}, x.2.store.Within n → Backed c n (lent ++ own) s →
    Fine n x.1.failures

theorem Leads.refl (s : Session) : Leads c n [] s s := ⟨.refl _, fun _ h => h⟩

theorem Leads.trans (h : Leads c n lent s t) (h' : Leads c n [] t u) : Leads c n lent s u where
  rises := h.rises.trans h'.rises
  backed hv hb := h'.backed hv (h.backed (h'.rises.within hv) hb)

theorem Leads.of_eq (hs : t.store = s.store) (ho : t.openViews = s.openViews)
    (hh : t.heard = s.heard) : Leads c n [] s t where
  rises := .of_eq (by rw [hs]) (by rw [hs])
  backed _ hb := hb.congr hs (by rw [ho]; exact .refl _) hh

theorem Leads.answers {a : Answer} (h : Leads c n lent s t) (ha : a.failures = []) :
    Answers c n lent s (a, t) :=
  { h with fine := fun _ _ => by rw [ha]; exact fine_nil }

theorem Leads.fails {e : Error} (h : Leads c n lent s t) (he : e.Expected n) :
    Answers c n lent s (.failed e, t) :=
  { h with fine := fun _ _ => fine_failed he }

theorem Leads.then {x : Answer × Session} (h : Leads c n lent s t) (h' : Answers c n [] t x) :
    Answers c n lent s x :=
  { h.trans h'.toLeads with
    fine := fun hv hb => h'.fine hv (h.backed (h'.rises.within hv) hb) }

/-- Deliveries under `m` go on with the same world. -/
def Mode.Delivers (c : Config) (n : Nat) (m : Mode) : Prop := ∀ s, Leads c n [] s (m.deliver s)

theorem leads_post (s : Session) : Leads c n [] s s.post := by
  unfold post
  split
  · exact .refl s
  · refine ⟨.of_eq rfl (Nat.le_refl _), fun _ hb => ⟨?_, hb.ids, hb.heard⟩⟩
    obtain ⟨held, hr, hh⟩ := hb.reached
    exact ⟨held, hr.deliver, hh⟩

section Change

variable {m : Mode} (hm : m.Delivers c n)

theorem change_fst (x : Mutation Element ρ) : (s.change m x).1 = (x.run s.store).1 := by
  unfold change
  dsimp only
  split <;> rfl

include hm

/-- What follows the change itself. -/
theorem leads_change (x : Mutation Element ρ) :
    Leads c n [] { s with store := (x.run s.store).2 } (s.change m x).2 := by
  unfold change
  dsimp only
  split
  · exact .refl _
  · exact (leads_post _).trans (hm _)

theorem within_of_change {x : Mutation Element ρ}
    (hv : (s.change m x).2.store.Within n) :
    (x.run s.store).2.Within n :=
  (leads_change hm x).rises.within hv

theorem below_change (x : Mutation Element ρ) : s.store.Below (s.change m x).2.store :=
  (Edit.below_run x s.store).trans (leads_change hm x).rises

theorem leads_plain {x : Mutation Element ρ} (hx : isPlain x = true) :
    Leads c n [] s (s.change m x).2 where
  rises := below_change hm x
  backed hv hb := (leads_change hm x).backed hv (hb.run_plain hx (within_of_change hm hv)).1

theorem leads_closing (v : View) :
    Leads c n [v] s (s.change m (.closeSnapshot v.id v.version)).2 where
  rises := below_change hm _
  backed hv hb := (leads_change hm _).backed hv (hb.run_closed rfl (within_of_change hm hv))

theorem answers_changing {x : Mutation Element ρ} (hx : isPlain x = true)
    {f : ρ → Session → Answer × Session} (hf : ∀ a t, Answers c n [] t (f a t)) :
    Answers c n [] s (s.changing m x f) := by
  have hl := leads_plain (s := s) hm hx
  have hr := change_fst (s := s) (m := m) x
  unfold changing
  split
  · rename_i a t h
    rw [h] at hl
    exact hl.then (hf a t)
  · rename_i e t h
    refine ⟨by rw [h] at hl; exact hl, fun {own} hv hb => fine_failed ?_⟩
    rw [h] at hr
    refine (hb.run_plain hx (within_of_change (s := s) hm ?_)).2 e hr.symm
    rw [h]
    exact hv

/-- A snapshot is opened and lent to what follows. -/
theorem answers_opening {x : Mutation Element View}
    (hx : x = .openSnapshot ∨ ∃ limit, x = .openPolled limit)
    {f : View → Session → Answer × Session} (hf : ∀ v t, Answers c n [v] t (f v t)) :
    Answers c n [] s (s.changing m x f) := by
  have hl := leads_change (s := s) hm x
  have hr := change_fst (s := s) (m := m) x
  have hrise := below_change (s := s) hm x
  have hlt : (s.change m x).2.store.Within n → (x.run s.store).2.Within n := within_of_change hm
  unfold changing
  split
  · rename_i v t h
    rw [h] at hl hr hrise hlt
    have hopen : ∀ {own}, t.store.Within n → Backed c n own s →
        Backed c n (v :: own) t := fun hv hb =>
      hl.backed hv (hb.run_opened hx (hlt hv) hr.symm)
    have ha := hf v t
    refine ⟨⟨hrise.trans ha.rises, fun hv hb => ?_⟩, fun hv hb => ?_⟩
    · exact ha.backed hv (hopen (ha.rises.within hv) hb)
    · exact ha.fine hv (hopen (ha.rises.within hv) hb)
  · rename_i e t h
    rw [h] at hl hr hrise hlt
    have hp : ∀ held, World.Permits { store := s.store, held } x := fun held => by
      rcases hx with rfl | ⟨limit, rfl⟩ <;> trivial
    have hk : ∀ held, (x.run s.store).2.disposed = false →
        World.holdings { store := s.store, held } x (x.run s.store).1 = held := fun held _ => by
      rw [← hr]
      rcases hx with rfl | ⟨limit, rfl⟩ <;> rfl
    refine ⟨⟨hrise, fun hv hb => hl.backed hv (hb.run_kept hp hk (hlt hv)).1⟩, fun hv hb => ?_⟩
    exact fine_failed ((hb.run_kept hp hk (hlt hv)).2 e hr.symm)

end Change

/-! ## Calls on the deque -/

theorem answers_onNode {node : NodeRef} {f : Handle → Answer × Session}
    (h : ∀ x, Answers c n [] s (f x)) : Answers c n [] s (s.onNode node f) := by
  unfold onNode
  split
  · exact h _
  · exact (Leads.refl s).answers rfl

theorem leads_addHandles (s : Session) (hs : List Handle) : Leads c n [] s (s.addHandles hs) :=
  .of_eq rfl rfl rfl

theorem openViews_addSnapshot (v : View) :
    (s.addSnapshot v).2.openViews = s.openViews ++ [v] := by
  simp [addSnapshot, openViews, Entry.openView?]

theorem answers_addSnapshot (v : View) : Answers c n [v] s (s.addSnapshot v) := by
  refine Leads.answers ⟨.refl _, fun {own} _ hb => hb.congr rfl ?_ rfl⟩ rfl
  change (own ++ (s.addSnapshot v).2.openViews).Perm _
  rw [openViews_addSnapshot, ← List.append_assoc]
  exact List.perm_append_comm

section Perform

variable {m : Mode} (hm : m.Delivers c n)

include hm

theorem answers_live : Answers c n [] s (s.live m) := by
  unfold live
  split
  · exact (Leads.refl s).fails (Or.inl rfl)
  · refine answers_opening hm (Or.inl rfl) fun v t => (leads_closing hm v).answers ?_
    split <;> rfl

theorem answers_unregister (id : ObserverId) : Answers c n [] s (s.unregister m id) := by
  unfold unregister
  refine Leads.answers (Leads.trans (t := { s with registered := _ }) ?_ (leads_plain hm rfl)) rfl
  exact .of_eq rfl rfl rfl

theorem answers_perform (call : Call) : Answers c n [] s (s.perform m call) := by
  cases call with
  | insert e side =>
    exact answers_changing hm rfl fun h t => (leads_addHandles t [h]).answers rfl
  | insertAll es side =>
    exact answers_changing hm rfl fun hs t => (leads_addHandles t hs).answers rfl
  | offer e side =>
    have hl := leads_plain (s := s) (x := .insert e side) hm rfl
    have hr := change_fst (s := s) (m := m) (.insert e side)
    simp only [perform]
    split <;> rename_i h <;> rw [h] at hl hr
    · exact hl.answers rfl
    · exact hl.answers rfl
    · refine { hl with fine := fun {own} hv hb => fine_failed ?_ }
      refine (hb.run_plain rfl (within_of_change (s := s) hm ?_)).2 _ hr.symm
      rw [h]
      exact hv
  | unlink node =>
    exact answers_onNode fun x => answers_changing hm rfl fun b t => (Leads.refl t).answers rfl
  | poll side => exact answers_changing hm rfl fun e t => (Leads.refl t).answers rfl
  | remove side =>
    refine answers_changing hm rfl fun e t => ?_
    cases e with
    | none => exact (Leads.refl t).fails (Or.inl rfl)
    | some e => exact (Leads.refl t).answers rfl
  | get side =>
    simp only [perform]
    cases s.store.peek side with
    | none => exact (Leads.refl s).fails (Or.inl rfl)
    | some e => exact (Leads.refl s).answers rfl
  | clear => exact answers_changing hm rfl fun n t => (Leads.refl t).answers rfl
  | isLinked node => exact answers_onNode fun x => (Leads.refl s).answers rfl
  | element node => exact answers_onNode fun x => (Leads.refl s).answers rfl
  | nodeInfo node => exact answers_onNode fun x => (Leads.refl s).answers rfl
  | live => exact answers_live hm
  | reclaim => exact answers_changing hm rfl fun p t => (Leads.refl t).answers rfl
  | dispose => exact answers_changing hm rfl fun _ t => (Leads.refl t).answers rfl
  | openSnapshot => exact answers_opening hm (Or.inl rfl) fun v t => answers_addSnapshot v
  | openPolled limit =>
    exact answers_opening hm (Or.inr ⟨limit, rfl⟩) fun v t => answers_addSnapshot v
  | unregister id => exact answers_unregister hm ⟨id⟩
  | counts id =>
    simp only [perform]
    split <;> exact (Leads.refl s).answers rfl
  | _ => exact (Leads.refl s).answers rfl

end Perform

/-! ## Calls on a snapshot -/

/-- Whatever the failure, it is no internal one. -/
def Careful {β : Type} (x : Except Error β) : Prop := ∀ e, x = .error e → e.isInternal = false

theorem Careful.bind {β γ : Type} {x : Except Error β} {g : β → Except Error γ} (hx : Careful x)
    (hg : ∀ b, Careful (g b)) : Careful (x >>= g) := by
  intro e he
  cases x with
  | error f =>
    cases he
    exact hx _ rfl
  | ok b => exact hg b e he

theorem careful_pure {β : Type} (b : β) : Careful (pure b : Except Error β) := nofun

theorem careful_checkOpen (snapshot : Snapshot) (d : Store Element) :
    Careful (snapshot.checkOpen d) := by
  intro e he
  unfold Snapshot.checkOpen at he
  split at he
  · cases he
    rfl
  · split at he
    · cases he
      rfl
    · cases he

theorem careful_size (snapshot : Snapshot) (d : Store Element) : Careful (snapshot.size d) :=
  (careful_checkOpen snapshot d).bind fun _ => careful_pure _

theorem careful_cursor (snapshot : Snapshot) (d : Store Element) : Careful (snapshot.cursor d) :=
  (careful_checkOpen snapshot d).bind fun _ => careful_pure _

theorem careful_nodes (snapshot : Snapshot) (d : Store Element) : Careful (snapshot.nodes d) :=
  (careful_cursor snapshot d).bind fun _ => careful_pure _

theorem careful_nodesReversed (snapshot : Snapshot) (d : Store Element) :
    Careful (snapshot.nodesReversed d) :=
  (careful_cursor snapshot d).bind fun _ => careful_pure _

theorem careful_elements (snapshot : Snapshot) (d : Store Element) :
    Careful (snapshot.elements d) :=
  (careful_nodes snapshot d).bind fun _ => careful_pure _

theorem careful_firstNode (snapshot : Snapshot) (d : Store Element) :
    Careful (snapshot.firstNode d) :=
  (careful_cursor snapshot d).bind fun _ => careful_pure _

theorem careful_lastNode (snapshot : Snapshot) (d : Store Element) :
    Careful (snapshot.lastNode d) :=
  (careful_cursor snapshot d).bind fun _ => careful_pure _

theorem careful_find (snapshot : Snapshot) (d : Store Element) (p : Test Element) :
    Careful (snapshot.find? d p) :=
  (careful_nodes snapshot d).bind fun _ => careful_pure _

theorem careful_picked (snapshot : Snapshot) (d : Store Element) (p : Test Element) :
    Careful (snapshot.picked d p) :=
  (careful_nodes snapshot d).bind fun _ => careful_pure _

theorem answers_read {β : Type} {x : Except Error β} (hx : Careful x) {f : β → Answer}
    (hf : ∀ b, (f b).failures = []) : Answers c n [] s (.ofExcept f x, s) := by
  cases x with
  | ok b => exact (Leads.refl s).answers (hf b)
  | error e => exact (Leads.refl s).fails (Or.inl (hx e rfl))

section Consult

variable {m : Mode} (hm : m.Delivers c n)

include hm

theorem answers_unlinkPicked {x : Except Error (List Handle)} (hx : Careful x) :
    Answers c n [] s (s.unlinkPicked m x) := by
  unfold unlinkPicked
  split
  · exact (Leads.refl s).fails (Or.inl (hx _ rfl))
  · exact (Leads.refl s).answers rfl
  · exact answers_changing hm rfl fun n t => (Leads.refl t).answers rfl

theorem answers_consult (snapshot : Snapshot) (call : SnapshotCall) :
    Answers c n [] s (s.consult m snapshot call) := by
  cases call with
  | size => exact answers_read (careful_size _ _) fun _ => rfl
  | isEmpty => exact answers_read (careful_size _ _) fun _ => rfl
  | elements => exact answers_read (careful_elements _ _) fun _ => rfl
  | elementsReversed =>
    exact answers_read ((careful_nodesReversed _ _).bind fun _ => careful_pure _) fun _ => rfl
  | nodes => exact answers_read (careful_nodes _ _) fun _ => rfl
  | nodesReversed => exact answers_read (careful_nodesReversed _ _) fun _ => rfl
  | links => exact answers_read ((careful_cursor _ _).bind fun _ => careful_pure _) fun _ => rfl
  | first => exact answers_read (careful_firstNode _ _) fun _ => rfl
  | last => exact answers_read (careful_lastNode _ _) fun _ => rfl
  | firstNode => exact answers_read (careful_firstNode _ _) fun _ => rfl
  | lastNode => exact answers_read (careful_lastNode _ _) fun _ => rfl
  | find p => exact answers_read (careful_find _ _ _) fun _ => rfl
  | contains a =>
    exact answers_read ((careful_elements _ _).bind fun _ => careful_pure _) fun _ => rfl
  | position a =>
    exact answers_read ((careful_elements _ _).bind fun _ => careful_pure _) fun _ => rfl
  | unlink node =>
    refine answers_onNode fun x => ?_
    have hc := careful_checkOpen snapshot s.store
    split
    · rename_i e he
      exact (Leads.refl s).fails (Or.inl (hc e he))
    · exact answers_changing hm rfl fun b t => (Leads.refl t).answers rfl
  | remove a =>
    have hc := careful_find snapshot s.store (.ofPredicate (· = a))
    simp only [consult]
    split
    · rename_i e he
      exact (Leads.refl s).fails (Or.inl (hc e he))
    · exact (Leads.refl s).answers rfl
    · exact answers_changing hm rfl fun b t => (Leads.refl t).answers rfl
  | removeAll as => exact answers_unlinkPicked hm (careful_picked _ _ _)
  | removeIf p => exact answers_unlinkPicked hm (careful_picked _ _ _)
  | retainOnly p => exact answers_unlinkPicked hm (careful_picked _ _ _)
  | _ => exact (Leads.refl s).answers rfl

end Consult

/-! ## The table of snapshots -/

section Lists

variable {β γ : Type} {g : β → Option γ}

theorem filterMap_modify {f : β → β} (h : ∀ x, g (f x) = g x) (l : List β) (k : Nat) :
    (l.modify k f).filterMap g = l.filterMap g := by
  induction l generalizing k with
  | nil => cases k <;> rfl
  | cons x l ih =>
    cases k with
    | zero => rw [List.modify_zero_cons, List.filterMap_cons, List.filterMap_cons, h]
    | succ k => rw [List.modify_succ_cons, List.filterMap_cons, List.filterMap_cons, ih]

theorem perm_filterMap_set {x y : β} {v : γ} (hx : g x = some v) (hy : g y = none) {l : List β}
    {k : Nat} (h : l[k]? = some x) :
    (v :: (l.set k y).filterMap g).Perm (l.filterMap g) := by
  induction l generalizing k with
  | nil => cases h
  | cons z l ih =>
    cases k with
    | zero =>
      obtain rfl : z = x := by simpa using h
      rw [List.set_cons_zero, List.filterMap_cons_none hy, List.filterMap_cons_some hx]
    | succ k =>
      have h' := ih (by simpa using h)
      rw [List.set_cons_succ]
      cases hz : g z with
      | none =>
        rw [List.filterMap_cons_none hz, List.filterMap_cons_none hz]
        exact h'
      | some u =>
        rw [List.filterMap_cons_some hz, List.filterMap_cons_some hz]
        exact (List.Perm.swap u v _).trans (h'.cons u)

theorem filterMap_set {x y : β} (hx : g x = none) (hy : g y = none) {l : List β} {k : Nat}
    (h : l[k]? = some x) : (l.set k y).filterMap g = l.filterMap g := by
  induction l generalizing k with
  | nil => cases h
  | cons z l ih =>
    cases k with
    | zero =>
      obtain rfl : z = x := by simpa using h
      rw [List.set_cons_zero, List.filterMap_cons_none hy, List.filterMap_cons_none hx]
    | succ k =>
      rw [List.set_cons_succ, List.filterMap_cons, List.filterMap_cons, ih (by simpa using h)]

theorem modify_eq_set {f : β → β} {x : β} {l : List β} {k : Nat} (h : l[k]? = some x) :
    l.modify k f = l.set k (f x) := by
  induction l generalizing k with
  | nil => cases h
  | cons z l ih =>
    cases k with
    | zero =>
      obtain rfl : z = x := by simpa using h
      rfl
    | succ k => rw [List.modify_succ_cons, List.set_cons_succ, ih (by simpa using h)]

end Lists

theorem openViews_setEntry {f : Entry → Entry} (hf : ∀ e, (f e).openView? = e.openView?)
    (s : Session) (k : Nat) : (s.setEntry k f).openViews = s.openViews := by
  unfold openViews setEntry
  dsimp only
  rw [Array.toList_modify]
  refine filterMap_modify (fun e => ?_) _ _
  cases e with
  | none => rfl
  | some e => exact hf e

theorem leads_setEntry {f : Entry → Entry} (hf : ∀ e, (f e).openView? = e.openView?)
    (s : Session) (k : Nat) : Leads c n [] s (s.setEntry k f) :=
  .of_eq rfl (openViews_setEntry hf s k) rfl

theorem leads_addUse (s : Session) (k : Nat) : Leads c n [] s (s.addUse k) :=
  leads_setEntry (f := fun e => { e with uses := e.uses + 1 }) (fun _ => rfl) s k

theorem leads_endUse (s : Session) (k : Nat) : Leads c n [] s (s.endUse k) :=
  leads_setEntry (f := fun e => { e with uses := e.uses - 1 }) (fun _ => rfl) s k

theorem exists_entry_of_claim {k : Nat} {toEnd : Bool} {snapshot : Snapshot}
    (h : s.claim k toEnd = .ok snapshot) :
    ∃ e, s.snapshots.toList[k]? = some (some e) ∧ e.snapshot = snapshot := by
  unfold claim at h
  split at h
  · cases h
  · rename_i e he
    split at h
    · cases h
    · cases h
      refine ⟨e, ?_, rfl⟩
      rw [held?, Option.join_eq_some_iff] at he
      simpa using he

/-- A snapshot that is taken out of the table belongs to the call that does so. -/
theorem Backed.lend {own : List View} {k : Nat} {e : Entry} (hb : Backed c n own s)
    (he : s.snapshots.toList[k]? = some (some e)) (hc : e.snapshot.closed = false)
    (hs : t.store = s.store) (hh : t.heard = s.heard) {y : Option Entry}
    (ht : t.snapshots.toList = s.snapshots.toList.set k y) (hy : y.bind Entry.openView? = none) :
    Backed c n (e.snapshot.view :: own) t := by
  refine hb.congr hs ?_ hh
  have hv : (some e : Option Entry).bind Entry.openView? = some e.snapshot.view := by
    rw [Option.bind_some, Entry.openView?, hc]
    rfl
  have hp := perm_filterMap_set (g := fun e => e.bind Entry.openView?) hv hy he
  rw [← ht] at hp
  exact (@List.perm_middle _ _ own _).symm.trans (hp.append_left own)

section Table

variable {m : Mode} (hm : m.Delivers c n)

include hm

theorem answers_onSnapshot (k : Nat) (call : SnapshotCall) :
    Answers c n [] s (s.onSnapshot m k call) := by
  unfold onSnapshot
  split
  · exact (Leads.refl s).answers rfl
  · rename_i snapshot _
    have ha := (leads_addUse (c := c) s k).then (answers_consult hm snapshot call)
    have hl := ha.toLeads.trans (leads_endUse _ k)
    exact { hl with fine := fun hv hb => ha.fine hv hb }

theorem answers_close (k : Nat) : Answers c n [] s (s.close m k) := by
  unfold close
  split
  · exact (Leads.refl s).answers rfl
  · rename_i snapshot hcl
    split
    · exact (Leads.refl s).answers rfl
    · rename_i hopen
      obtain ⟨e, he, rfl⟩ := exists_entry_of_claim hcl
      have hc : e.snapshot.closed = false := by simpa using hopen
      let closing (e : Entry) : Entry :=
        { e with snapshot := { e.snapshot with closed := true }, closing := true }
      have hl := (leads_closing (s := s.setEntry k closing) hm e.snapshot.view).trans
        (leads_setEntry (f := fun e => { e with closing := false }) (fun _ => rfl) _ k)
      have hlend : ∀ {own}, Backed c n own s →
          Backed c n (e.snapshot.view :: own) (s.setEntry k closing) := fun hb =>
        hb.lend (y := some (closing e)) he hc rfl rfl
          ((Array.toList_modify ..).trans (modify_eq_set he)) rfl
      exact Leads.answers ⟨hl.rises, fun hv hb => hl.backed hv (hlend hb)⟩ rfl

theorem answers_drop (k : Nat) : Answers c n [] s (s.drop m k) := by
  unfold drop
  split
  · exact (Leads.refl s).answers rfl
  · rename_i snapshot hcl
    obtain ⟨e, he, rfl⟩ := exists_entry_of_claim hcl
    dsimp only
    cases hc : e.snapshot.closed with
    | true =>
      refine Leads.answers (.of_eq rfl ?_ rfl) rfl
      have hv : (some e : Option Entry).bind Entry.openView? = none := by
        rw [Option.bind_some, Entry.openView?, hc]
        rfl
      unfold openViews
      rw [Array.toList_setIfInBounds]
      exact filterMap_set (g := fun e => e.bind Entry.openView?) (y := none) hv rfl he
    | false =>
      let t : Session := { s with snapshots := s.snapshots.setIfInBounds k none }
      have hl := leads_closing (c := c) (s := t) hm e.snapshot.view
      have hlend : ∀ {own}, Backed c n own s → Backed c n (e.snapshot.view :: own) t := fun hb =>
        hb.lend (y := none) he hc rfl rfl (Array.toList_setIfInBounds ..) rfl
      exact Leads.answers ⟨hl.rises, fun hv hb => hl.backed hv (hlend hb)⟩ rfl

theorem answers_register (o : Observer) : Answers c n [] s (s.register m o) := by
  unfold register
  let t : Session := { s with
    observers := s.observers.push o
    registered := s.registered ++ [⟨s.observers.size + 1⟩] }
  have hl : Leads c n [] s (t.change m (.observe true)).2 :=
    Leads.trans (t := t) (.of_eq rfl rfl rfl) (leads_plain hm rfl)
  refine Leads.answers (a := .number (s.observers.size + 1)) (hl.trans ?_) rfl
  exact .of_eq rfl rfl rfl

end Table

/-! ## Commands -/

theorem leads_settle {store : Store Element} (h : Mutation.settle.run s.store = (.ok (), store)) :
    Leads c n [] s { s with store } := by
  have hr := Edit.below_run .settle s.store
  rw [h] at hr
  refine ⟨hr, fun {own} hv hb => ?_⟩
  have hv' : (Mutation.settle.run s.store).2.Within n := by
    rw [h]
    exact hv
  have := (hb.run_plain (m := .settle) rfl hv').1
  rw [h] at this
  exact this

theorem expected_of_settle {store : Store Element} {e : Error}
    (h : Mutation.settle.run s.store = (.error e, store)) : e.Expected n := by
  have hd : s.store.disposed = true ∨ s.store.disposed = false := by
    cases s.store.disposed <;> simp
  rcases hd with hd | hd
  · rw [Mutation.run_of_disposed hd rfl] at h
    cases h
    exact Or.inl rfl
  · rw [Mutation.run_of_returns (m := .settle) hd (Edit.returns_pure () _)] at h
    cases h

theorem fine_batchEnd {failure : Option Error} (h : ∀ e, failure = some e → e.Expected n)
    (ending : Ending) : Fine n (batchEnd failure ending).failures := by
  cases failure with
  | some e =>
    intro f hf
    rw [List.mem_singleton.1 hf]
    exact h e rfl
  | none =>
    cases ending with
    | fail =>
      intro f hf
      rw [List.mem_singleton.1 hf]
      exact Or.inl rfl
    | _ => exact fine_nil

theorem failures_of_failure? {a : Answer} {e : Error} (h : a.failure? = some e) :
    a.failures = [e] := by
  cases a with
  | failed f =>
    cases h
    rfl
  | _ => cases h

/-- What a batch comes to. -/
structure Batches (c : Config) (n : Nat) (s : Session)
    (x : List Answer × Option Error × Session) : Prop where
  leads : Leads c n [] s x.2.2
  fine : ∀ {own}, x.2.2.store.Within n → Backed c n own s →
    Fine n (failuresAll x.1) ∧ ∀ e, x.2.1 = some e → e.Expected n

/-- What a walk comes to. -/
structure Walks (c : Config) (n : Nat) (s : Session) (x : Option (List WalkAnswer) × Session) :
    Prop where
  leads : Leads c n [] s x.2
  fine : ∀ {own}, x.2.store.Within n → Backed c n own s →
    ∀ answers, x.1 = some answers → Fine n (failuresWalk answers)

theorem Walks.cons {x : Option (List WalkAnswer) × Session} (h : Walks c n s x) {a : WalkAnswer}
    (ha : a.failures = []) : Walks c n s (x.1.map (a :: ·), x.2) := by
  refine ⟨h.leads, fun hv hb answers he => ?_⟩
  obtain ⟨as, has, rfl⟩ := Option.map_eq_some_iff.1 he
  rw [failuresWalk, ha]
  exact h.fine hv hb as has

mutual

theorem answers_execute {m : Mode} (hm : m.Delivers c n) (cmd : Command) (s : Session) :
    Answers c n [] s (execute m cmd s) := by
  cases cmd with
  | call call => exact answers_perform hm call
  | txn call =>
    simp only [execute]
    split
    · exact answers_perform hm call
    · exact (Leads.refl s).answers rfl
  | snapshot k call => exact answers_onSnapshot hm k call
  | close k => exact answers_close hm k
  | drop k => exact answers_drop hm k
  | register o => exact answers_register hm o
  | compute cs stop ending =>
    simp only [execute]
    split
    · have hb := batches_executeBatch hm stop cs s
      refine { hb.leads with fine := fun hv h => ?_ }
      exact (hb.fine hv h).1.append (fine_batchEnd (hb.fine hv h).2 ending)
    · split
      · rename_i e store he
        refine { Leads.refl s with fine := fun _ _ => ?_ }
        exact fine_nil.append (fine_failed (expected_of_settle he))
      · rename_i store he
        have hq : Mode.Delivers c n { m with batch := true } := hm
        have hb := batches_executeBatch hq stop cs { s with store }
        have hs := leads_settle (c := c) (n := n) he
        have hend : ∀ (b : Bool) (t : Session),
            Leads c n [] t (if b then t.post else m.deliver t.post) := by
          intro b t
          cases b with
          | true => exact leads_post t
          | false => exact (leads_post t).trans (hm _)
        have hlast := hend (batchEnd (executeBatch { m with batch := true } stop cs
          { s with store }).2.1 ending).isPanic (executeBatch { m with batch := true } stop cs
          { s with store }).2.2
        refine { hs.trans (hb.leads.trans hlast) with fine := fun hv h => ?_ }
        have hv' := hlast.rises.within hv
        have h' := hs.backed (hb.leads.rises.within hv') h
        exact (hb.fine hv' h').1.append (fine_batchEnd (hb.fine hv' h').2 ending)
  | walk k form steps =>
    simp only [execute]
    split
    · exact (Leads.refl s).answers rfl
    · rename_i snapshot _
      have hc := careful_cursor snapshot s.store
      split
      · rename_i e he
        exact (Leads.refl s).fails (Or.inl (hc e he))
      · rename_i cursor _
        have hw := walks_executeWalk hm form steps cursor (s.addUse k)
        have hl := (leads_addUse s k).trans (hw.leads.trans (leads_endUse _ k))
        refine { hl with fine := fun hv h => ?_ }
        have h' := (leads_addUse s k).backed (hw.leads.rises.within hv) h
        have hf := hw.fine hv h'
        cases ha : (executeWalk m form steps cursor (s.addUse k)).1 with
        | none => exact fine_nil
        | some answers => exact hf answers ha

theorem batches_executeBatch {m : Mode} (hm : m.Delivers c n) (stop : Bool) (cs : List Command)
    (s : Session) : Batches c n s (executeBatch m stop cs s) := by
  cases cs with
  | nil => exact ⟨.refl s, fun _ _ => ⟨fine_nil, nofun⟩⟩
  | cons cmd cs =>
    have ha := answers_execute hm cmd s
    have hb := batches_executeBatch hm stop cs (execute m cmd s).2
    simp only [executeBatch]
    split
    · rename_i e he
      refine ⟨ha.toLeads, fun hv h => ?_⟩
      have hf := ha.fine hv h
      refine ⟨hf.append fine_nil, fun f hf' => ?_⟩
      cases hf'
      cases stop with
      | false => cases he
      | true =>
        rw [failures_of_failure? he] at hf
        exact hf e (List.mem_singleton.2 rfl)
    · refine ⟨ha.toLeads.trans hb.leads, fun hv h => ?_⟩
      have hv' := hb.leads.rises.within hv
      have hf := ha.fine hv' h
      have hb' := hb.fine hv (ha.backed hv' h)
      exact ⟨hf.append hb'.1, hb'.2⟩

theorem walks_executeWalk {m : Mode} (hm : m.Delivers c n) (form : WalkForm) (steps : List WalkStep)
    (cursor : Cursor) (s : Session) : Walks c n s (executeWalk m form steps cursor s) := by
  cases steps with
  | nil => exact ⟨.refl s, fun _ _ answers he => by cases he; exact fine_nil⟩
  | cons step steps =>
    cases step with
    | front => exact (walks_executeWalk hm form steps _ s).cons rfl
    | back => exact (walks_executeWalk hm form steps _ s).cons rfl
    | hint => exact (walks_executeWalk hm form steps _ s).cons rfl
    | command d =>
      have ha := answers_execute hm d s
      simp only [executeWalk]
      split
      · rename_i t he
        rw [he] at ha
        exact ⟨ha.toLeads, fun _ _ answers h => by cases h⟩
      · rename_i a t _ he
        rw [he] at ha
        have hw := walks_executeWalk hm form steps cursor t
        refine ⟨ha.toLeads.trans hw.leads, fun hv h answers has => ?_⟩
        obtain ⟨as, has', rfl⟩ := Option.map_eq_some_iff.1 has
        have hv' := hw.leads.rises.within hv
        exact (ha.fine hv' h).append (hw.fine hv (ha.backed hv' h) as has')

end

theorem answers_executeAll {m : Mode} (hm : m.Delivers c n) (cs : List Command) (s : Session) :
    Leads c n [] s (executeAll m cs s).2 ∧
      ∀ {own}, (executeAll m cs s).2.store.Within n → Backed c n own s →
        Fine n (failuresAll (executeAll m cs s).1) := by
  induction cs generalizing s with
  | nil => exact ⟨.refl s, fun _ _ => fine_nil⟩
  | cons cmd cs ih =>
    have ha := answers_execute hm cmd s
    obtain ⟨hl, hf⟩ := ih (execute m cmd s).2
    refine ⟨ha.toLeads.trans hl, fun hv h => ?_⟩
    have hv' := hl.rises.within hv
    exact (ha.fine hv' h).append (hf hv (ha.backed hv' h))

/-! ## Delivery -/

theorem delivers_delivering : Mode.Delivers c n .delivering := fun s => .refl s

theorem Backed.log {own : List View} (hb : Backed c n own s) {x : Heard} (hx : Fine n x.failures) :
    Backed c n own (s.log x) := by
  refine ⟨hb.reached, hb.ids, fun y hy => ?_⟩
  rcases List.mem_append.1 hy with hy | hy
  · exact hb.heard y hy
  · rw [List.mem_singleton.1 hy]
    exact hx

theorem leads_react (s : Session) (tag : Option String) (cs : Option (List Command)) :
    Leads c n [] s (s.react tag cs) := by
  cases cs with
  | none => exact .refl s
  | some cs =>
    obtain ⟨hl, hf⟩ := answers_executeAll delivers_delivering cs s
    exact ⟨hl.rises, fun hv hb => (hl.backed hv hb).log (hf hv hb)⟩

theorem leads_hear (s : Session) (id : ObserverId) (e : Event Element) :
    Leads c n [] s (s.hear id e) := by
  unfold hear
  split
  · exact .refl s
  · rename_i o _
    refine Leads.trans ?_ (leads_react _ _ _)
    refine ⟨.refl _, fun _ hb => Backed.log ?_ fine_nil⟩
    exact hb.congr rfl (.refl _) rfl

theorem leads_deliverFrom (due : List (ObserverId × Event Element)) (s : Session) :
    Leads c n [] s (deliverFrom due s) := by
  fun_induction deliverFrom due s with
  | case1 s id e due ih => exact (leads_hear s id e).trans ih
  | case2 s h => exact .refl s
  | case3 s events outbox h ih => exact Leads.trans (t := { s with outbox }) (.of_eq rfl rfl rfl) ih

theorem delivers_outermost : Mode.Delivers c n .outermost := leads_deliverFrom []

/-! ## Sessions -/

/-- Every failure that a step of a session reports, in its answer or in what observers logged. -/
def Step.failures (x : Step) : List Error := x.answer.failures ++ x.heard.flatMap Heard.failures

theorem leads_step (cmd : Command) (s : Session) :
    Leads c n [] s (s.step cmd).2 ∧
      ∀ {own}, (s.step cmd).2.store.Within n → Backed c n own s →
        Fine n (s.step cmd).1.failures := by
  have ha := answers_execute (c := c) (n := n) delivers_outermost cmd s
  refine ⟨⟨ha.rises, fun hv hb => ?_⟩, fun hv hb => ?_⟩
  · have hb' := ha.backed hv hb
    exact ⟨hb'.reached, hb'.ids, nofun⟩
  · have hb' := ha.backed hv hb
    refine (ha.fine hv hb).append fun e he => ?_
    obtain ⟨h, hh, heh⟩ := List.mem_flatMap.1 he
    exact hb'.heard h hh e heh

theorem leads_run (cs : List Command) (s : Session) :
    Leads c n [] s (s.run cs).2 ∧
      ∀ {own}, (s.run cs).2.store.Within n → Backed c n own s →
        ∀ x ∈ (s.run cs).1, Fine n x.failures := by
  induction cs generalizing s with
  | nil => exact ⟨.refl s, fun _ _ => nofun⟩
  | cons cmd cs ih =>
    obtain ⟨hl, hf⟩ := leads_step (c := c) (n := n) cmd s
    obtain ⟨hl', hf'⟩ := ih (s.step cmd).2
    refine ⟨hl.trans hl', fun hv hb x hx => ?_⟩
    have hv' := hl'.rises.within hv
    rcases List.mem_cons.1 hx with rfl | hx
    · exact hf hv' hb
    · exact hf' hv (hl.backed hv' hb) x hx

theorem eq_init_of_start (h : start c = .ok s) : c.validate = .ok () ∧ s = init c := by
  unfold start at h
  cases hc : c.validate with
  | error e => rw [hc] at h; cases h
  | ok _ =>
    rw [hc] at h
    cases h
    exact ⟨rfl, rfl⟩

theorem backed_start (h : start c = .ok s) : Backed c n [] s := by
  obtain ⟨hc, rfl⟩ := eq_init_of_start h
  exact ⟨⟨[], .init hc, fun _ _ => ⟨nofun, nofun⟩⟩, List.nodup_nil, nofun⟩

/-- A session makes its deque go through changes of one world, in which the snapshots in its table
that are not closed are held and no others. -/
theorem backed_run (h : start c = .ok s) (cs : List Command)
    (hv : (s.run cs).2.store.timeline.modification < .max) :
    Backed c (s.run cs).2.store.arena.slots.size [] (s.run cs).2 :=
  (leads_run (c := c) cs s).1.backed ⟨hv, le_refl _⟩ (backed_start h)

/-- A session reports expected failures only. -/
theorem expected_run (h : start c = .ok s) (cs : List Command)
    (hv : (s.run cs).2.store.timeline.modification < .max) :
    ∀ x ∈ (s.run cs).1, ∀ e ∈ x.failures, e.Expected (s.run cs).2.store.arena.slots.size :=
  (leads_run (c := c) cs s).2 ⟨hv, le_refl _⟩ (backed_start h)

end Session

/-- No change for whose nodes the slots suffice ends in an internal failure. In a whole session,
reactions of observers included, the one internal failure there can be is that the deque needs more
slots than there are, when all of them have been made. -/
theorem no_internal_failure (c : Config) :
    (∀ {α ρ : Type} (w : World α) (m : Mutation α ρ), World.Reached c w → w.Permits m →
      m.Fits w.store → (w.after m).store.timeline.modification < .max →
      ∀ e, (m.run w.store).1 = .error e → e.isInternal = false) ∧
    ∀ (s : Session) (cs : List Session.Command), Session.start c = .ok s →
      (s.run cs).2.store.timeline.modification < .max →
      ∀ x ∈ (s.run cs).1, ∀ e ∈ x.failures, e.isInternal = false ∨
        e = Arena.exhausted ∧ Arena.slotLimit ≤ (s.run cs).2.store.arena.slots.size := by
  refine ⟨fun w m hr hp hf hv e he => ?_, fun s cs hs hv => Session.expected_run hs cs hv⟩
  rcases hr.error_of_run hp hv he with hi | ⟨_, hn, _⟩
  · exact hi
  · exact absurd hf hn

/-- Sentinels cannot be unlinked, and an empty deque has nothing to get. -/
theorem failures_of_misuse :
    (Error.nodeNotPayload .atBegin).isInternal = false ∧
      (Error.empty.isInternal = false ∨ Error.empty = Arena.exhausted ∧
        Arena.slotLimit ≤ (Session.init {}).store.arena.slots.size) := by
  obtain ⟨hw, hs⟩ := no_internal_failure {}
  exact ⟨hw World.single (.unlink .atBegin) World.reached_single trivial (fun _ => by decide)
      (by decide) _ rfl,
    hs (.init {}) [.call (.get .first)] rfl (by decide) _ (List.Mem.head []) _ (List.Mem.head [])⟩

end SnapshotDeque
