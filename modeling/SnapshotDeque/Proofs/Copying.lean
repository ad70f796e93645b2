import SnapshotDeque.Proofs.Accounting
import SnapshotDeque.Proofs.Versions

/-!
How many links a change retires. A link that is retired was the current one of its node before the
change, and one that a pinned version sees, and what takes its place in the course of the change is
younger than all pins. So a node gives one link at most, however often it is written to, and the
nodes that a change writes to are few: the sentinels, the neighbours, and those that it unlinks.
Main statement: the bounds that follow, and that nothing is retired while no snapshot is open.
-/

namespace SnapshotDeque

namespace Timeline

theorem Valid.exists_newest {t : Timeline} (ht : t.Valid) {c : Version}
    (h : t.isObserved c = true) : ∃ p ∈ t.pinned, (∀ r ∈ t.pinned, r ≤ p) ∧ c ≤ p := by
  have hs : t.pinned.Pairwise (· < ·) := List.pairwise_map.2 ht.sorted
  obtain ⟨r, hr, hc⟩ := ht.isObserved_iff.1 h
  obtain ⟨ps, p, hp⟩ := (List.eq_nil_or_concat t.pinned).resolve_left (List.ne_nil_of_mem hr)
  rw [List.concat_eq_append] at hp
  rw [hp] at hs hr ⊢
  have hle : ∀ r ∈ ps ++ [p], r ≤ p := fun r hr => (List.mem_append.1 hr).elim
    (fun hr => le_of_lt ((List.pairwise_append.1 hs).2.2 r hr p (List.mem_singleton.2 rfl)))
    fun hr => le_of_eq (List.mem_singleton.1 hr)
  exact ⟨p, by simp, hle, le_trans hc (hle r hr)⟩

end Timeline

namespace Edit

variable {α ρ σ : Type}

theorem after_bind_pure (x : Edit α ρ) (f : ρ → σ) (s : Store α) :
    (x >>= fun a => pure (f a)).after s = x.after s := by
  rcases after_bind x (fun a => pure (f a)) s with ⟨a, t, ht, he⟩ | ⟨e, t, ht, he⟩ <;>
    rw [he, ht.after]
  exact (returns_pure (f a) t).after

theorem after_mapM_singleton (f : σ → Edit α ρ) (a : σ) (s : Store α) :
    ([a].mapM f).after s = (f a).after s := by
  rw [List.mapM_cons]
  exact after_bind_pure (f a) (fun b => [b]) s

theorem after_inOrder (f : α → Edit α Handle) (as : List α) (side : End) (s : Store α) :
    ∃ bs : List α, (inOrder f as side).after s = (bs.mapM f).after s := by
  cases side with
  | first => exact ⟨as.reverse, after_bind_pure _ _ s⟩
  | last => exact ⟨as, rfl⟩

end Edit

namespace Store

variable {α ρ : Type} {s t : Store α} {v : Version} {l : List (Handle × α)} {xs : List Handle}
  {m n : Nat}

/-! ## What is retired -/

/-- From `s` to `t` at most `n` links are retired, all of them current before and seen by a pinned
version. -/
def Adds (n : Nat) (s t : Store α) : Prop :=
  ∃ q, t.obsolete = s.obsolete ++ q ∧ q.length ≤ n ∧ ∀ i ∈ q, s.current? (s.owner i) = some i ∧
    s.timeline.isObserved (t.links.get i).createdOn = true

theorem Adds.refl (n : Nat) (s : Store α) : Adds n s s :=
  ⟨[], (List.append_nil _).symm, Nat.zero_le _, fun _ h => absurd h List.not_mem_nil⟩

theorem Adds.mono (h : Adds m s t) (hmn : m ≤ n) : Adds n s t := by
  obtain ⟨q, hq, hlen, hi⟩ := h
  exact ⟨q, hq, Nat.le_trans hlen hmn, hi⟩

/-- A change with a stamp of its own. Drawing the stamp changes no pin. -/
theorem adds_of_minted {x : Edit α ρ} {f : Version → Edit α ρ} (hx : x s = (Edit.mint >>= f) s)
    (h : Adds n s.minted ((f s.timeline.advance.1).after s.minted)) : Adds n s (x.after s) := by
  rw [Edit.after_congr hx, (Edit.returns_mint s).after_bind]
  obtain ⟨q, hq, hlen, hi⟩ := h
  refine ⟨q, hq, hlen, fun i him => ?_⟩
  have ho := hi i him
  rwa [minted, Timeline.isObserved, Timeline.advance_pinned] at ho

/-- `t` is `s` after a part of a change stamped `v` that writes to links of the nodes in `xs`. -/
structure Writes (v : Version) (s t : Store α) (xs : List Handle) : Prop where
  keeps : Keeps v s t
  touches : Touches s t xs
  sound : t.Sound t.obsolete []

theorem Writes.adds (h : Writes v s t xs) : Adds xs.length s t := by
  obtain ⟨q, hq, -⟩ := h.keeps.retired
  have hnd := h.sound.nodup
  rw [hq, List.nodup_append] at hnd
  obtain ⟨-, hndq, hdis⟩ := hnd
  have hstays : ∀ i ∈ q, s.Stays i := fun i hi =>
    (h.keeps.stays i).1 (Or.inl (hq ▸ List.mem_append_right _ hi))
  have hcur : ∀ i ∈ q, s.current? (s.owner i) = some i ∧
      s.timeline.isObserved (s.links.get i).createdOn = true := fun i hi =>
    (hstays i hi).resolve_left fun ho => hdis i ho i hi rfl
  -- a link that is retired has lost its place to another one
  have hmem : ∀ x ∈ q.map s.owner, x ∈ xs := by
    intro x hx
    obtain ⟨i, hi, rfl⟩ := List.mem_map.1 hx
    by_contra hn
    have hc := (h.touches _ hn (by rw [(hcur i hi).1]; rfl)).trans (hcur i hi).1
    rw [← h.keeps.owner (hstays i hi)] at hc
    exact h.sound.retired_ne (hq ▸ List.mem_append_right _ hi) hc
  have hinj : (q.map s.owner).Nodup := hndq.map_on fun i hi j hj hij => by
    have hc := (hcur i hi).1
    rw [hij, (hcur j hj).1] at hc
    exact (Option.some.inj hc).symm
  refine ⟨q, hq, ?_, fun i hi => ⟨(hcur i hi).1, ?_⟩⟩
  · rw [← List.length_map s.owner]
    exact (List.subperm_of_subset hinj hmem).length_le
  · rw [h.keeps.createdOn (hstays i hi)]
    exact (hcur i hi).2

/-! ## Linking -/

/-- By induction on the elements: after the first of them, the node at the end is the new one. -/
theorem writes_mapM_splice (side : End) : ∀ (as : List α) {s : Store α} {l : List (Handle × α)},
    s.Shaped l → s.Changing v [] →
      Writes v s ((as.mapM (Edit.splice · side v)).after s) (seam side (l.map (·.1))) := by
  intro as
  induction as with
  | nil => exact fun {s} _ _ hc => ⟨.refl v s, .refl s _, hc.sound⟩
  | cons a as ih =>
    intro s l h hc
    rw [List.mapM_cons]
    rcases Regime.splice_spec (R := .keeping α v) h hc a side with
      ⟨x, t, ht, hl, hct, ⟨hi, hk⟩, hx⟩ | ⟨hf, -⟩
    · have hw := ih hl hct
      rw [ht.after_bind, Edit.after_bind_pure]
      refine ⟨hk.trans hw.keeps, hx.trans hw.touches fun y hy => ?_, hw.sound⟩
      have hout : side.outermost? ((side.add [(x, a)] l).map (·.1)) = some x := by
        rw [End.outermost?_map, End.outermost?_add]
        rfl
      rw [seam, hout, Option.toList_some, List.mem_cons, List.mem_cons, List.mem_singleton] at hy
      rcases hy with rfl | rfl | rfl
      · exact Or.inl (atBegin_mem_seam ..)
      · exact Or.inl (atEnd_mem_seam ..)
      · have hy : y.isSentinel = false := hl.isSentinel (by cases side <;> simp [End.add])
        exact Or.inr (by rw [current?_of_payload hy, Arena.head?, hi.fresh]; rfl)
    · rw [hf.bind.after]
      exact ⟨.refl v s, .refl s _, hc.sound⟩

section Live

variable (h : s.Live l) (hm : s.timeline.modification < .max)

include h hm

theorem adds_insertAll (as : List α) (side : End) :
    Adds 3 s ((Edit.insertAll as side).after s) := by
  by_cases hn : s.capacity < l.length + as.length
  · rw [(fails_insertAll h side as hn).after]
    exact .refl 3 s
  have hn := Nat.le_of_not_lt hn
  by_cases has : as = []
  · subst has
    rw [(insertAll_nil side h.toShaped hn).after]
    exact .refl 3 s
  · obtain ⟨hl, hst, -⟩ := h.minted_of_lt hm
    obtain ⟨bs, hbs⟩ :=
      Edit.after_inOrder (Edit.splice · side s.timeline.advance.1) as side s.minted
    have hw := writes_mapM_splice side bs hl.toShaped (hl.changing hst)
    refine adds_of_minted (insertAll_apply side h.toShaped has hn) ?_
    rw [hbs]
    exact hw.adds.mono (length_seam_le ..)

/-- One element is as good as a list of one. -/
theorem adds_insert (a : α) (side : End) : Adds 3 s ((Edit.insert a side).after s) := by
  by_cases hn : s.capacity < l.length + 1
  · rw [(fails_insert h side a hn).after]
    exact .refl 3 s
  · obtain ⟨hl, hst, -⟩ := h.minted_of_lt hm
    have heq : Edit.insert a side s = (Edit.mint >>= fun v => Edit.splice a side v) s :=
      (returns_checkCapacity h.toShaped (Nat.le_of_not_lt hn)).bind_apply _
    have hw := writes_mapM_splice side [a] hl.toShaped (hl.changing hst)
    rw [Edit.after_mapM_singleton] at hw
    exact adds_of_minted heq (hw.adds.mono (length_seam_le ..))

end Live

/-! ## Unlinking -/

/-- A node that is linked is unlinked, with a stamp of its own. -/
theorem adds_unlinkAt {x : Handle} {i : Nat} {y : Edit α ρ} {a : ρ} (h : s.Live l)
    (hm : s.timeline.modification < .max) (hx : x ∈ l.map (·.1)) (hi : s.current? x = some i)
    (hy : y s = (Edit.mint >>= fun v => do Edit.unlinkAt i v; return a) s) :
    Adds 5 s (y.after s) := by
  obtain ⟨e, he, rfl⟩ := List.mem_map.1 hx
  obtain ⟨k, m, rfl⟩ := List.append_of_mem he
  obtain ⟨hl, hst, -⟩ := h.minted_of_lt hm
  obtain ⟨t, ht, -, hc, ⟨-, hk, -⟩, w, z, hz⟩ :=
    Regime.returns_unlinkAt_touching (R := .keeping α s.timeline.advance.1) (s := s.minted)
      (x := e.1) (a := e.2) hl.toShaped (hl.changing hst) hi
  refine adds_of_minted hy ?_
  rw [ht.after_bind, (Edit.returns_pure a t).after]
  exact Writes.adds ⟨hk, hz, hc.sound⟩

section Live

variable (h : s.Live l) (hm : s.timeline.modification < .max)

include h hm

theorem adds_unlink (x : Handle) : Adds 5 s ((Edit.unlink x).after s) := by
  cases hs : x.isSentinel with
  | true =>
    rw [(fails_unlink hs s).after]
    exact .refl 5 s
  | false =>
    by_cases hx : x ∈ l.map (·.1)
    · obtain ⟨i, hi⟩ := h.exists_current? hx
      exact adds_unlinkAt h hm hx hi (unlink_of_mem h.toShaped hx hi)
    · rw [(returns_unlink_of_not_mem h.toShaped hs hx).after]
      exact .refl 5 s

theorem adds_poll (side : End) : Adds 5 s ((Edit.poll side).after s) := by
  cases he : side.outermost? l with
  | none =>
    rw [(returns_poll_of_nil h.toShaped side (End.outermost?_eq_none he)).after]
    exact .refl 5 s
  | some e =>
    obtain ⟨i, hi, heq⟩ := poll_of_outermost h.toShaped he
    exact adds_unlinkAt h hm (List.mem_map_of_mem (rest_eq_filter h.nodup he).1) hi heq

/-- Only the linked nodes and the sentinels have links to give. -/
theorem adds_clear : Adds (l.length + 2) s (Edit.clear.after s) := by
  obtain ⟨hl, hst, -⟩ := h.minted_of_lt hm
  obtain ⟨t, ht, -, hc, hu⟩ := Regime.returns_unlinkEverything (R := .keeping α _) hl.toShaped
    (hl.changing hst)
  have hx : Touches s.minted t (ringOf (l.map (·.1))) := fun x hx hs => by
    rw [mem_ringOf, not_or, not_or] at hx
    rw [current?, if_neg hx.1, if_neg hx.2.2] at hs
    exact absurd ((hl.heads x).1 hs) hx.2.1
  have hw : Writes s.timeline.advance.1 s.minted t _ := ⟨hu.clears.2, hx, hc.sound⟩
  refine adds_of_minted rfl ?_
  rw [ht.after]
  exact hw.adds.mono (Nat.le_of_eq (by simp [ringOf]))

end Live

/-! ## Retired links of one node -/

/-- The links of a node are retired on different versions: the one that was current later was made
no earlier than the other was retired, and no link is retired on the version on which it was
made. -/
theorem Live.eq_of_retired (h : s.Live l) (ht : s.InTurn) {i j : Nat} (hi : i ∈ s.obsolete)
    (hj : j ∈ s.obsolete) (ho : s.owner i = s.owner j)
    (hv : (s.links.get i).obsoleteOn = (s.links.get j).obsoleteOn) : i = j := by
  have hno : ∀ {i j}, j ∈ s.obsolete → (s.links.get i).obsoleteOn = (s.links.get j).obsoleteOn →
      ¬ s.links.Precedes i j := by
    rintro i j hj hv ⟨w, hw, hle⟩
    obtain ⟨w', hw', hlt, -⟩ := h.stamped.tag hj
    rw [← hv, hw] at hw'
    obtain rfl := Option.some.inj hw'
    exact absurd hlt (not_lt_of_ge hle)
  by_contra hne
  rcases ht.turns (Or.inr hi) (Or.inr hj) ho hne with hp | hp
  · exact hno hj hv hp
  · exact hno hi hv.symm hp

end Store

namespace World

variable {α ρ : Type} {c : Config} {w u : World α} {l : List (Handle × α)}

/-- The links that a change retires. -/
def added (w : World α) (m : Mutation α ρ) : List Nat :=
  (w.after m).store.obsolete.filter (· ∉ w.store.obsolete)

/-- A change retires at most `n` links, behind those that wait already, and each of them was made no
later than the newest version that a snapshot is open on. -/
structure AddsAtMost (w : World α) (m : Mutation α ρ) (n : Nat) : Prop where
  queue : ∃ k, (w.after m).store.obsolete = w.store.obsolete.drop k ++ w.added m
  length_le : (w.added m).length ≤ n
  createdOn : ∀ i ∈ w.added m, ∃ p ∈ w.store.timeline.pinned,
    (∀ r ∈ w.store.timeline.pinned, r ≤ p) ∧ ((w.after m).store.links.get i).createdOn ≤ p

/-- What a change retires it retires after the pass that comes first. -/
theorem Coherent.addsAtMost (hw : w.Coherent l) {m : Mutation α ρ} (hm : m.reclaimsFirst = true)
    {n : Nat} (ha : Store.Adds n w.store.reclaimPending (m.effect.after w.store.reclaimPending)) :
    w.AddsAtMost m n := by
  obtain ⟨k, hk⟩ := Store.obsolete_reclaimPending w.store
  obtain ⟨gone, -, hg⟩ := hw.live.settled
  obtain ⟨q, hq, hlen, hi⟩ := ha
  have hrun : (w.after m).store = m.effect.after w.store.reclaimPending := by
    rw [World.after, Mutation.run_snd hw.live.open_, Mutation.base, if_pos hm]
  have hnew : ∀ i ∈ q, i ∉ w.store.obsolete := by
    intro i him ho
    have hc := (hi i him).1
    rw [hg.current?, Store.owner_reclaimPending] at hc
    exact hw.live.sound.retired_ne ho hc
  have hold : (w.store.obsolete.drop k).filter (· ∉ w.store.obsolete) = [] :=
    List.filter_eq_nil_iff.2 fun i hi => by simpa using List.mem_of_mem_drop hi
  have hadded : w.added m = q := by
    rw [added, hrun, hq, hk, List.filter_append, hold, List.nil_append]
    exact List.filter_eq_self.2 fun i hi => by simpa using hnew i hi
  refine ⟨⟨k, ?_⟩, ?_, fun i him => ?_⟩
  · rw [hadded, hrun, hq, hk]
  · rw [hadded]
    exact hlen
  · rw [hadded] at him
    have ho := (hi i him).2
    rw [hg.timeline] at ho
    rw [hrun]
    exact hw.live.stamped.timeline.exists_newest ho

/-- What comes of a change during which no snapshot is open: nothing is retired and no version
begins, and a node that is unlinked is disposed, unless a link of it waits that was retired
before. -/
structure Unobserved (w : World α) (m : Mutation α ρ) : Prop where
  modification : (w.after m).store.timeline.modification = w.store.timeline.modification
  added : w.added m = []
  disposes : ∀ x, w.store.isLinked x = true → (w.after m).store.isLinked x = false →
    ((w.after m).store.arena.get? x = none ↔
      ∀ i ∈ (w.after m).store.obsolete, (w.after m).store.owner i ≠ x)

theorem added_eq_nil {m : Mutation α ρ}
    (h : ∀ i ∈ (w.after m).store.obsolete, i ∈ w.store.obsolete) : w.added m = [] :=
  List.filter_eq_nil_iff.2 fun i hi => by simpa using h i hi

/-- A change that leaves the list of nodes and the queue alone. -/
theorem unobserved_of_eq {m : Mutation α ρ}
    (ht : (w.after m).store.timeline.modification = w.store.timeline.modification)
    (ho : (w.after m).store.obsolete = w.store.obsolete)
    (hl : ∀ x, (w.after m).store.isLinked x = w.store.isLinked x) : w.Unobserved m :=
  ⟨ht, added_eq_nil fun i hi => ho ▸ hi, fun x hx hx' => by rw [hl, hx] at hx'; cases hx'⟩

theorem Coherent.unobserved (hw : w.Coherent l) (hh : w.held = []) {m : Mutation α ρ}
    (hp : w.Permits m) (hv : (w.after m).store.timeline.modification < .max)
    (hm : m.reclaimsFirst = true) (hh' : (w.after m).held = []) : w.Unobserved m := by
  have hd : m.disposes = false := by cases m <;> first | rfl | cases hm
  have hc : m.closes = false := by
    cases m with
    | closeSnapshot id v =>
      obtain ⟨g, hg, -⟩ := hp
      rw [hh] at hg
      cases hg
    | _ => rfl
  obtain ⟨l', hw'⟩ := hw.after hp hv hd
  have hpin := hw'.pinned_of_held hh'
  have hr : Store.Retires w.store (w.after m).store :=
    (Store.carries_run Store.along_retires hm (fun h => by simp [hc] at h) w.store
      ⟨l, hw.live.toShaped⟩).2.2
  refine ⟨?_, added_eq_nil fun i hi => ?_, fun x hl hx => ?_⟩
  · refine (hw.modification_after hp hv hm hc).resolve_right fun hn => ?_
    rw [hpin] at hn
    exact absurd hn.1 List.not_mem_nil
  · exact (hr.queue i hi).resolve_right fun hn => hn.2 hpin
  · have hs : x.isSentinel = false := by
      unfold Store.isLinked Store.read at hl
      rw [if_neg (by simp [hw.live.open_])] at hl
      exact hw.live.toShaped.isSentinel ((hw.live.heads x).1 hl)
    unfold Store.isLinked Store.read at hx
    rw [if_neg (by simp [hw'.live.open_])] at hx
    rw [← Option.not_isSome_iff_eq_none, hw'.live.sound.isSome_get?_iff]
    simp [hs, hx]

theorem unobserved_of_disposed (hd : w.store.disposed = true) {m : Mutation α ρ}
    (hm : m.needsDeque = true) : w.Unobserved m := by
  have hst : (w.after m).store = w.store := by rw [World.after, Mutation.run_of_disposed hd hm]
  exact unobserved_of_eq (by rw [hst]) (by rw [hst]) fun x => by rw [hst]

/-- Disposal leaves no node and no link that waits. -/
theorem unobserved_dispose (hd : w.store.disposed = false) :
    w.Unobserved (.dispose : Mutation α Unit) := by
  have hst := store_after_dispose hd
  have ho : (w.after (.dispose : Mutation α Unit)).store.obsolete = [] := by rw [hst]; rfl
  have hno : ∀ i, i ∉ (w.after (.dispose : Mutation α Unit)).store.obsolete := fun i => by
    rw [ho]
    exact List.not_mem_nil
  refine ⟨by rw [hst]; rfl, added_eq_nil fun i hi => absurd hi (hno i), fun x _ _ =>
    iff_of_true ?_ fun i hi => absurd hi (hno i)⟩
  rw [hst]
  exact Arena.get?_drain _ x

/-- Whatever is done while no snapshot is open. -/
theorem Reached.unobserved (hr : Reached c w) (hh : w.held = []) {m : Mutation α ρ}
    (hp : w.Permits m) (hv : (w.after m).store.timeline.modification < .max)
    (hh' : (w.after m).held = []) : w.Unobserved m := by
  cases hn : m.needsDeque with
  | false =>
    cases m with
    | observe on => exact unobserved_of_eq rfl rfl fun _ => rfl
    | _ => cases hn
  | true =>
    cases hd : w.store.disposed with
    | true => exact unobserved_of_disposed hd hn
    | false =>
      cases hm : m.reclaimsFirst with
      | true =>
        obtain ⟨l, hw⟩ := hr.coherent hd
        exact hw.unobserved hh hp hv hm hh'
      | false =>
        cases m with
        | dispose => exact unobserved_dispose hd
        | observe on => cases hn
        | _ => cases hm

/-- A stretch of a run during which no snapshot is open. -/
abbrev Unheld (w u : World α) : Prop := Stretch (fun w m => (w.after m).held = []) w u

theorem Stretch.unobserved (h : w.Unheld u) (hr : Reached c w) (hh : w.held = []) :
    u.held = [] ∧ u.store.timeline.modification = w.store.timeline.modification ∧
      ∀ i ∈ u.store.obsolete, i ∈ w.store.obsolete := by
  induction h with
  | refl => exact ⟨hh, rfl, fun _ hi => hi⟩
  | @change ρ w u m hu hp hv hq ih =>
    obtain ⟨hhu, hm, ho⟩ := ih hr hh
    have hun := Reached.unobserved (hu.reached hr) hhu hp hv hq
    refine ⟨hq, hun.modification.trans hm, fun i hi => ho i ?_⟩
    by_contra hn
    have him : i ∈ u.added m := List.mem_filter.2 ⟨hi, by simpa using hn⟩
    rw [hun.added] at him
    cases him
  | deliver _ ih => exact ih hr hh

/-- A change retires few links, however many snapshots are open and however long the deque is, and
none that was made after the newest of them. The retired links of a node differ in their tags. As
long as no snapshot is open nothing is retired, no version begins, and nodes are disposed as they
are unlinked. -/
theorem copies_bounded (h : Reached c w) (ho : w.store.disposed = false) :
    (∀ a side, w.AddsAtMost (.insert a side) 3) ∧
    (∀ as side, w.AddsAtMost (.insertAll as side) 3) ∧
    (∀ x, w.AddsAtMost (.unlink x) 5) ∧ (∀ side, w.AddsAtMost (.poll side) 5) ∧
    w.AddsAtMost .clear (w.store.length + 2) ∧
    (∀ i ∈ w.store.obsolete, ∀ j ∈ w.store.obsolete, w.store.owner i = w.store.owner j →
      (w.store.links.get i).obsoleteOn = (w.store.links.get j).obsoleteOn → i = j) ∧
    (w.held = [] → ∀ u, w.Unheld u →
      u.store.timeline.modification = w.store.timeline.modification ∧
      (∀ i ∈ u.store.obsolete, i ∈ w.store.obsolete) ∧
      ∀ {ρ : Type} (m : Mutation α ρ), u.Permits m →
        (u.after m).store.timeline.modification < .max → (u.after m).held = [] →
          u.Unobserved m) := by
  obtain ⟨l, hw⟩ := h.coherent ho
  obtain ⟨gone, hl, hg⟩ := hw.live.settled
  have hm : w.store.reclaimPending.timeline.modification < .max := hg.timeline ▸ h.modification_lt
  have ht := h.inTurn ho
  refine ⟨fun a side => hw.addsAtMost rfl (Store.adds_insert hl hm a side),
    fun as side => hw.addsAtMost rfl (Store.adds_insertAll hl hm as side),
    fun x => hw.addsAtMost rfl (Store.adds_unlink hl hm x),
    fun side => hw.addsAtMost rfl (Store.adds_poll hl hm side), ?_,
    fun i hi j hj => hw.live.eq_of_retired ht hi hj, fun hh u hu => ?_⟩
  · rw [hw.live.length_eq]
    exact hw.addsAtMost rfl (Store.adds_clear hl hm)
  · obtain ⟨hhu, hmod, hob⟩ := hu.unobserved h hh
    exact ⟨hmod, hob, fun m hp hv hh' => Reached.unobserved (hu.reached h) hhu hp hv hh'⟩

/-- While a snapshot is open an insertion retires three links. Once it is closed, the node that is
polled is disposed and nothing joins the two links that wait. -/
theorem single_and_outlived_copy_little :
    single.added (.insert 8 .last) = [1, 2, 0] ∧ single.AddsAtMost (.insert 8 .last) 3 ∧
      outlived.store.obsolete = [2, 0] ∧ outlived.Unobserved (.poll .first) ∧
      (outlived.after (.poll .first)).store.obsolete = [0] := by
  obtain ⟨hins, -⟩ := copies_bounded reached_single rfl
  obtain ⟨-, -, -, -, -, -, hun⟩ := copies_bounded reached_outlived rfl
  exact ⟨by decide +kernel, hins 8 .last, by decide +kernel,
    (hun rfl outlived (.refl _)).2.2 (.poll .first) trivial (by decide +kernel) rfl,
    by decide +kernel⟩

end World

end SnapshotDeque
