import SnapshotDeque.Proofs.Regime
import SnapshotDeque.Proofs.Shape

/-!
Unlinking a node, and unlinking all of them, under any regime. The neighbours of the node are led
past it first, and only then is it detached.
-/

namespace SnapshotDeque.Store

variable {α : Type} {s t : Store α} {v : Version}

/-- Once the ring leads past a node, the node may be detached. -/
theorem Unhooks.shaped {k m : List (Handle × α)} {x : Handle} {a : α} (hu : Unhooks s t x)
    (hnd : ((k ++ (x, a) :: m).map (·.1)).Nodup) (hh : s.Heads ((k ++ (x, a) :: m).map (·.1)))
    (he : ∀ e ∈ k ++ (x, a) :: m, (s.arena.get? e.1).map (·.element) = some e.2)
    (hr : s.Ring ((k ++ m).map (·.1))) (hc : s.Counted (k ++ m).length) (hd : t.disposed = false)
    (hs : t.Sound t.obsolete []) : t.Shaped (k ++ m) := by
  have hmap : (k ++ (x, a) :: m).map (·.1) = k.map (·.1) ++ x :: m.map (·.1) := by simp
  have hmap' : (k ++ m).map (·.1) = k.map (·.1) ++ m.map (·.1) := by simp
  rw [hmap, List.nodup_middle, List.nodup_cons, ← hmap'] at hnd
  have hsub : ∀ e ∈ k ++ m, e ∈ k ++ (x, a) :: m := fun e he => by
    simp only [List.mem_append, List.mem_cons] at he ⊢
    exact he.imp id Or.inr
  refine ⟨hd, hs, hu.ring hr (hh.not_mem_ringOf (by simp) hnd.1), hu.heads hh fun y => ?_,
    hu.counted hc, fun e hel => ?_⟩
  · rw [hmap]
    rw [hmap'] at hnd ⊢
    simp only [List.mem_append, List.mem_cons] at hnd ⊢
    constructor
    · intro hy
      exact ⟨hy.imp id Or.inr, fun e => hnd.1 (e ▸ hy)⟩
    · rintro ⟨hy | rfl | hy, hyx⟩
      · exact Or.inl hy
      · exact absurd rfl hyx
      · exact Or.inr hy
  · refine hu.entry (fun e' => hnd.1 (e' ▸ List.mem_map_of_mem hel)) ?_ (he e (hsub e hel))
    exact (hh _).2 (List.mem_map_of_mem (hsub e hel))

namespace Regime

variable {R : Regime α v}

theorem element_of_comes (h : R.Comes s t) {l : List (Handle × α)}
    (hl : ∀ e ∈ l, (s.arena.get? e.1).map (·.element) = some e.2) :
    ∀ e ∈ l, (t.arena.get? e.1).map (·.element) = some e.2 := fun e he => by
  rw [R.element h]
  exact hl e he

theorem disposed_unlinks {x : Handle} (h : R.Unlinks s t x) : t.disposed = s.disposed :=
  R.clears_disposed (R.unlinks_clears h)

/-- The neighbours of a node are made neighbours of each other; the node itself is left alone. -/
theorem returns_bypass {k m : List Handle} {x : Handle} (h : R.Holds s [])
    (hr : s.Ring (k ++ x :: m)) {i : Nat} (hi : s.current? x = some i) :
    ∃ p n p' n' s1 s2 t, s.nextOf i = .ok n ∧ s.previousOf i = .ok p ∧
      (Edit.writable n v).Returns s n' s1 ∧ (Edit.writable p v).Returns s1 p' s2 ∧
      (Edit.join p' n').Returns s2 () t ∧ (Edit.checkSplice p' n').Returns t () t ∧
      R.Comes s t ∧ R.Holds t [] ∧ t.Ring (k ++ m) ∧ (∀ {c}, s.Counted c → t.Counted c) ∧
      t.current? x = some i ∧ ∃ w y, Touches s t [w, y] := by
  obtain ⟨b, w, y, z, hb, hm, hwx, hxy, hwx', hwy', hxy'⟩ := hr.neighbours
  have ⟨p, _, hp, _⟩ := hwx
  have ⟨_, n, _, hn, _⟩ := hxy
  obtain ⟨p', n', s1, s2, h1, _, h2, hf, hc, hp2, hn2, hpf, hnf, hne⟩ :=
    returns_writables h hwy' hp hn
  have hs := R.sound h
  have hs2 := R.sound hc
  obtain ⟨hj, hcj⟩ := joined hc (hs2.current_lt hp2) (hs2.current_lt hn2) hpf hnf
  have hwy := adjacent_joined hs2 hp2 hn2
  refine ⟨p, n, p', n', s1, s2, s2.joined p' n', hs.nextOf hxy hi hn, hs.previousOf hwx hp hi,
    h1, h2, returns_join s2 p' n', returns_checkSplice (R.sound hcj) hp2 hn2 hwy,
    R.trans hf.comes hj, hcj, ?_, fun hc => counted_joined (hf.counted hc),
    (hne x hwx'.symm hxy').trans hi, w, y, fun c hc _ => ?_⟩
  · have hnd := hr.nodup
    have hch := hr.chain
    rw [hb] at hnd hch
    refine ⟨?_, ?_⟩ <;> rw [hm]
    · exact hnd.sublist (by simp)
    · refine isChain_remove hch hnd hwy fun c d hc hd hcd => ?_
      exact adjacent_joined_of_ne hs2 hp2 hn2 hc hd (hf.adjacent hcd)
  · simp only [List.mem_cons, List.not_mem_nil, or_false, not_or] at hc
    exact hne c hc.1 hc.2

/-- The node loses its link, and its neighbours and the sentinels may get other ones. -/
theorem returns_unlinkAt_touching {k m : List (Handle × α)} {x : Handle} {a : α}
    (h : s.Shaped (k ++ (x, a) :: m)) (hs : R.Holds s []) {i : Nat} (hi : s.current? x = some i) :
    ∃ t, (Edit.unlinkAt i v).Returns s () t ∧ t.Shaped (k ++ m) ∧ R.Holds t [] ∧
      R.Unlinks s t x ∧ ∃ w y, Touches s t [w, y, .atBegin, .atEnd, x] := by
  have hxl : x ∈ (k ++ (x, a) :: m).map (·.1) := by simp
  have hr := h.ring
  rw [List.map_append, List.map_cons] at hr
  obtain ⟨p, n, p', n', s1, s2, t1, hn, hp, h1, h2, h3, h4, hw1, hc1, hr1, hcnt, hx1, w, y,
    htouch⟩ := returns_bypass hs hr hi
  obtain ⟨t2, h5, hw2, hc2, hcnt2, hadj2, hcur2⟩ := returns_recount hc1 (hcnt h.counted) (· - 1)
  have hne := h.ring.ne_sentinel hxl
  have hx2 : t2.current? x = some i := (hcur2 x hne.1 hne.2).trans hx1
  have hw := R.trans hw1 hw2
  obtain ⟨t, h6, hc, hu, hd⟩ := R.detach hc2 (h.isSentinel hxl) hx2
  refine ⟨t, ?_, ?_, hc, R.comes_unlinks hw hd, w, y, fun z hz hzs => ?_⟩
  · unfold Edit.unlinkAt
    refine (Edit.returns_ask hn).bind ((Edit.returns_ask hp).bind (h1.bind (h2.bind ?_)))
    refine h3.bind (h4.bind (h5.bind ((Edit.returns_get t2).bind ?_)))
    rw [(R.sound hc2).owner hx2]
    exact h6
  · refine hu.shaped h.nodup (heads_iff hw h.heads) (element_of_comes hw h.element) ?_ ?_ ?_
      (R.sound hc)
    · rw [List.map_append]
      exact ⟨hr1.nodup, hr1.chain.imp fun _ _ => hadj2⟩
    · simpa using hcnt2
    · rw [disposed_unlinks hd, R.disposed hw, h.open_]
  · simp only [List.mem_cons, List.not_mem_nil, or_false, not_or] at hz
    rw [hu.current? hz.2.2.2.2, hcur2 z hz.2.2.1 hz.2.2.2.1]
    exact htouch z (by simp [hz.1, hz.2.1]) hzs

theorem returns_unlinkAt {k m : List (Handle × α)} {x : Handle} {a : α}
    (h : s.Shaped (k ++ (x, a) :: m)) (hs : R.Holds s []) {i : Nat} (hi : s.current? x = some i) :
    ∃ t, (Edit.unlinkAt i v).Returns s () t ∧ t.Shaped (k ++ m) ∧ R.Holds t [] ∧
      R.Unlinks s t x := by
  obtain ⟨t, ht, hl, hc, hu, _⟩ := returns_unlinkAt_touching h hs hi
  exact ⟨t, ht, hl, hc, hu⟩

section

variable {l : List (Handle × α)} (h : s.Shaped l) (hs : R.Holds s [])

include h hs

/-- The node of a pair is unlinked. -/
theorem returns_unlinkAt_of_mem {x : Handle} (hx : x ∈ l.map (·.1)) {i : Nat}
    (hi : s.current? x = some i) :
    ∃ t, (Edit.unlinkAt i v).Returns s () t ∧ t.Shaped (l.filter (·.1 ≠ x)) ∧ R.Holds t [] ∧
      R.Unlinks s t x := by
  obtain ⟨e, he, rfl⟩ := List.mem_map.1 hx
  obtain ⟨k, m, rfl⟩ := List.append_of_mem he
  obtain ⟨t, ht, hlt, hu⟩ := returns_unlinkAt (x := e.1) (a := e.2) h hs hi
  refine ⟨t, ht, ?_, hu⟩
  rw [show k ++ e :: m = k ++ (e.1, e.2) :: m from rfl, filter_ne_of_nodup h.nodup]
  exact hlt

end

/-! ## Unlinking everything -/

/-- From `s` to `t`, the nodes in a list are unlinked one after the other. -/
inductive UnlinksAll (R : Regime α v) : Store α → List Handle → Store α → Prop
  | done {s t : Store α} : R.Comes s t → UnlinksAll R s [] t
  | next {s t u : Store α} {x : Handle} {xs : List Handle} :
    R.Unlinks s t x → UnlinksAll R t xs u → UnlinksAll R s (x :: xs) u

theorem UnlinksAll.clears {xs : List Handle} (h : R.UnlinksAll s xs t) : R.Clears s t := by
  induction h with
  | done h => exact R.comes_clears h
  | next h _ ih => exact R.clears_trans (R.unlinks_clears h) ih

theorem UnlinksAll.comes {u : Store α} {xs : List Handle} (h : R.Comes s t)
    (h' : R.UnlinksAll t xs u) : R.UnlinksAll s xs u := by
  cases h' with
  | done h' => exact .done (R.trans h h')
  | next h' hs => exact .next (R.comes_unlinks h h') hs

theorem returns_detachAll : ∀ {xs : List Handle} {s : Store α}, R.Holds s [] → xs.Nodup →
    s.Heads xs → s.Ring [] →
    ∃ t, (xs.forM (Edit.detach · v)).Returns s () t ∧ R.Holds t [] ∧ t.Heads [] ∧
      t.Ring [] ∧ (∀ {n}, s.Counted n → t.Counted n) ∧ R.UnlinksAll s xs t := by
  intro xs
  induction xs with
  | nil =>
    exact fun {s} h _ hh hr => ⟨s, Edit.returns_pure _ s, h, hh, hr, id, .done (R.refl s)⟩
  | cons x xs ih =>
    intro s h hnd hh hr
    have hx : x ∈ x :: xs := List.mem_cons_self ..
    obtain ⟨i, hi⟩ := hh.exists_current? hx
    obtain ⟨t, ht, hc, hu, hd⟩ := R.detach h (hh.isSentinel hx) hi
    rw [List.nodup_cons] at hnd
    have hht : t.Heads xs := hu.heads hh fun y => by
      rw [List.mem_cons]
      exact ⟨fun hy => ⟨Or.inr hy, fun e => hnd.1 (e ▸ hy)⟩, fun hy => hy.1.resolve_left hy.2⟩
    obtain ⟨u, hu', hcu, hhu, hru, hcnt, ham⟩ :=
      ih hc hnd.2 hht (hu.ring hr (hh.not_mem_ringOf hx List.not_mem_nil))
    exact ⟨u, ht.bind hu', hcu, hhu, hru, fun hn => hcnt (hu.counted hn), .next hd ham⟩

section UnlinkEverything

variable {l : List (Handle × α)} (h : s.Shaped l) (hs : R.Holds s [])

include h hs

/-- The sentinels are made neighbours; no node is touched. -/
theorem returns_bypassAll :
    ∃ e b s1 s2 t, (Edit.writable s.endLink v).Returns s e s1 ∧
      (Edit.writable s1.beginLink v).Returns s1 b s2 ∧
      t = (s2.joined b e).recounted b e (fun _ => 0) ∧
      (Edit.checkSplice b e).Returns t () t ∧ R.Comes s t ∧ R.Holds t [] ∧ t.Ring [] ∧
      t.Counted 0 := by
  obtain ⟨b, e, s1, s2, h1, hb1, h2, hf, hc, hb, he, hbf, hef, _⟩ :=
    returns_writables hs (w := .atBegin) (y := .atEnd) (by decide) (current?_atBegin s)
      (current?_atEnd s)
  obtain rfl : s2.beginLink = b := Option.some.inj ((current?_atBegin s2).symm.trans hb)
  obtain rfl : s2.endLink = e := Option.some.inj ((current?_atEnd s2).symm.trans he)
  rw [← Option.some.inj ((current?_atBegin s1).symm.trans hb1)] at h2
  have hs2 := R.sound hc
  obtain ⟨hj, hcj⟩ := joined hc (hs2.current_lt hb) (hs2.current_lt he) hbf hef
  obtain ⟨hr, hcr⟩ := recounted hcj s2.beginLink s2.endLink fun _ => 0
  have hadj := adjacent_recounted (b := s2.beginLink) (e := s2.endLink) (f := fun _ => 0)
    (adjacent_joined hs2 hb he)
  have hcur := current?_recounted (s2.joined s2.beginLink s2.endLink) s2.beginLink s2.endLink
    fun _ => 0
  refine ⟨s2.endLink, s2.beginLink, s1, s2, _, h1, h2, rfl,
    returns_checkSplice (R.sound hcr) ((hcur .atBegin).trans hb) ((hcur .atEnd).trans he) hadj,
    R.trans hf.comes (R.trans hj hr), hcr,
    ⟨by decide, List.isChain_cons_cons.2 ⟨hadj, List.isChain_singleton _⟩⟩, ?_⟩
  exact counted_recounted (R.sound hcj) (counted_joined (hf.counted h.counted)) fun _ => 0

theorem returns_unlinkEverything :
    ∃ t, (Edit.unlinkEverything v).Returns s l.length t ∧ t.Shaped [] ∧ R.Holds t [] ∧
      R.UnlinksAll s (l.map (·.1)) t := by
  have hown := h.map_owner_current
  by_cases hl : l = []
  · subst hl
    refine ⟨s, ?_, h, hs, .done (R.refl s)⟩
    unfold Edit.unlinkEverything
    refine (Edit.returns_ask h.liveLinks).bind ((Edit.returns_get s).bind ?_)
    exact Edit.returns_pure 0 s
  · obtain ⟨e, b, s1, s2, t, h1, h2, ht, h3, hw, hc, hr, hcnt⟩ := returns_bypassAll h hs
    obtain ⟨u, hu, hcu, hhu, hru, hcntu, hcl⟩ :=
      returns_detachAll hc h.nodup (heads_iff hw h.heads) hr
    refine ⟨u, ?_, ⟨?_, R.sound hcu, hru, hhu, hcntu hcnt, by simp⟩, hcu, .comes hw hcl⟩
    · unfold Edit.unlinkEverything
      refine (Edit.returns_ask h.liveLinks).bind ((Edit.returns_get s).bind ?_)
      dsimp only
      rw [hown, if_neg (by simpa using hl)]
      refine h1.bind ((Edit.returns_get s1).bind (h2.bind ((returns_join s2 b e).bind ?_)))
      have h4 : (Edit.editLinks fun t => (t.modify b fun l => { l with count := 0 }).modify e
          fun l => { l with count := 0 }).Returns (s2.joined b e) () t := by
        rw [ht]
        exact Edit.returns_editLinks _ _
      refine h4.bind (h3.bind (hu.bind ?_))
      rw [List.length_map]
      exact Edit.returns_pure _ u
    · rw [R.clears_disposed hcl.clears, R.disposed hw, h.open_]

end UnlinkEverything

end Regime

end SnapshotDeque.Store
