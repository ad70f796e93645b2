import SnapshotDeque.Proofs.Display
import SnapshotDeque.Proofs.Removal

/-!
Opening and closing snapshots. A snapshot shows the list as it is when it is opened. One that takes
nodes out as it opens shows these, and since it holds its version by then, unlinking them spares
what it shows.
-/

namespace SnapshotDeque

namespace Edit

variable {α : Type}

/-- What is done at `v` for a snapshot that takes its first `n` nodes out. -/
def takeAt (n : Nat) (w : View) (v : Version) : Edit α View := do
  if n = w.size then
    let _ ← unlinkEverything v
    return w
  let last ← unlinkSeen w.version v n w.last
  return { w with last, size := n }

/-- What is done for a snapshot that was just opened, to take its first `n` nodes out. -/
def take (n : Nat) (w : View) : Edit α View := do
  if n = 0 then return { w with size := 0 }
  takeAt n w (← mint)

theorem rises_takeAt (n : Nat) (w : View) (v : Version) : Rises (takeAt n w v : Edit α View) := by
  unfold takeAt
  split
  · exact (Built.bind (.unlinkEverything trivial) fun _ => .pure _).rises
  · exact (Built.bind (.unlinkSeen _ trivial _ _) fun _ => .pure _).rises

end Edit

namespace Store

variable {α : Type} {s t u : Store α} {v : Version}

/-! ## Opening -/

/-- The store with one more snapshot holding the modification version. -/
def opened (s : Store α) : Store α :=
  { s with
    timeline := (s.timeline.pin ⟨s.snapshotsOpened + 1⟩).2
    snapshotsOpened := s.snapshotsOpened + 1 }

theorem returns_openSnapshot_of_outermost {first last : Nat}
    (hf : s.opened.outermost .first = .ok first) (hl : s.opened.outermost .last = .ok last) :
    Edit.openSnapshot.Returns s
      ⟨⟨s.snapshotsOpened + 1⟩, (s.timeline.pin ⟨s.snapshotsOpened + 1⟩).1, first, last, s.length⟩
      s.opened := by
  unfold Edit.openSnapshot
  refine (Edit.returns_get s).bind ?_
  refine Edit.Returns.bind (Edit.returns_modify _ s) ?_
  refine Edit.Returns.bind (Edit.returns_modifyGet _ _) ?_
  refine (Edit.returns_ask (s := s.opened) hf).bind ((Edit.returns_ask hl).bind ?_)
  exact (Edit.returns_get s.opened).bind (Edit.returns_pure _ _)

/-- The current link of a node, if it has one. -/
def currentOf (s : Store α) (x : Handle) : Nat := (s.current? x).getD 0

/-- What is current in a list, and with it what a snapshot opened now shows. -/
def rowOf (s : Store α) (l : List (Handle × α)) : List (Nat × α) :=
  l.map fun e => (s.currentOf e.1, e.2)

theorem currentOf_eq {x : Handle} {i : Nat} (h : s.current? x = some i) : s.currentOf x = i := by
  rw [currentOf, h]; rfl

section Opened

variable {l : List (Handle × α)} (h : s.Live l)

include h

theorem Live.opened : s.opened.Live l :=
  h.retimed (h.stamped.timeline.pin _) (le_refl _) _

theorem mem_pinned_opened {w : Version} :
    w ∈ s.opened.timeline.pinned ↔ w ∈ s.timeline.pinned ∨ w = s.timeline.modification := by
  change w ∈ (s.timeline.pin _).2.pinned ↔ _
  rw [Timeline.mem_pinned_pin h.stamped.timeline, h.stamped.timeline.pin_fst]

/-- A pinned version is no newer than the one just pinned. -/
theorem le_of_mem_pinned_opened {w : Version} (hw : w ∈ s.opened.timeline.pinned) :
    w ≤ s.timeline.modification := by
  rcases (mem_pinned_opened h).1 hw with hw | rfl
  · exact h.stamped.timeline.le w hw
  · exact le_refl _

/-- A linked node has neighbours. -/
theorem Live.neighbours {x : Handle} (hx : x ∈ l.map (·.1)) {i : Nat}
    (hi : s.current? x = some i) :
    (∃ j, (s.links.get i).next = some j) ∧ ∃ j, (s.links.get i).previous = some j := by
  obtain ⟨k, m, hkm⟩ := List.append_of_mem hx
  have hr := h.ring
  rw [hkm] at hr
  obtain ⟨_, w, y, _, _, _, hwx, hxy, _⟩ := hr.neighbours
  obtain ⟨p, _, hp, _, ⟨j, hj, _⟩, _⟩ := hxy
  obtain ⟨_, n, _, hn, _, ⟨j', hj', _⟩⟩ := hwx
  rw [hi] at hp hn
  cases hp
  cases hn
  exact ⟨⟨j, hj⟩, j', hj'⟩

/-- A current link is seen at the modification version. -/
theorem Live.shows_current {e : Handle × α} (he : e ∈ l) :
    s.Shows s.timeline.modification (s.currentOf e.1, e.2) ∧ s.owner (s.currentOf e.1) = e.1 := by
  have hx : e.1 ∈ l.map (·.1) := List.mem_map_of_mem he
  obtain ⟨i, hi⟩ := h.exists_current? hx
  have hown := h.sound.owner hi
  have hlt := h.sound.current_lt hi
  obtain ⟨n, hn, hh⟩ := exists_node_of_current? (h.isSentinel hx) hi
  have hel := h.element e he
  rw [hn] at hel
  rw [currentOf_eq hi]
  refine ⟨⟨hlt, ⟨h.stamped.createdOn_le hlt, ?_⟩, Or.inl (hown.symm ▸ hi), ?_, ?_,
    (h.neighbours hx hi).1, (h.neighbours hx hi).2⟩, hown⟩
  · intro w hw
    rw [h.sound.obsoleteOn hi] at hw
    cases hw
  · rw [show (s.owner i).isSentinel = e.1.isSentinel by rw [hown]]
    exact h.isSentinel hx
  · rw [h.sound.element hn hh]
    exact hel

omit h in
theorem beside_of_adjacent {x y : Handle} (hxy : s.Adjacent x y) :
    s.Beside (s.currentOf x) (s.currentOf y) := by
  obtain ⟨p, n, hp, hn, hpn⟩ := hxy
  rw [currentOf_eq hp, currentOf_eq hn]
  exact hpn

theorem Live.row_current : s.Row s.timeline.modification (s.rowOf l) where
  shows_ p hp := by
    obtain ⟨e, he, rfl⟩ := List.mem_map.1 hp
    exact (h.shows_current he).1
  chain := by
    have hch := h.ring.chain
    rw [ringOf] at hch
    have hl : (l.map (·.1)).IsChain s.Adjacent := hch.tail.left_of_append
    rw [List.isChain_map] at hl
    rw [rowOf, List.isChain_map]
    exact hl.imp fun a b hab => beside_of_adjacent hab

theorem Live.named_current : s.named (s.rowOf l) = l := by
  rw [named, rowOf, List.map_map]
  refine (List.map_congr_left fun e he => ?_).trans (List.map_id l)
  rw [Function.comp, (h.shows_current he).2]
  rfl

omit h in
theorem saves_retimed (s : Store α) (tl : Timeline) (n : Nat) (v : Version) :
    Saves s { s with timeline := tl, snapshotsOpened := n } v :=
  ⟨.refl _, fun _ hs => .refl hs, fun _ _ hr => hr, fun {_ n} _ _ _ hn => ⟨n, hn, rfl⟩⟩

/-- A snapshot shows the list as it is. -/
theorem returns_openSnapshot :
    ∃ w, Edit.openSnapshot.Returns s w s.opened ∧ w.id = ⟨s.snapshotsOpened + 1⟩ ∧
      w.version = s.timeline.modification ∧ s.opened.Displays w (s.rowOf l) := by
  have hpin := h.stamped.timeline.pin_fst ⟨s.snapshotsOpened + 1⟩
  have hout : ∀ side, ∃ i, s.opened.outermost side = .ok i ∧
      ∀ p, side.outermost? (s.rowOf l) = some p → i = p.1 := by
    intro side
    cases he : side.outermost? l with
    | none =>
      have hl := End.outermost?_eq_none he
      obtain ⟨i, hi, _⟩ := h.opened.outermost_nil side hl
      refine ⟨i, hi, fun p hp => ?_⟩
      rw [rowOf, End.outermost?_map, he] at hp
      cases hp
    | some e =>
      obtain ⟨i, hi, ho⟩ := h.opened.outermost side he
      refine ⟨i, ho, fun p hp => ?_⟩
      rw [rowOf, End.outermost?_map, he] at hp
      obtain rfl := Option.some.inj hp
      exact (currentOf_eq (s := s) hi).symm
  obtain ⟨first, hf, hfirst⟩ := hout .first
  obtain ⟨last, hl, hlast⟩ := hout .last
  refine ⟨⟨⟨s.snapshotsOpened + 1⟩, s.timeline.modification, first, last, l.length⟩, ?_, rfl, rfl,
    ⟨⟨fun p hp => ?_, ?_⟩, ?_, fun p hp => ?_, fun p hp => ?_⟩⟩
  · have ho := returns_openSnapshot_of_outermost hf hl
    rwa [hpin, h.length_eq] at ho
  · exact (h.row_current.shows_ p hp).saves (saves_retimed s _ _ _)
  · exact h.row_current.chain
  · rw [rowOf, List.length_map]
  · rw [hfirst p hp]
    exact .refl _
  · rw [hlast p hp]
    exact .refl _

end Opened

/-! ## Polling into a snapshot -/

/-- Links that a snapshot at `seen` shows, each the current link of its node or the one before. -/
structure Fresh (s : Store α) (seen : Version) (ps : List (Nat × α)) : Prop where
  lt : ∀ p ∈ ps, p.1 < s.links.size
  seen : ∀ p ∈ ps, s.links.Seen seen p.1
  succeeds : ∀ p ∈ ps, s.Succeeds (s.owner p.1) p.1

/-- A snapshot that has just been opened resolves the current link of a node. -/
theorem resolve_of_succeeds (ht : s.links.Chained) {x : Handle} {q i : Nat}
    (hs : s.links.Seen v q) (hq : s.Succeeds x q) (hi : s.current? x = some i) :
    s.links.resolve v i = some q := by
  obtain ⟨j, hj, hjq⟩ := hq
  rw [hi] at hj
  obtain rfl := Option.some.inj hj
  rcases hjq with rfl | ho
  · exact LinkTable.resolve_of_leads ht (.refl i) hs
  · exact LinkTable.resolve_of_older ht ho (hs.2 _ (ht.obsoleteOn (ht.older ho))) hs

theorem returns_unlinkSeen {seen : Version} : ∀ {n : Nat} (ps : List (Nat × α)) {s : Store α}
    (last : Nat), n ≤ ps.length → s.Live (s.named ps) → s.Stamp v → seen ∈ s.timeline.pinned →
    (∀ w ∈ s.timeline.pinned, w ≤ seen) → s.Fresh seen ps →
    ∃ t gone, (Edit.unlinkSeen seen v n last).Returns s
        (((ps.take n).getLast?.map (·.1)).getD last) t ∧
      t.Live ((s.named ps).drop n) ∧ Amends s t [] gone := by
  intro n
  induction n with
  | zero => exact fun ps {s} last _ h _ _ _ _ => ⟨s, [], Edit.returns_pure last s, h, .refl s⟩
  | succ n ih =>
    intro ps s last hn h hst hseen hmax hfr
    obtain ⟨p, ps, rfl⟩ := List.exists_cons_of_ne_nil (l := ps) (by rintro rfl; simp at hn)
    have hp : p ∈ p :: ps := List.mem_cons_self ..
    obtain ⟨i, hi, ho⟩ := h.outermost (e := (s.owner p.1, p.2)) .first rfl
    have hres := resolve_of_succeeds h.sound.chained (hfr.seen p hp) (hfr.succeeds p hp) hi
    obtain ⟨t, gone, ht, hlt, hu⟩ := returns_unlinkAt (k := []) h hst hi
    rw [List.nil_append] at hlt
    have hnamed : t.named ps = s.named ps :=
      List.map_congr_left fun q hq => by
        rw [hu.spares.owner (hfr.lt q (List.mem_cons_of_mem _ hq))]
    have hnd := h.nodup
    rw [named, List.map_cons, List.map_cons, List.nodup_cons] at hnd
    have hfr' : t.Fresh seen ps := by
      refine ⟨fun q hq => ?_, fun q hq => ?_, fun q hq => ?_⟩
      · exact Nat.lt_of_lt_of_le (hfr.lt q (List.mem_cons_of_mem _ hq)) hu.spares.grows.size_le
      · have hq := List.mem_cons_of_mem p hq
        exact (hu.spares.keeps hseen (hfr.lt q hq) (hfr.seen q hq)).seen
      · have hq' := List.mem_cons_of_mem p hq
        rw [hu.spares.owner (hfr.lt q hq')]
        refine hu.succeeds hseen hmax (hfr.lt q hq') (hfr.seen q hq') (fun e => hnd.1 ?_)
          (hfr.succeeds q hq')
        rw [← e, List.map_map]
        exact List.mem_map_of_mem (f := fun q => s.owner q.1) hq
    obtain ⟨r, gone', hr, hlr, har⟩ := ih ps p.1 (by simpa using hn) (hnamed ▸ hlt) hu.stamp
      (by rw [hu.timeline]; exact hseen) (by rw [hu.timeline]; exact hmax) hfr'
    refine ⟨r, gone ++ gone', ?_, ?_, hu.toAmends.trans har⟩
    · unfold Edit.unlinkSeen
      refine (Edit.returns_ask ho).bind ((Edit.returns_get s).bind ?_)
      rw [hres]
      refine ht.bind ?_
      have hlast : (((p :: ps).take (n + 1)).getLast?.map (·.1)).getD last =
          ((ps.take n).getLast?.map (·.1)).getD p.1 := by
        rw [List.take_succ_cons]
        cases hg : ps.take n with
        | nil => rfl
        | cons q qs =>
          rw [List.getLast?_cons_cons, List.getLast?_cons, Option.map_some, Option.getD_some,
            Option.getD_some]
      rw [hlast]
      exact hr
    · rw [hnamed] at hlr
      exact hlr

/-- How many nodes a snapshot takes out as it opens. -/
def taken (limit : Option Nat) (n : Nat) : Nat := (limit.map (min · n)).getD n

/-- A snapshot that takes nodes out is opened like any other first. -/
theorem openPolled_apply {w : View} (hw : Edit.openSnapshot.Returns s w s.opened)
    (limit : Option Nat) : Edit.openPolled limit s = Edit.take (taken limit w.size) w s.opened :=
  hw.bind_apply _

theorem taken_le (limit : Option Nat) (n : Nat) : taken limit n ≤ n := by
  cases limit with
  | none => exact Nat.le_refl n
  | some m => exact Nat.min_le_right m n

theorem Row.take {ps : List (Nat × α)} (h : s.Row v ps) (n : Nat) : s.Row v (ps.take n) :=
  ⟨fun p hp => h.shows_ p (List.mem_of_mem_take hp), h.chain.take n⟩

/-- The first so many of what a snapshot shows, behind the last of which nothing is looked at. -/
theorem Displays.take {w : View} {ps : List (Nat × α)} (h : s.Displays w ps) {n last : Nat}
    (hn : n ≤ ps.length) (hlast : ∀ p, (ps.take n).getLast? = some p → last = p.1) :
    s.Displays { w with last, size := n } (ps.take n) where
  row := h.row.take n
  size := (List.length_take_of_le hn).symm
  first p hp := by
    rw [List.head?_take] at hp
    split at hp
    · cases hp
    · exact h.first p hp
  last p hp := by
    rw [show ({ w with last, size := n } : View).last = p.1 from hlast p hp]
    exact .refl _

section Polled

variable {l : List (Handle × α)} (h : s.Live l)

include h

theorem Live.fresh_opened : s.opened.minted.Fresh s.timeline.modification (s.rowOf l) where
  lt p hp := (h.row_current.shows_ p hp).lt
  seen p hp := (h.row_current.shows_ p hp).seen
  succeeds p hp := by
    obtain ⟨e, he, rfl⟩ := List.mem_map.1 hp
    obtain ⟨i, hi⟩ := h.exists_current? (List.mem_map_of_mem he)
    obtain rfl : s.currentOf e.1 = i := currentOf_eq hi
    have hown := h.sound.owner hi
    refine ⟨s.currentOf e.1, ?_, Or.inl rfl⟩
    rw [show s.opened.minted.owner (s.currentOf e.1) = e.1 from hown]
    exact hi

section Taking

variable {w : View} (hm : s.opened.minted.Live l) (hst : s.opened.minted.Stamp v)
  (hver : w.version = s.timeline.modification) (hd : s.opened.minted.Displays w (s.rowOf l))

theorem mem_pinned_minted : s.timeline.modification ∈ s.opened.minted.timeline.pinned := by
  rw [show s.opened.minted.timeline.pinned = s.opened.timeline.pinned from
    Timeline.advance_pinned _, mem_pinned_opened h]
  exact Or.inr rfl

include hm hst hver hd

/-- Every node is taken out. -/
theorem returns_takeAll : ∃ t gone, (Edit.takeAt l.length w v).Returns s.opened.minted w t ∧
    t.Live [] ∧ Changes s.opened.minted t [] gone ∧ t.Displays w (s.rowOf l) := by
  have hsize : w.size = l.length := by rw [hd.size, rowOf, List.length_map]
  obtain ⟨t, gone, ht, hlt, ha⟩ := returns_unlinkEverything hm hst
  refine ⟨t, gone, ?_, hlt, ha.toChanges, hd.saves (ha.spares.saves ?_)⟩
  · unfold Edit.takeAt
    rw [if_pos hsize.symm]
    exact ht.bind (Edit.returns_pure w t)
  · rw [hver]
    exact mem_pinned_minted h

/-- Some nodes are left. -/
theorem returns_takeSome {n : Nat} (hn : n < l.length) :
    ∃ last t gone, (Edit.takeAt n w v).Returns s.opened.minted { w with last, size := n } t ∧
      t.Live (l.drop n) ∧ Changes s.opened.minted t [] gone ∧
      t.Displays { w with last, size := n } ((s.rowOf l).take n) := by
  have hlen : (s.rowOf l).length = l.length := by rw [rowOf, List.length_map]
  have hsize : w.size = l.length := hd.size.trans hlen
  have hnamed : s.opened.minted.named (s.rowOf l) = l := h.named_current
  have hmax : ∀ u ∈ s.opened.minted.timeline.pinned, u ≤ s.timeline.modification := by
    intro u hu
    refine le_of_mem_pinned_opened h ?_
    rw [← show s.opened.minted.timeline.pinned = s.opened.timeline.pinned from
      Timeline.advance_pinned _]
    exact hu
  have hle : n ≤ (s.rowOf l).length := by rw [hlen]; exact Nat.le_of_lt hn
  rw [← hnamed] at hm
  obtain ⟨t, gone, ht, hlt, ha⟩ := returns_unlinkSeen (s.rowOf l) w.last hle hm hst
    (mem_pinned_minted h) hmax h.fresh_opened
  rw [hnamed] at hlt
  refine ⟨(((s.rowOf l).take n).getLast?.map (·.1)).getD w.last, t, gone, ?_, hlt, ha.toChanges, ?_⟩
  · unfold Edit.takeAt
    rw [hsize, if_neg (Nat.ne_of_lt hn), hver]
    exact ht.bind (Edit.returns_pure _ t)
  · have hdt := hd.saves (ha.spares.saves (by rw [hver]; exact mem_pinned_minted h))
    exact hdt.take hle fun p hp => by rw [hp]; rfl

end Taking

/-- A snapshot that takes nodes out shows just these, and the others are left. -/
theorem returns_openPolled (limit : Option Nat)
    (hv : ((Edit.openPolled limit).after s).timeline.modification < .max) :
    ∃ w t gone, (Edit.openPolled limit).Returns s w t ∧ w.id = ⟨s.snapshotsOpened + 1⟩ ∧
      w.version = s.timeline.modification ∧
      t.Live (l.drop (taken limit l.length)) ∧ Changes s.opened t [] gone ∧
      t.Displays w ((s.rowOf l).take (taken limit l.length)) := by
  obtain ⟨w, hw, hid, hver, hd⟩ := returns_openSnapshot h
  have hsize : w.size = l.length := by rw [hd.size, rowOf, List.length_map]
  have hrun : (Edit.openPolled limit) s = Edit.take (taken limit l.length) w s.opened := by
    rw [← hsize]
    exact openPolled_apply hw limit
  by_cases hn : taken limit l.length = 0
  · -- nothing is taken out
    refine ⟨{ w with size := 0 }, s.opened, [], hrun.trans ?_, hid, hver, ?_, .refl _, ?_⟩
    · unfold Edit.take
      rw [if_pos hn]
      exact Edit.returns_pure { w with size := 0 } s.opened
    · rw [hn]
      exact h.opened
    · rw [hn]
      exact ⟨⟨nofun, List.isChain_nil⟩, rfl, nofun, nofun⟩
  have hmint : Edit.take (taken limit l.length) w s.opened =
      (Edit.mint >>= Edit.takeAt (taken limit l.length) w) s.opened := by
    unfold Edit.take
    rw [if_neg hn]
  have hafter : (Edit.openPolled limit).after s =
      (Edit.take (taken limit l.length) w).after s.opened := by
    unfold Edit.after
    rw [hrun]
  rw [hafter] at hv
  obtain ⟨hlm, hst, hch⟩ :=
    h.opened.minted (Edit.advance_lt_of_after hmint (Edit.rises_takeAt _ w) hv)
  have hdm : s.opened.minted.Displays w (s.rowOf l) := by
    refine hd.saves (hch.spares.saves ?_)
    rw [hver]
    exact (mem_pinned_opened h).2 (Or.inr rfl)
  have hrun' := (hrun.trans hmint).trans ((Edit.returns_mint s.opened).bind_apply _)
  rcases Nat.lt_or_eq_of_le (taken_le limit l.length) with hlt | hall
  · obtain ⟨last, t, gone, ht, hl, hc, hdt⟩ := returns_takeSome h hlm hst hver hdm hlt
    exact ⟨_, t, gone, hrun'.trans ht, hid, hver, hl, hch.trans hc, hdt⟩
  · obtain ⟨t, gone, ht, hl, hc, hdt⟩ := returns_takeAll h hlm hst hver hdm
    rw [hall] at hrun' ⊢
    refine ⟨w, t, gone, hrun'.trans ht, hid, hver, ?_, hch.trans hc, ?_⟩
    · rw [List.drop_length]
      exact hl
    · rw [List.take_of_length_le (by rw [rowOf, List.length_map])]
      exact hdt

end Polled

/-! ## Closing -/

/-- The store without one snapshot's hold on a version. -/
def letGo (s : Store α) (v : Version) (id : SnapshotId) : Store α :=
  { s with timeline := (s.timeline.unpin v id).2 }

section LetGo

variable {l : List (Handle × α)} (h : s.Live l) {id : SnapshotId} (hid : s.timeline.Holds v id)

include h hid

theorem Live.letGo : (s.letGo v id).Live l :=
  h.retimed (h.stamped.timeline.unpin hid) (le_of_eq (Timeline.unpin_modification _ _ _).symm) _

theorem closeSnapshot_spec :
    ∃ p t gone, s.closeSnapshot id v = (p, t) ∧ t.Live l ∧ GivesBack (s.letGo v id) t gone := by
  have hl := h.letGo hid
  obtain ⟨t, gone, he, hs, hst, hg, _⟩ := reclaim_spec hl.sound hl.stamped s.config.reclaimBatch
  unfold closeSnapshot
  dsimp only
  split
  · exact ⟨_, t, gone, he, hl.givesBack hg hs hst, hg⟩
  · exact ⟨_, _, [], rfl, hl, .refl _⟩

end LetGo

end Store

end SnapshotDeque
