import SnapshotDeque.Proofs.Linking
import SnapshotDeque.Proofs.Tale
import SnapshotDeque.Proofs.Unlinking

/-!
What the steps of a change do can be told. Main definition: `Regime.told`, the regime of a change
whose steps keep the links and nodes sound and can be told, whatever the stamps are.
-/

namespace SnapshotDeque.Store

variable {α : Type} {s t u : Store α} {v : Version}

/-! ## Giving back -/

theorem does_dispose {x : Handle} {n : Node α} {b : Arena α} (hn : s.arena.get? x = some n)
    (hh : n.head = none) (hl : s.arena.Loses b x n) :
    Does s ⟨n.id, x, n.element, .dispose⟩ (s.withoutNode n b) where
  before := by rw [record?_of_get? hn, hh]; rfl
  record y := by
    rw [record?, arena_withoutNode, hl.get]
    split
    · rfl
    · rfl
  fresh := nofun
  nextId := by rw [arena_withoutNode]; exact hl.nextId
  size := by rw [arena_withoutNode]; exact hl.size.symm
  emitting := emitting_emit ..
  events := events_emit ..
  disposed := disposed_emit ..
  modification := congrArg Timeline.modification (timeline_emit _ _)
  version := nofun

/-- `t` is `s` with so many links given back, and with what is told of the nodes disposed. -/
structure Yields (s : Store α) (ds : List (Deed α)) (k : Nat) (t : Store α) : Prop
    extends Frees s t where
  tale : Tale s ds k t
  disposes : ds.countP Deed.isDispose = ds.length
  obsolete : t.obsolete = s.obsolete
  totals : t.totals = s.totals
  timeline : t.timeline = s.timeline

theorem Yields.refl (s : Store α) : Yields s [] 0 s :=
  ⟨.refl s, .nil, rfl, rfl, rfl, rfl⟩

theorem Yields.trans {ds es : List (Deed α)} {k m : Nat} (h : Yields s ds k t)
    (h' : Yields t es m u) : Yields s (ds ++ es) (k + m) u where
  toFrees := h.toFrees.trans h'.toFrees
  tale := h.tale.trans h'.tale
  disposes := by rw [List.countP_append, List.length_append, h.disposes, h'.disposes]
  obsolete := h'.obsolete.trans h.obsolete
  totals := h'.totals.trans h.totals
  timeline := h'.timeline.trans h.timeline

/-- A node that is disposed is neither linked nor unlinked. -/
theorem Yields.countP {ds : List (Deed α)} {k : Nat} (h : Yields s ds k t) :
    ds.countP Deed.isLink = 0 ∧ ds.countP Deed.isUnlink = 0 := by
  have hk : ∀ d ∈ ds, d.isLink = false ∧ d.isUnlink = false ∧ d.version? = none := fun d hd =>
    Deed.kinds_of_isDispose (List.countP_eq_length.1 h.disposes d hd)
  exact ⟨List.countP_eq_zero.2 fun d hd => by simp [(hk d hd).1],
    List.countP_eq_zero.2 fun d hd => by simp [(hk d hd).2.1]⟩

theorem Yields.allows {ds : List (Deed α)} {k : Nat} (h : Yields s ds k t) (w : Traffic) :
    ∀ d ∈ ds, w.Allows d := fun d hd =>
  w.allows_of_isDispose (List.countP_eq_length.1 h.disposes d hd)

section Release

variable {i : Nat} {r : List Nat}

theorem Sound.withoutLink_yields (h : s.Sound (i :: r) []) : Yields s [] 1 (s.withoutLink i) where
  toFrees := frees_withoutLink h
  tale := .release .nil
  disposes := rfl
  obsolete := rfl
  totals := rfl
  timeline := rfl

theorem release_yields (h : s.Sound (i :: r) []) (p : Pass) :
    ∃ t ds, s.release p i = (t, ⟨p.links + 1, p.nodes + ds.length, p.remaining⟩) ∧
      t.Sound r [] ∧ Yields s ds 1 t := by
  have hy := h.withoutLink_yields
  rcases release_cases h p with ⟨n, b, hn, hh, _, hl, hs, he⟩ | ⟨hs, he⟩
  · have hd : Yields (s.withoutLink i) [⟨n.id, s.owner i, n.element, .dispose⟩] 0
        ((s.withoutLink i).withoutNode n b) :=
      ⟨frees_withoutNode hl hn hh, .of_does (does_dispose hn hh hl), rfl,
        obsolete_emit _ _, totals_emit _ _, timeline_emit _ _⟩
    exact ⟨_, _, he, hs, hy.trans hd⟩
  · exact ⟨_, _, he, hs, hy⟩

theorem releaseAll_yields : ∀ {due : List Nat} {s : Store α} (p : Pass), s.Sound (due ++ r) [] →
    ∃ t ds, due.foldl (fun (s, p) i => s.release p i) (s, p) =
        (t, ⟨p.links + due.length, p.nodes + ds.length, p.remaining⟩) ∧
      t.Sound r [] ∧ Yields s ds due.length t := by
  intro due
  induction due with
  | nil => exact fun {s} p h => ⟨s, [], rfl, h, .refl s⟩
  | cons i due ih =>
    intro s p h
    obtain ⟨t, ds, he, ht, hy⟩ := release_yields h p
    obtain ⟨u, es, he', hu, hy'⟩ := ih _ ht
    refine ⟨u, ds ++ es, ?_, hu, ?_⟩
    · rw [List.foldl_cons]
      change due.foldl _ (s.release p i) = _
      rw [he, he', List.length_cons, List.length_append]
      simp only [Nat.add_assoc, Nat.add_comm 1]
    · rw [List.length_cons, Nat.add_comm]
      exact hy.trans hy'

end Release

theorem still_obsolete (s : Store α) (r : List Nat) : Still s { s with obsolete := r } :=
  .of_eq rfl rfl rfl rfl (le_refl _)

theorem still_totals (s : Store α) (x : Totals) : Still s { s with totals := x } :=
  .of_eq rfl rfl rfl rfl (le_refl _)

/-- A pass that does nothing counts nothing. -/
theorem counted_recordRun (t : Totals) (p : Pass) :
    (t.recordRun p).links = t.links + UInt64.ofNat p.links ∧
      (t.recordRun p).nodes = t.nodes + UInt64.ofNat p.nodes := by
  unfold Totals.recordRun
  split
  · exact ⟨rfl, rfl⟩
  next h =>
    obtain ⟨hl, hn⟩ : p.links = 0 ∧ p.nodes = 0 := by
      simpa [Pass.didWork, Nat.pos_iff_ne_zero] using h
    rw [hl, hn]
    exact ⟨(UInt64.add_zero _).symm, (UInt64.add_zero _).symm⟩

section Pass

variable {l : List (Handle × α)} (h : s.Shaped l)

include h

theorem told_reclaim (w : Traffic) (budget : Nat) :
    Told w s (s.reclaim budget).2 ∧ (s.reclaim budget).2.Shaped l := by
  unfold reclaim
  by_cases he : s.obsolete = []
  · rw [if_pos (by rw [he]; rfl)]
    exact ⟨.refl s, h⟩
  rw [if_neg (by simpa using he)]
  have happ := due_append_rest s budget
  obtain ⟨t, ds, hf, ht, hy⟩ := releaseAll_yields {} (h.sound.shorten budget)
  dsimp only
  rw [hf]
  generalize s.obsolete.drop (s.due budget).length = r at *
  have hto : t.obsolete = r := hy.obsolete
  have htot : t.totals = s.totals := hy.totals
  have htale : Tale s ds (0 + (s.due budget).length) _ :=
    .still ((Tale.of_still (still_obsolete s r)).trans hy.tale)
      (still_totals t (t.totals.recordRun ⟨0 + (s.due budget).length, 0 + ds.length, r.length⟩))
  refine ⟨⟨ds, _, ⟨htale, ?_, ?_, ?_⟩, hy.allows w⟩,
    h.frees (((frees_obsolete s r).trans hy.toFrees).record _) htale.disposed ?_⟩
  · have hlen := congrArg List.length happ
    rw [List.length_append] at hlen
    have hsize : t.links.size = s.links.size := hy.size
    rw [hy.countP.1, hy.countP.2]
    change t.links.size + _ + 0 = s.links.size + t.obsolete.length + 0 + _
    rw [hto, hsize]
    omega
  · change (t.totals.recordRun _).links = _
    rw [(counted_recordRun _ _).1, htot]
  · change (t.totals.recordRun _).nodes = _
    rw [(counted_recordRun _ _).2, htot, hy.disposes]
    exact congrArg (fun n => _ + UInt64.ofNat n) (Nat.zero_add _)
  · change Sound _ t.obsolete []
    rw [hto]
    exact ht.congr rfl rfl rfl rfl

theorem told_reclaimPending (w : Traffic) :
    Told w s s.reclaimPending ∧ s.reclaimPending.Shaped l := by
  unfold reclaimPending
  split
  · exact told_reclaim h w _
  · exact ⟨.refl s, h⟩

end Pass

/-! ## Detaching -/

section Detach

variable {x : Handle} {i : Nat} (h : s.Sound s.obsolete []) (hx : x.isSentinel = false)
  (hi : s.current? x = some i)

theorem does_unlink {n : Node α} (hn : s.arena.get? x = some n) (hh : n.head = some i)
    (r : List Nat) : Does s ⟨n.id, x, n.element, .unlink s.timeline.modification⟩
      (s.unlinking x r s.timeline.modification) where
  before := by rw [record?_of_get? hn, hh]; rfl
  record y := by
    rw [record?, unlinking, arena_emit, get?_unhooked]
    split
    next hy => rw [hy, hn]; rfl
    next => rfl
  fresh := nofun
  nextId := by rw [unlinking, arena_emit]; exact Arena.nextId_modify ..
  size := by rw [unlinking, arena_emit]; exact Arena.size_modify ..
  emitting := emitting_emit ..
  events := events_emit ..
  disposed := disposed_emit ..
  modification := congrArg Timeline.modification (timeline_emit _ _)
  version w hw := (Option.some.inj hw).symm

include h hx hi

theorem told_detach (hv : s.timeline.modification = v) :
    ∃ t, (Edit.detach x v).Returns s () t ∧ t.Sound t.obsolete [] ∧ t.timeline = s.timeline ∧
      Unhooks s t x ∧ Told .going s t := by
  subst hv
  obtain ⟨n, hn, hh⟩ := exists_node_of_current? hx hi
  have hhead := (current?_of_payload hx).symm.trans hi
  by_cases ho : s.timeline.isObserved (s.links.get i).createdOn = true
  · -- the link waits behind those retired before
    have hd := does_unlink hn hh (s.obsolete ++ [i])
    have ht : (s.waiting x i s.timeline.modification).totals = s.totals := totals_emit _ _
    refine ⟨_, returns_detach_waiting hhead ho, h.waiting hx hi, timeline_waiting,
      unhooks_waiting hx, _, 0, ⟨.still (.of_does hd) (.of_eq rfl rfl rfl rfl (le_refl _)), ?_,
      ?_, ?_⟩, List.forall_mem_singleton.2 rfl⟩
    · change (s.links.marked i _).size + _ + 1 = _ + (emit _ _).obsolete.length + 0 + 0
      rw [LinkTable.size_marked, obsolete_emit, unhooked, List.length_append]
      simp only [List.length_singleton]
      omega
    · rw [ht]
      exact (UInt64.add_zero _).symm
    · rw [ht]
      exact (UInt64.add_zero _).symm
  · -- the link is given back at once
    have hd := does_unlink hn hh s.obsolete
    have hu := h.unlinking (v := s.timeline.modification) hx hi s.obsolete
    obtain ⟨t, ds, he, ht, hy⟩ := release_yields hu {}
    have hto : t.obsolete = s.obsolete := hy.obsolete.trans (obsolete_emit _ _)
    have htt : t.totals = s.totals := hy.totals.trans (totals_emit _ _)
    have hsize : t.links.size = s.links.size := hy.size.trans (congrArg _ (links_emit _ _))
    refine ⟨_, returns_detach_released hhead ho he, ?_, hy.timeline.trans (timeline_emit _ _),
      (unhooks_unlinking hx _).frees (hy.toFrees.record _), _, _,
      ⟨.still ((Tale.of_does hd).trans hy.tale) (still_totals t _), ?_, ?_, ?_⟩, ?_⟩
    · change Sound _ t.obsolete []
      rw [hto]
      exact ht.congr rfl rfl rfl rfl
    · rw [List.countP_append, List.countP_append, hy.countP.1, hy.countP.2]
      change t.links.size + _ + 1 = _ + t.obsolete.length + 0 + 1
      rw [hto, hsize]
    · change t.totals.links + _ = _
      rw [htt]
    · change t.totals.nodes + _ = _
      rw [htt, List.countP_append, hy.disposes]
      rfl
    · exact List.forall_mem_cons.2 ⟨rfl, hy.allows .going⟩

end Detach

/-! ## Changes under way -/

/-- `t` is `s` with links that took the place of others or were changed, but for that the same. -/
structure Reshapes (s t : Store α) : Prop extends Still s t where
  ledger : t.links.size + s.obsolete.length = s.links.size + t.obsolete.length
  totals : t.totals = s.totals
  timeline : t.timeline = s.timeline

theorem Reshapes.refl (s : Store α) : Reshapes s s := ⟨.refl s, rfl, rfl, rfl⟩

theorem Reshapes.trans (h : Reshapes s t) (h' : Reshapes t u) : Reshapes s u where
  toStill := h.toStill.trans h'.toStill
  ledger := by
    have := h.ledger
    have := h'.ledger
    omega
  totals := h'.totals.trans h.totals
  timeline := h'.timeline.trans h.timeline

theorem Reshapes.told (h : Reshapes s t) (w : Traffic) : Told w s t :=
  ⟨[], 0, .of_still h.toStill h.ledger h.totals, nofun⟩

theorem reshapes_links {l : LinkTable α} (h : l.size = s.links.size) :
    Reshapes s { s with links := l } where
  toStill := .of_eq rfl rfl rfl rfl (le_refl _)
  ledger := congrArg (· + _) h
  totals := rfl
  timeline := rfl

theorem reshapes_supersede {sp : List Handle} {x : Handle} {i : Nat} (h : s.Sound s.obsolete sp)
    (hi : s.current? x = some i) : Reshapes s (s.supersede i v) where
  record y := by
    rw [record?, record?, get?_supersede]
    split
    next hy =>
      cases hn : s.arena.get? y with
      | none => rfl
      | some n =>
        have hh := (current?_of_node hn).symm.trans ((hy.trans (h.owner hi)) ▸ hi)
        simp [hh]
    next => rfl
  nextId := by
    change (Store.setCurrent _ _ _).arena.nextId = _
    rw [arena_setCurrent, Arena.nextId_modify]
  size := by
    change (Store.setCurrent _ _ _).arena.size = _
    rw [arena_setCurrent, Arena.size_modify]
  emitting := emitting_setCurrent ..
  events := events_setCurrent ..
  disposed := disposed_setCurrent ..
  modification := le_of_eq (congrArg Timeline.modification timeline_supersede.symm)
  ledger := by
    change _ = _ + (s.obsolete ++ [i]).length
    rw [links_supersede, LinkTable.size_forked, List.length_append, List.length_singleton]
    omega
  totals := totals_setCurrent ..
  timeline := timeline_supersede

/-- The record of a node that was enlisted. -/
theorem record?_enlisted {x : Handle} {n : Node α} {l : Link α} (hx : s.arena.get? x = some n)
    (y : Handle) : (s.enlisted x l).record? y =
      if y = x then some ⟨n.id, n.element, true⟩ else s.record? y := by
  rw [record?, get?_enlisted]
  split
  next hy => rw [hy, hx]; rfl
  next => rfl

section Insert

variable {b : Arena α} {x : Handle} {a : α} {l : Link α} {n : Node α} {side : End}
  (hg : Arena.Gains s.arena b x a) (ht : Reshapes (s.withArena b) t)
  (hx : t.arena.get? x = some n) (hu : Reshapes (t.enlisted x l) u)

include hg ht hx hu

theorem record?_inserted (y : Handle) : u.record? y =
    if y = x then some ⟨⟨s.arena.nextId⟩, a, true⟩ else s.record? y := by
  have hn := ht.record x
  rw [record?_of_get? hx, record?, withArena, hg.get, if_pos rfl] at hn
  have hid : n.id = ⟨s.arena.nextId⟩ := congrArg Record.id (Option.some.inj hn)
  have he : n.element = a := congrArg Record.element (Option.some.inj hn)
  rw [hu.record, record?_enlisted hx, hid, he]
  split
  · rfl
  next hy => rw [ht.record, record?, withArena, hg.get, if_neg hy, record?]

theorem does_link (hv : s.timeline.modification = v) :
    Does s ⟨⟨s.arena.nextId⟩, x, a, .link side v⟩ (emit (.link x side v) u) where
  before := by
    rw [record?, hg.fresh]
    rfl
  record y := by
    rw [record?, arena_emit]
    exact record?_inserted hg ht hx hu y
  fresh _ := rfl
  nextId := by
    rw [arena_emit, hu.nextId, enlisted, arena_setCurrent, Arena.nextId_modify]
    exact ht.nextId.trans hg.nextId
  size := by
    rw [arena_emit, hu.size, enlisted, arena_setCurrent, Arena.size_modify]
    exact ht.size.trans hg.size
  emitting := by
    rw [emitting_emit, hu.emitting, enlisted, emitting_setCurrent]
    exact ht.emitting
  events := by
    rw [events_emit, hu.emitting, hu.events, enlisted, emitting_setCurrent, events_setCurrent]
    change (if t.emitting = true then t.events ++ _ else t.events) = _
    rw [ht.emitting, ht.events]
    rfl
  disposed := by
    rw [disposed_emit, hu.disposed, enlisted, disposed_setCurrent]
    exact ht.disposed
  modification := by
    rw [timeline_emit, hu.timeline, timeline_enlisted, ht.timeline]
    rfl
  version w hw := (Option.some.inj hw).symm.trans hv.symm

theorem told_link (hv : s.timeline.modification = v) :
    Told .coming s (emit (.link x side v) u) := by
  have htot : (emit (.link x side v) u).totals = s.totals := by
    rw [totals_emit, hu.totals, enlisted, totals_setCurrent]
    exact ht.totals
  refine ⟨_, 0, ⟨.of_does (does_link hg ht hx hu hv), ?_, ?_, ?_⟩, List.forall_mem_singleton.2 rfl⟩
  · have h1 := ht.ledger
    have h2 := hu.ledger
    rw [links_enlisted, LinkTable.size_push, obsolete_enlisted] at h2
    change (emit _ u).links.size + _ + 0 = _ + (emit _ u).obsolete.length + 1 + 0
    rw [links_emit, obsolete_emit]
    simp only [withArena] at h1
    omega
  · rw [htot]
    exact (UInt64.add_zero _).symm
  · rw [htot]
    exact (UInt64.add_zero _).symm

end Insert

/-- All that happens in a change can be told, whatever its stamp is. -/
def Regime.told (α : Type) (v : Version) : Regime α v where
  Holds s sp := s.Sound s.obsolete sp ∧ s.timeline.modification = v
  Comes := Reshapes
  Free _ _ := True
  Unlinks s t _ := Told .going s t
  Clears := Told .going
  Inserts s t _ _ _ := Told .coming s t
  sound h := h.1
  stamp h := h.2
  refl := .refl
  trans := .trans
  heads h x := by rw [isSome_head?_eq, isSome_head?_eq, h.record]
  element h x := by rw [map_element_eq, map_element_eq, h.record]
  disposed h := h.disposed
  free _ _ _ := trivial
  in_place _ _ _ := trivial
  supersede h hi hv _ := ⟨reshapes_supersede h.1 hi, ⟨h.1.supersede hi hv,
    (congrArg Timeline.modification timeline_supersede).trans h.2⟩, trivial⟩
  links h hl _ _ _ := ⟨reshapes_links hl.size, h.1.sameSpine hl, h.2⟩
  detach h hx hi := by
    obtain ⟨t, ht, hs, htl, hu, hd⟩ := told_detach h.1 hx hi h.2
    exact ⟨t, ht, ⟨hs, (congrArg Timeline.modification htl).trans h.2⟩, hu, hd⟩
  comes_unlinks h h' := (h.told .going).trans h'
  unlinks_clears := id
  comes_clears h := h.told .going
  clears_trans := .trans
  clears_disposed h := h.disposed
  gained h hg := ⟨h.1.gained hg, h.2⟩
  enlisted h hx hh he hl := by
    refine ⟨⟨?_, (congrArg Timeline.modification timeline_enlisted).trans h.2⟩, trivial,
      fun _ _ _ => trivial⟩
    rw [obsolete_enlisted]
    exact Sound.enlisted hx hh he hl h.1
  inserts side h hg ht _ hx _ _ _ _ hu hc := by
    refine ⟨told_link hg ht hx hu h.2, ?_, (congrArg _ (timeline_emit _ _)).trans hc.2⟩
    rw [obsolete_emit]
    exact hc.1.congr (links_emit _ _) (arena_emit _ _) (beginLink_emit _ _) (endLink_emit _ _)

end SnapshotDeque.Store
