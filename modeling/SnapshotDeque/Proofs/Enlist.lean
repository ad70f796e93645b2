import SnapshotDeque.Proofs.Splice

/-!
Enlisting a node. A new node enters the arena first, unlinked, then its link enters the table and
becomes current, and at last its neighbours lead to it.
-/

namespace SnapshotDeque

namespace LinkTable

variable {α : Type} {t : LinkTable α} {l : Link α}

theorem get_push_of_lt {i : Nat} (hi : i < t.size) : (t.push l).get i = t.get i := by
  rw [get_push, if_neg (Nat.ne_of_lt hi)]

theorem get_push_size (t : LinkTable α) (l : Link α) : (t.push l).get t.size = l := by
  rw [get_push, if_pos rfl]

section Push

variable (hn : l.newer = none)

include hn

theorem newer_push {i j : Nat} : ((t.push l).get i).newer = some j ↔ (t.get i).newer = some j := by
  rw [get_push]
  split
  next hi => rw [hi, hn, get_of_size_le (Nat.le_refl _)]; rfl
  next => rfl

theorem grows_push : Grows t (t.push l) where
  size_le := by simp
  owner hi := by rw [get_push_of_lt hi]
  createdOn hi := by rw [get_push_of_lt hi]
  newer h := (newer_push hn).2 h

theorem Chained.push (ht : t.Chained) (ho : l.older = none) : (t.push l).Chained := by
  have hlt : ∀ {i j}, (t.get i).newer = some j → i < t.size ∧ j < t.size := fun h =>
    ⟨Nat.lt_trans (ht.lt h) (ht.lt_size h), ht.lt_size h⟩
  refine ⟨fun h => ?_, fun h => ?_, fun h => ?_, fun h => ?_, fun h => ?_, fun {i j} h => ?_⟩
  · exact ht.lt ((newer_push hn).1 h)
  · rw [size_push]
    exact Nat.lt_succ_of_lt (ht.lt_size ((newer_push hn).1 h))
  · have h := (newer_push hn).1 h
    rw [get_push_of_lt (hlt h).1, get_push_of_lt (hlt h).2]
    exact ht.owner h
  · have h := (newer_push hn).1 h
    rw [get_push_of_lt (hlt h).1, get_push_of_lt (hlt h).2]
    exact ht.createdOn h
  · have h := (newer_push hn).1 h
    rw [get_push_of_lt (hlt h).1, get_push_of_lt (hlt h).2]
    exact ht.obsoleteOn h
  · rw [newer_push hn]
    rw [get_push] at h
    split at h
    next => rw [ho] at h; cases h
    next => exact ht.older h

end Push

end LinkTable

namespace Store

variable {α : Type} {s t : Store α} {v : Version}

/-! ## A new node -/

section Gains

variable {b : Arena α} {x : Handle} {a : α} (hg : s.arena.Gains b x a)

/-- The store with another arena. -/
def withArena (s : Store α) (b : Arena α) : Store α := { s with arena := b }

include hg

/-- A new node has no current link. -/
theorem current?_gained (y : Handle) : (s.withArena b).current? y = s.current? y := by
  have hh : b.head? y = s.arena.head? y := by
    unfold Arena.head?
    rw [hg.get]
    split
    next hy => rw [hy, hg.fresh]; rfl
    next => rfl
  unfold Store.current?
  change (if _ then _ else if _ then _ else b.head? y) = _
  rw [hh]
  rfl

theorem Sound.gained (h : s.Sound s.obsolete []) : (s.withArena b).Sound s.obsolete [x] := by
  have hne : ∀ {i}, i ∈ s.obsolete → s.owner i ≠ x := by
    intro i hi e
    have hs : (s.owner i).isSentinel = false := e ▸ hg.payload
    obtain ⟨n, hn, _⟩ := h.retired_node hi hs
    rw [e, hg.fresh] at hn
    cases hn
  have hget : ∀ {y n}, (s.withArena b).arena.get? y = some n →
      y = x ∧ n = s.arena.newNode a ∨ y ≠ x ∧ s.arena.get? y = some n := by
    intro y n hn
    rw [withArena, hg.get] at hn
    split at hn
    next hy => exact Or.inl ⟨hy, (Option.some.inj hn).symm⟩
    next hy => exact Or.inr ⟨hy, hn⟩
  refine { h with
    arena := hg.valid
    current_lt := fun hi => h.current_lt ((current?_gained hg _).symm.trans hi)
    owner := fun hi => h.owner ((current?_gained hg _).symm.trans hi)
    newer := fun hi => h.newer ((current?_gained hg _).symm.trans hi)
    obsoleteOn := fun hi => h.obsoleteOn ((current?_gained hg _).symm.trans hi)
    element := fun {y n i} hn hi => ?_
    retired_ne := fun hi => by rw [current?_gained hg]; exact h.retired_ne hi
    retired_node := fun {i} hi hs => ?_
    liveLinks := fun {y n} hn => ?_
    occupied := fun {y n} hn hh hy => ?_ }
  · rcases hget hn with ⟨_, rfl⟩ | ⟨_, hn⟩
    · cases hi
    · exact h.element hn hi
  · obtain ⟨n, hn, he⟩ := h.retired_node hi hs
    refine ⟨n, ?_, he⟩
    rw [withArena, hg.get]
    exact (if_neg (hne hi)).trans hn
  · rcases hget hn with ⟨rfl, rfl⟩ | ⟨_, hn⟩
    · have hc : s.obsolete.countP (fun i => (s.withArena b).owner i = y) = 0 :=
        List.countP_eq_zero.2 fun i hi => by rw [decide_eq_true_eq]; exact hne hi
      rw [hc]
      rfl
    · exact h.liveLinks hn
  · rcases hget hn with ⟨rfl, _⟩ | ⟨_, hn⟩
    · exact absurd (List.mem_singleton.2 rfl) hy
    · exact h.occupied hn hh List.not_mem_nil

theorem Changing.gained (h : s.Changing v []) : (s.withArena b).Changing v [x] :=
  ⟨h.sound.gained hg, h.stamped.congr rfl rfl rfl, ⟨h.stamp.eq, h.stamp.ahead⟩⟩

theorem amends_gained : Amends s (s.withArena b) [(⟨s.arena.nextId⟩, a)] [] where
  spares := {
    Spares.refl s with
    retained := fun _ _ _ hi => by
      unfold Retained
      rw [current?_gained hg]
      exact hi
    node := fun {w i n} _ _ _ _ hn => by
      refine ⟨n, ?_, rfl⟩
      rw [withArena, hg.get, if_neg, hn]
      intro e
      rw [e, hg.fresh] at hn
      cases hn }
  turnover := {
    roster := hg.roster
    nextId_le := by
      change _ ≤ b.nextId
      rw [hg.nextId]
      exact Nat.le_succ _
    born_nodup := by simp
    born_fresh := fun y hy => by
      rw [List.mem_singleton.1 hy]
      change _ ∧ _ < b.nextId
      rw [hg.nextId]
      exact ⟨Nat.le_refl _, Nat.lt_succ_self _⟩
    silent := fun _ => rfl
    heard := fun _ => by rw [List.map_nil, List.append_nil]; rfl }
  timeline := rfl

theorem adjacent_gained {y z : Handle} (h : s.Adjacent y z) : (s.withArena b).Adjacent y z := by
  obtain ⟨p, n, hp, hn, h⟩ := h
  exact ⟨p, n, (current?_gained hg y).trans hp, (current?_gained hg z).trans hn, h⟩

end Gains

/-! ## The link of a new node -/

/-- The first link of a node. -/
structure FirstLink (l : Link α) (x : Handle) (v : Version) (a : α) : Prop where
  owner : l.owner = x
  createdOn : l.createdOn = v
  obsoleteOn : l.obsoleteOn = none
  older : l.older = none
  newer : l.newer = none
  element : l.element = some a

/-- The store with a new link as the current one of `x`. -/
def enlisted (s : Store α) (x : Handle) (l : Link α) : Store α :=
  ({ s with links := s.links.push l } : Store α).setCurrent x s.links.size

section Enlist

variable {x : Handle} {l : Link α} {a : α} {n : Node α}

@[simp] theorem links_enlisted : (s.enlisted x l).links = s.links.push l :=
  links_setCurrent ..

@[simp] theorem obsolete_enlisted : (s.enlisted x l).obsolete = s.obsolete :=
  obsolete_setCurrent ..

@[simp] theorem timeline_enlisted : (s.enlisted x l).timeline = s.timeline :=
  timeline_setCurrent ..

theorem get?_enlisted (y : Handle) : (s.enlisted x l).arena.get? y =
    if y = x then (s.arena.get? y).map fun n =>
      { n with head := some s.links.size, liveLinks := n.liveLinks + 1 }
    else s.arena.get? y :=
  get?_setCurrent _ _ _ _

theorem element_enlisted (y : Handle) :
    ((s.enlisted x l).arena.get? y).map (·.element) = (s.arena.get? y).map (·.element) := by
  rw [get?_enlisted]
  split
  · cases s.arena.get? y <;> rfl
  · rfl

theorem owner_enlisted {i : Nat} (hi : i < s.links.size) :
    (s.enlisted x l).owner i = s.owner i := by
  rw [owner, links_enlisted, LinkTable.get_push_of_lt hi]
  rfl

variable (hx : s.arena.get? x = some n) (hh : n.head = none) (he : n.element = a)
  (hl : FirstLink l x v a) (h : s.Sound s.obsolete [x])

include hx

theorem current?_enlisted (y : Handle) :
    (s.enlisted x l).current? y = if y = x then some s.links.size else s.current? y :=
  current?_setCurrent (s := { s with links := s.links.push l }) (Or.inr (Or.inr ⟨n, hx⟩)) _ y

/-- The new node is linked, and no other node changes in that. -/
theorem heads_enlisted (y : Handle) : ((s.enlisted x l).arena.head? y).isSome = true ↔
    y = x ∨ (s.arena.head? y).isSome = true := by
  unfold Arena.head?
  rw [get?_enlisted]
  split
  next hy => simp [hy, hx]
  next hy => simp [hy]

include h in
/-- A current link is that of the new node, or it was current before. -/
theorem current?_enlisted_cases {y : Handle} {i : Nat}
    (hi : (s.enlisted x l).current? y = some i) :
    y = x ∧ i = s.links.size ∨ y ≠ x ∧ s.current? y = some i ∧ i < s.links.size := by
  rw [current?_enlisted hx] at hi
  split at hi
  next hy => exact Or.inl ⟨hy, (Option.some.inj hi).symm⟩
  next hy => exact Or.inr ⟨hy, hi, h.current_lt hi⟩

include hh

theorem ne_of_current? {y : Handle} {i : Nat} (hi : s.current? y = some i) : y ≠ x := by
  rintro rfl
  rw [current?_of_node hx, hh] at hi
  cases hi

include hl h

include he in
theorem Sound.enlisted : (s.enlisted x l).Sound s.obsolete [] where
  chained := by rw [links_enlisted]; exact h.chained.push hl.newer hl.older
  arena := by
    change (Store.setCurrent _ _ _).arena.Valid
    rw [arena_setCurrent]
    exact h.arena.modify _ fun _ => ⟨rfl, rfl⟩
  current_lt hi := by
    rw [links_enlisted, LinkTable.size_push]
    rcases current?_enlisted_cases hx h hi with ⟨_, rfl⟩ | ⟨_, _, hlt⟩ <;> omega
  owner hi := by
    rcases current?_enlisted_cases hx h hi with ⟨hy, rfl⟩ | ⟨_, hi, hlt⟩
    · rw [hy, Store.owner, links_enlisted, LinkTable.get_push_size, hl.owner]
    · rw [owner_enlisted hlt, h.owner hi]
  newer hi := by
    rw [links_enlisted]
    rcases current?_enlisted_cases hx h hi with ⟨_, rfl⟩ | ⟨_, hi, hlt⟩
    · rw [LinkTable.get_push_size, hl.newer]
    · rw [LinkTable.get_push_of_lt hlt, h.newer hi]
  obsoleteOn hi := by
    rw [links_enlisted]
    rcases current?_enlisted_cases hx h hi with ⟨_, rfl⟩ | ⟨_, hi, hlt⟩
    · rw [LinkTable.get_push_size, hl.obsoleteOn]
    · rw [LinkTable.get_push_of_lt hlt, h.obsoleteOn hi]
  element {y m i} hm hi := by
    rw [links_enlisted]
    rw [get?_enlisted] at hm
    split at hm
    next hy =>
      rw [hy, hx] at hm
      obtain rfl := Option.some.inj hm
      obtain rfl := Option.some.inj hi
      rw [LinkTable.get_push_size, hl.element, he]
    next hy =>
      have hlt := h.current_lt ((current?_of_node hm).trans hi)
      rw [LinkTable.get_push_of_lt hlt, h.element hm hi]
  retired_lt hi := by
    rw [links_enlisted, LinkTable.size_push]
    exact Nat.lt_succ_of_lt (h.retired_lt hi)
  retired_ne {i} hi := by
    have hlt := h.retired_lt hi
    rw [owner_enlisted hlt, current?_enlisted hx]
    split
    next => exact fun e => Nat.ne_of_gt hlt (Option.some.inj e)
    next => exact h.retired_ne hi
  retired_node {i} hi hs := by
    have hlt := h.retired_lt hi
    rw [owner_enlisted hlt] at hs ⊢
    obtain ⟨m, hm, hme⟩ := h.retired_node hi hs
    rw [links_enlisted, LinkTable.get_push_of_lt hlt, get?_enlisted, hm]
    split
    · exact ⟨_, rfl, hme⟩
    · exact ⟨m, rfl, hme⟩
  nodup := h.nodup
  liveLinks {y m} hm := by
    have hc : s.obsolete.countP ((s.enlisted x l).owner · = y) =
        s.obsolete.countP (s.owner · = y) :=
      List.countP_congr fun i hi => by rw [owner_enlisted (h.retired_lt hi)]
    rw [hc]
    rw [get?_enlisted] at hm
    split at hm
    next hy =>
      subst hy
      have hn := h.liveLinks hx
      rw [hx] at hm
      obtain rfl := Option.some.inj hm
      rw [hh] at hn
      simp only [Option.isSome_none, Option.isSome_some, Bool.false_eq_true, if_true,
        if_false] at hn ⊢
      omega
    next => exact h.liveLinks hm
  occupied {y m} hm hmh _ := by
    rw [get?_enlisted] at hm
    split at hm
    next hy =>
      rw [hy, hx] at hm
      obtain rfl := Option.some.inj hm
      cases hmh
    next hy =>
      obtain ⟨i, hi, ho⟩ := h.occupied hm hmh (by simpa using hy)
      exact ⟨i, hi, by rw [owner_enlisted (h.retired_lt hi)]; exact ho⟩

omit hx hh h in
theorem Stamped.enlisted (h : s.Changing v [x]) : (s.enlisted x l).Stamped where
  timeline := by rw [timeline_enlisted]; exact h.stamped.timeline
  createdOn_le {i} hi := by
    rw [links_enlisted, LinkTable.size_push] at hi
    rw [links_enlisted, timeline_enlisted]
    rcases Nat.lt_succ_iff_lt_or_eq.1 hi with hi | rfl
    · rw [LinkTable.get_push_of_lt hi]
      exact h.stamped.createdOn_le hi
    · rw [LinkTable.get_push_size, hl.createdOn]
      exact le_of_eq h.stamp.eq
  tag hi := by
    rw [obsolete_enlisted] at hi
    rw [links_enlisted, timeline_enlisted, LinkTable.get_push_of_lt (h.sound.retired_lt hi)]
    exact h.stamped.tag hi
  sorted := by
    rw [obsolete_enlisted, links_enlisted]
    refine h.stamped.sorted.imp_of_mem fun {i j} hi hj hij => ?_
    rw [LinkTable.get_push_of_lt (h.sound.retired_lt hi),
      LinkTable.get_push_of_lt (h.sound.retired_lt hj)]
    exact hij

omit h in
include he in
theorem Changing.enlisted (h : s.Changing v [x]) : (s.enlisted x l).Changing v [] := by
  refine ⟨?_, Stamped.enlisted hl h, ⟨?_, ?_⟩⟩
  · rw [obsolete_enlisted]
    exact Sound.enlisted hx hh he hl h.sound
  · rw [timeline_enlisted]
    exact h.stamp.eq
  · rw [timeline_enlisted]
    exact h.stamp.ahead

omit h in
theorem amends_enlisted : Amends s (s.enlisted x l) [] [] where
  spares := {
    config := config_setCurrent ..
    markers := by rw [timeline_enlisted]
    snapshotsOpened := snapshotsOpened_setCurrent ..
    disposed := disposed_setCurrent ..
    emitting := emitting_setCurrent ..
    grows := by rw [links_enlisted]; exact LinkTable.grows_push hl.newer
    keeps := fun _ hi hs => by
      rw [links_enlisted]
      exact .of_get_eq hs (LinkTable.get_push_of_lt hi)
    retained := fun {_ i} _ hi _ hr => by
      unfold Retained
      rw [owner_enlisted hi, obsolete_enlisted, current?_enlisted hx]
      refine hr.imp (fun hc => ?_) id
      rw [if_neg (ne_of_current? hx hh hc), hc]
    node := fun {_ i m} _ _ _ _ hm => by
      rw [get?_enlisted, hm]
      split
      · exact ⟨_, rfl, rfl⟩
      · exact ⟨m, rfl, rfl⟩ }
  turnover := by
    refine .of_eq ?_ ?_ (events_setCurrent ..)
    · change (Store.setCurrent _ _ _).arena.roster = _
      rw [arena_setCurrent]
      exact Arena.roster_modify _ _ fun _ => ⟨rfl, rfl⟩
    · change (Store.setCurrent _ _ _).arena.nextId = _
      rw [arena_setCurrent, Arena.nextId_modify]
  timeline := timeline_enlisted

theorem adjacent_enlisted {y z : Handle} (hyz : s.Adjacent y z) :
    (s.enlisted x l).Adjacent y z := by
  have hg := LinkTable.grows_push (t := s.links) hl.newer
  obtain ⟨p, q, hp, hq, ⟨j, hj, hjq⟩, k, hk, hkp⟩ := hyz
  refine ⟨p, q, ?_, ?_, ⟨j, ?_, ?_⟩, k, ?_, ?_⟩
  · rw [current?_enlisted hx, if_neg (ne_of_current? hx hh hp), hp]
  · rw [current?_enlisted hx, if_neg (ne_of_current? hx hh hq), hq]
  · rw [links_enlisted, LinkTable.get_push_of_lt (h.current_lt hp), hj]
  · rw [links_enlisted]; exact hg.leads hjq
  · rw [links_enlisted, LinkTable.get_push_of_lt (h.current_lt hq), hk]
  · rw [links_enlisted]; exact hg.leads hkp

omit hh hl in
theorem counted_enlisted {m : Nat} (hm : s.Counted m) : (s.enlisted x l).Counted m := by
  have hc : ∀ {y i j}, y ≠ x → s.current? y = some i → (s.enlisted x l).current? y = some j →
      ((s.enlisted x l).links.get j).count = (s.links.get i).count := by
    intro y i j hy hi hj
    rw [current?_enlisted hx, if_neg hy, hi] at hj
    obtain rfl := Option.some.inj hj
    rw [links_enlisted, LinkTable.get_push_of_lt (h.current_lt hi)]
  have h1 := Arena.ne_atBegin_of_get? hx
  have h2 := Arena.ne_atEnd_of_get? hx
  exact ⟨(hc h1.symm (current?_atBegin s) (current?_atBegin _)).trans hm.first,
    (hc h2.symm (current?_atEnd s) (current?_atEnd _)).trans hm.last⟩

end Enlist

/-! ## Its neighbours -/

/-- The store with a new link as the current one of `x`, between links `p` and `n`. -/
def between (s : Store α) (x : Handle) (l : Link α) (p n : Nat) : Store α :=
  ((s.enlisted x l).joined p s.links.size).joined s.links.size n

theorem setCurrent_eq_between (s : Store α) (x : Handle) (l : Link α) (p n : Nat) :
    ({ s with links := ((s.links.push l).join p s.links.size).join s.links.size n } :
      Store α).setCurrent x s.links.size =
    s.between x l p n := by
  unfold between enlisted joined setCurrent
  split_ifs <;> rfl

section Between

variable {w x y : Handle} {p n : Nat} {a : α} {l : Link α} {m : Node α}
  (hx : s.arena.get? x = some m) (hh : m.head = none) (he : m.element = a)
  (hl : FirstLink l x v a) (h : s.Sound s.obsolete [x]) (hp : s.current? w = some p)
  (hn : s.current? y = some n)

include hx hh he hl h

theorem Sound.between : (s.between x l p n).Sound (s.between x l p n).obsolete [] := by
  rw [Store.between, obsolete_joined, obsolete_joined, obsolete_enlisted]
  exact ((Sound.enlisted hx hh he hl h).joined p s.links.size).joined s.links.size n

omit hh he hl h in
theorem current?_between (z : Handle) : (s.between x l p n).current? z =
    if z = x then some s.links.size else s.current? z := by
  rw [between, current?_joined, current?_joined, current?_enlisted hx]

include hp hn in
theorem adjacent_between :
    (s.between x l p n).Adjacent w x ∧ (s.between x l p n).Adjacent x y ∧
      ∀ {b c}, b ≠ w → c ≠ y → s.Adjacent b c → (s.between x l p n).Adjacent b c := by
  have hwx := ne_of_current? hx hh hp
  have hyx := ne_of_current? hx hh hn
  have hc : (s.enlisted x l).Sound (s.enlisted x l).obsolete [] := by
    rw [obsolete_enlisted]
    exact Sound.enlisted hx hh he hl h
  have hc' := hc.joined p s.links.size
  have hp' : (s.enlisted x l).current? w = some p := by
    rw [current?_enlisted hx, if_neg hwx, hp]
  have hn' : (s.enlisted x l).current? y = some n := by
    rw [current?_enlisted hx, if_neg hyx, hn]
  have hk : (s.enlisted x l).current? x = some s.links.size := by
    rw [current?_enlisted hx, if_pos rfl]
  refine ⟨?_, adjacent_joined hc' hk hn', fun {b c} hb hcy hbc => ?_⟩
  · exact adjacent_joined_of_ne hc' hk hn' hwx hyx.symm (adjacent_joined hc hp' hk)
  · have ⟨i, j, hi, hj, _⟩ := hbc
    refine adjacent_joined_of_ne hc' hk hn' (ne_of_current? hx hh hi) hcy ?_
    exact adjacent_joined_of_ne hc hp' hk hb (ne_of_current? hx hh hj)
      (adjacent_enlisted hx hh hl h hbc)

include hp hn in
/-- The new link is made, joined to its neighbours and installed, and the joints pass their
check. -/
theorem returns_linkBetween :
    (do
      let link ← Edit.newLink l
      Edit.join p link
      Edit.join link n
      Edit.install link
      Edit.checkSplice p link
      Edit.checkSplice link n : Edit α Unit).Returns s () (s.between x l p n) := by
  have hc := Sound.between (p := p) (n := n) hx hh he hl h
  obtain ⟨hwx, hxy, _⟩ := adjacent_between hx hh he hl h hp hn
  have hkb := current?_between hx (l := l) (p := p) (n := n) x
  rw [if_pos rfl] at hkb
  have hpb : (s.between x l p n).current? w = some p := by
    rw [current?_between hx, if_neg (ne_of_current? hx hh hp), hp]
  have hnb : (s.between x l p n).current? y = some n := by
    rw [current?_between hx, if_neg (ne_of_current? hx hh hn), hn]
  let t := ((s.links.push l).join p s.links.size).join s.links.size n
  have hown : (t.get s.links.size).owner = x := by
    rw [(LinkTable.sameSpine_join _ _ _).owner, (LinkTable.sameSpine_join _ _ _).owner,
      LinkTable.get_push_size, hl.owner]
  have hinst := returns_install (s := { s with links := t }) (i := s.links.size)
  rw [show ({ s with links := t } : Store α).owner s.links.size = x from hown,
    setCurrent_eq_between] at hinst
  refine (Edit.returns_newLink l s).bind ((returns_join _ _ _).bind ((returns_join _ _ _).bind ?_))
  refine (hinst (Or.inr (Or.inr ⟨m, hx⟩))).bind ?_
  exact (returns_checkSplice hc hpb hkb hwx).bind (returns_checkSplice hc hkb hnb hxy)

end Between

end Store

end SnapshotDeque
