import SnapshotDeque.Proofs.Edit
import SnapshotDeque.Proofs.Spares

/-!
Making a link writable. Whether the link itself may be changed or a fork takes its place, the list
of the deque is the same afterwards, pinned versions see what they saw, and the link that is handed
out is current and younger than every pin.
-/

namespace SnapshotDeque.Store

variable {α : Type} {s : Store α}

/-- The store with `i` as the current link of `x`. -/
def setCurrent (s : Store α) (x : Handle) (i : Nat) : Store α :=
  if x = .atBegin then { s with beginLink := i }
  else if x = .atEnd then { s with endLink := i }
  else { s with
    arena := s.arena.modify x fun n => { n with head := some i, liveLinks := n.liveLinks + 1 } }

/-- The store once link `i` is superseded on `v`, and retired. -/
def supersede (s : Store α) (i : Nat) (v : Version) : Store α :=
  { ({ s with links := s.links.forked i v } : Store α).setCurrent (s.owner i) s.links.size with
    obsolete := s.obsolete ++ [i] }

section SetCurrent

variable (s) (x : Handle) (i : Nat)

@[simp] theorem links_setCurrent : (s.setCurrent x i).links = s.links := by
  unfold setCurrent; split_ifs <;> rfl

@[simp] theorem timeline_setCurrent : (s.setCurrent x i).timeline = s.timeline := by
  unfold setCurrent; split_ifs <;> rfl

@[simp] theorem config_setCurrent : (s.setCurrent x i).config = s.config := by
  unfold setCurrent; split_ifs <;> rfl

@[simp] theorem obsolete_setCurrent : (s.setCurrent x i).obsolete = s.obsolete := by
  unfold setCurrent; split_ifs <;> rfl

@[simp] theorem snapshotsOpened_setCurrent :
    (s.setCurrent x i).snapshotsOpened = s.snapshotsOpened := by
  unfold setCurrent; split_ifs <;> rfl

@[simp] theorem disposed_setCurrent : (s.setCurrent x i).disposed = s.disposed := by
  unfold setCurrent; split_ifs <;> rfl

@[simp] theorem emitting_setCurrent : (s.setCurrent x i).emitting = s.emitting := by
  unfold setCurrent; split_ifs <;> rfl

@[simp] theorem events_setCurrent : (s.setCurrent x i).events = s.events := by
  unfold setCurrent; split_ifs <;> rfl

@[simp] theorem totals_setCurrent : (s.setCurrent x i).totals = s.totals := by
  unfold setCurrent; split_ifs <;> rfl

/-- The sentinels have no node to change. -/
theorem arena_setCurrent : (s.setCurrent x i).arena =
    s.arena.modify x fun n => { n with head := some i, liveLinks := n.liveLinks + 1 } := by
  unfold setCurrent
  split_ifs with h1 h2
  · rw [h1, Arena.modify_of_none (Arena.get?_atBegin _)]
  · rw [h2, Arena.modify_of_none (Arena.get?_atEnd _)]
  · rfl

theorem get?_setCurrent (y : Handle) : (s.setCurrent x i).arena.get? y =
    if y = x then
      (s.arena.get? y).map fun n => { n with head := some i, liveLinks := n.liveLinks + 1 }
    else s.arena.get? y := by
  rw [arena_setCurrent, Arena.get?_modify]

end SetCurrent

/-- Whether a node can have a current link at all. -/
def Placed (s : Store α) (x : Handle) : Prop :=
  x = .atBegin ∨ x = .atEnd ∨ ∃ n, s.arena.get? x = some n

theorem placed_of_current? {x : Handle} {i : Nat} (h : s.current? x = some i) : s.Placed x := by
  by_cases h1 : x = .atBegin
  · exact Or.inl h1
  by_cases h2 : x = .atEnd
  · exact Or.inr (Or.inl h2)
  rw [current?, if_neg h1, if_neg h2, Arena.head?] at h
  obtain ⟨n, hn, _⟩ := Option.bind_eq_some_iff.1 h
  exact Or.inr (Or.inr ⟨n, hn⟩)

theorem current?_setCurrent {x : Handle} (hx : s.Placed x) (i : Nat) (y : Handle) :
    (s.setCurrent x i).current? y = if y = x then some i else s.current? y := by
  unfold current?
  rw [arena_setCurrent, Arena.head?_modify]
  unfold setCurrent
  rcases hx with rfl | rfl | ⟨n, hn⟩
  · by_cases hy : y = .atBegin
    · simp [hy]
    · simp [hy]
  · by_cases hy : y = .atBegin
    · rw [hy]; rfl
    · by_cases hy' : y = .atEnd
      · rw [hy']; rfl
      · simp [hy, hy']
  · have h1 := Arena.ne_atBegin_of_get? hn
    have h2 := Arena.ne_atEnd_of_get? hn
    rw [if_neg h1, if_neg h2]
    by_cases hy : y = x
    · subst hy; simp [h1, h2, hn]
    · simp [hy]

theorem returns_install {i : Nat} (hx : s.Placed (s.owner i)) :
    (Edit.install i).Returns s () (s.setCurrent (s.owner i) i) := by
  unfold Edit.install
  refine (Edit.returns_get s).bind ?_
  unfold setCurrent
  dsimp only
  split
  next => exact Edit.returns_modify _ _
  next h1 =>
    split
    next => exact Edit.returns_modify _ _
    next h2 =>
      obtain ⟨n, hn⟩ := (hx.resolve_left h1).resolve_left h2
      refine (Edit.returns_get s).bind ?_
      rw [hn]
      exact Edit.returns_modify _ _

/-! ## The store after a fork -/

section Supersede

variable {sp : List Handle} (h : s.Sound s.obsolete sp) {x : Handle} {i : Nat} {v : Version}
  (hi : s.current? x = some i)

@[simp] theorem links_supersede : (s.supersede i v).links = s.links.forked i v :=
  links_setCurrent ..

@[simp] theorem timeline_supersede : (s.supersede i v).timeline = s.timeline :=
  timeline_setCurrent ..

@[simp] theorem obsolete_supersede : (s.supersede i v).obsolete = s.obsolete ++ [i] := rfl

theorem get?_supersede (y : Handle) : (s.supersede i v).arena.get? y =
    if y = s.owner i then
      (s.arena.get? y).map fun n =>
        { n with head := some s.links.size, liveLinks := n.liveLinks + 1 }
    else s.arena.get? y := by
  change (Store.setCurrent _ _ _).arena.get? y = _
  rw [get?_setCurrent]

theorem roster_supersede : (s.supersede i v).arena.roster = s.arena.roster := by
  change (Store.setCurrent _ _ _).arena.roster = _
  rw [arena_setCurrent]
  exact Arena.roster_modify _ _ fun _ => ⟨rfl, rfl⟩

include h hi

theorem current?_supersede (y : Handle) :
    (s.supersede i v).current? y = if y = x then some s.links.size else s.current? y := by
  have ho := h.owner hi
  have hp : ({ s with links := s.links.forked i v } : Store α).Placed x := placed_of_current? hi
  rw [← ho] at hp
  rw [← ho]
  exact current?_setCurrent hp s.links.size y

theorem owner_supersede {k : Nat} (hk : k < s.links.size) :
    (s.supersede i v).owner k = s.owner k := by
  rw [owner, links_supersede]
  exact LinkTable.owner_forked (h.current_lt hi) (h.obsoleteOn hi) k hk

/-- A current link after the fork is the fork, or it was current before and is another node's. -/
theorem current?_supersede_cases {y : Handle} {k : Nat}
    (hk : (s.supersede i v).current? y = some k) :
    y = x ∧ k = s.links.size ∨ y ≠ x ∧ s.current? y = some k ∧ k < s.links.size ∧ k ≠ i := by
  rw [current?_supersede h hi] at hk
  split at hk
  next hy => cases hk; exact Or.inl ⟨hy, rfl⟩
  next hy => exact Or.inr ⟨hy, hk, h.current_lt hk, fun e => hy (h.eq_of_owner (e ▸ hk) hi)⟩

theorem owner_supersede_size : (s.supersede i v).owner s.links.size = x := by
  rw [owner, links_supersede, LinkTable.get_forked_size (h.current_lt hi) (h.obsoleteOn hi)]
  exact h.owner hi

/-- The retired links of the new store, with what they were before. -/
theorem retired_supersede {k : Nat} (hk : k ∈ s.obsolete ++ [i]) :
    k < s.links.size ∧ (s.supersede i v).owner k = s.owner k ∧
      ((s.owner k).isSentinel = false → ∃ n, s.arena.get? (s.owner k) = some n ∧
        ((s.supersede i v).links.get k).element = some n.element) := by
  have hlt : k < s.links.size := by
    rcases List.mem_append.1 hk with hk | hk
    · exact h.retired_lt hk
    · rw [List.mem_singleton.1 hk]; exact h.current_lt hi
  refine ⟨hlt, owner_supersede h hi hlt, fun hs => ?_⟩
  rw [links_supersede, LinkTable.element_forked (h.current_lt hi) (h.obsoleteOn hi) k hlt]
  rcases List.mem_append.1 hk with hk | hk
  · exact h.retired_node hk hs
  · rw [List.mem_singleton.1 hk, h.owner hi] at hs ⊢
    obtain ⟨n, hn, hh⟩ := exists_node_of_current? hs hi
    exact ⟨n, hn, h.element hn hh⟩

/-- What a node of the new store was before. -/
theorem node_supersede {y : Handle} {n : Node α} (hn : (s.supersede i v).arena.get? y = some n) :
    ∃ m, s.arena.get? y = some m ∧ n.element = m.element ∧
      (y = x ∧ n.head = some s.links.size ∧ m.head = some i ∧ n.liveLinks = m.liveLinks + 1 ∨
        y ≠ x ∧ n = m) := by
  rw [get?_supersede, h.owner hi] at hn
  split at hn
  next hy =>
    obtain ⟨m, hm, rfl⟩ := Option.map_eq_some_iff.1 hn
    exact ⟨m, hm, rfl, Or.inl ⟨hy, rfl, (current?_of_node hm).symm.trans (hy ▸ hi), rfl⟩⟩
  next hy => exact ⟨n, hn, rfl, Or.inr ⟨hy, rfl⟩⟩

theorem countP_supersede (y : Handle) :
    (s.obsolete ++ [i]).countP ((s.supersede i v).owner · = y) =
      s.obsolete.countP (s.owner · = y) + if x = y then 1 else 0 := by
  have ho : s.owner i = x := h.owner hi
  have hc : (s.obsolete ++ [i]).countP ((s.supersede i v).owner · = y) =
      (s.obsolete ++ [i]).countP (s.owner · = y) :=
    List.countP_congr fun k hk => by rw [(retired_supersede h hi hk).2.1]
  rw [hc, List.countP_append, List.countP_singleton, ho]
  simp only [decide_eq_true_eq]

theorem Sound.supersede (hv : (s.links.get i).createdOn < v) :
    (s.supersede i v).Sound (s.obsolete ++ [i]) sp where
  chained := by
    rw [links_supersede]
    exact h.chained.forked (h.current_lt hi) (h.obsoleteOn hi) (h.newer hi) hv
  arena := by
    change (Store.setCurrent _ _ _).arena.Valid
    rw [arena_setCurrent]
    exact h.arena.modify _ fun _ => ⟨rfl, rfl⟩
  current_lt hk := by
    rw [links_supersede, LinkTable.size_forked]
    rcases current?_supersede_cases h hi hk with ⟨_, rfl⟩ | ⟨_, _, hk, _⟩ <;> omega
  owner hk := by
    rcases current?_supersede_cases h hi hk with ⟨rfl, rfl⟩ | ⟨_, hk, hlt, _⟩
    · exact owner_supersede_size h hi
    · rw [owner_supersede h hi hlt]; exact h.owner hk
  newer hk := by
    rw [links_supersede]
    rcases current?_supersede_cases h hi hk with ⟨_, rfl⟩ | ⟨_, hk, hlt, hne⟩
    · rw [LinkTable.get_forked_size (h.current_lt hi) (h.obsoleteOn hi)]; rfl
    · rw [LinkTable.get_forked_of_ne (h.current_lt hi) (h.obsoleteOn hi) hlt hne]
      exact h.newer hk
  obsoleteOn hk := by
    rw [links_supersede]
    rcases current?_supersede_cases h hi hk with ⟨_, rfl⟩ | ⟨_, hk, hlt, hne⟩
    · rw [LinkTable.get_forked_size (h.current_lt hi) (h.obsoleteOn hi)]; rfl
    · rw [LinkTable.get_forked_of_ne (h.current_lt hi) (h.obsoleteOn hi) hlt hne]
      exact h.obsoleteOn hk
  element {y n k} hn hk := by
    rw [links_supersede]
    obtain ⟨m, hm, he, ⟨rfl, hn', hm', _⟩ | ⟨_, rfl⟩⟩ := node_supersede h hi hn
    · rw [hn'] at hk; cases hk
      rw [LinkTable.get_forked_size (h.current_lt hi) (h.obsoleteOn hi), he]
      exact h.element hm hm'
    · have hlt := h.current_lt ((current?_of_node hm).trans hk)
      rw [LinkTable.element_forked (h.current_lt hi) (h.obsoleteOn hi) k hlt]
      exact h.element hm hk
  retired_lt hk := by
    rw [links_supersede, LinkTable.size_forked]
    exact Nat.lt_succ_of_lt (retired_supersede h hi (v := v) hk).1
  retired_ne {k} hk := by
    obtain ⟨hlt, hown, _⟩ := retired_supersede h hi (v := v) hk
    rw [hown, current?_supersede h hi]
    split
    next => exact fun e => Nat.ne_of_gt hlt (Option.some.inj e)
    next hne =>
      rcases List.mem_append.1 hk with hk | hk
      · exact h.retired_ne hk
      · rw [List.mem_singleton.1 hk] at hne
        exact absurd (h.owner hi) hne
  retired_node {k} hk hs := by
    obtain ⟨_, hown, hnode⟩ := retired_supersede h hi (v := v) hk
    rw [hown] at hs ⊢
    obtain ⟨n, hn, he⟩ := hnode hs
    rw [get?_supersede, hn]
    split
    · exact ⟨_, rfl, he⟩
    · exact ⟨n, rfl, he⟩
  nodup := by
    rw [List.nodup_append]
    refine ⟨h.nodup, List.nodup_singleton i, fun a ha b hb e => ?_⟩
    rw [List.mem_singleton.1 hb] at e
    subst e
    exact h.retired_ne ha ((h.owner hi).symm ▸ hi)
  liveLinks {y n} hn := by
    rw [countP_supersede h hi]
    obtain ⟨m, hm, _, ⟨rfl, hn', hm', hl⟩ | ⟨hy, rfl⟩⟩ := node_supersede h hi hn
    · have := h.liveLinks hm
      rw [hm', Option.isSome_some, if_pos rfl] at this
      rw [hn', Option.isSome_some, if_pos rfl, if_pos rfl, hl, this]
      omega
    · rw [if_neg (Ne.symm hy), Nat.add_zero]
      exact h.liveLinks hm
  occupied {y n} hn hh hy := by
    obtain ⟨m, hm, _, ⟨_, hn', _⟩ | ⟨_, rfl⟩⟩ := node_supersede h hi hn
    · rw [hn'] at hh; cases hh
    · obtain ⟨k, hk, hko⟩ := h.occupied hm hh hy
      refine ⟨k, List.mem_append_left _ hk, ?_⟩
      rw [owner_supersede h hi (h.retired_lt hk)]
      exact hko

theorem Stamped.supersede (hst : s.Stamped) (hv : (s.links.get i).createdOn < v)
    (hs : s.Stamp v) : (s.supersede i v).Stamped := by
  have hlt := h.current_lt hi
  have hob := h.obsoleteOn hi
  have hget : ∀ {k}, k ∈ s.obsolete → (s.supersede i v).links.get k = s.links.get k := by
    intro k hk
    rw [links_supersede]
    refine LinkTable.get_forked_of_ne hlt hob (h.retired_lt hk) fun e => ?_
    rw [e] at hk
    exact h.retired_ne hk ((h.owner hi).symm ▸ hi)
  have hself : (s.supersede i v).links.get i =
      { s.links.get i with newer := some s.links.size, obsoleteOn := some v } := by
    rw [links_supersede, LinkTable.get_forked_self hlt hob]
  refine ⟨by rw [timeline_supersede]; exact hst.timeline, fun {k} hk => ?_, fun {k} hk => ?_, ?_⟩
  · rw [links_supersede, LinkTable.size_forked] at hk
    rw [links_supersede, timeline_supersede]
    rcases Nat.lt_succ_iff_lt_or_eq.1 hk with hk | rfl
    · rw [LinkTable.createdOn_forked hlt hob k hk]
      exact hst.createdOn_le hk
    · rw [LinkTable.get_forked_size hlt hob]
      exact le_of_eq hs.eq
  · rw [timeline_supersede]
    rcases List.mem_append.1 hk with hk | hk
    · rw [hget hk]; exact hst.tag hk
    · rw [List.mem_singleton.1 hk, hself]
      exact ⟨v, rfl, hv, le_of_eq hs.eq⟩
  · refine List.pairwise_append.2 ⟨?_, List.pairwise_singleton _ _, fun a ha b hb => ?_⟩
    · refine hst.sorted.imp_of_mem fun {a b} ha hb hab => ?_
      rw [hget ha, hget hb]
      exact hab
    · rw [List.mem_singleton.1 hb, hget ha, hself]
      rintro w w' hw ⟨rfl⟩
      obtain ⟨w', hw', _, hle⟩ := hst.tag ha
      rw [hw'] at hw; cases hw
      rw [hs.eq]
      exact hle

theorem retained_supersede {k : Nat} (hk : k < s.links.size) (hr : s.Retained k) :
    (s.supersede i v).Retained k := by
  rcases hr with hr | hr
  · by_cases hne : k = i
    · exact Or.inr (List.mem_append_right _ (List.mem_singleton.2 hne))
    · left
      rw [owner_supersede h hi hk, current?_supersede h hi, if_neg, hr]
      intro e
      rw [e, hi] at hr
      exact hne (Option.some.inj hr).symm
  · exact Or.inr (List.mem_append_left _ hr)

theorem Spares.supersede (hs : ∀ w ∈ s.timeline.pinned, w < v) : Spares s (s.supersede i v) where
  config := config_setCurrent ..
  markers := by rw [timeline_supersede]
  snapshotsOpened := snapshotsOpened_setCurrent ..
  disposed := disposed_setCurrent ..
  emitting := emitting_setCurrent ..
  grows := by
    rw [links_supersede]
    exact LinkTable.grows_forked (h.current_lt hi) (h.obsoleteOn hi) (h.newer hi)
  keeps hv hk hsn := by
    rw [links_supersede]
    exact LinkTable.keeps_forked (h.current_lt hi) (h.obsoleteOn hi) (hs _ hv) hk hsn
  retained _ hk _ hr := retained_supersede h hi hk hr
  node {w k n} _ _ _ _ hn := by
    rw [get?_supersede, hn]
    split
    · exact ⟨_, rfl, rfl⟩
    · exact ⟨n, rfl, rfl⟩

theorem Adjacent.supersede {y z : Handle} (ha : s.Adjacent y z) :
    (s.supersede i v).Adjacent y z := by
  have hlt := h.current_lt hi
  have hob := h.obsoleteOn hi
  -- what a pointer led to it still leads to, through the fork if there is one in between
  have hleads : ∀ {y k j}, s.current? y = some k → s.links.Leads j k →
      ∃ k', (s.supersede i v).current? y = some k' ∧ (s.links.forked i v).Leads j k' ∧
        ((s.links.forked i v).get k').next = (s.links.get k).next ∧
        ((s.links.forked i v).get k').previous = (s.links.get k).previous := by
    intro y k j hk hj
    rw [current?_supersede h hi]
    by_cases hy : y = x
    · subst hy
      rw [hi] at hk; cases hk
      refine ⟨s.links.size, if_pos rfl, LinkTable.leads_forked hlt hob (h.newer hi) hj, ?_, ?_⟩ <;>
        rw [LinkTable.get_forked_size hlt hob] <;> rfl
    · have hne : k ≠ i := fun e => hy (h.eq_of_owner (e ▸ hk) hi)
      refine ⟨k, by rw [if_neg hy, hk], (LinkTable.grows_forked hlt hob (h.newer hi)).leads hj,
        ?_, ?_⟩ <;> rw [LinkTable.get_forked_of_ne hlt hob (h.current_lt hk) hne]
  obtain ⟨p, n, hp, hn, ⟨j, hj, hjn⟩, j', hj', hjp⟩ := ha
  obtain ⟨p', hp', hp1, hp2, _⟩ := hleads hp hjp
  obtain ⟨n', hn', hn1, _, hn3⟩ := hleads hn hjn
  refine ⟨p', n', hp', hn', ⟨j, ?_, ?_⟩, j', ?_, ?_⟩
  · rw [links_supersede, hp2, hj]
  · rw [links_supersede]; exact hn1
  · rw [links_supersede, hn3, hj']
  · rw [links_supersede]; exact hp1

theorem heads_supersede (y : Handle) :
    ((s.supersede i v).arena.head? y).isSome = (s.arena.head? y).isSome := by
  unfold Arena.head?
  rw [get?_supersede]
  split
  next hy =>
    cases hn : s.arena.get? y with
    | none => rfl
    | some n =>
      have := (current?_of_node hn).symm.trans ((hy.trans (h.owner hi)) ▸ hi)
      simp [this]
  next => rfl

theorem Counted.supersede {n : Nat} (hn : s.Counted n) : (s.supersede i v).Counted n := by
  have hlt := h.current_lt hi
  have hob := h.obsoleteOn hi
  have hcount : ∀ {y k k'}, s.current? y = some k → (s.supersede i v).current? y = some k' →
      ((s.supersede i v).links.get k').count = (s.links.get k).count := by
    intro y k k' hk hk'
    rw [links_supersede]
    rcases current?_supersede_cases h hi hk' with ⟨rfl, rfl⟩ | ⟨_, hk', hks, hne⟩
    · rw [hi] at hk; cases hk
      rw [LinkTable.get_forked_size hlt hob]; rfl
    · rw [hk] at hk'; cases hk'
      rw [LinkTable.get_forked_of_ne hlt hob hks hne]
  exact ⟨(hcount (current?_atBegin s) (current?_atBegin _)).trans hn.first,
    (hcount (current?_atEnd s) (current?_atEnd _)).trans hn.last⟩

end Supersede

/-! ## Forks -/

/-- The current link of `x` is `q` or has taken over from it. -/
def Succeeds (s : Store α) (x : Handle) (q : Nat) : Prop :=
  ∃ i, s.current? x = some i ∧ (i = q ∨ (s.links.get i).older = some q)

/-- `t` is `s` after a part of a change that neither links nor unlinks a node. -/
structure Reworks (s t : Store α) : Prop extends Amends s t [] [] where
  heads : ∀ x, (t.arena.head? x).isSome = (s.arena.head? x).isSome
  element : ∀ x, (t.arena.get? x).map (·.element) = (s.arena.get? x).map (·.element)
  /-- A link that the newest snapshot sees is forked once at most. -/
  succeeds : ∀ {w x q}, w ∈ s.timeline.pinned → (∀ u ∈ s.timeline.pinned, u ≤ w) →
    q < s.links.size → s.links.Seen w q → s.Succeeds x q → t.Succeeds x q

theorem Reworks.refl (s : Store α) : Reworks s s :=
  ⟨.refl s, fun _ => rfl, fun _ => rfl, fun _ _ _ _ h => h⟩

theorem Reworks.trans {t u : Store α} (h : Reworks s t) (h' : Reworks t u) : Reworks s u where
  toAmends := h.toAmends.trans h'.toAmends
  heads x := (h'.heads x).trans (h.heads x)
  element x := (h'.element x).trans (h.element x)
  succeeds hw hmax hq hs hx := by
    refine h'.succeeds (by rw [h.timeline]; exact hw) (by rw [h.timeline]; exact hmax)
      (Nat.lt_of_lt_of_le hq h.spares.grows.size_le) (h.spares.keeps hw hq hs).seen ?_
    exact h.succeeds hw hmax hq hs hx

/-- What is younger than every pin stays so. -/
theorem Reworks.unseen {t : Store α} (hf : Reworks s t) {i : Nat} (hi : i < s.links.size)
    (h : s.Unseen i) : t.Unseen i := by
  unfold Unseen
  rw [hf.timeline, hf.spares.grows.createdOn hi]
  exact h

theorem reworks_supersede {sp : List Handle} (h : s.Changing v sp) {x : Handle} {i : Nat}
    (hi : s.current? x = some i) (ho : s.timeline.isObserved (s.links.get i).createdOn = true) :
    Reworks s (s.supersede i v) where
  spares := .supersede h.sound hi h.stamp.ahead
  turnover := .of_eq roster_supersede
    (by change (Store.setCurrent _ _ _).arena.nextId = _
        rw [arena_setCurrent, Arena.nextId_modify])
    (events_setCurrent ..)
  timeline := timeline_supersede
  heads := heads_supersede h.sound hi
  element y := by
    rw [get?_supersede]
    split
    · cases s.arena.get? y <;> rfl
    · rfl
  succeeds {w y q} hw hmax hq hsn hy := by
    have hlt := h.sound.current_lt hi
    have hob := h.sound.obsoleteOn hi
    obtain ⟨k, hk, hkq⟩ := hy
    by_cases hyx : y = x
    · subst hyx
      rw [hi] at hk
      cases hk
      refine ⟨s.links.size, ?_, Or.inr ?_⟩
      · rw [current?_supersede h.sound hi, if_pos rfl]
      rw [links_supersede, LinkTable.get_forked_size hlt hob]
      rcases hkq with rfl | hkq
      · rfl
      · -- the link was forked before, and what is observed never is a fork
        obtain ⟨u, hu, hle⟩ := h.stamped.timeline.isObserved_iff.1 ho
        have hqi := h.sound.chained.obsoleteOn (h.sound.chained.older hkq)
        exact absurd (lt_of_lt_of_le (hsn.2 _ hqi) (le_trans hle (hmax u hu))) (lt_irrefl w)
    · refine ⟨k, by rw [current?_supersede h.sound hi, if_neg hyx, hk], ?_⟩
      have hne : k ≠ i := fun e => hyx (h.sound.eq_of_owner (e ▸ hk) hi)
      rw [links_supersede, LinkTable.get_forked_of_ne hlt hob (h.sound.current_lt hk) hne]
      exact hkq

/-- A link in use is writable as it is, or a fork takes its place. -/
theorem writable_cases {sp : List Handle} (h : s.Sound s.obsolete sp) {x : Handle} {i : Nat}
    (hi : s.current? x = some i) (v : Version) :
    ((v ≤ (s.links.get i).createdOn ∨ s.timeline.isObserved (s.links.get i).createdOn = false) ∧
      (Edit.writable i v).Returns s i s) ∨
    (s.links.get i).createdOn < v ∧ s.timeline.isObserved (s.links.get i).createdOn = true ∧
      (Edit.writable i v).Returns s s.links.size (s.supersede i v) := by
  by_cases hw : v ≤ (s.links.get i).createdOn ∨
      s.timeline.isObserved (s.links.get i).createdOn = false
  · refine Or.inl ⟨hw, ?_⟩
    unfold Edit.writable
    refine (Edit.returns_get s).bind ?_
    have hc : (decide (v ≤ (s.links.get i).createdOn) ||
        !s.timeline.isObserved (s.links.get i).createdOn) = true := by
      rcases hw with hw | hw <;> simp [hw]
    dsimp only
    rw [if_pos hc]
    exact Edit.returns_pure i s
  · obtain ⟨hv, ho⟩ := not_or.1 hw
    have hv : (s.links.get i).createdOn < v := not_le.1 hv
    have ho : s.timeline.isObserved (s.links.get i).createdOn = true := by simpa using ho
    have hlt := h.current_lt hi
    have hob := h.obsoleteOn hi
    refine Or.inr ⟨hv, ho, ?_⟩
    unfold Edit.writable
    refine (Edit.returns_get s).bind ?_
    have hc : ¬ (decide (v ≤ (s.links.get i).createdOn) ||
        !s.timeline.isObserved (s.links.get i).createdOn) = true := by
      simp [ho, not_le.2 hv]
    dsimp only
    rw [if_neg hc]
    refine (Edit.returns_ask (LinkTable.fork_eq (h.newer hi) hv)).bind ?_
    refine (Edit.returns_modify _ s).bind ?_
    have hown : ({ s with links := s.links.forked i v } : Store α).owner s.links.size =
        s.owner i := by
      rw [owner, LinkTable.get_forked_size hlt hob]; rfl
    have hp : ({ s with links := s.links.forked i v } : Store α).Placed (s.owner i) := by
      rw [h.owner hi]
      exact placed_of_current? hi
    refine (returns_install (s := { s with links := s.links.forked i v })
      (by rw [hown]; exact hp)).bind ?_
    refine (Edit.returns_retire i _).bind ?_
    rw [hown, obsolete_setCurrent]
    exact Edit.returns_pure _ _

end SnapshotDeque.Store
