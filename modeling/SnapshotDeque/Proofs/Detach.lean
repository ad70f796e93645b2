import SnapshotDeque.Proofs.Edit
import SnapshotDeque.Proofs.Release

/-!
Detaching a node that its neighbours no longer lead to. Its link waits if a pinned version sees it
and is given back at once if none does; either way nothing that a pinned version sees is lost.
-/

namespace SnapshotDeque

/-- Link `i` with the tag `v`, unless it has one. -/
def LinkTable.marked {α : Type} (t : LinkTable α) (i : Nat) (v : Version) : LinkTable α :=
  t.modify i (·.markObsolete v)

namespace LinkTable

variable {α : Type} (t : LinkTable α) (i : Nat) (v : Version)

theorem get_marked (k : Nat) : (t.marked i v).get k =
    if i = k ∧ k < t.size then (t.get k).markObsolete v else t.get k :=
  get_modify t i k _

@[simp] theorem size_marked : (t.marked i v).size = t.size := size_modify _ _ _

theorem get_marked_of_ne {k : Nat} (h : k ≠ i) : (t.marked i v).get k = t.get k := by
  rw [get_marked, if_neg fun e => h e.1.symm]

@[simp] theorem owner_marked (k : Nat) : ((t.marked i v).get k).owner = (t.get k).owner := by
  rw [get_marked]; unfold Link.markObsolete; split <;> rfl

@[simp] theorem createdOn_marked (k : Nat) :
    ((t.marked i v).get k).createdOn = (t.get k).createdOn := by
  rw [get_marked]; unfold Link.markObsolete; split <;> rfl

@[simp] theorem older_marked (k : Nat) : ((t.marked i v).get k).older = (t.get k).older := by
  rw [get_marked]; unfold Link.markObsolete; split <;> rfl

@[simp] theorem newer_marked (k : Nat) : ((t.marked i v).get k).newer = (t.get k).newer := by
  rw [get_marked]; unfold Link.markObsolete; split <;> rfl

@[simp] theorem previous_marked (k : Nat) :
    ((t.marked i v).get k).previous = (t.get k).previous := by
  rw [get_marked]; unfold Link.markObsolete; split <;> rfl

@[simp] theorem next_marked (k : Nat) : ((t.marked i v).get k).next = (t.get k).next := by
  rw [get_marked]; unfold Link.markObsolete; split <;> rfl

@[simp] theorem element_marked (k : Nat) : ((t.marked i v).get k).element = (t.get k).element := by
  rw [get_marked]; unfold Link.markObsolete; split <;> rfl

@[simp] theorem count_marked (k : Nat) : ((t.marked i v).get k).count = (t.get k).count := by
  rw [get_marked]; unfold Link.markObsolete; split <;> rfl

variable {t i v}

theorem obsoleteOn_marked (hi : i < t.size) (ho : (t.get i).obsoleteOn = none) :
    ((t.marked i v).get i).obsoleteOn = some v := by
  rw [get_marked, if_pos ⟨rfl, hi⟩, Link.markObsolete, ho]
  rfl

theorem Pointed.marked (ht : t.Pointed) : (t.marked i v).Pointed :=
  ht.of_get (by simp) fun k j hj => by
    rw [previous_marked, next_marked] at hj
    exact Or.inr ⟨k, hj⟩

theorem grows_marked : Grows t (t.marked i v) where
  size_le := by simp
  owner _ := owner_marked t i v _
  createdOn _ := createdOn_marked t i v _
  newer h := (newer_marked t i v _).trans h

theorem Chained.marked (ht : t.Chained) (hn : (t.get i).newer = none) : (t.marked i v).Chained where
  lt h := ht.lt ((newer_marked t i v _).symm.trans h)
  lt_size h := by rw [size_marked]; exact ht.lt_size ((newer_marked t i v _).symm.trans h)
  owner h := by
    rw [owner_marked, owner_marked]; exact ht.owner ((newer_marked t i v _).symm.trans h)
  createdOn h := by
    rw [createdOn_marked, createdOn_marked]
    exact ht.createdOn ((newer_marked t i v _).symm.trans h)
  obsoleteOn {k j} h := by
    have h := (newer_marked t i v _).symm.trans h
    have hne : k ≠ i := fun e => by rw [e, hn] at h; cases h
    rw [createdOn_marked, get_marked_of_ne t i v hne]
    exact ht.obsoleteOn h
  older h := (newer_marked t i v _).trans (ht.older ((older_marked t i v _).symm.trans h))

theorem keeps_marked {w : Version} (hw : w < v) {k : Nat} (hs : t.Seen w k) :
    Keeps t (t.marked i v) w k := by
  refine ⟨⟨?_, fun x hx => ?_⟩, previous_marked t i v k, next_marked t i v k,
    element_marked t i v k⟩
  · rw [createdOn_marked]; exact hs.1
  · rw [get_marked] at hx
    split at hx
    next =>
      cases ho : (t.get k).obsoleteOn with
      | none => simp only [Link.markObsolete, ho, Option.none_or] at hx; cases hx; exact hw
      | some y => simp only [Link.markObsolete, ho, Option.some_or] at hx; cases hx; exact hs.2 _ ho
    next => exact hs.2 x hx

end LinkTable

namespace Store

variable {α : Type} {s t : Store α}

/-- `t` is `s` with node `x` unlinked, which the other linked nodes do not notice. -/
structure Unhooks (s t : Store α) (x : Handle) : Prop where
  unlinked : t.current? x = none
  current? : ∀ {y}, y ≠ x → t.current? y = s.current? y
  adjacent : ∀ {y z}, y ≠ x → z ≠ x → s.Adjacent y z → t.Adjacent y z
  counted : ∀ {n}, s.Counted n → t.Counted n
  element : ∀ {y n}, y ≠ x → s.arena.get? y = some n → n.head.isSome = true →
    (t.arena.get? y).map (·.element) = some n.element

/-- `t` is `s` with node `x` unlinked and the nodes in `gone` disposed. -/
structure Drops (s t : Store α) (x : Handle) (gone : List (NodeId × α)) : Prop
    extends Amends s t [] gone, Unhooks s t x where
  older : ∀ {y k}, t.current? y = some k → (t.links.get k).older = (s.links.get k).older

/-- The store with no current link for `x`, and with `r` as the obsolete links. -/
def unhooked (s : Store α) (x : Handle) (r : List Nat) : Store α :=
  { s with arena := s.arena.modify x fun n => { n with head := none }, obsolete := r }

theorem get?_unhooked (x : Handle) (r : List Nat) (y : Handle) :
    (s.unhooked x r).arena.get? y =
      if y = x then (s.arena.get? y).map fun n => { n with head := none }
      else s.arena.get? y := Arena.get?_modify _ _ _ _

theorem current?_unhooked {x : Handle} (hx : x.isSentinel = false) (r : List Nat) (y : Handle) :
    (s.unhooked x r).current? y = if y = x then none else s.current? y := by
  have h1 : x ≠ .atBegin := fun e => by rw [e] at hx; cases hx
  have h2 : x ≠ .atEnd := fun e => by rw [e] at hx; cases hx
  have hh : (s.unhooked x r).arena.head? y = if y = x then none else s.arena.head? y := by
    unfold Arena.head?
    rw [get?_unhooked]
    split
    · cases s.arena.get? y <;> rfl
    · rfl
  unfold Store.current?
  rw [hh]
  by_cases hy : y = x
  · rw [hy, if_neg h1, if_neg h2, if_pos rfl, if_pos rfl]
  · rw [if_neg hy, if_neg hy]
    rfl

section Unhooked

variable {x : Handle} {i : Nat} (hx : x.isSentinel = false) (h : s.Sound s.obsolete [])
  (hi : s.current? x = some i)

include hx

theorem current?_of_unhooked {r : List Nat} {y : Handle} {k : Nat}
    (hk : (s.unhooked x r).current? y = some k) : y ≠ x ∧ s.current? y = some k := by
  rw [current?_unhooked hx] at hk
  split at hk
  next => cases hk
  next hy => exact ⟨hy, hk⟩

include h hi

theorem Sound.unhooked (r : List Nat) : (s.unhooked x r).Sound (i :: s.obsolete) [] where
  chained := h.chained
  arena := h.arena.modify _ fun _ => ⟨rfl, rfl⟩
  current_lt hk := h.current_lt (current?_of_unhooked hx hk).2
  owner hk := h.owner (current?_of_unhooked hx hk).2
  newer hk := h.newer (current?_of_unhooked hx hk).2
  obsoleteOn hk := h.obsoleteOn (current?_of_unhooked hx hk).2
  element {y n k} hn hk := by
    have hy := (current?_of_unhooked hx ((current?_of_node hn).trans hk)).1
    rw [get?_unhooked, if_neg hy] at hn
    exact h.element hn hk
  retired_lt hk := by
    rcases List.mem_cons.1 hk with rfl | hk
    · exact h.current_lt hi
    · exact h.retired_lt hk
  retired_ne {k} hk hc := by
    obtain ⟨hne, hc⟩ := current?_of_unhooked hx hc
    rcases List.mem_cons.1 hk with rfl | hk
    · exact hne (h.owner hi)
    · exact h.retired_ne hk hc
  retired_node {k} hk hs := by
    have hold : ∃ n, s.arena.get? (s.owner k) = some n ∧
        (s.links.get k).element = some n.element := by
      rcases List.mem_cons.1 hk with rfl | hk
      · obtain ⟨n, hn, hh⟩ := exists_node_of_current? hx hi
        exact ⟨n, by rw [h.owner hi, hn], h.element hn hh⟩
      · exact h.retired_node hk hs
    obtain ⟨n, hn, he⟩ := hold
    change ∃ m, (s.unhooked x r).arena.get? (s.owner k) = some m ∧ _
    rw [get?_unhooked, hn]
    split
    · exact ⟨_, rfl, he⟩
    · exact ⟨n, rfl, he⟩
  nodup := List.nodup_cons.2 ⟨fun hm => h.retired_ne hm ((h.owner hi).symm ▸ hi), h.nodup⟩
  liveLinks {y n} hn := by
    change n.liveLinks = _ + (i :: s.obsolete).countP (s.owner · = y)
    have ho := h.owner hi
    rw [get?_unhooked] at hn
    split at hn
    next hy =>
      subst hy
      obtain ⟨m, hm, rfl⟩ := Option.map_eq_some_iff.1 hn
      have hl := h.liveLinks hm
      rw [show m.head = some i from (current?_of_node hm).symm.trans hi] at hl
      rw [List.countP_cons_of_pos (by simpa using ho)]
      simp only [Option.isSome_some, if_true] at hl
      simp only [Option.isSome_none, Bool.false_eq_true, if_false]
      omega
    next hy =>
      rw [List.countP_cons_of_neg (by simpa [ho] using Ne.symm hy)]
      exact h.liveLinks hn
  occupied {y n} hn hh _ := by
    change ∃ k ∈ i :: s.obsolete, s.owner k = y
    rw [get?_unhooked] at hn
    split at hn
    next hy => exact ⟨i, List.mem_cons_self .., (h.owner hi).trans hy.symm⟩
    next =>
      obtain ⟨k, hk, hko⟩ := h.occupied hn hh List.not_mem_nil
      exact ⟨k, List.mem_cons_of_mem _ hk, hko⟩

omit h hi in
theorem unhooks_unhooked (r : List Nat) : Unhooks s (s.unhooked x r) x where
  unlinked := by rw [current?_unhooked hx, if_pos rfl]
  current? hy := by rw [current?_unhooked hx, if_neg hy]
  adjacent hy hz ha := by
    obtain ⟨p, n, hp, hn, ha⟩ := ha
    exact ⟨p, n, by rw [current?_unhooked hx, if_neg hy, hp],
      by rw [current?_unhooked hx, if_neg hz, hn], ha⟩
  counted hn := ⟨hn.first, hn.last⟩
  element hy hn _ := by rw [get?_unhooked, if_neg hy, hn]; rfl

omit h in
/-- The link of the node waits if a pinned version sees it. -/
theorem drops_unhooked {r : List Nat} (hr : ∀ k ∈ s.obsolete, k ∈ r)
    (hs : ∀ v ∈ s.timeline.pinned, s.links.Seen v i → i ∈ r) :
    Drops s (s.unhooked x r) x [] where
  toUnhooks := unhooks_unhooked hx r
  spares := {
    Spares.refl s with
    retained := fun {v k} hv _ hsn hk => by
      rw [Retained, current?_unhooked hx]
      rcases hk with hk | hk
      · by_cases hko : s.owner k = x
        · rw [hko, hi] at hk
          cases hk
          exact Or.inr (hs v hv hsn)
        · exact Or.inl ((if_neg hko).trans hk)
      · exact Or.inr (hr k hk)
    node := fun {v k n} _ _ _ _ hn => by
      rw [get?_unhooked, hn]
      split
      · exact ⟨_, rfl, rfl⟩
      · exact ⟨n, rfl, rfl⟩ }
  turnover := .of_eq (Arena.roster_modify _ _ fun _ => ⟨rfl, rfl⟩) (Arena.nextId_modify _ _ _) rfl
  timeline := rfl
  older _ := rfl

end Unhooked

theorem Unhooks.frees {u : Store α} {x : Handle} (h : Unhooks s t x) (h' : Frees t u) :
    Unhooks s u x where
  unlinked := (h'.current? x).trans h.unlinked
  current? hy := (h'.current? _).trans (h.current? hy)
  adjacent hy hz ha := h'.adjacent (h.adjacent hy hz ha)
  counted hn := h'.counted (h.counted hn)
  element {y n} hy hn hh := by
    have he := h.element hy hn hh
    obtain ⟨m, hm, hme⟩ := Option.map_eq_some_iff.1 he
    have hmh : m.head.isSome = true := by
      rw [← current?_of_node hm, h.current? hy, current?_of_node hn]
      exact hh
    rw [h'.element hm hmh, hme]

theorem Drops.givesBack {u : Store α} {x : Handle} {g g' : List (NodeId × α)} (h : Drops s t x g)
    (h' : GivesBack t u g')
    (ho : ∀ {y k}, t.current? y = some k → (u.links.get k).older = (t.links.get k).older) :
    Drops s u x (g ++ g') where
  toAmends := h.toAmends.trans h'.toAmends
  toUnhooks := h.toUnhooks.frees h'.toFrees
  older hk := by
    rw [h'.current?] at hk
    exact (ho hk).trans (h.older hk)

/-! ## Links that wait -/

theorem Sound.perm {r r' : List Nat} {sp : List Handle} (h : s.Sound r sp) (hp : r.Perm r') :
    s.Sound r' sp :=
  { h with
    retired_lt := fun hi => h.retired_lt (hp.mem_iff.2 hi)
    retired_ne := fun hi => h.retired_ne (hp.mem_iff.2 hi)
    retired_node := fun hi => h.retired_node (hp.mem_iff.2 hi)
    nodup := hp.nodup h.nodup
    liveLinks := fun hn => by rw [h.liveLinks hn, hp.countP_eq]
    occupied := fun hn hh hx => by
      obtain ⟨i, hi, ho⟩ := h.occupied hn hh hx
      exact ⟨i, hp.mem_iff.1 hi, ho⟩ }

section Marked

variable {i : Nat} {v : Version}

theorem Sound.marked {r : List Nat} {sp : List Handle} (h : s.Sound r sp) (hi : i ∈ r)
    (hn : (s.links.get i).newer = none) :
    ({ s with links := s.links.marked i v } : Store α).Sound r sp := by
  have hne : ∀ {x k}, s.current? x = some k → k ≠ i := fun hk e =>
    h.retired_ne hi (e ▸ (h.owner hk).symm ▸ hk)
  have ho : ∀ k, ({ s with links := s.links.marked i v } : Store α).owner k = s.owner k :=
    LinkTable.owner_marked s.links i v
  exact {
    chained := h.chained.marked hn
    arena := h.arena
    current_lt := fun hk => by
      rw [LinkTable.size_marked]
      exact h.current_lt hk
    owner := fun hk => (ho _).trans (h.owner hk)
    newer := fun hk => (LinkTable.newer_marked _ _ _ _).trans (h.newer hk)
    obsoleteOn := fun hk => by
      rw [LinkTable.get_marked_of_ne _ _ _ (hne hk)]
      exact h.obsoleteOn hk
    element := fun hn hk => (LinkTable.element_marked _ _ _ _).trans (h.element hn hk)
    retired_lt := fun hk => by
      rw [LinkTable.size_marked]
      exact h.retired_lt hk
    retired_ne := fun hk => by
      rw [ho]
      exact h.retired_ne hk
    retired_node := fun hk hs => by
      rw [ho] at hs ⊢
      obtain ⟨n, hn, he⟩ := h.retired_node hk hs
      exact ⟨n, hn, (LinkTable.element_marked _ _ _ _).trans he⟩
    nodup := h.nodup
    liveLinks := fun hn => by
      simp only [ho]
      exact h.liveLinks hn
    occupied := fun hn hh hx => by
      simp only [ho]
      exact h.occupied hn hh hx }

theorem Unhooks.marked {x : Handle} (h : Unhooks s t x) :
    Unhooks s { t with links := t.links.marked i v } x where
  unlinked := h.unlinked
  current? := h.current?
  adjacent hy hz ha := by
    obtain ⟨p, n, hp, hn, ⟨j, hj, hjn⟩, k, hk, hkp⟩ := h.adjacent hy hz ha
    exact ⟨p, n, hp, hn,
      ⟨j, (LinkTable.next_marked _ _ _ _).trans hj, LinkTable.grows_marked.leads hjn⟩,
      k, (LinkTable.previous_marked _ _ _ _).trans hk, LinkTable.grows_marked.leads hkp⟩
  counted hn := by
    have := h.counted hn
    exact ⟨(LinkTable.count_marked _ _ _ _).trans this.first,
      (LinkTable.count_marked _ _ _ _).trans this.last⟩
  element := h.element

theorem Drops.marked {x : Handle} {g : List (NodeId × α)} (h : Drops s t x g)
    (hv : ∀ w ∈ t.timeline.pinned, w < v) :
    Drops s { t with links := t.links.marked i v } x g where
  toUnhooks := h.toUnhooks.marked
  spares := h.spares.trans {
    Spares.refl t with
    grows := LinkTable.grows_marked
    keeps := fun hw _ hs => LinkTable.keeps_marked (hv _ hw) hs
    retained := fun _ _ _ hr => by
      simp only [Retained, Store.owner, LinkTable.owner_marked] at hr ⊢
      exact hr }
  turnover := { h.turnover with }
  timeline := h.timeline
  older hk := (LinkTable.older_marked _ _ _ _).trans (h.older hk)

end Marked

/-- A link is retired behind the others with the stamp of the change as its tag. -/
theorem Stamped.retired (h : s.Stamped) {v : Version} (hs : s.Stamp v) {i : Nat}
    (hi : i < s.links.size) (hni : i ∉ s.obsolete) (ho : (s.links.get i).obsoleteOn = none)
    (hv : (s.links.get i).createdOn < v) :
    ({ s with links := s.links.marked i v, obsolete := s.obsolete ++ [i] } : Store α).Stamped := by
  have hget : ∀ {k}, k ∈ s.obsolete → (s.links.marked i v).get k = s.links.get k := fun hk =>
    LinkTable.get_marked_of_ne _ _ _ fun e => hni (e ▸ hk)
  refine ⟨h.timeline, fun {k} hk => ?_, fun {k} hk => ?_, ?_⟩
  · rw [LinkTable.size_marked] at hk
    rw [LinkTable.createdOn_marked]
    exact h.createdOn_le hk
  · rcases List.mem_append.1 hk with hk | hk
    · rw [hget hk]
      exact h.tag hk
    · rw [LinkTable.createdOn_marked, List.mem_singleton.1 hk, LinkTable.obsoleteOn_marked hi ho]
      exact ⟨v, rfl, hv, le_of_eq hs.eq⟩
  · refine List.pairwise_append.2 ⟨?_, List.pairwise_singleton _ _, fun a ha b hb => ?_⟩
    · refine h.sorted.imp_of_mem fun {a b} ha hb hab => ?_
      rw [hget ha, hget hb]
      exact hab
    · rw [List.mem_singleton.1 hb, LinkTable.obsoleteOn_marked hi ho, hget ha]
      rintro w w' hw ⟨rfl⟩
      obtain ⟨w', hw', _, hle⟩ := h.tag ha
      rw [hw'] at hw
      cases hw
      rw [hs.eq]
      exact hle

/-! ## Detaching -/

section Detach

variable {x : Handle} {i : Nat} {v : Version}

/-- The store without a current link for `x`, and with what is said of that. -/
def unlinking (s : Store α) (x : Handle) (r : List Nat) (v : Version) : Store α :=
  emit (.unlink x v) (s.unhooked x r)

/-- The store without a current link for `x`, whose link `i` waits behind the other retired ones. -/
def waiting (s : Store α) (x : Handle) (i : Nat) (v : Version) : Store α :=
  { s.unlinking x (s.obsolete ++ [i]) v with links := s.links.marked i v }

@[simp] theorem obsolete_waiting : (s.waiting x i v).obsolete = s.obsolete ++ [i] :=
  obsolete_emit _ _

@[simp] theorem timeline_waiting : (s.waiting x i v).timeline = s.timeline := timeline_emit _ _

theorem returns_detach_waiting (hi : s.arena.head? x = some i)
    (ho : s.timeline.isObserved (s.links.get i).createdOn = true) :
    (Edit.detach x v).Returns s () (s.waiting x i v) := by
  unfold Edit.detach
  refine (Edit.returns_get s).bind ?_
  dsimp only
  rw [hi]
  refine (Edit.returns_modify _ s).bind ((Edit.returns_modify _ _).bind ?_)
  refine (Edit.returns_get _).bind ?_
  rw [if_pos (by simpa using ho)]
  refine (Edit.returns_editLinks _ _).bind ?_
  unfold Edit.Returns Edit.retire waiting unlinking emit
  cases he : s.emitting
  · simp only [he, Bool.false_eq_true, if_false, unhooked]
    rfl
  · simp only [he, if_true, unhooked]
    rfl

theorem returns_detach_released (hi : s.arena.head? x = some i)
    (ho : ¬ s.timeline.isObserved (s.links.get i).createdOn = true) {p : Pass}
    (ht : (s.unlinking x s.obsolete v).release {} i = (t, p)) :
    (Edit.detach x v).Returns s () { t with totals := t.totals.recordReleased p } := by
  unfold Edit.detach
  refine (Edit.returns_get s).bind ?_
  dsimp only
  rw [hi]
  refine (Edit.returns_modify _ s).bind ((Edit.returns_modify _ _).bind ?_)
  refine (Edit.returns_get _).bind ?_
  rw [if_neg (by simpa using ho)]
  rw [← show Prod.fst _ = t from congrArg Prod.fst ht,
    ← show Prod.snd _ = p from congrArg Prod.snd ht]
  exact Edit.returns_modify _ _

section Unlinking

variable (h : s.Sound s.obsolete []) (hx : x.isSentinel = false) (hi : s.current? x = some i)

include hx

theorem unhooks_unlinking (r : List Nat) : Unhooks s (s.unlinking x r v) x :=
  (unhooks_unhooked hx r).frees (frees_emit _ _)

theorem unhooks_waiting : Unhooks s (s.waiting x i v) x := by
  have hu := (unhooks_unlinking (s := s) (v := v) hx (s.obsolete ++ [i])).marked (i := i) (v := v)
  rwa [unlinking, links_emit] at hu

include h hi

theorem Sound.unlinking (r : List Nat) : (s.unlinking x r v).Sound (i :: s.obsolete) [] :=
  (h.unhooked hx hi r).congr (links_emit _ _) (arena_emit _ _) (beginLink_emit _ _)
    (endLink_emit _ _)

theorem Sound.waiting : (s.waiting x i v).Sound (s.waiting x i v).obsolete [] := by
  have hu := (h.unlinking (v := v) hx hi (s.obsolete ++ [i])).perm
    (List.perm_append_singleton i s.obsolete).symm
  have hm := hu.marked (v := v) (List.mem_append_right _ (List.mem_singleton.2 rfl))
    (by rw [Store.unlinking, links_emit]; exact h.newer hi)
  rw [Store.unlinking, links_emit] at hm
  rw [obsolete_waiting]
  exact hm

end Unlinking

variable (h : s.Changing v []) (hx : x.isSentinel = false) (hi : s.current? x = some i)

include h hx hi

/-- The link waits if a pinned version sees it. -/
theorem returns_detach_of_observed
    (ho : s.timeline.isObserved (s.links.get i).createdOn = true) :
    ∃ t gone, (Edit.detach x v).Returns s () t ∧ t.Changing v [] ∧ Drops s t x gone := by
  obtain ⟨w, hw, hle⟩ := h.stamped.timeline.isObserved_iff.1 ho
  have hlt : (s.links.get i).createdOn < v := lt_of_le_of_lt hle (h.stamp.ahead w hw)
  have hni : i ∉ s.obsolete := fun hm => h.sound.retired_ne hm ((h.sound.owner hi).symm ▸ hi)
  have hir : i ∈ s.obsolete ++ [i] := List.mem_append_right _ (List.mem_singleton.2 rfl)
  have hst := h.stamped.retired h.stamp (h.sound.current_lt hi) hni (h.sound.obsoleteOn hi) hlt
  have hd := drops_unhooked hx hi (fun _ hk => List.mem_append_left _ hk) fun _ _ _ => hir
  have hde := hd.givesBack (givesBack_emit (e := .unlink x v) rfl _) fun _ => by rw [links_emit]
  have hdm := hde.marked (i := i) (v := v) (by rw [timeline_emit]; exact h.stamp.ahead)
  rw [links_emit] at hdm
  refine ⟨_, _, returns_detach_waiting ((current?_of_payload hx).symm.trans hi) ho,
    ⟨h.sound.waiting hx hi, ?_, hdm.stamp h.stamp⟩, hdm⟩
  exact hst.congr rfl (timeline_emit _ _) (obsolete_emit _ _)

/-- The link is given back at once if no pinned version sees it. -/
theorem returns_detach_of_unobserved
    (ho : ¬ s.timeline.isObserved (s.links.get i).createdOn = true) :
    ∃ t gone, (Edit.detach x v).Returns s () t ∧ t.Changing v [] ∧ Drops s t x gone := by
  have hun : ∀ w ∈ s.timeline.pinned, ¬ s.links.Seen w i := fun w hw hs =>
    ho (h.stamped.timeline.isObserved_iff.2 ⟨w, hw, hs.1⟩)
  have hu := h.sound.unlinking (v := v) hx hi s.obsolete
  unfold unlinking at hu
  obtain ⟨t, gone, he, ht, hg, hto, htl⟩ := release_spec hu
    (fun k hk => by rw [obsolete_emit] at hk; exact hk)
    (fun w hw => by rw [timeline_emit] at hw; rw [links_emit]; exact hun w hw) {}
  rw [obsolete_emit] at hto
  rw [links_emit] at htl
  have hd := drops_unhooked hx hi (fun _ hk => hk) fun w hw hs => absurd hs (hun w hw)
  have hde := hd.givesBack (givesBack_emit (e := .unlink x v) rfl _) fun _ => by rw [links_emit]
  let p : Pass := ⟨1, gone.length, 0⟩
  have hdt := hde.givesBack (hg.record (t.totals.recordReleased p)) fun {y k} hk => by
    have hk : s.current? y = some k ∧ y ≠ x := by
      rw [(givesBack_emit (e := .unlink x v) rfl _).current?] at hk
      exact ⟨(current?_of_unhooked hx hk).2, (current?_of_unhooked hx hk).1⟩
    have hne : k ≠ i := fun e => hk.2 (h.sound.eq_of_owner (e ▸ hk.1) hi)
    have hnn : (s.links.get i).newer ≠ some k := by rw [h.sound.newer hi]; exact nofun
    rw [links_emit]
    change (t.links.get k).older = _
    rw [htl]
    exact LinkTable.older_release hne hnn
  have hst : t.Stamped := by
    have hsu : (emit (.unlink x v) (s.unhooked x s.obsolete)).Stamped :=
      h.stamped.congr (links_emit _ _) (timeline_emit _ _) (obsolete_emit _ _)
    refine hsu.givesBack hg (by rw [hto, obsolete_emit]) fun k hk => ?_
    rw [obsolete_emit] at hk
    rw [links_emit]
    exact h.sound.retired_lt hk
  refine ⟨_, _, returns_detach_released ((current?_of_payload hx).symm.trans hi) ho
    (by rw [unlinking, he, Nat.zero_add, Nat.zero_add]), ⟨?_, hst.congr rfl rfl rfl,
    hdt.stamp h.stamp⟩, hdt⟩
  change Sound _ t.obsolete []
  rw [hto]
  exact ht.congr rfl rfl rfl rfl

theorem returns_detach :
    ∃ t gone, (Edit.detach x v).Returns s () t ∧ t.Changing v [] ∧ Drops s t x gone := by
  by_cases ho : s.timeline.isObserved (s.links.get i).createdOn = true
  · exact returns_detach_of_observed h hx hi ho
  · exact returns_detach_of_unobserved h hx hi ho

end Detach

end Store

end SnapshotDeque
