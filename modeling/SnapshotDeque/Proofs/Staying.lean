import SnapshotDeque.Proofs.Unlinking

/-!
What a removal comes to, whichever way it goes about it. The links that stay are settled before it
starts: they are those retired by then and those that a pinned version sees, and neither superseding
a link nor detaching a node makes one more or one less of them. So it is settled, too, which nodes
are disposed as they are unlinked. Main definition: `Regime.keeping`, the regime of a change that
keeps just these links, and of which an outline of the store tells only the nodes unlinked.
-/

namespace SnapshotDeque

/-! ## Nodes without their links -/

/-- The node with nothing said of its links. -/
def Node.bare {α : Type} (n : Node α) : Node α := { n with head := none, liveLinks := 0 }

namespace Arena

variable {α : Type} {a b : Arena α}

/-- The arena with nothing said of the links of its nodes. -/
def bare (a : Arena α) : Arena α :=
  { a with slots := a.slots.map fun s => { s with node := s.node.map Node.bare } }

theorem slot_bare (a : Arena α) (i : UInt32) :
    a.bare.slot i = { a.slot i with node := (a.slot i).node.map Node.bare } := by
  unfold slot bare
  rw [Array.getElem?_map]
  cases a.slots[i.toNat]? <;> rfl

theorem get?_bare (a : Arena α) (x : Handle) : a.bare.get? x = (a.get? x).map Node.bare := by
  unfold get?
  rw [slot_bare]
  split
  · rfl
  · split <;> rfl

theorem bare_modify (a : Arena α) (x : Handle) {f : Node α → Node α}
    (hf : ∀ n, (f n).bare = n.bare) : (a.modify x f).bare = a.bare := by
  unfold modify
  split
  · unfold bare
    congr 1
    refine Array.ext (by simp) fun i h1 h2 => ?_
    simp only [Array.getElem_map, Array.getElem_modify]
    split
    · simp [Option.map_map, Function.comp_def, hf]
    · rfl
  · rfl

theorem bare_vacated (a : Arena α) (x : Handle) : (a.vacated x).bare = a.bare.vacated x := by
  unfold vacated bare
  congr 1
  refine Array.ext (by simp) fun i h1 h2 => ?_
  simp only [Array.getElem_map, Array.getElem_modify]
  split <;> rfl

theorem node_slot {i : UInt32} (hi : 2 ≤ i.toNat) (a : Arena α) :
    (a.slot i).node = a.get? ⟨i, (a.slot i).generation⟩ := by
  have hs : ¬ Handle.isSentinel ⟨i, (a.slot i).generation⟩ = true := fun h =>
    Nat.not_lt.2 hi (isSentinel_iff.1 h)
  rw [get?, if_neg hs, if_pos rfl]

/-- Arenas with the same slots that find the same nodes are the same. -/
theorem eq_of_bare (ha : a.Valid) (hb : b.Valid) (h : a.bare = b.bare)
    (hg : ∀ x, a.get? x = b.get? x) : a = b := by
  have hslot : ∀ i, a.slot i = b.slot i := by
    intro i
    have hgen : (a.slot i).generation = (b.slot i).generation := by
      have hi := congrArg (fun a : Arena α => (a.slot i).generation) h
      rwa [slot_bare, slot_bare] at hi
    have hnode : (a.slot i).node = (b.slot i).node := by
      rcases Nat.lt_or_ge i.toNat 2 with hi | hi
      · rw [ha.reserved i hi, hb.reserved i hi]
      · rw [node_slot hi, node_slot hi, hg, hgen]
    cases hsa : a.slot i
    cases hsb : b.slot i
    rw [hsa, hsb] at hgen hnode
    cases hgen
    cases hnode
    rfl
  have hsize : a.slots.size = b.slots.size := by
    simpa [bare] using congrArg (fun a : Arena α => a.slots.size) h
  have hslots : a.slots = b.slots := by
    refine Array.ext hsize fun i h1 h2 => ?_
    have hi : (UInt32.ofNat i).toNat = i :=
      UInt32.toNat_ofNat_of_lt' (Nat.lt_of_lt_of_le h1 ha.limit)
    have hs := hslot (UInt32.ofNat i)
    rw [slot_of_lt (by rw [hi]; exact h1), slot_of_lt (by rw [hi]; exact h2)] at hs
    simpa only [hi] using hs
  cases a
  cases b
  cases hslots
  simp only [bare, mk.injEq, true_and] at h
  obtain ⟨rfl, rfl, rfl, rfl⟩ := h
  rfl

end Arena

/-! ## The outline of a store -/

/-- A store with nothing said of links, and with only so much of what was counted. -/
structure Outline (α : Type) where
  arena : Arena α
  emitting : Bool
  events : List (Event α)
  nodesDisposed : UInt64

namespace Outline

variable {α : Type}

def tell (o : Outline α) (e : Event α) : Outline α :=
  if o.emitting then { o with events := o.events ++ [e] } else o

/-- So many nodes more are counted. -/
def count (o : Outline α) (n : Nat) : Outline α :=
  { o with nodesDisposed := o.nodesDisposed + UInt64.ofNat n }

theorem count_zero (o : Outline α) : o.count 0 = o := by
  unfold count
  rw [show UInt64.ofNat 0 = 0 from rfl, UInt64.add_zero]

def dispose (o : Outline α) (x : Handle) : Outline α :=
  match o.arena.get? x with
  | some n => (tell { o with arena := o.arena.vacated x } (.dispose n.element)).count 1
  | none => o

/-- Node `x` is unlinked on `v`, and disposed unless a link of it stays. -/
def depart (v : Version) (stays : Bool) (o : Outline α) (x : Handle) : Outline α :=
  if stays then o.tell (.unlink x v) else (o.tell (.unlink x v)).dispose x

end Outline

namespace Store

variable {α : Type} {s t u : Store α} {v : Version} {sp : List Handle} {x : Handle} {i : Nat}

def outline (s : Store α) : Outline α := ⟨s.arena.bare, s.emitting, s.events, s.totals.nodes⟩

theorem outline_emit (e : Event α) (s : Store α) : (emit e s).outline = s.outline.tell e := by
  unfold outline Outline.tell emit
  split <;> rfl

/-- What is said of links is not in the outline. -/
theorem outline_of_modify {f : Node α → Node α} (ha : t.arena = s.arena.modify x f)
    (hf : ∀ n, (f n).bare = n.bare) (he : t.emitting = s.emitting) (hv : t.events = s.events)
    (hn : t.totals = s.totals) : t.outline = s.outline := by
  unfold outline
  rw [ha, Arena.bare_modify _ _ hf, he, hv, hn]

theorem outline_unlinking (s : Store α) (x : Handle) (r : List Nat) (v : Version) :
    (s.unlinking x r v).outline = s.outline.tell (.unlink x v) := by
  have hs : (s.unhooked x r).outline = s.outline := outline_of_modify rfl (fun _ => rfl) rfl rfl rfl
  rw [unlinking, outline_emit, hs]

theorem outline_withoutLink (s : Store α) (i : Nat) : (s.withoutLink i).outline = s.outline :=
  outline_of_modify rfl (fun _ => rfl) rfl rfl rfl

/-- What is given back outside of a pass is in the outline so far as nodes go. -/
theorem outline_recordReleased (s : Store α) (p : Pass) :
    ({ s with totals := s.totals.recordReleased p } : Store α).outline =
      s.outline.count p.nodes := rfl

theorem outline_withoutNode {n : Node α} {b : Arena α} (hl : s.arena.Loses b x n) :
    (s.withoutNode n b).outline =
      Outline.tell { s.outline with arena := s.outline.arena.vacated x } (.dispose n.element) := by
  rw [withoutNode, outline_emit]
  congr 1
  unfold outline
  rw [hl.vacates, Arena.bare_vacated]

theorem outline_supersede (s : Store α) (i : Nat) (v : Version) :
    (s.supersede i v).outline = s.outline :=
  outline_of_modify (x := s.owner i) (arena_setCurrent ..) (fun _ => rfl) (emitting_setCurrent ..)
    (events_setCurrent ..) (totals_setCurrent ..)

/-! ## The links that stay -/

/-- Whether link `i` stays until no snapshot may see it: it is retired already, or some pinned
version sees it, so it will be when it is superseded or its node unlinked. -/
def Stays (s : Store α) (i : Nat) : Prop :=
  i ∈ s.obsolete ∨ s.current? (s.owner i) = some i ∧
    s.timeline.isObserved (s.links.get i).createdOn = true

theorem Sound.lt_of_stays (h : s.Sound s.obsolete sp) (hi : s.Stays i) : i < s.links.size :=
  hi.elim (fun hi => h.retired_lt hi) fun hi => h.current_lt hi.1

/-- `t` is `s` after a part of a change stamped `v` in which no link comes to stay or stops to. -/
structure Keeps (v : Version) (s t : Store α) : Prop where
  stays : ∀ i, t.Stays i ↔ s.Stays i
  owner : ∀ {i}, s.Stays i → t.owner i = s.owner i
  createdOn : ∀ {i}, s.Stays i → (t.links.get i).createdOn = (s.links.get i).createdOn
  previous : ∀ {i}, s.Stays i → (t.links.get i).previous = (s.links.get i).previous
  next : ∀ {i}, s.Stays i → (t.links.get i).next = (s.links.get i).next
  element : ∀ {i}, s.Stays i → (t.links.get i).element = (s.links.get i).element
  retired : ∃ q, t.obsolete = s.obsolete ++ q ∧ ∀ i ∈ q, (t.links.get i).obsoleteOn = some v
  tag : ∀ i ∈ s.obsolete, (t.links.get i).obsoleteOn = (s.links.get i).obsoleteOn

theorem Keeps.refl (v : Version) (s : Store α) : Keeps v s s :=
  ⟨fun _ => .rfl, fun _ => rfl, fun _ => rfl, fun _ => rfl, fun _ => rfl, fun _ => rfl,
    ⟨[], (List.append_nil _).symm, fun _ h => absurd h List.not_mem_nil⟩, fun _ _ => rfl⟩

theorem Keeps.trans (h : Keeps v s t) (h' : Keeps v t u) : Keeps v s u where
  stays i := (h'.stays i).trans (h.stays i)
  owner hi := (h'.owner ((h.stays _).2 hi)).trans (h.owner hi)
  createdOn hi := (h'.createdOn ((h.stays _).2 hi)).trans (h.createdOn hi)
  previous hi := (h'.previous ((h.stays _).2 hi)).trans (h.previous hi)
  next hi := (h'.next ((h.stays _).2 hi)).trans (h.next hi)
  element hi := (h'.element ((h.stays _).2 hi)).trans (h.element hi)
  retired := by
    obtain ⟨q, ho, hq⟩ := h.retired
    obtain ⟨q', ho', hq'⟩ := h'.retired
    refine ⟨q ++ q', by rw [ho', ho, List.append_assoc], fun i hi => ?_⟩
    rcases List.mem_append.1 hi with hi | hi
    · rw [h'.tag i (by rw [ho]; exact List.mem_append_right _ hi)]
      exact hq i hi
    · exact hq' i hi
  tag i hi := by
    obtain ⟨q, ho, _⟩ := h.retired
    rw [h'.tag i (by rw [ho]; exact List.mem_append_left _ hi)]
    exact h.tag i hi

section Supersede

variable (h : s.Changing v sp) (hi : s.current? x = some i)

include h hi

theorem get_supersede_self : (s.supersede i v).links.get i =
    { s.links.get i with newer := some s.links.size, obsoleteOn := some v } := by
  rw [links_supersede, LinkTable.get_forked_self (h.sound.current_lt hi) (h.sound.obsoleteOn hi)]

theorem get_supersede_of_ne {k : Nat} (hk : k < s.links.size) (hne : k ≠ i) :
    (s.supersede i v).links.get k = s.links.get k := by
  rw [links_supersede,
    LinkTable.get_forked_of_ne (h.sound.current_lt hi) (h.sound.obsoleteOn hi) hk hne]

theorem not_isObserved_fork :
    ¬ s.timeline.isObserved ((s.supersede i v).links.get s.links.size).createdOn = true := by
  rw [links_supersede, LinkTable.get_forked_size (h.sound.current_lt hi) (h.sound.obsoleteOn hi)]
  intro ho
  obtain ⟨w, hw, hle⟩ := h.stamped.timeline.isObserved_iff.1 ho
  exact absurd (h.stamp.ahead w hw) (not_lt_of_ge hle)

variable (ho : s.timeline.isObserved (s.links.get i).createdOn = true)

include ho

/-- A current link that is superseded goes on staying as a retired one, and what takes its place
does not stay. -/
theorem stays_supersede (k : Nat) : (s.supersede i v).Stays k ↔ s.Stays k := by
  have hi' : s.Stays i := Or.inr ⟨(h.sound.owner hi).symm ▸ hi, ho⟩
  constructor
  · rintro (hk | ⟨hk, hko⟩)
    · rcases List.mem_append.1 hk with hk | hk
      · exact Or.inl hk
      · rw [List.mem_singleton.1 hk]
        exact hi'
    · rw [timeline_supersede] at hko
      rcases current?_supersede_cases h.sound hi hk with ⟨_, rfl⟩ | ⟨_, hc, hks, hne⟩
      · exact absurd hko (not_isObserved_fork h hi)
      · rw [get_supersede_of_ne h hi hks hne] at hko
        rw [owner_supersede h.sound hi hks] at hc
        exact Or.inr ⟨hc, hko⟩
  · intro hk
    have hks := h.sound.lt_of_stays hk
    by_cases hki : k = i
    · exact Or.inl (List.mem_append_right _ (List.mem_singleton.2 hki))
    rcases hk with hk | ⟨hk, hko⟩
    · exact Or.inl (List.mem_append_left _ hk)
    · right
      rw [owner_supersede h.sound hi hks, current?_supersede h.sound hi,
        get_supersede_of_ne h hi hks hki, timeline_supersede, if_neg fun e => ?_]
      · exact ⟨hk, hko⟩
      · rw [e, hi] at hk
        exact hki (Option.some.inj hk).symm

theorem keeps_supersede : Keeps v s (s.supersede i v) := by
  have hself := get_supersede_self h hi
  have hof : ∀ {β : Type} (f : Link α → β), f ((s.supersede i v).links.get i) =
      f (s.links.get i) → ∀ {k}, s.Stays k →
        f ((s.supersede i v).links.get k) = f (s.links.get k) := by
    intro β f hf k hk
    by_cases hki : k = i
    · rw [hki, hf]
    · rw [get_supersede_of_ne h hi (h.sound.lt_of_stays hk) hki]
  refine ⟨stays_supersede h hi ho, hof (·.owner) (by rw [hself]),
    hof (·.createdOn) (by rw [hself]), hof (·.previous) (by rw [hself]),
    hof (·.next) (by rw [hself]), hof (·.element) (by rw [hself]), ⟨[i], rfl, fun k hk => ?_⟩,
    fun k hk => ?_⟩
  · rw [List.mem_singleton.1 hk, hself]
  · rw [get_supersede_of_ne h hi (h.sound.retired_lt hk) fun e => ?_]
    rw [e] at hk
    exact h.sound.retired_ne hk ((h.sound.owner hi).symm ▸ hi)

end Supersede

theorem keeps_links (h : s.Sound s.obsolete sp) {l : LinkTable α} (hl : s.links.SameSpine l)
    (hk : ∀ {i}, i < s.links.size → s.Stays i →
      (l.get i).previous = (s.links.get i).previous ∧ (l.get i).next = (s.links.get i).next) :
    Keeps v s { s with links := l } where
  stays i := by
    unfold Stays Store.owner
    rw [hl.owner, hl.createdOn]
    rfl
  owner _ := hl.owner _
  createdOn _ := hl.createdOn _
  previous hi := (hk (h.lt_of_stays hi) hi).1
  next hi := (hk (h.lt_of_stays hi) hi).2
  element _ := hl.element _
  retired := ⟨[], (List.append_nil _).symm, fun _ h => absurd h List.not_mem_nil⟩
  tag i _ := hl.obsoleteOn i

/-! ## Detaching -/

section Unhooked

variable (h : s.Sound s.obsolete []) (hi : s.current? x = some i) (hu : Unhooks s t x)

include hi hu

/-- Other nodes keep their current links, and the one that was unlinked had `i`. -/
theorem current?_of_unhooks {k : Nat} (hk : k ≠ i) :
    t.current? (s.owner k) = some k ↔ s.current? (s.owner k) = some k := by
  by_cases hko : s.owner k = x
  · rw [hko, hu.unlinked, hi]
    exact ⟨nofun, fun e => absurd (Option.some.inj e).symm hk⟩
  · rw [hu.current? hko]

include h

/-- A link that stays goes on staying as a retired one when its node is unlinked. -/
theorem keeps_waiting (ho : s.timeline.isObserved (s.links.get i).createdOn = true)
    (ht : t = s.waiting x i v) : Keeps v s t := by
  have hown := h.owner hi
  have hob : t.obsolete = s.obsolete ++ [i] := by rw [ht, obsolete_waiting]
  have htl : t.timeline = s.timeline := by rw [ht, timeline_waiting]
  have hl : t.links = s.links.marked i v := by rw [ht]; rfl
  refine ⟨fun k => ?_, fun _ => ?_, fun _ => ?_, fun _ => ?_, fun _ => ?_, fun _ => ?_,
    ⟨[i], hob, fun k hk => ?_⟩, fun k hk => ?_⟩
  · unfold Stays
    rw [hob, htl, Store.owner, hl, LinkTable.owner_marked, LinkTable.createdOn_marked,
      List.mem_append, List.mem_singleton]
    by_cases hk : k = i
    · subst hk
      exact ⟨fun _ => Or.inr ⟨hown.symm ▸ hi, ho⟩, fun _ => Or.inl (Or.inr rfl)⟩
    · rw [or_iff_left hk]
      exact or_congr_right (and_congr_left fun _ => current?_of_unhooks hi hu hk)
  · rw [Store.owner, hl, LinkTable.owner_marked]
    rfl
  · rw [hl, LinkTable.createdOn_marked]
  · rw [hl, LinkTable.previous_marked]
  · rw [hl, LinkTable.next_marked]
  · rw [hl, LinkTable.element_marked]
  · rw [List.mem_singleton.1 hk, hl, LinkTable.obsoleteOn_marked (h.current_lt hi)
      (h.obsoleteOn hi)]
  · rw [hl, LinkTable.get_marked_of_ne _ _ _ fun e => ?_]
    rw [e] at hk
    exact h.retired_ne hk (hown.symm ▸ hi)

/-- A link that does not stay is given back when its node is unlinked. -/
theorem keeps_released (ho : s.timeline.isObserved (s.links.get i).createdOn = false)
    (hl : t.links = s.links.release i) (hob : t.obsolete = s.obsolete)
    (htl : t.timeline = s.timeline) : Keeps v s t := by
  have hown := h.owner hi
  have hni : i ∉ s.obsolete := fun hm => h.retired_ne hm (hown.symm ▸ hi)
  have hne : ∀ {k}, s.Stays k → k ≠ i := by
    rintro k (hk | ⟨_, hk⟩) rfl
    · exact hni hk
    · rw [ho] at hk
      cases hk
  refine ⟨fun k => ?_, fun _ => ?_, fun _ => ?_, fun hk => ?_, fun hk => ?_, fun hk => ?_,
    ⟨[], by rw [hob, List.append_nil], fun _ h => absurd h List.not_mem_nil⟩, fun k _ => ?_⟩
  · unfold Stays
    rw [hob, htl, Store.owner, hl, LinkTable.owner_release, LinkTable.createdOn_release]
    by_cases hk : k = i
    · subst hk
      rw [show (s.links.get k).owner = x from hown, hu.unlinked, ho]
      simp
    · exact or_congr_right (and_congr_left fun _ => current?_of_unhooks hi hu hk)
  · rw [Store.owner, hl, LinkTable.owner_release]
    rfl
  · rw [hl, LinkTable.createdOn_release]
  · rw [hl, LinkTable.previous_release (hne hk)]
  · rw [hl, LinkTable.next_release (hne hk)]
  · rw [hl, LinkTable.element_release (hne hk)]
  · rw [hl, LinkTable.obsoleteOn_release]

end Unhooked

/-- Node `x` is unlinked and its link `i` given back, and the node is not looked at yet. -/
def detached (s : Store α) (x : Handle) (i : Nat) (v : Version) : Store α :=
  (s.unlinking x s.obsolete v).withoutLink i

theorem owner_unlinking (r : List Nat) (k : Nat) : (s.unlinking x r v).owner k = s.owner k := by
  rw [Store.owner, unlinking, links_emit]
  rfl

theorem links_detached : (s.detached x i v).links = s.links.release i := by
  rw [detached, withoutLink, unlinking, links_emit]
  rfl

theorem owner_detached (k : Nat) : (s.detached x i v).owner k = s.owner k := by
  rw [Store.owner, links_detached, LinkTable.owner_release]
  rfl

theorem obsolete_detached (i : Nat) : (s.detached x i v).obsolete = s.obsolete := obsolete_emit _ _

theorem timeline_detached (i : Nat) : (s.detached x i v).timeline = s.timeline := timeline_emit _ _

theorem outline_detached : (s.detached x i v).outline = s.outline.tell (.unlink x v) := by
  rw [detached, outline_withoutLink, outline_unlinking]

/-- With its last link a node goes. -/
theorem outline_emptied {n : Node α} {b : Arena α} (hn : (s.detached x i v).arena.get? x = some n)
    (hl : (s.detached x i v).arena.Loses b x n) :
    ((s.detached x i v).withoutNode n b).outline.count 1 = s.outline.depart v false x := by
  have hx : (s.outline.tell (.unlink x v)).arena.get? x = some n.bare := by
    rw [← outline_detached (i := i)]
    change (Arena.bare _).get? x = _
    rw [Arena.get?_bare, hn]
    rfl
  rw [outline_withoutNode hl, outline_detached, Outline.depart, if_neg Bool.false_ne_true,
    Outline.dispose, hx]
  rfl

section Detach

variable (h : s.Sound s.obsolete []) (hx : x.isSentinel = false) (hi : s.current? x = some i)

include hx hi in
/-- A node that is there without a current link is so for a retired one. -/
theorem exists_retired_of_detached (hown : s.owner i = x)
    (hs : (s.detached x i v).Sound s.obsolete []) : ∃ k ∈ s.obsolete, s.owner k = x := by
  obtain ⟨n, hn, _⟩ := exists_node_of_current? hx hi
  have hnl : (s.detached x i v).arena.get? x =
      some { n with head := none, liveLinks := n.liveLinks - 1 } := by
    rw [detached, get?_withoutLink, owner_unlinking, if_pos hown.symm, unlinking, arena_emit,
      get?_unhooked, if_pos rfl, hn]
    rfl
  obtain ⟨k, hk, hko⟩ := hs.occupied hnl rfl List.not_mem_nil
  exact ⟨k, hk, (owner_detached k).symm.trans hko⟩

include h hx hi

/-- The link of a node that is unlinked is retired, or it is given back at once; and then the node
is disposed unless another link of it is retired. -/
theorem detach_cases (ht : (Edit.detach x v).Returns s () t) :
    s.timeline.isObserved (s.links.get i).createdOn = true ∧ t = s.waiting x i v ∨
    s.timeline.isObserved (s.links.get i).createdOn = false ∧ t.links = s.links.release i ∧
      t.obsolete = s.obsolete ∧ t.timeline = s.timeline ∧
      ∃ b, (b = true ↔ ∃ k ∈ s.obsolete, s.owner k = x) ∧ t.outline = s.outline.depart v b x := by
  have hhead := (current?_of_payload hx).symm.trans hi
  have hown := h.owner hi
  cases ho : s.timeline.isObserved (s.links.get i).createdOn with
  | true =>
    cases (returns_detach_waiting hhead ho).symm.trans ht
    exact Or.inl ⟨rfl, rfl⟩
  | false =>
    have ho : ¬ s.timeline.isObserved (s.links.get i).createdOn = true := by simp [ho]
    have hsu := h.unlinking (v := v) hx hi s.obsolete
    have hou : (s.unlinking x s.obsolete v).owner i = x := (owner_unlinking ..).trans hown
    have hw := hsu.withoutLink
    rw [hou] at hw
    rcases release_cases hsu {} with ⟨n, b, hn, hh, h0, hl, hs, he⟩ | ⟨hs, he⟩
    · rw [hou] at hn hl
      cases (returns_detach_released hhead ho he).symm.trans ht
      refine Or.inr ⟨rfl, (links_withoutNode ..).trans links_detached,
        (obsolete_emit _ _).trans (obsolete_detached i),
        (timeline_emit _ _).trans (timeline_detached i), false,
        ⟨fun h => absurd h Bool.false_ne_true, ?_⟩, outline_emptied hn hl⟩
      -- a node without links has no retired one
      rintro ⟨k, hk, hko⟩
      exact absurd ((owner_detached k).trans hko) (ne_of_no_links hw hn h0 hk)
    · cases (returns_detach_released hhead ho he).symm.trans ht
      refine Or.inr ⟨rfl, links_detached, obsolete_detached i, timeline_detached i, true,
        ⟨fun _ => exists_retired_of_detached hx hi hown hs, fun _ => rfl⟩, ?_⟩
      rw [outline_recordReleased, Outline.depart, if_pos rfl]
      exact (Outline.count_zero _).trans outline_detached

theorem keeps_detach (ht : (Edit.detach x v).Returns s () t) (hu : Unhooks s t x) :
    Keeps v s t := by
  rcases detach_cases h hx hi ht with ⟨ho, he⟩ | ⟨ho, hl, hob, htl, -⟩
  · exact keeps_waiting h hi hu ho he
  · exact keeps_released h hi hu ho hl hob htl

/-- A node is disposed as it is unlinked unless a link of it stays. -/
theorem outline_detach (ht : (Edit.detach x v).Returns s () t) :
    ∃ b, (b = true ↔ ∃ k, s.Stays k ∧ s.owner k = x) ∧ t.outline = s.outline.depart v b x := by
  have hown := h.owner hi
  rcases detach_cases h hx hi ht with ⟨ho, rfl⟩ | ⟨ho, _, _, _, b, hb, he⟩
  · refine ⟨true, ⟨fun _ => ⟨i, Or.inr ⟨hown.symm ▸ hi, ho⟩, hown⟩, fun _ => rfl⟩, ?_⟩
    exact outline_unlinking s x (s.obsolete ++ [i]) v
  · refine ⟨b, hb.trans ⟨fun ⟨k, hk, hko⟩ => ⟨k, Or.inl hk, hko⟩, ?_⟩, he⟩
    rintro ⟨k, hk | ⟨hk, hko⟩, rfl⟩
    · exact ⟨k, hk, rfl⟩
    · rw [hi] at hk
      cases hk
      rw [ho] at hko
      cases hko

end Detach

/-! ## Linking -/

/-- Nothing is said of links. -/
theorem Keeps.of_eq (hl : t.links = s.links) (ho : t.obsolete = s.obsolete)
    (ht : t.timeline = s.timeline) (hc : ∀ x, t.current? x = s.current? x) : Keeps v s t where
  stays i := by
    unfold Stays Store.owner
    rw [hl, ho, ht, hc]
  owner _ := by
    unfold Store.owner
    rw [hl]
  createdOn _ := by rw [hl]
  previous _ := by rw [hl]
  next _ := by rw [hl]
  element _ := by rw [hl]
  retired := ⟨[], by rw [ho, List.append_nil], fun _ h => absurd h List.not_mem_nil⟩
  tag _ _ := by rw [hl]

theorem keeps_gained {b : Arena α} {a : α} (hg : s.arena.Gains b x a) :
    Keeps v s (s.withArena b) := .of_eq rfl rfl rfl (current?_gained hg)

theorem keeps_emit (e : Event α) (s : Store α) : Keeps v s (emit e s) :=
  .of_eq (links_emit s e) (obsolete_emit s e) (timeline_emit s e) (frees_emit e s).current?

/-- The first link of a node does not stay: it is as young as the change. -/
theorem keeps_enlisted {n : Node α} {a : α} {l : Link α} (h : s.Changing v [x])
    (hx : s.arena.get? x = some n) (hh : n.head = none) (hl : FirstLink l x v a) :
    Keeps v s (s.enlisted x l) := by
  have hget : ∀ {k}, k < s.links.size → (s.enlisted x l).links.get k = s.links.get k := fun hk => by
    rw [links_enlisted, LinkTable.get_push_of_lt hk]
  have hlt : ∀ {k}, s.Stays k → k < s.links.size := h.sound.lt_of_stays
  have hnone : s.current? x = none := (current?_of_node hx).trans hh
  refine ⟨fun k => ?_, fun hk => ?_, fun hk => ?_, fun hk => ?_, fun hk => ?_, fun hk => ?_,
    ⟨[], by rw [obsolete_enlisted, List.append_nil], fun _ h => absurd h List.not_mem_nil⟩,
    fun k hk => ?_⟩
  · constructor
    · rintro (hk | ⟨hk, ho⟩)
      · exact Or.inl (by rwa [obsolete_enlisted] at hk)
      rw [timeline_enlisted] at ho
      rcases current?_enlisted_cases hx h.sound hk with ⟨-, rfl⟩ | ⟨-, hc, hks⟩
      · rw [links_enlisted, LinkTable.get_push_size, hl.createdOn] at ho
        obtain ⟨w, hw, hle⟩ := h.stamped.timeline.isObserved_iff.1 ho
        exact absurd (h.stamp.ahead w hw) (not_lt_of_ge hle)
      · rw [owner_enlisted hks] at hc
        rw [hget hks] at ho
        exact Or.inr ⟨hc, ho⟩
    · intro hk
      have hks := hlt hk
      rcases hk with hk | ⟨hk, ho⟩
      · exact Or.inl (by rwa [obsolete_enlisted])
      · refine Or.inr ⟨?_, by rwa [hget hks, timeline_enlisted]⟩
        rw [owner_enlisted hks, current?_enlisted hx, if_neg fun e => ?_]
        · exact hk
        · rw [e, hnone] at hk
          cases hk
  · exact owner_enlisted (hlt hk)
  · rw [hget (hlt hk)]
  · rw [hget (hlt hk)]
  · rw [hget (hlt hk)]
  · rw [hget (hlt hk)]
  · rw [hget (h.sound.retired_lt hk)]

/-! ## The regime -/

theorem not_isObserved_of_unseen (h : s.Unseen i) :
    ¬ s.timeline.isObserved (s.links.get i).createdOn = true := by
  unfold Timeline.isObserved
  split
  next w hw =>
    have hlt := h w (List.mem_of_getLast? hw)
    simpa using hlt
  next => exact Bool.false_ne_true

/-- Whether link `i` is younger than every pin and not retired. -/
def Loose (s : Store α) (i : Nat) : Prop := s.Unseen i ∧ i ∉ s.obsolete

theorem Loose.not_stays (h : s.Loose i) : ¬ s.Stays i := fun hi =>
  hi.elim h.2 fun hi => not_isObserved_of_unseen h.1 hi.2

/-- The nodes of the links that stay. -/
def StaysAt (s : Store α) (x : Handle) : Prop := ∃ k, s.Stays k ∧ s.owner k = x

theorem Keeps.staysAt (h : Keeps v s t) (x : Handle) : t.StaysAt x ↔ s.StaysAt x := by
  constructor
  · rintro ⟨k, hk, hko⟩
    have hk := (h.stays k).1 hk
    exact ⟨k, hk, (h.owner hk).symm.trans hko⟩
  · rintro ⟨k, hk, hko⟩
    exact ⟨k, (h.stays k).2 hk, (h.owner hk).trans hko⟩

/-- Node `x` departed from `s`, and with it, unless a link of it stays, all that is told of it. -/
def Departs (v : Version) (s t : Store α) (x : Handle) : Prop :=
  ∃ b, (b = true ↔ s.StaysAt x) ∧ t.outline = s.outline.depart v b x

/-- What stays is settled before a change starts. -/
def Regime.keeping (α : Type) (v : Version) : Regime α v where
  Holds s sp := s.Changing v sp
  Comes s t := Reworks s t ∧ Keeps v s t ∧ t.outline = s.outline
  Free := Loose
  Unlinks s t x := (∃ gone, Store.Unlinks s t v x gone) ∧ Keeps v s t ∧ Departs v s t x
  Clears s t := (∃ gone, Amends s t [] gone) ∧ Keeps v s t
  Inserts s t x a _ := Store.Inserts s t x a ∧ Keeps v s t
  sound h := h.sound
  stamp h := h.modification_eq
  refl s := ⟨.refl s, .refl v s, rfl⟩
  trans h h' := ⟨h.1.trans h'.1, h.2.1.trans h'.2.1, h'.2.2.trans h.2.2⟩
  heads h := h.1.heads
  element h := h.1.element
  disposed h := h.1.spares.disposed
  free h hi hf := by
    refine ⟨h.1.unseen hi hf.1, fun hm => hf.not_stays ((h.2.1.stays _).1 (Or.inl hm))⟩
  in_place h hi hw :=
    ⟨h.unseen hw, fun hm => h.sound.retired_ne hm ((h.sound.owner hi).symm ▸ hi)⟩
  supersede {s sp x i} h hi hv ho := by
    obtain ⟨hc, hh, hf⟩ := (Regime.stamped α v).supersede h hi hv ho
    refine ⟨⟨hc, keeps_supersede h hi ho, outline_supersede s i v⟩, hh, hf, fun hm => ?_⟩
    rcases List.mem_append.1 hm with hm | hm
    · exact absurd (h.sound.retired_lt hm) (lt_irrefl _)
    · exact absurd (h.sound.current_lt hi) (not_lt_of_ge (List.mem_singleton.1 hm).le)
  links h hl _ _ hk := by
    refine ⟨⟨reworks_links hl fun hi hu => hk hi fun hf => hu hf.1, ?_, rfl⟩, h.links hl⟩
    exact keeps_links h.sound hl fun hi hs => hk hi fun hf => hf.not_stays hs
  detach h hx hi := by
    obtain ⟨t, ht, hc, hu, hd⟩ := (Regime.stamped α v).detach h hx hi
    exact ⟨t, ht, hc, hu, hd, keeps_detach h.sound hx hi ht hu, outline_detach h.sound hx hi ht⟩
  comes_unlinks := fun {s t u x} h h' => by
    obtain ⟨hu, hk, b, hb, he⟩ := h'
    refine ⟨(Regime.stamped α v).comes_unlinks h.1 hu, h.2.1.trans hk, b, ?_, ?_⟩
    · rw [hb, h.2.1.staysAt]
    · rw [he, h.2.2]
  unlinks_clears := fun ⟨⟨gone, h⟩, hk, _⟩ => ⟨⟨gone, h.toAmends⟩, hk⟩
  comes_clears h := ⟨⟨[], h.1.toAmends⟩, h.2.1⟩
  clears_trans := fun ⟨⟨_, h⟩, hk⟩ ⟨⟨_, h'⟩, hk'⟩ => ⟨⟨_, h.trans h'⟩, hk.trans hk'⟩
  clears_disposed := fun ⟨⟨_, h⟩, _⟩ => h.spares.disposed
  gained h hg := h.gained hg
  enlisted {s x n a l} h hx hh he hl := by
    obtain ⟨hc, hf, hfs⟩ := (Regime.stamped α v).enlisted h hx hh he hl
    have hob : ∀ {i}, i ∉ s.obsolete → i ∉ (s.enlisted x l).obsolete := fun hi => by
      rw [obsolete_enlisted]
      exact hi
    refine ⟨hc, ⟨hf, hob fun hm => ?_⟩, fun i hi hl => ⟨hfs i hi hl.1, hob hl.2⟩⟩
    exact absurd (h.sound.retired_lt hm) (lt_irrefl _)
  inserts {s b t u x _ _ l} side h hg hr hc hx hh hl hp hm hu hcu := by
    obtain ⟨hi, he⟩ := (Regime.stamped α v).inserts side h hg hr.1 hc hx hh hl hp hm hu.1 hcu
    have hst : Keeps v s t := (keeps_gained hg).trans hr.2.1
    have htu : Keeps v t u := (keeps_enlisted hc hx hh hl).trans hu.2.1
    exact ⟨⟨hi, (hst.trans htu).trans (keeps_emit _ u)⟩, he⟩

namespace Regime

/-- The outline of a store after nodes were unlinked depends on the links that stay alone. -/
theorem UnlinksAll.outline {xs : List Handle} (h : (keeping α v).UnlinksAll s xs t)
    {stays : Handle → Bool} (hs : ∀ x, stays x = true ↔ s.StaysAt x) :
    t.outline = xs.foldl (fun o x => o.depart v (stays x) x) s.outline := by
  induction h with
  | done h => exact h.2.2
  | @next s t u x xs h _ ih =>
    obtain ⟨_, hk, b, hb, he⟩ := h
    have hbx : b = stays x := Bool.eq_iff_iff.2 (hb.trans (hs x).symm)
    rw [ih fun y => (hs y).trans (hk.staysAt y).symm, he, hbx]
    rfl

end Regime

end Store

end SnapshotDeque
