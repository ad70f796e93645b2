import Mathlib.Data.List.TakeWhile
import SnapshotDeque.Proofs.Spares

/-!
Giving back links and nodes. A link that no pinned version sees can be given back whatever else is
retained: no chain, neighbour pointer or count changes for the links that stay, and its node goes
exactly if that was its last link.
-/

namespace SnapshotDeque

namespace LinkTable

variable {α : Type} {t : LinkTable α}

theorem get_release (t : LinkTable α) (i k : Nat) :
    (t.release i).get k =
      if i = k ∧ k < t.size then Link.release (t.get k)
      else if (t.get i).newer = some k ∧ k < t.size then (t.get k).forgetOlder i
      else t.get k := by
  unfold release
  cases hn : (t.get i).newer with
  | none => simp [get_modify]
  | some j =>
    simp only [get_modify, size_modify, Option.some.injEq]
    by_cases hi : i = k ∧ k < t.size
    · rw [if_pos hi, if_pos hi]
      by_cases hj : j = k ∧ k < t.size
      · rw [if_pos hj]
        simp [Link.forgetOlder, Link.release]
        split <;> simp
      · rw [if_neg hj]
    · rw [if_neg hi, if_neg hi]

@[simp] theorem size_release (t : LinkTable α) (i : Nat) : (t.release i).size = t.size := by
  unfold release; split <;> simp

theorem owner_release (t : LinkTable α) (i k : Nat) :
    ((t.release i).get k).owner = (t.get k).owner := by
  rw [get_release]; unfold Link.release Link.forgetOlder; split_ifs <;> rfl

theorem createdOn_release (t : LinkTable α) (i k : Nat) :
    ((t.release i).get k).createdOn = (t.get k).createdOn := by
  rw [get_release]; unfold Link.release Link.forgetOlder; split_ifs <;> rfl

theorem obsoleteOn_release (t : LinkTable α) (i k : Nat) :
    ((t.release i).get k).obsoleteOn = (t.get k).obsoleteOn := by
  rw [get_release]; unfold Link.release Link.forgetOlder; split_ifs <;> rfl

/-- What a release leaves alone is left alone by many. -/
theorem foldl_release_congr {β : Type} {f : LinkTable α → β} (hf : ∀ t k, f (t.release k) = f t)
    (is : List Nat) (t : LinkTable α) : f (is.foldl LinkTable.release t) = f t := by
  induction is generalizing t with
  | nil => rfl
  | cons k is ih => exact (ih _).trans (hf t k)

theorem newer_release (t : LinkTable α) (i k : Nat) :
    ((t.release i).get k).newer = (t.get k).newer := by
  rw [get_release]; unfold Link.release Link.forgetOlder; split_ifs <;> rfl

theorem count_release (t : LinkTable α) (i k : Nat) :
    ((t.release i).get k).count = (t.get k).count := by
  rw [get_release]; unfold Link.release Link.forgetOlder; split_ifs <;> rfl

theorem element_release {i k : Nat} (h : k ≠ i) :
    ((t.release i).get k).element = (t.get k).element := by
  rw [get_release, if_neg fun e => h e.1.symm]; unfold Link.forgetOlder; split_ifs <;> rfl

theorem previous_release {i k : Nat} (h : k ≠ i) :
    ((t.release i).get k).previous = (t.get k).previous := by
  rw [get_release, if_neg fun e => h e.1.symm]; unfold Link.forgetOlder; split_ifs <;> rfl

theorem next_release {i k : Nat} (h : k ≠ i) :
    ((t.release i).get k).next = (t.get k).next := by
  rw [get_release, if_neg fun e => h e.1.symm]; unfold Link.forgetOlder; split_ifs <;> rfl

/-- The way back is cut in the link itself and in its successor. -/
theorem older_release {i k : Nat} (h : k ≠ i) (hn : (t.get i).newer ≠ some k) :
    ((t.release i).get k).older = (t.get k).older := by
  rw [get_release, if_neg fun e => h e.1.symm, if_neg fun e => hn e.1]

theorem older_of_release {i k j : Nat} (h : ((t.release i).get k).older = some j) :
    (t.get k).older = some j := by
  rw [get_release] at h
  unfold Link.release Link.forgetOlder at h
  split_ifs at h <;> simp_all

theorem Pointed.release (ht : t.Pointed) (i : Nat) : (t.release i).Pointed := by
  refine ht.of_get (by simp) fun k j hj => Or.inr ⟨k, ?_⟩
  rw [get_release] at hj
  unfold Link.release Link.forgetOlder at hj
  split_ifs at hj <;> simp_all

theorem grows_release (t : LinkTable α) (i : Nat) : Grows t (t.release i) where
  size_le := by simp
  owner _ := owner_release t i _
  createdOn _ := createdOn_release t i _
  newer h := (newer_release t i _).trans h

theorem Chained.release (ht : t.Chained) (i : Nat) : (t.release i).Chained where
  lt h := ht.lt ((newer_release t i _).symm.trans h)
  lt_size h := by rw [size_release]; exact ht.lt_size ((newer_release t i _).symm.trans h)
  owner h := by
    rw [owner_release, owner_release]; exact ht.owner ((newer_release t i _).symm.trans h)
  createdOn h := by
    rw [createdOn_release, createdOn_release]
    exact ht.createdOn ((newer_release t i _).symm.trans h)
  obsoleteOn h := by
    rw [obsoleteOn_release, createdOn_release]
    exact ht.obsoleteOn ((newer_release t i _).symm.trans h)
  older h := (newer_release t i _).trans (ht.older (older_of_release h))

theorem keeps_release {v : Version} {i k : Nat} (hne : k ≠ i) (h : t.Seen v k) :
    Keeps t (t.release i) v k := by
  refine ⟨?_, previous_release hne, next_release hne, element_release hne⟩
  rw [Seen, createdOn_release, obsoleteOn_release]
  exact h

end LinkTable

namespace Store

variable {α : Type} {s t : Store α}

/-- `t` is `s` with links given back, which the linked nodes do not notice. -/
structure Frees (s t : Store α) : Prop where
  size : t.links.size = s.links.size
  obsoleteOn : ∀ i, (t.links.get i).obsoleteOn = (s.links.get i).obsoleteOn
  current? : ∀ x, t.current? x = s.current? x
  adjacent : ∀ {x y}, s.Adjacent x y → t.Adjacent x y
  counted : ∀ {n}, s.Counted n → t.Counted n
  element : ∀ {x n}, s.arena.get? x = some n → n.head.isSome = true →
    (t.arena.get? x).map (·.element) = some n.element

/-- `t` is `s` with links given back that no pinned version sees, and with the nodes in `gone`
disposed. -/
structure GivesBack (s t : Store α) (gone : List (NodeId × α)) : Prop
    extends Amends s t [] gone, Frees s t

theorem Frees.refl (s : Store α) : Frees s s :=
  ⟨rfl, fun _ => rfl, fun _ => rfl, id, id, fun hn _ => by rw [hn]; rfl⟩

theorem Frees.trans {u : Store α} (h : Frees s t) (h' : Frees t u) : Frees s u where
  size := h'.size.trans h.size
  obsoleteOn i := (h'.obsoleteOn i).trans (h.obsoleteOn i)
  current? x := (h'.current? x).trans (h.current? x)
  adjacent ha := h'.adjacent (h.adjacent ha)
  counted hn := h'.counted (h.counted hn)
  element {x n} hn hh := by
    have he := h.element hn hh
    obtain ⟨m, hm, hme⟩ := Option.map_eq_some_iff.1 he
    have hmh : m.head.isSome = true := by
      rw [← current?_of_node hm, h.current?, current?_of_node hn]
      exact hh
    rw [h'.element hm hmh, hme]

/-- The store without link `i`, its node not looked at yet. -/
def withoutLink (s : Store α) (i : Nat) : Store α :=
  { s with
    links := s.links.release i
    arena := s.arena.modify (s.owner i) fun n => { n with liveLinks := n.liveLinks - 1 } }

theorem get?_withoutLink (i : Nat) (x : Handle) : (s.withoutLink i).arena.get? x =
    if x = s.owner i then
      (s.arena.get? x).map fun n => { n with liveLinks := n.liveLinks - 1 }
    else s.arena.get? x := Arena.get?_modify _ _ _ _

theorem head?_withoutLink (i : Nat) (x : Handle) :
    (s.withoutLink i).arena.head? x = s.arena.head? x := by
  unfold Arena.head?
  rw [get?_withoutLink]
  split
  · cases s.arena.get? x <;> rfl
  · rfl

theorem current?_withoutLink (i : Nat) (x : Handle) :
    (s.withoutLink i).current? x = s.current? x := by
  unfold Store.current?
  rw [head?_withoutLink]
  rfl

theorem owner_withoutLink (i k : Nat) : (s.withoutLink i).owner k = s.owner k :=
  LinkTable.owner_release _ _ _

section WithoutLink

variable {i : Nat} {r : List Nat} (h : s.Sound (i :: r) [])

include h

theorem not_current_of_retired {x : Handle} {k : Nat} (hk : s.current? x = some k) : k ≠ i := by
  rintro rfl
  exact h.retired_ne (List.mem_cons_self ..) ((h.owner hk).symm ▸ hk)

theorem Sound.withoutLink : (s.withoutLink i).Sound r [s.owner i] where
  chained := h.chained.release i
  arena := h.arena.modify _ fun _ => ⟨rfl, rfl⟩
  current_lt hk := by
    rw [current?_withoutLink] at hk
    exact Nat.lt_of_lt_of_eq (h.current_lt hk) (LinkTable.size_release _ _).symm
  owner hk := by
    rw [current?_withoutLink] at hk
    rw [owner_withoutLink]
    exact h.owner hk
  newer hk := by
    rw [current?_withoutLink] at hk
    exact (LinkTable.newer_release _ _ _).trans (h.newer hk)
  obsoleteOn hk := by
    rw [current?_withoutLink] at hk
    exact (LinkTable.obsoleteOn_release _ _ _).trans (h.obsoleteOn hk)
  element {x n k} hn hk := by
    rw [get?_withoutLink] at hn
    have hold : ∃ m, s.arena.get? x = some m ∧ m.head = some k ∧ m.element = n.element := by
      split at hn
      · obtain ⟨m, hm, rfl⟩ := Option.map_eq_some_iff.1 hn
        exact ⟨m, hm, hk, rfl⟩
      · exact ⟨n, hn, hk, rfl⟩
    obtain ⟨m, hm, hmk, he⟩ := hold
    have hne := not_current_of_retired h ((current?_of_node hm).trans hmk)
    rw [← he]
    exact (LinkTable.element_release hne).trans (h.element hm hmk)
  retired_lt hk :=
    Nat.lt_of_lt_of_eq (h.retired_lt (List.mem_cons_of_mem _ hk)) (LinkTable.size_release _ _).symm
  retired_ne hk := by
    rw [owner_withoutLink, current?_withoutLink]
    exact h.retired_ne (List.mem_cons_of_mem _ hk)
  retired_node {k} hk hs := by
    rw [owner_withoutLink] at hs ⊢
    have hne : k ≠ i := fun e => (List.nodup_cons.1 h.nodup).1 (e ▸ hk)
    obtain ⟨n, hn, he⟩ := h.retired_node (List.mem_cons_of_mem _ hk) hs
    rw [get?_withoutLink, hn, show ((s.withoutLink i).links.get k).element = _ from
      LinkTable.element_release hne]
    split
    · exact ⟨_, rfl, he⟩
    · exact ⟨n, rfl, he⟩
  nodup := (List.nodup_cons.1 h.nodup).2
  liveLinks {x n} hn := by
    simp only [owner_withoutLink]
    rw [get?_withoutLink] at hn
    split at hn
    next hx =>
      subst hx
      obtain ⟨m, hm, rfl⟩ := Option.map_eq_some_iff.1 hn
      have hl := h.liveLinks hm
      rw [List.countP_cons_of_pos (by simp)] at hl
      dsimp only
      omega
    next hx =>
      have hl := h.liveLinks hn
      rw [List.countP_cons_of_neg (by simpa using fun e => hx e.symm)] at hl
      exact hl
  occupied {x n} hn hh hx := by
    rw [get?_withoutLink, if_neg (by simpa using hx)] at hn
    obtain ⟨k, hk, hko⟩ := h.occupied hn hh (List.not_mem_nil)
    rcases List.mem_cons.1 hk with rfl | hk
    · simp only [List.mem_singleton] at hx
      exact absurd hko.symm hx
    · exact ⟨k, hk, by rw [owner_withoutLink]; exact hko⟩

theorem frees_withoutLink : Frees s (s.withoutLink i) where
  size := LinkTable.size_release _ _
  obsoleteOn := LinkTable.obsoleteOn_release _ _
  current? := current?_withoutLink i
  adjacent {x y} ha := by
    obtain ⟨p, n, hp, hn, ⟨j, hj, hjn⟩, k, hk, hkp⟩ := ha
    refine ⟨p, n, by rw [current?_withoutLink, hp], by rw [current?_withoutLink, hn],
      ⟨j, ?_, (LinkTable.grows_release _ _).leads hjn⟩, k, ?_,
      (LinkTable.grows_release _ _).leads hkp⟩
    · exact (LinkTable.next_release (not_current_of_retired h hp)).trans hj
    · exact (LinkTable.previous_release (not_current_of_retired h hn)).trans hk
  counted hn := ⟨(LinkTable.count_release _ _ _).trans hn.first,
    (LinkTable.count_release _ _ _).trans hn.last⟩
  element {x n} hn _ := by
    rw [get?_withoutLink, hn]
    split <;> rfl

theorem givesBack_withoutLink (hsn : ∀ v ∈ s.timeline.pinned, ¬ s.links.Seen v i) :
    GivesBack s (s.withoutLink i) [] where
  toFrees := frees_withoutLink h
  spares := {
    config := rfl
    markers := rfl
    snapshotsOpened := rfl
    disposed := rfl
    emitting := rfl
    grows := LinkTable.grows_release _ _
    keeps := fun {v k} hv _ hs =>
      LinkTable.keeps_release (fun e => hsn v hv (e ▸ hs)) hs
    retained := fun {v k} _ _ _ hr => by
      rw [Retained, owner_withoutLink, current?_withoutLink]
      exact hr
    node := fun {v k n} _ _ _ _ hn => by
      rw [get?_withoutLink, hn]
      split
      · exact ⟨_, rfl, rfl⟩
      · exact ⟨n, rfl, rfl⟩ }
  turnover := .of_eq (Arena.roster_modify _ _ fun _ => ⟨rfl, rfl⟩) (Arena.nextId_modify _ _ _) rfl
  timeline := rfl

end WithoutLink

/-! ## Events -/

section Emit

variable (e : Event α) (s)

@[simp] theorem links_emit : (emit e s).links = s.links := by unfold emit; split <;> rfl
@[simp] theorem arena_emit : (emit e s).arena = s.arena := by unfold emit; split <;> rfl
@[simp] theorem timeline_emit : (emit e s).timeline = s.timeline := by unfold emit; split <;> rfl
@[simp] theorem obsolete_emit : (emit e s).obsolete = s.obsolete := by unfold emit; split <;> rfl
@[simp] theorem config_emit : (emit e s).config = s.config := by unfold emit; split <;> rfl
@[simp] theorem emitting_emit : (emit e s).emitting = s.emitting := by unfold emit; split <;> rfl
@[simp] theorem totals_emit : (emit e s).totals = s.totals := by unfold emit; split <;> rfl
@[simp] theorem disposed_emit : (emit e s).disposed = s.disposed := by unfold emit; split <;> rfl
@[simp] theorem snapshotsOpened_emit : (emit e s).snapshotsOpened = s.snapshotsOpened := by
  unfold emit; split <;> rfl
@[simp] theorem beginLink_emit : (emit e s).beginLink = s.beginLink := by
  unfold emit; split <;> rfl
@[simp] theorem endLink_emit : (emit e s).endLink = s.endLink := by unfold emit; split <;> rfl

theorem events_emit : (emit e s).events = if s.emitting then s.events ++ [e] else s.events := by
  unfold emit; split <;> rfl

end Emit

/-! ## Disposing of a node -/

theorem GivesBack.refl (s : Store α) : GivesBack s s [] := ⟨.refl s, .refl s⟩

theorem GivesBack.trans {u : Store α} {g g' : List (NodeId × α)} (h : GivesBack s t g)
    (h' : GivesBack t u g') : GivesBack s u (g ++ g') :=
  ⟨h.toAmends.trans h'.toAmends, h.toFrees.trans h'.toFrees⟩

/-- The node that `disposeNode` takes out, if it takes one out. -/
theorem disposeNode_cases (x : Handle) (s : Store α) (p : Pass) (ha : s.arena.Valid) :
    (∃ n b, s.arena.get? x = some n ∧ n.head = none ∧ n.liveLinks = 0 ∧ s.arena.Loses b x n ∧
      s.disposeNode x p =
        (emit (.dispose n.element) { s with arena := b }, { p with nodes := p.nodes + 1 })) ∨
    (∀ n, s.arena.get? x = some n → n.head.isSome = true ∨ 0 < n.liveLinks) ∧
      s.disposeNode x p = (s, p) := by
  unfold disposeNode
  cases hn : s.arena.get? x with
  | none => exact Or.inr ⟨fun _ h => (by cases h), rfl⟩
  | some n =>
    by_cases hd : n.isDisposable = true
    · have hd' : n.head = none ∧ n.liveLinks = 0 := by simpa [Node.isDisposable] using hd
      obtain ⟨b, hb, hl⟩ := ha.remove hn
      refine Or.inl ⟨n, b, rfl, hd'.1, hd'.2, hl, ?_⟩
      simp only [hd, if_true, hb]
    · refine Or.inr ⟨?_, by simp only [if_neg hd]⟩
      rintro m ⟨rfl⟩
      by_cases hh : n.head.isSome = true
      · exact Or.inl hh
      · right
        rw [Node.isDisposable] at hd
        have : n.head = none := by simpa using hh
        rw [this] at hd
        exact Nat.pos_of_ne_zero (by simpa using hd)

/-- The store without the node `n`, of which `b` is the arena, and with what is said of that. -/
def withoutNode (s : Store α) (n : Node α) (b : Arena α) : Store α :=
  emit (.dispose n.element) { s with arena := b }

theorem disposals_emit_dispose (a : α) (s : Store α) :
    disposals (emit (.dispose a) s).events =
      if s.emitting then disposals s.events ++ [a] else disposals s.events := by
  rw [events_emit]
  split
  · simp [disposals]
  · rfl

section WithoutNode

variable {x : Handle} {n : Node α} {b : Arena α} (hl : s.arena.Loses b x n)

theorem owner_withoutNode (i : Nat) : (s.withoutNode n b).owner i = s.owner i := by
  simp [withoutNode, Store.owner]

@[simp] theorem links_withoutNode : (s.withoutNode n b).links = s.links := by simp [withoutNode]

@[simp] theorem arena_withoutNode : (s.withoutNode n b).arena = b := by simp [withoutNode]

include hl

/-- An unlinked node had no current link to lose. -/
theorem current?_withoutNode (hn : s.arena.get? x = some n) (hh : n.head = none) (y : Handle) :
    (s.withoutNode n b).current? y = s.current? y := by
  have hhead : b.head? y = s.arena.head? y := by
    unfold Arena.head?
    rw [hl.get]
    split
    next hy => rw [hy, hn]; exact hh.symm
    next => rfl
  simp [Store.current?, withoutNode, hhead]

variable {r : List Nat} (h : s.Sound r [x]) (hn : s.arena.get? x = some n) (hh : n.head = none)
  (h0 : n.liveLinks = 0)

include h hn h0 in
omit hl in
theorem ne_of_no_links {i : Nat} (hi : i ∈ r) : s.owner i ≠ x := by
  intro e
  have hc := h.liveLinks hn
  have hp : 0 < r.countP (s.owner · = x) := List.countP_pos_iff.2 ⟨i, hi, by simpa using e⟩
  omega

include h hn hh h0

theorem Sound.withoutNode : (s.withoutNode n b).Sound r [] where
  chained := by rw [links_withoutNode]; exact h.chained
  arena := by rw [arena_withoutNode]; exact hl.valid
  current_lt hk := by
    rw [current?_withoutNode hl hn hh] at hk
    rw [links_withoutNode]
    exact h.current_lt hk
  owner hk := by
    rw [current?_withoutNode hl hn hh] at hk
    rw [owner_withoutNode]
    exact h.owner hk
  newer hk := by
    rw [current?_withoutNode hl hn hh] at hk
    rw [links_withoutNode]
    exact h.newer hk
  obsoleteOn hk := by
    rw [current?_withoutNode hl hn hh] at hk
    rw [links_withoutNode]
    exact h.obsoleteOn hk
  element {y m k} hm hk := by
    rw [arena_withoutNode, hl.get] at hm
    rw [links_withoutNode]
    split at hm
    · cases hm
    · exact h.element hm hk
  retired_lt hk := by rw [links_withoutNode]; exact h.retired_lt hk
  retired_ne hk := by
    rw [owner_withoutNode, current?_withoutNode hl hn hh]
    exact h.retired_ne hk
  retired_node hk hs := by
    rw [owner_withoutNode] at hs ⊢
    rw [arena_withoutNode, links_withoutNode, hl.get, if_neg (ne_of_no_links h hn h0 hk)]
    exact h.retired_node hk hs
  nodup := h.nodup
  liveLinks {y m} hm := by
    rw [arena_withoutNode, hl.get] at hm
    simp only [owner_withoutNode]
    split at hm
    · cases hm
    · exact h.liveLinks hm
  occupied {y m} hm hmh _ := by
    rw [arena_withoutNode, hl.get] at hm
    simp only [owner_withoutNode]
    split at hm
    · cases hm
    · next hy => exact h.occupied hm hmh (by simpa using hy)

omit h h0 in
theorem frees_withoutNode : Frees s (s.withoutNode n b) where
  size := by rw [links_withoutNode]
  obsoleteOn _ := by rw [links_withoutNode]
  current? := current?_withoutNode hl hn hh
  adjacent {y z} ha := by
    obtain ⟨p, q, hp, hq, ha⟩ := ha
    refine ⟨p, q, ?_, ?_, ?_⟩
    · rw [current?_withoutNode hl hn hh, hp]
    · rw [current?_withoutNode hl hn hh, hq]
    · rw [links_withoutNode]; exact ha
  counted hc :=
    ⟨by simpa [Store.withoutNode] using hc.first, by simpa [Store.withoutNode] using hc.last⟩
  element {y m} hm hmh := by
    rw [arena_withoutNode, hl.get, if_neg, hm, Option.map_some]
    rintro rfl
    rw [hn] at hm; cases hm
    rw [hh] at hmh
    cases hmh

theorem givesBack_withoutNode (hr : ∀ i ∈ s.obsolete, i ∈ r) :
    GivesBack s (s.withoutNode n b) [(n.id, n.element)] where
  toFrees := frees_withoutNode hl hn hh
  spares := {
    config := config_emit ..
    markers := congrArg Timeline.markers (timeline_emit ..)
    snapshotsOpened := snapshotsOpened_emit ..
    disposed := disposed_emit ..
    emitting := emitting_emit ..
    grows := by rw [links_withoutNode]; exact .refl _
    keeps := fun {v i} _ _ hs => by rw [links_withoutNode]; exact .refl hs
    retained := fun {v i} _ _ _ hi => by
      rw [Retained, owner_withoutNode, current?_withoutNode hl hn hh]
      exact hi.imp id fun hi => by simpa [Store.withoutNode] using hi
    node := fun {v i m} _ _ _ hi hm => by
      refine ⟨m, ?_, rfl⟩
      rw [arena_withoutNode, hl.get, if_neg, hm]
      rintro e
      rcases hi with hi | hi
      · rw [e, current?_of_node hn, hh] at hi
        cases hi
      · exact ne_of_no_links h hn h0 (hr i hi) e }
  turnover := {
    roster := by rw [arena_withoutNode]; exact hl.roster.symm
    nextId_le := by rw [arena_withoutNode, hl.nextId]
    born_nodup := List.nodup_nil
    born_fresh := fun _ hx => by cases hx
    silent := fun he => by simp [Store.withoutNode, events_emit, he]
    heard := fun he => by
      change disposals (emit _ { s with arena := b }).events = _
      rw [disposals_emit_dispose, if_pos he]
      rfl }
  timeline := by simp [Store.withoutNode]

end WithoutNode

/-- A link is released alone, or with it the node that it was the last link of. -/
theorem release_cases {i : Nat} {r : List Nat} (h : s.Sound (i :: r) []) (p : Pass) :
    (∃ n b, (s.withoutLink i).arena.get? (s.owner i) = some n ∧ n.head = none ∧ n.liveLinks = 0 ∧
      (s.withoutLink i).arena.Loses b (s.owner i) n ∧
      ((s.withoutLink i).withoutNode n b).Sound r [] ∧
      s.release p i =
        ((s.withoutLink i).withoutNode n b, ⟨p.links + 1, p.nodes + 1, p.remaining⟩)) ∨
    (s.withoutLink i).Sound r [] ∧
      s.release p i = (s.withoutLink i, ⟨p.links + 1, p.nodes, p.remaining⟩) := by
  have hw := h.withoutLink
  have he : s.release p i =
      (s.withoutLink i).disposeNode (s.owner i) { p with links := p.links + 1 } := rfl
  rw [he]
  rcases disposeNode_cases (s.owner i) (s.withoutLink i) { p with links := p.links + 1 }
    hw.arena with ⟨n, b, hn, hh, h0, hl, hd⟩ | ⟨hn, hd⟩
  · exact Or.inl ⟨n, b, hn, hh, h0, hl, hw.withoutNode hl hn hh h0, hd⟩
  · refine Or.inr ⟨?_, hd⟩
    -- the node of the link is still linked, or has another link that waits
    refine { hw with occupied := fun {x n} hx hxh _ => ?_ }
    by_cases hxo : x = s.owner i
    · subst hxo
      have hpos := (hn n hx).resolve_left (by simp [hxh])
      have hc := hw.liveLinks hx
      rw [hxh] at hc
      have : 0 < r.countP ((s.withoutLink i).owner · = s.owner i) := by simpa [hc] using hpos
      obtain ⟨k, hk, hko⟩ := List.countP_pos_iff.1 this
      exact ⟨k, hk, by simpa using hko⟩
    · exact hw.occupied hx hxh (by simpa using hxo)

/-- Releasing a link that no pinned version sees. -/
theorem release_spec {i : Nat} {r : List Nat} (h : s.Sound (i :: r) [])
    (hr : ∀ k ∈ s.obsolete, k ∈ r) (hs : ∀ v ∈ s.timeline.pinned, ¬ s.links.Seen v i) (p : Pass) :
    ∃ t gone, s.release p i = (t, ⟨p.links + 1, p.nodes + gone.length, p.remaining⟩) ∧
      t.Sound r [] ∧ GivesBack s t gone ∧ t.obsolete = s.obsolete ∧
      t.links = s.links.release i := by
  have hg := givesBack_withoutLink h hs
  rcases release_cases h p with ⟨n, b, hn, hh, h0, hl, hw, he⟩ | ⟨hw, he⟩
  · refine ⟨_, [(n.id, n.element)], he, hw, ?_, ?_⟩
    · exact hg.trans (givesBack_withoutNode hl h.withoutLink hn hh h0 hr)
    · exact ⟨obsolete_emit _ _, links_withoutNode⟩
  · exact ⟨_, [], he, hw, hg, rfl, rfl⟩

theorem frees_emit (e : Event α) (s : Store α) : Frees s (emit e s) := by
  unfold emit
  split
  · exact ⟨rfl, fun _ => rfl, fun _ => rfl, id, fun hn => ⟨hn.first, hn.last⟩,
      fun hn _ => by rw [hn]; rfl⟩
  · exact .refl s

/-- Nothing is lost by telling of anything but a disposal. -/
theorem givesBack_emit {e : Event α} (he : disposals [e] = []) (s : Store α) :
    GivesBack s (emit e s) [] := by
  refine ⟨?_, frees_emit e s⟩
  unfold emit
  split
  · refine ⟨⟨{ Spares.refl s with }, ?_⟩, rfl⟩
    refine { Turnover.of_eq rfl rfl rfl with silent := ?_, heard := fun _ => ?_ }
    · intro hs
      simp_all
    · have hd : disposals (s.events ++ [e]) = disposals s.events ++ disposals [e] :=
        List.filterMap_append ..
      rw [hd, he, List.map_nil]
  · exact .refl s

/-! ## A pass -/

theorem GivesBack.not_seen {g : List (NodeId × α)} (h : GivesBack s t g) {v : Version} {i : Nat}
    (hi : i < s.links.size) (hs : ¬ s.links.Seen v i) : ¬ t.links.Seen v i := by
  rw [LinkTable.Seen, h.spares.grows.createdOn hi, h.obsoleteOn]
  exact hs

theorem Stamped.givesBack {g : List (NodeId × α)} (h : s.Stamped) (hg : GivesBack s t g)
    (ho : t.obsolete.Sublist s.obsolete) (hlt : ∀ i ∈ s.obsolete, i < s.links.size) :
    t.Stamped where
  timeline := by rw [hg.timeline]; exact h.timeline
  createdOn_le hi := by
    rw [hg.size] at hi
    rw [hg.spares.grows.createdOn hi, hg.timeline]
    exact h.createdOn_le hi
  tag hi := by
    rw [hg.obsoleteOn, hg.spares.grows.createdOn (hlt _ (ho.subset hi)), hg.timeline]
    exact h.tag (ho.subset hi)
  sorted := by
    refine (h.sorted.sublist ho).imp fun {a b} hab => ?_
    rw [hg.obsoleteOn, hg.obsoleteOn]
    exact hab

theorem releaseAll_spec {r : List Nat} :
    ∀ {due : List Nat} {s : Store α} (p : Pass), s.Sound (due ++ r) [] →
      (∀ k ∈ s.obsolete, k ∈ r) →
      (∀ i ∈ due, ∀ v ∈ s.timeline.pinned, ¬ s.links.Seen v i) →
      ∃ t gone, due.foldl (fun (s, p) i => s.release p i) (s, p) =
          (t, ⟨p.links + due.length, p.nodes + gone.length, p.remaining⟩) ∧
        t.Sound r [] ∧ GivesBack s t gone ∧ t.obsolete = s.obsolete := by
  intro due
  induction due with
  | nil =>
    intro s p h _ _
    exact ⟨s, [], rfl, h, .refl s, rfl⟩
  | cons i due ih =>
    intro s p h hr hs
    obtain ⟨t, g, he, ht, hg, hto, _⟩ := release_spec h
      (fun k hk => List.mem_append_right _ (hr k hk)) (hs i (List.mem_cons_self ..)) p
    have hs' : ∀ k ∈ due, ∀ v ∈ t.timeline.pinned, ¬ t.links.Seen v k := by
      intro k hk v hv
      rw [hg.timeline] at hv
      have hlt := h.retired_lt (List.mem_cons_of_mem _ (List.mem_append_left _ hk))
      exact hg.not_seen hlt (hs k (List.mem_cons_of_mem _ hk) v hv)
    obtain ⟨u, g', he', hu, hg', huo⟩ := ih _ ht (by rw [hto]; exact hr) hs'
    refine ⟨u, g ++ g', ?_, hu, hg.trans hg', huo.trans hto⟩
    rw [List.foldl_cons]
    change due.foldl _ (s.release p i) = _
    rw [he, he', List.length_cons, List.length_append]
    simp only [Nat.add_assoc, Nat.add_comm 1]

theorem frees_obsolete (s : Store α) (r : List Nat) : Frees s { s with obsolete := r } :=
  ⟨rfl, fun _ => rfl, fun _ => rfl, id, fun hn => ⟨hn.first, hn.last⟩, fun hn _ => by rw [hn]; rfl⟩

theorem GivesBack.shorten {due rest : List Nat} (ho : s.obsolete = due ++ rest)
    (hs : ∀ i ∈ due, ∀ v ∈ s.timeline.pinned, ¬ s.links.Seen v i) :
    GivesBack s { s with obsolete := rest } [] where
  toFrees := frees_obsolete s rest
  spares := {
    Spares.refl s with
    retained := fun {v i} hv _ hsn hi => by
      refine hi.imp id fun hi => ?_
      rw [ho] at hi
      exact (List.mem_append.1 hi).resolve_left fun hd => hs i hd v hv hsn }
  turnover := .of_eq rfl rfl rfl
  timeline := rfl

theorem Frees.record (h : Frees s t) (x : Totals) : Frees s { t with totals := x } :=
  { h with counted := fun hn => { h.counted hn with } }

theorem GivesBack.record {g : List (NodeId × α)} (h : GivesBack s t g) (x : Totals) :
    GivesBack s { t with totals := x } g :=
  { h with
    spares := { h.spares with }
    turnover := { h.turnover with }
    counted := fun hn => { h.counted hn with } }

theorem due_append_rest (s : Store α) (budget : Nat) :
    s.due budget ++ s.obsolete.drop (s.due budget).length = s.obsolete := by
  have hp : s.due budget <+: s.obsolete :=
    (List.take_prefix _ _).trans (List.takeWhile_prefix _)
  exact List.prefix_iff_eq_append.1 hp

/-- What is due may be taken out of the queue before it is released. -/
theorem Sound.shorten (h : s.Sound s.obsolete []) (budget : Nat) :
    ({ s with obsolete := s.obsolete.drop (s.due budget).length } : Store α).Sound
      (s.due budget ++ s.obsolete.drop (s.due budget).length) [] := by
  rw [due_append_rest]
  exact h.congr rfl rfl rfl rfl

theorem same_disposeNode (x : Handle) (s : Store α) (p : Pass) :
    (s.disposeNode x p).1.links = s.links ∧ (s.disposeNode x p).1.obsolete = s.obsolete := by
  unfold disposeNode
  split
  · split
    · split
      · exact ⟨links_emit _ _, obsolete_emit _ _⟩
      · exact ⟨rfl, rfl⟩
    · exact ⟨rfl, rfl⟩
  · exact ⟨rfl, rfl⟩

theorem same_release (s : Store α) (p : Pass) (i : Nat) :
    (s.release p i).1.links = s.links.release i ∧ (s.release p i).1.obsolete = s.obsolete :=
  same_disposeNode ..

theorem same_releaseAll (due : List Nat) (x : Store α × Pass) :
    (due.foldl (fun x i => x.1.release x.2 i) x).1.links = due.foldl LinkTable.release x.1.links ∧
      (due.foldl (fun x i => x.1.release x.2 i) x).1.obsolete = x.1.obsolete := by
  induction due generalizing x with
  | nil => exact ⟨rfl, rfl⟩
  | cons i due ih =>
    obtain ⟨hl, ho⟩ := ih (x.1.release x.2 i)
    obtain ⟨hl', ho'⟩ := same_release x.1 x.2 i
    rw [List.foldl_cons, List.foldl_cons, hl, ho, hl', ho']
    exact ⟨rfl, rfl⟩

/-- A pass releases the links that are due, one after the other. -/
theorem links_reclaim (s : Store α) (budget : Nat) :
    (s.reclaim budget).2.links = (s.due budget).foldl LinkTable.release s.links := by
  unfold reclaim
  split
  next he => rw [show s.due budget = [] by simp_all [due]]; rfl
  next => exact (same_releaseAll _ _).1

theorem obsolete_reclaim (s : Store α) (budget : Nat) :
    (s.reclaim budget).2.obsolete = s.obsolete.drop (s.due budget).length := by
  unfold reclaim
  split
  next he => simp_all
  next => exact (same_releaseAll _ _).2

theorem obsoleteOn_reclaim (s : Store α) (budget i : Nat) :
    ((s.reclaim budget).2.links.get i).obsoleteOn = (s.links.get i).obsoleteOn := by
  rw [links_reclaim]
  exact LinkTable.foldl_release_congr (f := fun t => (t.get i).obsoleteOn)
    (fun t k => LinkTable.obsoleteOn_release t k i) _ _

theorem owner_reclaim (s : Store α) (budget i : Nat) :
    (s.reclaim budget).2.owner i = s.owner i := by
  rw [Store.owner, links_reclaim]
  exact LinkTable.foldl_release_congr (f := fun t => (t.get i).owner)
    (fun t k => LinkTable.owner_release t k i) _ _

/-- A link may go whose tag lies before every pin. -/
theorem Stamped.not_seen_of_due (h : s.Stamped) {budget i : Nat} (hi : i ∈ s.due budget)
    {v : Version} (hv : v ∈ s.timeline.pinned) : ¬ s.links.Seen v i := by
  have hr := List.mem_takeWhile_imp (List.mem_of_mem_take hi)
  unfold isReclaimable at hr
  rintro ⟨_, hs⟩
  split at hr
  next w hw =>
    have hlt : w < s.timeline.oldestPinned := by simpa using hr
    exact absurd (hs w hw) (not_lt_of_gt (lt_of_lt_of_le hlt (h.timeline.oldestPinned_le hv)))
  next => cases hr

theorem reclaim_spec (h : s.Sound s.obsolete []) (hst : s.Stamped) (budget : Nat) :
    ∃ t gone, s.reclaim budget =
        (⟨(s.due budget).length, gone.length,
          s.obsolete.length - (s.due budget).length⟩, t) ∧
      t.Sound t.obsolete [] ∧ t.Stamped ∧ GivesBack s t gone ∧
      t.obsolete = s.obsolete.drop (s.due budget).length := by
  unfold reclaim
  by_cases he : s.obsolete = []
  · rw [if_pos (by rw [he]; rfl)]
    have hd : s.due budget = [] := by simp [due, he]
    exact ⟨s, [], by rw [hd, he]; rfl, h, hst, .refl s, by rw [hd]; rfl⟩
  rw [if_neg (by simpa using he)]
  have happ := due_append_rest s budget
  have hs : ∀ i ∈ s.due budget, ∀ v ∈ s.timeline.pinned, ¬ s.links.Seen v i :=
    fun i hi v hv => hst.not_seen_of_due hi hv
  obtain ⟨t, gone, hf, ht, hg, hto⟩ := releaseAll_spec {} (h.shorten budget) (fun _ hk => hk) hs
  have hgs : GivesBack s t gone := (GivesBack.shorten happ.symm hs).trans hg
  dsimp only
  rw [hf]
  let p : Pass := ⟨(s.due budget).length, gone.length, s.obsolete.length - (s.due budget).length⟩
  refine ⟨{ t with totals := t.totals.recordRun p }, gone, ?_, ?_, ?_, hgs.record _, hto⟩
  · rw [List.length_drop]
    simp only [Nat.zero_add]
    rfl
  · change Sound _ t.obsolete []
    rw [hto]
    exact ht.congr rfl rfl rfl rfl
  · have hsub : t.obsolete.Sublist s.obsolete := by
      rw [hto]
      exact List.drop_sublist _ _
    exact (hst.givesBack hgs hsub fun i hi => h.retired_lt hi).congr rfl rfl rfl

theorem reclaimPending_spec (h : s.Sound s.obsolete []) (hst : s.Stamped) :
    ∃ gone, s.reclaimPending.Sound s.reclaimPending.obsolete [] ∧ s.reclaimPending.Stamped ∧
      GivesBack s s.reclaimPending gone := by
  unfold reclaimPending
  split
  · obtain ⟨t, gone, he, ht, hts, hg, _⟩ := reclaim_spec h hst s.config.reclaimBatch
    rw [he]
    exact ⟨gone, ht, hts, hg⟩
  · exact ⟨[], h, hst, .refl s⟩

theorem obsolete_reclaimPending (s : Store α) :
    ∃ k, s.reclaimPending.obsolete = s.obsolete.drop k := by
  unfold reclaimPending
  split
  · exact ⟨_, obsolete_reclaim s _⟩
  · exact ⟨0, rfl⟩

theorem owner_reclaimPending (s : Store α) (i : Nat) : s.reclaimPending.owner i = s.owner i := by
  unfold reclaimPending
  split
  · exact owner_reclaim s _ i
  · rfl

end Store

end SnapshotDeque
