import SnapshotDeque.Proofs.Draining
import SnapshotDeque.Proofs.Sweeping

/-!
What a change retires, and in which condition. Links are retired with the modification version as
their tag, and only while a version is pinned, since else nobody is there to see them. A link that
is not given back still names a neighbour, which a released link does not.
-/

namespace SnapshotDeque

namespace Timeline

theorem pinned_ne_nil_of_isObserved {t : Timeline} {c : Version} (h : t.isObserved c = true) :
    t.pinned ≠ [] := by
  intro hp
  simp [isObserved, hp] at h

end Timeline

/-- Whether the link holds nothing any more that `Link.release` takes. -/
def Link.Released {α : Type} (l : Link α) : Prop :=
  l.element = none ∧ l.previous = none ∧ l.next = none ∧ l.older = none

namespace LinkTable

variable {α : Type} {t : LinkTable α} {is : List Nat} {i : Nat}

theorem Moored.not_released (h : t.Moored i) : ¬ (t.get i).Released := by
  rintro ⟨_, hp, hn, _⟩
  rcases h with h | h
  · simp [hp] at h
  · simp [hn] at h

theorem Moored.release (h : t.Moored i) {k : Nat} (hk : i ≠ k) : (t.release k).Moored i := by
  unfold Moored
  rw [previous_release hk, next_release hk]
  exact h

theorem moored_foldl_release (h : t.Moored i) (hi : i ∉ is) :
    (is.foldl LinkTable.release t).Moored i := by
  induction is generalizing t with
  | nil => exact h
  | cons k is ih =>
    rw [List.mem_cons, not_or] at hi
    exact ih (h.release hi.1) hi.2

end LinkTable

namespace Store

variable {α ρ : Type} {s t u : Store α}

/-! ## Tags -/

/-- From `s` to `t` no tag is lost and no version unpinned; what is tagged is so with the
modification version of then, and retired only for a version that is pinned. -/
structure Retires (s t : Store α) : Prop where
  modification : s.timeline.modification ≤ t.timeline.modification
  pinned : ∀ w ∈ s.timeline.pinned, w ∈ t.timeline.pinned
  kept : ∀ {i v}, (s.links.get i).obsoleteOn = some v → (t.links.get i).obsoleteOn = some v
  tagged : ∀ {i v}, (s.links.get i).obsoleteOn = none → (t.links.get i).obsoleteOn = some v →
    s.timeline.modification ≤ v ∧ v ≤ t.timeline.modification
  queue : ∀ i ∈ t.obsolete, i ∈ s.obsolete ∨
    (s.links.get i).obsoleteOn = none ∧ t.timeline.pinned ≠ []

theorem Retires.of_eq (hl : ∀ i, (t.links.get i).obsoleteOn = (s.links.get i).obsoleteOn)
    (hm : s.timeline.modification ≤ t.timeline.modification)
    (hp : ∀ w ∈ s.timeline.pinned, w ∈ t.timeline.pinned) (ho : ∀ i ∈ t.obsolete, i ∈ s.obsolete) :
    Retires s t where
  modification := hm
  pinned := hp
  kept hv := (hl _).trans hv
  tagged hn hv := by simp [hl, hn] at hv
  queue i hi := Or.inl (ho i hi)

theorem Retires.refl (s : Store α) : Retires s s :=
  .of_eq (fun _ => rfl) (le_refl _) (fun _ h => h) fun _ h => h

theorem Retires.untagged (h : Retires s t) {i : Nat} (ht : (t.links.get i).obsoleteOn = none) :
    (s.links.get i).obsoleteOn = none := by
  cases hs : (s.links.get i).obsoleteOn with
  | none => rfl
  | some v => simp [h.kept hs] at ht

theorem Retires.trans (h : Retires s t) (h' : Retires t u) : Retires s u where
  modification := le_trans h.modification h'.modification
  pinned w hw := h'.pinned w (h.pinned w hw)
  kept hv := h'.kept (h.kept hv)
  tagged {i v} hn hv := by
    cases ht : (t.links.get i).obsoleteOn with
    | none => exact (h'.tagged ht hv).imp_left (le_trans h.modification)
    | some w =>
      obtain rfl : w = v := Option.some.inj ((h'.kept ht).symm.trans hv)
      exact (h.tagged hn ht).imp_right fun hle => le_trans hle h'.modification
  queue i hi := by
    rcases h'.queue i hi with hi | ⟨hn, hp⟩
    · refine (h.queue i hi).imp_right fun ⟨hn, hp⟩ => ⟨hn, ?_⟩
      obtain ⟨w, hw⟩ := List.exists_mem_of_ne_nil _ hp
      exact List.ne_nil_of_mem (h'.pinned w hw)
    · exact Or.inr ⟨h.untagged hn, hp⟩

theorem retires_reclaim (s : Store α) (budget : Nat) : Retires s (s.reclaim budget).2 := by
  refine .of_eq (obsoleteOn_reclaim s budget) (by rw [timeline_reclaim])
    (fun w hw => by rwa [timeline_reclaim]) ?_
  rw [obsolete_reclaim]
  exact fun i => List.mem_of_mem_drop

/-- Link `i` is tagged and joins the queue, and no other link is tagged. -/
theorem Retires.of_joined {i : Nat} (hn : (s.links.get i).obsoleteOn = none)
    (hi : (t.links.get i).obsoleteOn = some s.timeline.modification)
    (hl : ∀ k, k ≠ i → (t.links.get k).obsoleteOn = (s.links.get k).obsoleteOn)
    (ht : t.timeline = s.timeline) (hp : s.timeline.pinned ≠ [])
    (ho : t.obsolete = s.obsolete ++ [i]) : Retires s t where
  modification := by rw [ht]
  pinned w hw := by rwa [ht]
  kept {k v} hv := by
    have hk : k ≠ i := fun e => by simp [e, hn] at hv
    rwa [hl k hk]
  tagged {k v} hk hv := by
    by_cases hki : k = i
    · rw [hki, hi, Option.some.injEq] at hv
      rw [ht, hv]
      exact ⟨le_refl _, le_refl _⟩
    · simp [hl k hki, hk] at hv
  queue k hk := by
    rw [ho] at hk
    refine (List.mem_append.1 hk).imp_right fun hk => ?_
    rw [List.mem_singleton.1 hk, ht]
    exact ⟨hn, hp⟩

theorem retires_supersede {sp : List Handle} {x : Handle} {i : Nat} (h : s.Sound s.obsolete sp)
    (hi : s.current? x = some i)
    (ho : s.timeline.isObserved (s.links.get i).createdOn = true) :
    Retires s (s.supersede i s.timeline.modification) := by
  have hlt := h.current_lt hi
  have hnone := h.obsoleteOn hi
  refine .of_joined hnone ?_ (fun k hk => ?_) timeline_supersede
    (Timeline.pinned_ne_nil_of_isObserved ho) obsolete_supersede
  · rw [links_supersede, LinkTable.get_forked_self hlt hnone]
  · rw [links_supersede, LinkTable.get_forked hlt hnone, if_neg hk]
    split
    next hks => rw [hks, LinkTable.get_of_size_le (Nat.le_refl _)]; rfl
    next => rfl

theorem retires_detach {x : Handle} {i : Nat} (h : s.Sound s.obsolete [])
    (hx : x.isSentinel = false) (hi : s.current? x = some i)
    (ht : (Edit.detach x s.timeline.modification).Returns s () t) : Retires s t := by
  rcases detach_cases h hx hi ht with ⟨ho, rfl⟩ | ⟨_, hl, hob, htl, _⟩
  · have hnone := h.obsoleteOn hi
    refine .of_joined hnone ?_ (fun k hk => ?_) timeline_waiting
      (Timeline.pinned_ne_nil_of_isObserved ho) obsolete_waiting
    · exact LinkTable.obsoleteOn_marked (h.current_lt hi) hnone
    · exact congrArg Link.obsoleteOn (LinkTable.get_marked_of_ne _ _ _ hk)
  · refine .of_eq (fun k => ?_) (by rw [htl]) (fun w hw => by rwa [htl]) fun k hk => by rwa [← hob]
    rw [hl]
    exact LinkTable.obsoleteOn_release _ _ k

/-- However a change goes about it, unless it closes a snapshot. -/
theorem along_retires : Along (Retires (α := α)) where
  refl := .refl
  trans := .trans
  retimed _ hm hp := .of_eq (fun _ => rfl) hm hp fun _ h => h
  reclaim _ budget := retires_reclaim _ budget
  supersede := retires_supersede
  links hl _ _ := .of_eq hl.obsoleteOn (le_refl _) (fun _ h => h) fun _ h => h
  detach := retires_detach
  withArena _ := .of_eq (fun _ => rfl) (le_refl _) (fun _ h => h) fun _ h => h
  enlisted {s x n a l} _ _ _ hl _ _ := by
    refine .of_eq (fun k => ?_) (by simp) (fun w hw => by simpa using hw)
      fun k hk => by simpa using hk
    rw [links_enlisted, LinkTable.get_push]
    split
    next hk => rw [hk, LinkTable.get_of_size_le (Nat.le_refl _), hl.obsoleteOn]; rfl
    next => rfl
  emit s e :=
    .of_eq (fun _ => by rw [links_emit]) (by rw [timeline_emit])
      (fun w hw => by rwa [timeline_emit]) fun k hk => by rwa [obsolete_emit] at hk

/-! ## Neighbours -/

/-- Whether the links that are not given back name neighbours. -/
def Anchored (s : Store α) : Prop := ∀ i, s.Retained i → s.links.Moored i

theorem Anchored.not_released (h : s.Anchored) {i : Nat} (hi : i ∈ s.obsolete) :
    ¬ (s.links.get i).Released := (h i (Or.inr hi)).not_released

theorem frees_reclaim (h : s.Sound s.obsolete []) (budget : Nat) :
    Frees s (s.reclaim budget).2 := by
  unfold reclaim
  split
  · exact .refl s
  · obtain ⟨t, ds, hf, _, hy⟩ := releaseAll_yields {} (h.shorten budget)
    dsimp only
    rw [hf]
    exact ((frees_obsolete s _).trans hy.toFrees).record _

/-- What is retained after a pass was so before it, and was not due. -/
theorem retained_of_reclaim (h : s.Sound s.obsolete []) {budget i : Nat}
    (hi : (s.reclaim budget).2.Retained i) : s.Retained i ∧ i ∉ s.due budget := by
  have happ := due_append_rest s budget
  have hob := obsolete_reclaim s budget
  rw [Retained, owner_reclaim, (frees_reclaim h budget).current?, hob] at hi
  have hmem : ∀ {k}, k ∈ s.due budget → k ∈ s.obsolete := fun hk => by
    rw [← happ]
    exact List.mem_append_left _ hk
  rcases hi with hi | hi
  · exact ⟨Or.inl hi, fun hd => h.retired_ne (hmem hd) hi⟩
  · refine ⟨Or.inr (List.mem_of_mem_drop hi), fun hd => ?_⟩
    have hnd := h.nodup
    rw [← happ, List.nodup_append] at hnd
    exact hnd.2.2 i hd i hi rfl

theorem Anchored.reclaim (h : s.Anchored) (hs : s.Sound s.obsolete []) (budget : Nat) :
    (s.reclaim budget).2.Anchored := by
  intro i hi
  obtain ⟨hi, hd⟩ := retained_of_reclaim hs hi
  rw [links_reclaim]
  exact LinkTable.moored_foldl_release (h i hi) hd

theorem Sound.retained {r : List Nat} {sp : List Handle} {x : Handle} {i : Nat} (h : s.Sound r sp)
    (hi : s.current? x = some i) : s.Retained i :=
  Or.inl ((h.owner hi).symm ▸ hi)

/-- What is retained once link `i` is superseded was so before, or is the successor. -/
theorem retained_of_supersede {sp : List Handle} {x : Handle} {i k : Nat} {v : Version}
    (hs : s.Sound s.obsolete sp) (hi : s.current? x = some i)
    (hk : (s.supersede i v).Retained k) : k = s.links.size ∨ s.Retained k := by
  rcases hk with hc | ho
  · rcases current?_supersede_cases hs hi hc with ⟨_, rfl⟩ | ⟨_, hc, hks, _⟩
    · exact Or.inl rfl
    · rw [owner_supersede hs hi hks] at hc
      exact Or.inr (Or.inl hc)
  · rcases List.mem_append.1 (obsolete_supersede ▸ ho) with ho | ho
    · exact Or.inr (Or.inr ho)
    · obtain rfl := List.mem_singleton.1 ho
      exact Or.inr (hs.retained hi)

/-- A successor has the neighbours of the link that it takes the place of. -/
theorem Anchored.supersede (h : s.Anchored) {sp : List Handle} {x : Handle} {i : Nat}
    (hs : s.Sound s.obsolete sp) (hi : s.current? x = some i) (v : Version) :
    (s.supersede i v).Anchored := by
  intro k hk
  have hmi : s.links.Moored i := h i (hs.retained hi)
  have hm := (retained_of_supersede hs hi hk).imp_right (h k)
  unfold LinkTable.Moored
  rw [links_supersede, LinkTable.get_forked (hs.current_lt hi) (hs.obsoleteOn hi)]
  split
  · exact hmi
  next hks =>
    split
    · exact hmi
    · exact hm.resolve_left hks

/-- What is retained once the node of link `i` is unlinked was so before, and is another link unless
that one is retired. -/
theorem retained_of_detach {x : Handle} {i k : Nat} (hs : s.Sound s.obsolete [])
    (hx : x.isSentinel = false) (hi : s.current? x = some i)
    (ht : (Edit.detach x s.timeline.modification).Returns s () t) (hk : t.Retained k) :
    s.Retained k ∧ (k = i → i ∈ t.obsolete) := by
  obtain ⟨t', ht', _, _, hu, _⟩ := told_detach hs hx hi rfl
  obtain rfl : t = t' := by
    cases ht'.symm.trans ht
    rfl
  have hown : t.owner k = s.owner k := by
    rcases detach_cases hs hx hi ht with ⟨_, rfl⟩ | ⟨_, hl, _⟩
    · exact LinkTable.owner_marked _ _ _ k
    · rw [Store.owner, hl]
      exact LinkTable.owner_release s.links i k
  rw [Retained, hown] at hk
  have hne : k = i → i ∈ t.obsolete := by
    rintro rfl
    refine hk.resolve_left fun hc => ?_
    rw [hs.owner hi, hu.unlinked] at hc
    cases hc
  refine ⟨?_, hne⟩
  by_cases hki : k = i
  · exact hki ▸ hs.retained hi
  · rcases hk with hc | ho
    · exact Or.inl ((current?_of_unhooks hi hu hki).1 hc)
    · rcases detach_cases hs hx hi ht with ⟨_, rfl⟩ | ⟨_, _, hob, _⟩
      · rw [obsolete_waiting] at ho
        exact Or.inr ((List.mem_append.1 ho).resolve_right (by simpa using hki))
      · exact Or.inr (hob ▸ ho)

theorem Anchored.detach (h : s.Anchored) {x : Handle} {i : Nat} (hs : s.Sound s.obsolete [])
    (hx : x.isSentinel = false) (hi : s.current? x = some i)
    (ht : (Edit.detach x s.timeline.modification).Returns s () t) : t.Anchored := by
  intro k hk
  obtain ⟨hm, hne⟩ := (retained_of_detach hs hx hi ht hk).imp_left (h k)
  rcases detach_cases hs hx hi ht with ⟨_, rfl⟩ | ⟨_, hl, hob, _⟩
  · change (s.links.marked i _).Moored k
    unfold LinkTable.Moored
    rw [LinkTable.previous_marked, LinkTable.next_marked]
    exact hm
  · -- the link that was given back is not retained
    rw [hl]
    refine hm.release fun e => ?_
    exact hs.retired_ne (hob ▸ hne e) ((hs.owner hi).symm ▸ hi)

/-- What is retained once a node is enlisted was so before, or is its link. -/
theorem retained_of_enlisted {x : Handle} {n : Node α} {k : Link α} {i : Nat}
    (hs : s.Sound s.obsolete [x]) (hn : s.arena.get? x = some n)
    (hi : (s.enlisted x k).Retained i) :
    i = s.links.size ∧ (s.enlisted x k).current? ((s.enlisted x k).owner i) = some i ∨
      i < s.links.size ∧ s.Retained i := by
  rcases hi with hc | ho
  · rcases current?_enlisted_cases hn hs hc with ⟨_, rfl⟩ | ⟨_, hc', hlt⟩
    · exact Or.inl ⟨rfl, hc⟩
    · rw [owner_enlisted hlt] at hc'
      exact Or.inr ⟨hlt, Or.inl hc'⟩
  · rw [obsolete_enlisted] at ho
    exact Or.inr ⟨hs.retired_lt ho, Or.inr ho⟩

theorem retained_emit (s : Store α) (e : Event α) (i : Nat) :
    (emit e s).Retained i ↔ s.Retained i := by
  unfold emit
  split <;> exact Iff.rfl

/-- However a change goes about it, the links that are not given back name neighbours. -/
theorem along_anchored : Along fun s t : Store α => s.Anchored → t.Anchored where
  refl _ h := h
  trans h h' hs := h' (h hs)
  retimed _ _ _ h := h
  reclaim hs budget h := h.reclaim hs budget
  supersede hs hi _ h := h.supersede hs hi _
  links {s l} hl _ hm h i hi := by
    rw [Retained, Store.owner, hl.owner] at hi
    exact hm (h i hi)
  detach hs hx hi ht h := h.detach hs hx hi ht
  withArena {s b x a} hg h i hi := by
    rw [Retained, current?_gained hg] at hi
    exact h i hi
  enlisted {s x n a l} hs hn _ hl _ hm h i hi := by
    unfold LinkTable.Moored
    rw [links_enlisted]
    rcases retained_of_enlisted hs hn hi with ⟨rfl, _⟩ | ⟨hlt, hi⟩
    · rw [LinkTable.get_push_size]
      exact Or.inl hm
    · rw [LinkTable.get_push_of_lt hlt]
      exact h i hi
  emit s e h i hi := by
    rw [links_emit]
    exact h i ((retained_emit s e i).1 hi)

theorem anchored_init (c : Config) : (.init c : Store α).Anchored := by
  intro i hi
  unfold LinkTable.Moored
  rw [get_init]
  rcases hi with hc | ho
  · rcases current?_init c hc with ⟨_, rfl⟩ | ⟨_, rfl⟩
    · exact Or.inr rfl
    · exact Or.inl rfl
  · exact absurd ho List.not_mem_nil

end Store

namespace World

variable {α : Type} {c : Config} {w : World α}

theorem Reached.anchored (h : Reached c w) (ho : w.store.disposed = false) : w.store.Anchored :=
  h.carried Store.along_anchored (Store.anchored_init c) (fun _ _ _ h => h) (fun _ _ _ h => h) ho

end World

end SnapshotDeque
