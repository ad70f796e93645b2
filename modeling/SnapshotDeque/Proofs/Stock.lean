import SnapshotDeque.Proofs.Retelling

/-!
Where elements can still be read. A link loses its element when it is given back, and with the last
of its links a node is disposed; so whoever comes upon an element, by whatever way through the
links, has come upon a node that is still in the arena. Main statement: all changes keep it that
way, disposal included.
-/

namespace SnapshotDeque.Store

variable {α ρ : Type} {s t : Store α} {r : List Nat} {i : Nat} {x : Handle}

/-- Only current links and those in `r` hold an element. -/
def Stocked (s : Store α) (r : List Nat) : Prop :=
  ∀ k, (s.links.get k).element.isSome → s.current? (s.owner k) = some k ∨ k ∈ r

theorem Stocked.congr (h : s.Stocked r) (hl : ∀ k, (t.links.get k).element.isSome →
    (s.links.get k).element.isSome ∧ t.owner k = s.owner k)
    (hc : ∀ y, t.current? y = s.current? y) : t.Stocked r := by
  intro k hk
  obtain ⟨he, ho⟩ := hl k hk
  rw [hc, ho]
  exact h k he

theorem Stocked.mono {r' : List Nat} (h : s.Stocked r) (hr : ∀ k ∈ r, k ∈ r') : s.Stocked r' :=
  fun k hk => (h k hk).imp_right (hr k)

/-- A link outside the table holds nothing. -/
theorem lt_size_of_element {k : Nat} (h : (s.links.get k).element.isSome) : k < s.links.size := by
  by_contra hk
  rw [LinkTable.get_of_size_le (Nat.le_of_not_lt hk)] at h
  cases h

/-! ## Giving links back -/

theorem element_of_release {t : LinkTable α} {k : Nat}
    (h : ((t.release i).get k).element.isSome) : k ≠ i ∧ (t.get k).element.isSome := by
  by_cases hk : k = i
  · subst hk
    rw [LinkTable.get_release] at h
    split at h
    next => cases h
    next hlt =>
      -- outside the table there is nothing to release
      rw [LinkTable.get_of_size_le (Nat.le_of_not_lt fun hk => hlt ⟨rfl, hk⟩)] at h
      unfold Link.forgetOlder at h
      split_ifs at h <;> cases h
  · rw [LinkTable.element_release hk] at h
    exact ⟨hk, h⟩

theorem Stocked.release (h : s.Stocked (i :: r)) (hs : s.Sound (i :: r) []) (p : Pass) :
    (s.release p i).1.Stocked r := by
  have hw : (s.withoutLink i).Stocked r := by
    intro k hk
    obtain ⟨hne, hk⟩ := element_of_release hk
    rw [current?_withoutLink, owner_withoutLink]
    exact (h k hk).imp_right fun hm => (List.mem_cons.1 hm).resolve_left hne
  rcases release_cases hs p with ⟨n, b, hn, hh, _, hl, _, he⟩ | ⟨_, he⟩
  · rw [he]
    refine hw.congr (fun k hk => ?_) (current?_withoutNode hl hn hh)
    rw [links_withoutNode] at hk
    exact ⟨hk, owner_withoutNode k⟩
  · rw [he]
    exact hw

theorem Stocked.releaseAll : ∀ {due : List Nat} {s : Store α} (p : Pass),
    s.Stocked (due ++ r) → s.Sound (due ++ r) [] →
    (due.foldl (fun (s, p) i => s.release p i) (s, p)).1.Stocked r := by
  intro due
  induction due with
  | nil => exact fun {s} _ h _ => h
  | cons i due ih =>
    intro s p h hs
    obtain ⟨t, ds, he, ht, _⟩ := release_yields hs p
    have hst := h.release hs p
    rw [List.foldl_cons]
    change (due.foldl _ (s.release p i)).1.Stocked r
    rw [he] at hst ⊢
    exact ih _ hst ht

theorem Stocked.reclaim (h : s.Stocked s.obsolete) (hs : s.Sound s.obsolete []) (budget : Nat) :
    (s.reclaim budget).2.Stocked (s.reclaim budget).2.obsolete := by
  have happ := due_append_rest s budget
  unfold Store.reclaim
  split
  · exact h
  · have hstart := hs.shorten budget
    have hall := Stocked.releaseAll {} (s := { s with
      obsolete := s.obsolete.drop (s.due budget).length }) (by rw [happ]; exact h) hstart
    obtain ⟨t, ds, hf, _, hy⟩ := releaseAll_yields {} hstart
    dsimp only
    rw [hf] at hall ⊢
    have ho : t.obsolete = s.obsolete.drop (s.due budget).length := hy.obsolete
    change t.Stocked t.obsolete
    rwa [ho]

/-! ## Along a change -/

theorem Stocked.emit (h : s.Stocked s.obsolete) (e : Event α) :
    (Store.emit e s).Stocked (Store.emit e s).obsolete := by
  unfold Store.emit
  split <;> exact h

theorem Stocked.supersede {sp : List Handle} (h : s.Stocked s.obsolete)
    (hs : s.Sound s.obsolete sp) (hi : s.current? x = some i) (v : Version) :
    (s.supersede i v).Stocked (s.obsolete ++ [i]) := by
  intro k hk
  have hlt := lt_size_of_element hk
  rw [links_supersede, LinkTable.size_forked] at hlt
  rw [current?_supersede hs hi]
  rcases Nat.lt_succ_iff_lt_or_eq.1 hlt with hlt | rfl
  · rw [links_supersede, LinkTable.element_forked (hs.current_lt hi) (hs.obsoleteOn hi) k hlt] at hk
    rw [owner_supersede hs hi hlt]
    rcases h k hk with hc | hm
    · split
      next hx =>
        -- the link that was current is retired now
        rw [hx, hi] at hc
        cases hc
        exact Or.inr (List.mem_append_right _ (List.mem_singleton.2 rfl))
      next => exact Or.inl hc
    · exact Or.inr (List.mem_append_left _ hm)
  · exact Or.inl (if_pos (owner_supersede_size hs hi))

theorem Stocked.unhooked (h : s.Stocked s.obsolete)
    (hx : x.isSentinel = false) (hi : s.current? x = some i) (q : List Nat) :
    (s.unhooked x q).Stocked (i :: s.obsolete) := by
  intro k hk
  rw [current?_unhooked hx]
  rcases h k hk with hc | hm
  · split
    next ho =>
      rw [show s.owner k = x from ho, hi] at hc
      cases hc
      exact Or.inr (List.mem_cons_self ..)
    next => exact Or.inl hc
  · exact Or.inr (List.mem_cons_of_mem _ hm)

theorem Stocked.unlinking (h : s.Stocked s.obsolete)
    (hx : x.isSentinel = false) (hi : s.current? x = some i) (q : List Nat) (v : Version) :
    (s.unlinking x q v).Stocked (i :: s.obsolete) := by
  have hu := h.unhooked hx hi q
  unfold Store.unlinking Store.emit
  split <;> exact hu

theorem Stocked.detach (h : s.Stocked s.obsolete) (hs : s.Sound s.obsolete [])
    (hx : x.isSentinel = false) (hi : s.current? x = some i) {v : Version}
    (ht : (Edit.detach x v).Returns s () t) : t.Stocked t.obsolete := by
  have hhead := (current?_of_payload hx).symm.trans hi
  by_cases ho : s.timeline.isObserved (s.links.get i).createdOn = true
  · obtain rfl : s.waiting x i v = t := by
      cases (returns_detach_waiting hhead ho).symm.trans ht
      rfl
    have hw := h.unlinking hx hi (s.obsolete ++ [i]) v
    rw [obsolete_waiting]
    refine (hw.congr (t := s.waiting x i v) (fun k hk => ?_) fun _ => rfl).mono fun k hk => ?_
    · change ((s.links.marked i v).get k).element.isSome at hk
      rw [LinkTable.element_marked] at hk
      rw [Store.owner, Store.owner, Store.unlinking, links_emit]
      exact ⟨hk, LinkTable.owner_marked ..⟩
    · exact (List.perm_append_singleton i s.obsolete).symm.subset hk
  · have hsu := hs.unlinking (v := v) hx hi s.obsolete
    obtain ⟨u, ds, he, _, hy⟩ := release_yields hsu {}
    obtain rfl : { u with totals := u.totals.recordReleased ⟨0 + 1, 0 + ds.length, 0⟩ } = t := by
      cases (returns_detach_released hhead ho he).symm.trans ht
      rfl
    have hr := (h.unlinking hx hi s.obsolete v).release hsu {}
    have huo : u.obsolete = s.obsolete := hy.obsolete.trans (obsolete_emit _ _)
    rw [he] at hr
    change u.Stocked u.obsolete
    rwa [huo]

/-- However a change goes about it, no link keeps its element that is given back. -/
theorem along_stocked :
    Along fun s t : Store α => s.Stocked s.obsolete → t.Stocked t.obsolete where
  refl _ h := h
  trans h h' hs := h' (h hs)
  retimed _ _ _ h := h
  reclaim hs budget h := h.reclaim hs budget
  supersede {s sp x i} hs hi _ h := h.supersede hs hi _
  links {s l} hl _ _ h := by
    refine Stocked.congr h (fun k hk => ⟨?_, hl.owner k⟩) fun _ => rfl
    rw [← hl.element]
    exact hk
  detach hs hx hi ht h := h.detach hs hx hi ht
  withArena hg h := Stocked.congr h (fun _ hk => ⟨hk, rfl⟩) (current?_gained hg)
  enlisted {s x n a l} hs hn hh hl _ _ h := by
    intro k hk
    have hlt := lt_size_of_element hk
    rw [links_enlisted, LinkTable.size_push] at hlt
    rw [obsolete_enlisted, current?_enlisted hn]
    rcases Nat.lt_succ_iff_lt_or_eq.1 hlt with hlt | rfl
    · rw [links_enlisted, LinkTable.get_push_of_lt hlt] at hk
      rw [owner_enlisted hlt]
      refine (h k hk).imp_left fun hc => ?_
      -- before that the node had no current link
      rw [if_neg fun hx => ?_]
      · exact hc
      · rw [hx, current?_of_node hn, hh] at hc
        cases hc
    · exact Or.inl (if_pos (by rw [owner, links_enlisted, LinkTable.get_push_size, hl.owner]))
  emit _ e h := h.emit e

/-! ## What is shown -/

/-- What a link shows is the element of a node that is in the arena, if the nodes of the retired
links are. -/
theorem Stocked.isSome_of_shown (h : s.Stocked s.obsolete)
    (hr : ∀ i ∈ s.obsolete, (s.owner i).isSentinel = false → (s.arena.get? (s.owner i)).isSome)
    {a : α} (ha : (s.links.get i).shown? = some a) : (s.arena.get? (s.owner i)).isSome := by
  unfold Link.shown? at ha
  split at ha
  next => cases ha
  next hp =>
    have hp : (s.owner i).isSentinel = false := Bool.not_eq_true _ ▸ hp
    rcases h i (by rw [ha]; rfl) with hc | hm
    · obtain ⟨n, hn, _⟩ := exists_node_of_current? hp hc
      rw [hn]
      rfl
    · exact hr i hm hp

/-! ## Disposal -/

theorem element_of_foldl_release : ∀ {is : List Nat} {t : LinkTable α},
    ((is.foldl (fun t i => t.modify i Link.release) t).get i).element.isSome →
      i ∉ is ∧ (t.get i).element.isSome := by
  intro is
  induction is with
  | nil => exact fun h => ⟨List.not_mem_nil, h⟩
  | cons j is ih =>
    intro t h
    obtain ⟨hni, he⟩ := ih h
    rw [LinkTable.get_modify] at he
    split at he
    next => cases he
    next hj =>
      refine ⟨fun hm => (List.mem_cons.1 hm).elim (fun hij => ?_) hni, he⟩
      have hle : t.size ≤ i := Nat.le_of_not_lt fun hlt => hj ⟨hij.symm, hlt⟩
      rw [LinkTable.get_of_size_le hle] at he
      cases he

/-- Disposal leaves no element. -/
theorem Stocked.element_dispose (h : s.Stocked s.obsolete) (hs : s.Sound s.obsolete []) (i : Nat) :
    (s.dispose.links.get i).element = none := by
  rw [← Option.not_isSome_iff_eq_none]
  intro hd
  have hd : ((List.foldl (fun t i => t.modify i Link.release) s.links
      (s.obsolete ++ s.arena.nodes.filterMap (·.head) ++ [s.beginLink, s.endLink])).get
        i).element.isSome := by
    unfold dispose at hd
    dsimp only at hd
    rw [LinkTable.get_modify] at hd
    split at hd <;> exact hd
  obtain ⟨hni, he⟩ := element_of_foldl_release hd
  simp only [List.mem_append, List.mem_filterMap, List.mem_cons, List.not_mem_nil, or_false,
    not_or] at hni
  obtain ⟨⟨hob, hhead⟩, hb, hl⟩ := hni
  rcases h i he with hc | hm
  · unfold current? at hc
    split at hc
    next => exact hb (Option.some.inj hc).symm
    next =>
      split at hc
      next => exact hl (Option.some.inj hc).symm
      next =>
        obtain ⟨n, hn, hi⟩ := Option.bind_eq_some_iff.1 hc
        exact hhead ⟨n, (Arena.mem_nodes hs.arena.limit).2 ⟨_, (Arena.get?_eq_some.1 hn).2.2⟩, hi⟩
  · exact hob hm

end SnapshotDeque.Store
