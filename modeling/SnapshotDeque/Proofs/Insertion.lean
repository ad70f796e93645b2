import SnapshotDeque.Proofs.Linking
import SnapshotDeque.Proofs.Removal

/-!
Insertion of nodes. A new node is put at one end of the list; several nodes are put there one after
the other, all with one stamp.
-/

namespace SnapshotDeque

namespace Edit

variable {α : Type}

/-- Takes the elements in such an order that, each put at the end, they end up as they are given. -/
def inOrder (f : α → Edit α Handle) (elements : List α) : End → Edit α (List Handle)
  | .last => elements.mapM f
  | .first => return (← elements.reverse.mapM f).reverse

end Edit

namespace Store

variable {α : Type} {s t : Store α} {v : Version}

/-! ## Several nodes -/

/-- `t` is `s` after the pairs in `es` were linked, one after the other. -/
structure Links (s t : Store α) (es : List (Handle × α)) : Prop where
  changes : ∃ born : List (NodeId × α), (born.map (·.2)).Perm (es.map (·.2)) ∧ Changes s t born []
  fresh : ∀ e ∈ es, s.arena.get? e.1 = none
  element : ∀ y, y ∉ es.map (·.1) →
    (t.arena.get? y).map (·.element) = (s.arena.get? y).map (·.element)

theorem Links.cons {u : Store α} {e : Handle × α} {es : List (Handle × α)} (h : Links s t [e])
    (he : t.arena.get? e.1 ≠ none) (h' : Links t u es) : Links s u (e :: es) := by
  obtain ⟨b, hb, ha⟩ := h.changes
  obtain ⟨b', hb', ha'⟩ := h'.changes
  refine ⟨⟨b ++ b', ?_, ha.trans ha'⟩, fun d hd => ?_, fun y hy => ?_⟩
  · rw [List.map_append]
    exact hb.append hb'
  · rcases List.mem_cons.1 hd with rfl | hd
    · exact h.fresh d (List.mem_singleton.2 rfl)
    · have hf := h'.fresh d hd
      have hne : d.1 ∉ [e].map (·.1) := by
        rw [List.map_singleton, List.mem_singleton]
        exact fun e' => he (e' ▸ hf)
      have := h.element d.1 hne
      rw [hf, Option.map_none] at this
      exact Option.map_eq_none_iff.1 this.symm
  · rw [List.map_cons, List.mem_cons, not_or] at hy
    rw [h'.element y hy.2]
    exact h.element y (by simpa using hy.1)

theorem Links.reverse {es : List (Handle × α)} (h : Links s t es) : Links s t es.reverse where
  changes := by
    obtain ⟨b, hb, hc⟩ := h.changes
    rw [List.map_reverse]
    exact ⟨b, hb.trans (List.reverse_perm _).symm, hc⟩
  fresh e he := h.fresh e (List.mem_reverse.1 he)
  element y hy := h.element y (by simpa using hy)

theorem Links.minted {es : List (Handle × α)} (h : Links s.minted t es)
    (hc : Changes s s.minted [] []) : Links s t es where
  changes := by
    obtain ⟨b, hb, hct⟩ := h.changes
    exact ⟨b, hb, hc.trans hct⟩
  fresh := h.fresh
  element := h.element

theorem splice_links {l : List (Handle × α)} (h : s.Live l) (hs : s.Stamp v) (a : α) (side : End) :
    (∃ x t, (Edit.splice a side v).Returns s x t ∧ t.Live (side.add [(x, a)] l) ∧
        Links s t [(x, a)] ∧ t.Stamp v ∧ t.arena.size = s.arena.size + 1) ∨
      (Edit.splice a side v).Fails s Arena.exhausted s ∧
        s.arena.size + 2 = Arena.slotLimit := by
  rcases Regime.splice_spec (R := .stamped α v) h.toShaped (h.changing hs) a side with
    ⟨x, t, ht, hl, hc, hi, _⟩ | hf
  · refine Or.inl ⟨x, t, ht, ⟨hl, hc.stamped⟩, ⟨⟨_, .refl _, hi.toChanges⟩, ?_, ?_⟩, hc.stamp, ?_⟩
    · intro e he
      rw [List.mem_singleton.1 he]
      exact hi.fresh
    · exact fun y hy => hi.element y (by simpa using hy)
    · have := hi.turnover.size h.sound.arena hl.sound.arena
      simp only [List.length_nil, List.length_singleton] at this
      omega
  · exact Or.inr hf

theorem spliceAll_spec (side : End) : ∀ (as : List α) {s : Store α} {l : List (Handle × α)},
    s.Live l → s.Stamp v →
      (∃ es t, es.map (·.2) = as ∧
          (as.mapM (Edit.splice · side v)).Returns s (es.map (·.1)) t ∧
          t.Live (side.pushAll es l) ∧ Links s t es) ∨
        ∃ t l' born, (as.mapM (Edit.splice · side v)).Fails s Arena.exhausted t ∧ t.Live l' ∧
          l'.length ≤ l.length + as.length ∧ Changes s t born [] ∧
          t.arena.size + 2 = Arena.slotLimit ∧ Arena.slotLimit < s.arena.size + as.length + 2 := by
  intro as
  induction as with
  | nil =>
    intro s l h _
    refine Or.inl ⟨[], s, rfl, ?_, ?_, ⟨⟨[], .refl _, .refl s⟩, by simp, fun _ _ => rfl⟩⟩
    · rw [List.mapM_nil]
      exact Edit.returns_pure _ s
    · rw [End.pushAll_nil]
      exact h
  | cons a as ih =>
    intro s l h hs
    rw [List.mapM_cons]
    rcases splice_links h hs a side with ⟨x, t, ht, hl, hk, hst, hsize⟩ | ⟨hf, hfull⟩
    · have hx : t.arena.get? x ≠ none := by
        have hm : (x, a) ∈ side.add [(x, a)] l := by cases side <;> simp [End.add]
        have := hl.element _ hm
        intro e
        rw [e] at this
        cases this
      rcases ih hl hst with
        ⟨es, u, hes, hu, hlu, hku⟩ | ⟨u, l', born, hu, hlu, hle, ha, hfull, hlt⟩
      · refine Or.inl ⟨(x, a) :: es, u, by rw [List.map_cons, hes], ?_, ?_, hk.cons hx hku⟩
        · exact ht.bind (hu.bind (Edit.returns_pure _ u))
        · rw [End.pushAll_cons]
          exact hlu
      · obtain ⟨b, _, hb⟩ := hk.changes
        rw [End.length_add, List.length_singleton] at hle
        refine Or.inr ⟨u, l', b ++ born, ht.bind_fails hu.bind, hlu, ?_, hb.trans ha, hfull, ?_⟩
        all_goals
          rw [List.length_cons]
          omega
    · refine Or.inr ⟨s, l, [], hf.bind, h, Nat.le_add_right _ _, .refl s, hfull, ?_⟩
      rw [List.length_cons]
      omega

theorem spliceInOrder_spec {l : List (Handle × α)} (h : s.Live l) (hs : s.Stamp v) (side : End)
    (as : List α) :
    (∃ es t, es.map (·.2) = as ∧
        (Edit.inOrder (Edit.splice · side v) as side).Returns s (es.map (·.1)) t ∧
        t.Live (side.add es l) ∧ Links s t es) ∨
      ∃ t l' born, (Edit.inOrder (Edit.splice · side v) as side).Fails s Arena.exhausted t ∧
        t.Live l' ∧ l'.length ≤ l.length + as.length ∧ Changes s t born [] ∧
        t.arena.size + 2 = Arena.slotLimit ∧ Arena.slotLimit < s.arena.size + as.length + 2 := by
  cases side with
  | last => exact spliceAll_spec .last as h hs
  | first =>
    rcases spliceAll_spec .first as.reverse h hs with
      ⟨es, t, hes, ht, hlt, hk⟩ | ⟨t, l', b, hf, hrest⟩
    · refine Or.inl ⟨es.reverse, t, ?_, ?_, hlt, hk.reverse⟩
      · rw [List.map_reverse, hes, List.reverse_reverse]
      · rw [List.map_reverse]
        exact ht.bind (Edit.returns_pure _ t)
    · rw [List.length_reverse] at hrest
      exact Or.inr ⟨t, l', b, hf.bind, hrest⟩

/-! ## Insertion as a change -/

theorem returns_checkCapacity {l : List (Handle × α)} (h : s.Shaped l) {n : Nat}
    (hn : l.length + n ≤ s.capacity) : (Edit.checkCapacity n).Returns s () s := by
  unfold Edit.checkCapacity
  refine (Edit.returns_get s).bind ?_
  rw [h.length_eq, if_neg (Nat.not_lt.2 hn)]
  exact Edit.returns_pure () s

theorem fails_checkCapacity {l : List (Handle × α)} (h : s.Shaped l) {n : Nat}
    (hn : s.capacity < l.length + n) :
    (Edit.checkCapacity n).Fails s (.capacityExceeded s.capacity) s := by
  unfold Edit.checkCapacity
  refine (Edit.returns_get s).bind_fails ?_
  rw [h.length_eq, if_pos hn]
  exact Edit.fails_throw _ s

section Insert

variable {l : List (Handle × α)} (h : s.Live l) (side : End)

include h

theorem fails_insert (a : α) (hn : s.capacity < l.length + 1) :
    (Edit.insert a side).Fails s (.capacityExceeded s.capacity) s :=
  (fails_checkCapacity h.toShaped hn).bind

theorem fails_insertAll (as : List α) (hn : s.capacity < l.length + as.length) :
    (Edit.insertAll as side).Fails s (.capacityExceeded s.capacity) s :=
  (fails_checkCapacity h.toShaped hn).bind

omit h in
theorem insert_apply (h : s.Shaped l) (a : α) (hn : l.length + 1 ≤ s.capacity) :
    Edit.insert a side s = (Edit.mint >>= fun v => Edit.splice a side v) s :=
  (returns_checkCapacity h hn).bind_apply _

theorem insert_spec (a : α) (hn : l.length + 1 ≤ s.capacity)
    (hv : ((Edit.insert a side).after s).timeline.modification < .max) :
    (∃ x t, (Edit.insert a side).Returns s x t ∧ t.Live (side.add [(x, a)] l) ∧
        Links s t [(x, a)]) ∨
      ∃ t, (Edit.insert a side).Fails s Arena.exhausted t ∧ t.Live l ∧ Changes s t [] [] ∧
        t.arena.size + 2 = Arena.slotLimit ∧ Arena.slotLimit < s.arena.size + 1 + 2 := by
  have heq := insert_apply side h.toShaped a hn
  obtain ⟨hl, hst, hch⟩ := h.minted
    (Edit.advance_lt_of_after heq (fun _ => (Edit.Built.splice a side trivial).rises) hv)
  rcases splice_links hl hst a side with ⟨x, t, ht, hlt, hk, _⟩ | ⟨hf, hfull⟩
  · exact Or.inl ⟨x, t, heq.trans ((Edit.returns_mint s).bind ht), hlt, hk.minted hch⟩
  · exact Or.inr ⟨_, heq.trans ((Edit.returns_mint s).bind_fails hf), hl, hch, hfull,
      Nat.lt_of_lt_of_eq (Nat.lt_succ_self _) (congrArg Nat.succ hfull.symm)⟩

/-- No insertion goes beyond the version that it would be stamped with. -/
theorem modification_insert_le (a : α) (hv : s.timeline.advance.1 < .max) :
    ((Edit.insert a side).after s).timeline.modification ≤ s.timeline.advance.1 := by
  have hadv := s.timeline.advance_fst
  by_cases hn : s.capacity < l.length + 1
  · rw [(fails_insert h side a hn).after, hadv]
    exact s.timeline.modification_le_advance
  · have heq : (Edit.insert a side).after s =
        (Edit.splice a side s.timeline.advance.1).after s.minted :=
      (Edit.after_congr (insert_apply side h.toShaped a (Nat.le_of_not_lt hn))).trans
        ((Edit.returns_mint s).after_bind _)
    rw [heq]
    obtain ⟨hl, hst, -⟩ := h.minted hv
    rcases splice_links hl hst a side with ⟨x, t, ht, -, -, hstt, -⟩ | ⟨hf, -⟩
    · rw [ht.after]
      exact le_of_eq hstt.eq.symm
    · rw [hf.after]
      exact le_of_eq hadv.symm

omit h in
theorem insertAll_nil (h : s.Shaped l) (hn : l.length + ([] : List α).length ≤ s.capacity) :
    (Edit.insertAll [] side).Returns s [] s :=
  (returns_checkCapacity h hn).bind (Edit.returns_pure [] s)

omit h in
theorem insertAll_apply (h : s.Shaped l) {as : List α} (has : as ≠ [])
    (hn : l.length + as.length ≤ s.capacity) : Edit.insertAll as side s =
      (Edit.mint >>= fun v => Edit.inOrder (Edit.splice · side v) as side) s := by
  unfold Edit.insertAll
  refine ((returns_checkCapacity h hn).bind_apply _).trans ?_
  rw [show as.isEmpty = false by simpa using has]
  cases side <;> rfl

theorem insertAll_spec (as : List α) (hn : l.length + as.length ≤ s.capacity)
    (hm : s.timeline.modification < .max) :
    (∃ es t, es.map (·.2) = as ∧ (Edit.insertAll as side).Returns s (es.map (·.1)) t ∧
        t.Live (side.add es l) ∧ Links s t es) ∨
      ∃ t l' born, (Edit.insertAll as side).Fails s Arena.exhausted t ∧ t.Live l' ∧
        l'.length ≤ l.length + as.length ∧ Changes s t born [] ∧
        t.arena.size + 2 = Arena.slotLimit ∧ Arena.slotLimit < s.arena.size + as.length + 2 := by
  by_cases has : as = []
  · subst has
    refine Or.inl ⟨[], s, rfl, insertAll_nil side h.toShaped hn, ?_,
      ⟨⟨[], .refl _, .refl s⟩, by simp, fun _ _ => rfl⟩⟩
    have : side.add [] l = l := by cases side <;> simp [End.add]
    rw [this]
    exact h
  · have heq := insertAll_apply side h.toShaped has hn
    obtain ⟨hl, hst, hch⟩ := h.minted_of_lt hm
    rcases spliceInOrder_spec hl hst side as with
      ⟨es, t, hes, ht, hlt, hk⟩ | ⟨t, l', b, hf, hlt, hle, hc, hfull⟩
    · exact Or.inl ⟨es, t, hes, heq.trans ((Edit.returns_mint s).bind ht), hlt, hk.minted hch⟩
    · exact Or.inr ⟨t, l', _, heq.trans ((Edit.returns_mint s).bind_fails hf), hlt, hle,
        hch.trans hc, hfull⟩

end Insert

end Store

end SnapshotDeque
