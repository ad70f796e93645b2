import SnapshotDeque.Proofs.Passes

/-!
The links that a snapshot sees. The links of a node that are not given back were current one after
the other, so at any version there is one of them to see, and snapshots of one version see the same.
A link that is seen may be superseded or unlinked while the snapshot is open, and is tagged then
with the version of the change that did so, which is ahead of the snapshot. Main statement: what a
snapshot tells of the links it sees, and how that changes as long as it is open.
-/

namespace SnapshotDeque

/-! ## One link after the other -/

/-- Whether link `i` was not current any more when link `j` was made. -/
def LinkTable.Precedes {α : Type} (t : LinkTable α) (i j : Nat) : Prop :=
  ∃ v, (t.get i).obsoleteOn = some v ∧ v ≤ (t.get j).createdOn

theorem LinkTable.Precedes.not_seen {α : Type} {t : LinkTable α} {i j : Nat} (h : t.Precedes i j)
    {v : Version} (hi : t.Seen v i) : ¬ t.Seen v j := by
  obtain ⟨w, hw, hle⟩ := h
  intro hj
  exact absurd (lt_of_lt_of_le (hi.2 w hw) hle) (not_lt_of_ge hj.1)

namespace Store

variable {α ρ : Type} {s t : Store α} {l : List (Handle × α)}

/-- Whether the links of each node were current one after the other, as far as they are not given
back. -/
structure InTurn (s : Store α) : Prop where
  tag : ∀ i ∈ s.obsolete, ∃ v, (s.links.get i).obsoleteOn = some v ∧ v ≤ s.timeline.modification
  turns : ∀ {i j}, s.Retained i → s.Retained j → s.owner i = s.owner j → i ≠ j →
    s.links.Precedes i j ∨ s.links.Precedes j i

theorem Sound.retained_lt {r : List Nat} {sp : List Handle} (h : s.Sound r sp)
    (hr : ∀ i ∈ s.obsolete, i ∈ r) {i : Nat} (hi : s.Retained i) : i < s.links.size :=
  hi.elim h.current_lt fun ho => h.retired_lt (hr i ho)

/-- Every link that is retained in `t` was so in `s`, or it is current and made on the modification
version. -/
theorem InTurn.transfer (h : s.InTurn)
    (hkept : ∀ {i v}, (s.links.get i).obsoleteOn = some v → (t.links.get i).obsoleteOn = some v)
    (htag : ∀ i ∈ t.obsolete, ∃ v, (t.links.get i).obsoleteOn = some v ∧
      v ≤ t.timeline.modification)
    (hret : ∀ i, t.Retained i →
      s.Retained i ∧ t.owner i = s.owner i ∧
        (t.links.get i).createdOn = (s.links.get i).createdOn ∨
      t.current? (t.owner i) = some i ∧ t.timeline.modification ≤ (t.links.get i).createdOn) :
    t.InTurn := by
  have hnew : ∀ {i j}, t.Retained i → t.current? (t.owner j) = some j →
      t.timeline.modification ≤ (t.links.get j).createdOn → t.owner i = t.owner j → i ≠ j →
      t.links.Precedes i j := by
    intro i j hi hj hle ho hne
    have hmem : i ∈ t.obsolete := hi.resolve_left fun hc => by
      rw [ho, hj] at hc
      exact hne (Option.some.inj hc).symm
    obtain ⟨v, hv, hvle⟩ := htag i hmem
    exact ⟨v, hv, le_trans hvle hle⟩
  refine ⟨htag, fun {i j} hi hj ho hne => ?_⟩
  rcases hret j hj with ⟨hsj, hoj, hcj⟩ | ⟨hcur, hle⟩
  · rcases hret i hi with ⟨hsi, hoi, hci⟩ | ⟨hcur, hle⟩
    · rw [hoi, hoj] at ho
      refine (h.turns hsi hsj ho hne).imp ?_ ?_ <;> rintro ⟨v, hv, hle⟩
      · exact ⟨v, hkept hv, hcj ▸ hle⟩
      · exact ⟨v, hkept hv, hci ▸ hle⟩
    · exact Or.inr (hnew hj hcur hle ho.symm hne.symm)
  · exact Or.inl (hnew hi hcur hle ho hne)

/-- No tag changes, and nothing is retained that was not. -/
theorem InTurn.of_eq (h : s.InTurn)
    (hl : ∀ i, (t.links.get i).owner = (s.links.get i).owner ∧
      (t.links.get i).createdOn = (s.links.get i).createdOn ∧
      (t.links.get i).obsoleteOn = (s.links.get i).obsoleteOn)
    (hm : s.timeline.modification ≤ t.timeline.modification)
    (ho : ∀ i ∈ t.obsolete, i ∈ s.obsolete) (hret : ∀ i, t.Retained i → s.Retained i) :
    t.InTurn := by
  refine h.transfer (fun {i v} hv => (hl i).2.2.trans hv) (fun i hi => ?_)
    fun i hi => Or.inl ⟨hret i hi, (hl i).1, (hl i).2.1⟩
  obtain ⟨v, hv, hle⟩ := h.tag i (ho i hi)
  exact ⟨v, (hl i).2.2.trans hv, le_trans hle hm⟩

/-- What waits has a tag if `i` joins what waited before and has one. -/
theorem InTurn.tag_joined (h : s.InTurn) (hr : Retires s t) {i : Nat}
    (hi : (t.links.get i).obsoleteOn = some s.timeline.modification)
    (ho : t.obsolete = s.obsolete ++ [i]) :
    ∀ k ∈ t.obsolete, ∃ v, (t.links.get k).obsoleteOn = some v ∧ v ≤ t.timeline.modification := by
  intro k hk
  rcases List.mem_append.1 (ho ▸ hk) with hk | hk
  · obtain ⟨v, hv, hle⟩ := h.tag k hk
    exact ⟨v, hr.kept hv, le_trans hle hr.modification⟩
  · rw [List.mem_singleton.1 hk]
    exact ⟨_, hi, hr.modification⟩

theorem InTurn.reclaim (h : s.InTurn) (hs : s.Sound s.obsolete []) (budget : Nat) :
    (s.reclaim budget).2.InTurn := by
  refine h.of_eq (fun i => ⟨owner_reclaim s budget i, ?_, obsoleteOn_reclaim s budget i⟩)
    (by simp) (fun i hi => ?_) fun i hi => (retained_of_reclaim hs hi).1
  · rw [links_reclaim]
    exact LinkTable.foldl_release_congr (f := fun t => (t.get i).createdOn)
      (fun t k => LinkTable.createdOn_release t k i) _ _
  · rw [obsolete_reclaim] at hi
    exact List.mem_of_mem_drop hi

theorem InTurn.supersede (h : s.InTurn) {sp : List Handle} {x : Handle} {i : Nat}
    (hs : s.Sound s.obsolete sp) (hi : s.current? x = some i)
    (ho : s.timeline.isObserved (s.links.get i).createdOn = true) :
    (s.supersede i s.timeline.modification).InTurn := by
  have hlt := hs.current_lt hi
  have hnone := hs.obsoleteOn hi
  have hr := retires_supersede hs hi ho
  refine h.transfer hr.kept (h.tag_joined hr ?_ obsolete_supersede) fun k hk => ?_
  · rw [links_supersede, LinkTable.get_forked_self hlt hnone]
  · rcases retained_of_supersede hs hi hk with rfl | hk'
    · refine Or.inr ⟨?_, ?_⟩
      · rw [owner_supersede_size hs hi, current?_supersede hs hi, if_pos rfl]
      · rw [links_supersede, LinkTable.get_forked_size hlt hnone, timeline_supersede]
        exact le_refl _
    · by_cases hks : k < s.links.size
      · refine Or.inl ⟨hk', owner_supersede hs hi hks, ?_⟩
        rw [links_supersede]
        exact LinkTable.createdOn_forked hlt hnone k hks
      · exact absurd (hs.retained_lt (fun _ h => h) hk') hks

theorem InTurn.detach (h : s.InTurn) {x : Handle} {i : Nat} (hs : s.Sound s.obsolete [])
    (hx : x.isSentinel = false) (hi : s.current? x = some i)
    (ht : (Edit.detach x s.timeline.modification).Returns s () t) : t.InTurn := by
  have hr := retires_detach hs hx hi ht
  have hret := fun k (hk : t.Retained k) => (retained_of_detach hs hx hi ht hk).1
  rcases detach_cases hs hx hi ht with ⟨_, rfl⟩ | ⟨_, hl, hob, htl, _⟩
  · refine h.transfer hr.kept (h.tag_joined hr ?_ obsolete_waiting) fun k hk =>
      Or.inl ⟨hret k hk, LinkTable.owner_marked _ _ _ k, LinkTable.createdOn_marked _ _ _ k⟩
    exact LinkTable.obsoleteOn_marked (hs.current_lt hi) (hs.obsoleteOn hi)
  · refine h.of_eq (fun k => ?_) (by rw [htl]) (fun k hk => hob ▸ hk) hret
    rw [hl]
    exact ⟨LinkTable.owner_release _ _ _, LinkTable.createdOn_release _ _ _,
      LinkTable.obsoleteOn_release _ _ _⟩

theorem InTurn.enlisted (h : s.InTurn) {x : Handle} {n : Node α} {a : α} {k : Link α}
    (hs : s.Sound s.obsolete [x]) (hn : s.arena.get? x = some n)
    (hk : FirstLink k x s.timeline.modification a) : (s.enlisted x k).InTurn := by
  have hget : ∀ {i}, i < s.links.size → (s.enlisted x k).links.get i = s.links.get i := by
    intro i hi
    rw [links_enlisted, LinkTable.get_push_of_lt hi]
  have hkept : ∀ {i v}, (s.links.get i).obsoleteOn = some v →
      ((s.enlisted x k).links.get i).obsoleteOn = some v := by
    intro i v hv
    by_cases hi : i < s.links.size
    · rw [hget hi]
      exact hv
    · rw [LinkTable.get_of_size_le (Nat.le_of_not_lt hi)] at hv
      cases hv
  refine h.transfer hkept (fun i hi => ?_) fun i hi => ?_
  · obtain ⟨v, hv, hle⟩ := h.tag i (by simpa using hi)
    exact ⟨v, hkept hv, by simpa using hle⟩
  · rcases retained_of_enlisted hs hn hi with ⟨rfl, hc⟩ | ⟨hlt, hi⟩
    · refine Or.inr ⟨hc, ?_⟩
      rw [timeline_enlisted, links_enlisted, LinkTable.get_push_size, hk.createdOn]
    · exact Or.inl ⟨hi, owner_enlisted hlt, by rw [hget hlt]⟩

/-- However a change goes about it, the links of a node go on following each other. -/
theorem along_inTurn : Along fun s t : Store α => s.InTurn → t.InTurn where
  refl _ h := h
  trans h h' hs := h' (h hs)
  retimed _ hm _ h := h.of_eq (fun _ => ⟨rfl, rfl, rfl⟩) hm (fun _ hi => hi) fun _ hi => hi
  reclaim hs budget h := h.reclaim hs budget
  supersede hs hi ho h := h.supersede hs hi ho
  links {s l} hl _ _ h := by
    refine h.of_eq (fun i => ⟨hl.owner i, hl.createdOn i, hl.obsoleteOn i⟩) (le_refl _)
      (fun _ hi => hi) fun i hi => ?_
    rw [Retained, Store.owner, hl.owner] at hi
    exact hi
  detach hs hx hi ht h := h.detach hs hx hi ht
  withArena {s b x a} hg h := by
    refine h.of_eq (fun _ => ⟨rfl, rfl, rfl⟩) (le_refl _) (fun _ hi => hi) fun i hi => ?_
    rw [Retained, current?_gained hg] at hi
    exact hi
  enlisted hs hn _ hl _ _ h := h.enlisted hs hn hl
  emit s e h := by
    refine h.of_eq (fun i => by rw [links_emit]; exact ⟨rfl, rfl, rfl⟩)
      (le_of_eq (by rw [timeline_emit])) (fun i hi => by rwa [obsolete_emit] at hi) fun i hi => ?_
    exact (retained_emit s e i).1 hi

theorem inTurn_init (c : Config) : (.init c : Store α).InTurn := by
  refine ⟨fun i hi => absurd hi List.not_mem_nil, fun {i j} hi hj ho hne => absurd ?_ hne⟩
  have hi := hi.resolve_right List.not_mem_nil
  have hj := hj.resolve_right List.not_mem_nil
  rw [ho, hj] at hi
  exact (Option.some.inj hi).symm

/-- At every version one link of a node is seen at most. -/
theorem InTurn.eq_of_seen (h : s.InTurn) {v : Version} {i j : Nat} (hi : s.Retained i)
    (hj : s.Retained j) (ho : s.owner i = s.owner j) (hsi : s.links.Seen v i)
    (hsj : s.links.Seen v j) : i = j := by
  by_contra hne
  rcases h.turns hi hj ho hne with hp | hp
  · exact hp.not_seen hsi hsj
  · exact hp.not_seen hsj hsi

end Store

/-! ## How far a change goes -/

theorem Version.next_le {v w : Version} (h : v < w) : v.next ≤ w := by
  simp only [Version.lt_iff, Version.le_iff, Version.next] at h ⊢
  omega

namespace Timeline

variable {t : Timeline} {v : Version}

/-- Whether nothing later than `v` is minted next, unless a version from `v` on is pinned. -/
def Capped (t : Timeline) (v : Version) : Prop :=
  t.advance.1 ≤ v ∨ ∃ u ∈ t.pinned, v ≤ u

theorem mem_pinned_pin_self (t : Timeline) (id : SnapshotId) :
    (t.pin id).1 ∈ (t.pin id).2.pinned := by
  have hhold : ∀ (v : Version) (ms : List Marker), v ∈ (hold v id ms).map (·.version) := by
    intro v ms
    induction ms with
    | nil => simp [hold]
    | cons m ms ih =>
      unfold hold
      split
      · simp
      · split
        next heq => simp [heq]
        next => simp [ih]
  exact hhold _ _

theorem Capped.pin (h : t.Capped v) (id : SnapshotId) : (t.pin id).2.Capped v := by
  rcases h with h | ⟨u, hu, hle⟩
  · by_cases hle : v ≤ (t.pin id).1
    · exact Or.inr ⟨_, mem_pinned_pin_self t id, hle⟩
    · -- what is pinned is before `v`, and so the version after it is not beyond
      have hnext : (t.pin id).1.next ≤ v := Version.next_le (not_le.1 hle)
      have hmod : t.modification ≤ v := le_trans t.modification_le_advance (t.advance_fst ▸ h)
      refine Or.inl ?_
      have hb : (t.pin id).2.baseline = some (t.pin id).1 := rfl
      unfold advance
      rw [hb]
      dsimp only
      split
      · exact hnext
      · exact hmod
  · exact Or.inr ⟨u, mem_pinned_pin_of_mem hu id, hle⟩

theorem Valid.capped (h : t.Valid) : t.Capped t.modification := by
  cases hb : t.baseline with
  | none =>
    rw [Capped, advance_of_none hb]
    exact Or.inl (le_refl _)
  | some b =>
    obtain ⟨rfl, hb⟩ := (h.baseline b).1 hb
    exact Or.inr ⟨_, hb, le_refl _⟩

theorem Valid.capped_next (h : t.Valid) : t.Capped t.modification.next := by
  refine Or.inl ?_
  cases hb : t.baseline with
  | none =>
    have hle := t.modification.val_le
    rw [advance_of_none hb]
    simp only [Version.le_iff, Version.next]
    omega
  | some b =>
    obtain ⟨rfl, -⟩ := (h.baseline b).1 hb
    rw [advance_of_some hb]

end Timeline

namespace Store

variable {α ρ : Type} {s t : Store α} {l : List (Handle × α)}

theorem lawful_capped (v : Version) :
    Edit.Lawful (fun s t : Store α => s.timeline.Capped v → t.timeline.Capped v)
      fun _ => True where
  refl _ h := h
  trans h h' hs := h' (h hs)
  other _ ht _ h := by
    rw [ht]
    exact h
  links _ _ h := h
  grow _ _ _ h := h
  mint {s t} h hs := by
    refine h trivial ?_
    rw [Timeline.Capped, Timeline.advance_advance, Timeline.advance_pinned]
    exact hs
  pin s id h := h.pin id

theorem capped_run {m : Mutation α ρ} (hm : m.reclaimsFirst = true) (hc : m.closes = false)
    (ho : s.disposed = false) {v : Version} (h : s.timeline.Capped v) :
    (m.run s).2.timeline.Capped v := by
  rw [Mutation.run_snd ho]
  refine (lawful_capped v).of_effect hm (fun h => by simp [hc] at h) (m.base s) ?_
  rw [timeline_base]
  exact h

theorem obsoleteOn_base (m : Mutation α ρ) (s : Store α) (i : Nat) :
    ((m.base s).links.get i).obsoleteOn = (s.links.get i).obsoleteOn := by
  unfold Mutation.base reclaimPending
  split
  · split
    · exact obsoleteOn_reclaim s _ i
    · rfl
  · rfl

theorem obsoleteOn_closeSnapshot (s : Store α) (id : SnapshotId) (v : Version) (i : Nat) :
    ((s.closeSnapshot id v).2.links.get i).obsoleteOn = (s.links.get i).obsoleteOn := by
  unfold closeSnapshot
  dsimp only
  split
  · exact obsoleteOn_reclaim _ _ i
  · rfl

end Store

/-- Whether `b` tells of the link that `a` tells of, as it is after it may have been tagged with
`v`. -/
def LinkInfo.Follows (v : Version) (a b : LinkInfo) : Prop :=
  b.node = a.node ∧ b.createdOn = a.createdOn ∧
    (b.obsoleteOn = a.obsoleteOn ∨ a.obsoleteOn = none ∧ b.obsoleteOn = some v)

theorem LinkInfo.Follows.refl (v : Version) (a : LinkInfo) : a.Follows v a :=
  ⟨rfl, rfl, Or.inl rfl⟩

/-- What has a tag keeps it. -/
theorem LinkInfo.Follows.trans {v v' : Version} {a b c : LinkInfo} (h : a.Follows v b)
    (h' : b.Follows v' c) : ∃ v, a.Follows v c := by
  obtain ⟨hn, hc, ht⟩ := h
  obtain ⟨hn', hc', ht'⟩ := h'
  have hnode := hn'.trans hn
  have hcreated := hc'.trans hc
  rcases ht with ht | ⟨hnone, ht⟩
  · rw [ht] at ht'
    exact ⟨v', hnode, hcreated, ht'⟩
  · rcases ht' with ht' | ⟨hbn, _⟩
    · exact ⟨v, hnode, hcreated, Or.inr ⟨hnone, ht'.trans ht⟩⟩
    · simp [hbn] at ht

namespace Store

variable {α : Type}

/-- What the links tell that a snapshot sees, front to back. -/
def infos (s : Store α) (v : View) : List LinkInfo :=
  (s.shown v).map fun p => (s.links.get p.1).info

/-- What the snapshot `h` tells are the links of the nodes that it shows, as they were at its
version. -/
structure InForce (s : Store α) (h : Holding α) : Prop where
  links : ({ view := h.view } : Snapshot).links s = .ok (s.infos h.view)
  size : ({ view := h.view } : Snapshot).size s = .ok (s.infos h.view).length
  nodes : ∃ ns, ({ view := h.view } : Snapshot).nodes s = .ok ns ∧
    (s.infos h.view).map (·.node) = ns.map (·.1)
  createdOn : ∀ e ∈ s.infos h.view, e.createdOn ≤ h.view.version
  obsoleteOn : ∀ e ∈ s.infos h.view, ∀ v, e.obsoleteOn = some v → h.view.version < v
  current : ∀ p ∈ s.shown h.view, (s.links.get p.1).obsoleteOn = none ↔
    s.current? (s.owner p.1) = some p.1

end Store

namespace World

variable {α ρ : Type} {c : Config} {w u : World α} {l : List (Handle × α)} {h : Holding α}

section Change

variable (hw : w.Coherent l) {m : Mutation α ρ} (hp : w.Permits m)
  (hv : (w.after m).store.timeline.modification < .max) (hm : m.reclaimsFirst = true)
  (hc : m.closes = false)

include hw hp hv hm hc

/-- A change moves on by one version at most, and only if a snapshot may see the version before. -/
theorem Coherent.modification_after :
    (w.after m).store.timeline.modification = w.store.timeline.modification ∨
      w.store.timeline.modification ∈ (w.after m).store.timeline.pinned ∧
        (w.after m).store.timeline.modification ≤ w.store.timeline.modification.next := by
  have hd : m.disposes = false := by cases m <;> first | rfl | cases hm
  have hrise := (Edit.below_run m w.store).modification
  have hvalid := hw.live.stamped.timeline
  have hadv := (w.after m).store.timeline.modification_le_advance
  rw [← Timeline.advance_fst] at hadv
  have hle : ∀ x ∈ (w.after m).store.timeline.pinned, x ≤ w.store.timeline.modification := by
    intro x hx
    rcases hw.pinned_after hp hv hd hx with hx | rfl
    · exact hvalid.le x hx
    · exact le_refl _
  rcases Store.capped_run hm hc hw.live.open_ hvalid.capped with hcap | ⟨x, hx, hge⟩
  · exact Or.inl (le_antisymm (le_trans hadv hcap) hrise)
  obtain rfl : x = w.store.timeline.modification := le_antisymm (hle x hx) hge
  refine Or.inr ⟨hx, ?_⟩
  rcases Store.capped_run hm hc hw.live.open_ hvalid.capped_next with hcap | ⟨y, hy, hge⟩
  · exact le_trans hadv hcap
  · have hlt := Version.lt_next (lt_of_le_of_lt hrise hv)
    exact absurd (lt_of_lt_of_le hlt hge) (not_lt_of_ge (hle y hy))

/-- What is current goes on being seen at the version of then if that is pinned. -/
theorem Coherent.seen_after
    (hpin : w.store.timeline.modification ∈ (w.after m).store.timeline.pinned) {i : Nat}
    (hi : i < w.store.links.size) (hs : w.store.links.Seen w.store.timeline.modification i) :
    (w.after m).store.links.Seen w.store.timeline.modification i := by
  have hd : m.disposes = false := by cases m <;> first | rfl | cases hm
  have hout := hw.after_outcome hp hv hd
  have hsame : (w.after m).store.timeline.markers = w.store.timeline.markers →
      (w.after m).store.links.Seen w.store.timeline.modification i := by
    intro he
    rw [Timeline.pinned, he] at hpin
    exact ((hout.saves hpin (by rwa [Timeline.pinned, he])).keeps hi hs).seen
  -- a snapshot that is opened pins the version after the pass that comes first
  obtain ⟨gone, hl, hg⟩ := hw.live.settled
  have hsettled : w.store.reclaimPending.links.Seen w.store.timeline.modification i := by
    have htag := Store.obsoleteOn_base (.settle : Mutation α Unit) w.store i
    refine ⟨(hg.spares.grows.createdOn hi).symm ▸ hs.1, fun v hv => hs.2 v ?_⟩
    exact htag.symm.trans hv
  cases m with
  | openSnapshot =>
    obtain ⟨x, hr, _⟩ := Store.returns_openSnapshot hl
    rw [World.after, Mutation.run_of_returns (m := .openSnapshot) hw.live.open_ hr]
    exact hsettled
  | openPolled limit =>
    have hv' := hv
    rw [World.after, Mutation.run_snd hw.live.open_] at hv'
    obtain ⟨x, t, _, hr, _, _, _, hch, _⟩ := Store.returns_openPolled hl limit hv'
    rw [World.after, Mutation.run_of_returns (m := .openPolled limit) hw.live.open_ hr]
    refine (hch.spares.keeps ?_ (Nat.lt_of_lt_of_le hi hg.spares.grows.size_le) hsettled).seen
    exact (Store.mem_pinned_opened hl).2 (Or.inr (by rw [hg.timeline]))
  | closeSnapshot id v => cases hc
  | dispose => cases hd
  | observe on => cases hm
  | _ => exact hsame hout.pins.2

end Change

/-- A link is tagged once, and with the modification version of the change that tags it. -/
theorem Coherent.tag_after (hw : w.Coherent l) {m : Mutation α ρ} (hp : w.Permits m)
    (hv : (w.after m).store.timeline.modification < .max) (hd : m.disposes = false) {i : Nat}
    (hi : i < w.store.links.size) :
    ((w.after m).store.links.get i).obsoleteOn = (w.store.links.get i).obsoleteOn ∨
      (w.store.links.get i).obsoleteOn = none ∧
        ((w.after m).store.links.get i).obsoleteOn =
          some (w.after m).store.timeline.modification := by
  cases hm : m.reclaimsFirst with
  | false =>
    cases m with
    | dispose => cases hd
    | observe on => exact Or.inl rfl
    | _ => cases hm
  | true =>
    cases hc : m.closes with
    | true =>
      cases m with
      | closeSnapshot id v =>
        refine Or.inl ?_
        rw [World.after, Mutation.run_snd hw.live.open_]
        exact (Store.obsoleteOn_closeSnapshot _ id v i).trans
          (Store.obsoleteOn_base (.closeSnapshot id v : Mutation α Pass) w.store i)
      | _ => cases hc
    | false =>
      have hret : Store.Retires w.store (w.after m).store :=
        (Store.carries_run Store.along_retires hm (fun h => by simp [hc] at h) w.store
          ⟨l, hw.live.toShaped⟩).2.2
      cases hn : (w.store.links.get i).obsoleteOn with
      | some v => exact Or.inl (hret.kept hn)
      | none =>
        cases ht : ((w.after m).store.links.get i).obsoleteOn with
        | none => exact Or.inl rfl
        | some v =>
          refine Or.inr ⟨rfl, congrArg some ?_⟩
          obtain ⟨hge, hle⟩ := hret.tagged hn ht
          rcases hw.modification_after hp hv hm hc with he | ⟨hpin, hnext⟩
          · exact le_antisymm hle (he ▸ hge)
          · have hseen := hw.seen_after hp hv hm hc hpin hi
              ⟨hw.live.stamped.createdOn_le hi, fun x hx => by simp [hn] at hx⟩
            refine le_antisymm hle (le_trans hnext ?_)
            exact Version.next_le (hseen.2 v ht)

/-! ## What a snapshot tells -/

theorem Coherent.inForce (hw : w.Coherent l) (hh : h ∈ w.held) : w.store.InForce h := by
  obtain ⟨ps, hd, hn⟩ := hw.displays h hh
  have hps := Store.shown_of_displays hw.live hd
  have hopen : ({ view := h.view } : Snapshot).checkOpen w.store = .ok () := by
    simp [Snapshot.checkOpen, hw.live.open_]
  have hshows : ∀ p ∈ w.store.shown h.view, w.store.Shows h.view.version p := by
    rw [hps]
    exact hd.row.shows_
  refine ⟨?_, ?_, ⟨h.contents, (hw.nodes hh).1, ?_⟩, fun e he => ?_, fun e he => ?_, fun p hp => ?_⟩
  · rw [Snapshot.links, Snapshot.cursor, hopen]
    rfl
  · rw [Snapshot.size, hopen, hd.size, Store.infos, List.length_map, hps]
    rfl
  · rw [← hn, ← hps, Store.infos, Store.named, List.map_map, List.map_map]
    rfl
  · obtain ⟨p, hp, rfl⟩ := List.mem_map.1 he
    exact (hshows p hp).seen.1
  · obtain ⟨p, hp, rfl⟩ := List.mem_map.1 he
    exact (hshows p hp).seen.2
  · refine ⟨fun hn => (hshows p hp).retained.resolve_right fun ho => ?_, hw.live.sound.obsoleteOn⟩
    obtain ⟨v, hv, _⟩ := hw.live.stamped.tag ho
    simp [hn] at hv

/-- What is seen goes on being seen, with the tag that it gets. -/
theorem Coherent.follows (hw : w.Coherent l) (hh : h ∈ w.held) {m : Mutation α ρ}
    (hp : w.Permits m) (hv : (w.after m).store.timeline.modification < .max)
    (hh' : h ∈ (w.after m).held) :
    (w.after m).store.shown h.view = w.store.shown h.view ∧
      ∀ p ∈ w.store.shown h.view, (w.store.links.get p.1).info.Follows
        (w.after m).store.timeline.modification ((w.after m).store.links.get p.1).info := by
  have hd := hw.disposes_of_held hh'
  obtain ⟨l', hw'⟩ := hw.after hp hv hd
  obtain ⟨ps, hds, _⟩ := hw.displays h hh
  have hs := (hw.after_outcome hp hv hd).saves (hw.pinned hh) (hw'.pinned hh')
  rw [Store.shown_of_displays hw.live hds, Store.shown_of_displays hw'.live (hds.saves hs)]
  refine ⟨rfl, fun p hp' => ?_⟩
  have hlt := (hds.row.shows_ p hp').lt
  exact ⟨hs.grows.owner hlt, hs.grows.createdOn hlt, hw.tag_after hp hv hd hlt⟩

theorem Stretch.follows (hs : Stretch (fun w m => h ∈ (w.after m).held) w u)
    (hw : w.Coherent l) (hh : h ∈ w.held) :
    h ∈ u.held ∧ (∃ l', u.Coherent l') ∧ u.store.shown h.view = w.store.shown h.view ∧
      ∀ p ∈ w.store.shown h.view, ∃ v,
        (w.store.links.get p.1).info.Follows v (u.store.links.get p.1).info := by
  induction hs with
  | refl => exact ⟨hh, ⟨l, hw⟩, rfl, fun p _ => ⟨.zero, .refl _ _⟩⟩
  | @change ρ w u m hu hp hv hq ih =>
    obtain ⟨hhu, ⟨l', hu'⟩, hshown, hf⟩ := ih hw hh
    obtain ⟨hshown', hf'⟩ := hu'.follows hhu hp hv hq
    refine ⟨hq, hu'.after hp hv (hu'.disposes_of_held hq), hshown'.trans hshown, fun p hp => ?_⟩
    obtain ⟨v, hv⟩ := hf p hp
    exact hv.trans (hf' p (hshown ▸ hp))
  | deliver _ ih =>
    obtain ⟨hhu, ⟨l', hu'⟩, hshown, hf⟩ := ih hw hh
    exact ⟨hhu, ⟨l', hu'.delivered⟩, hshown, hf⟩

/-- Snapshots of one version see the same link of a node. -/
theorem Coherent.shown_eq (hw : w.Coherent l) (hi : w.store.InTurn) {h' : Holding α}
    (hh : h ∈ w.held) (hh' : h' ∈ w.held) (hv : h'.view.version = h.view.version)
    {p q : Nat × α} (hp : p ∈ w.store.shown h.view) (hq : q ∈ w.store.shown h'.view)
    (ho : w.store.owner p.1 = w.store.owner q.1) : p.1 = q.1 := by
  obtain ⟨ps, hds, _⟩ := hw.displays h hh
  obtain ⟨qs, hds', _⟩ := hw.displays h' hh'
  rw [Store.shown_of_displays hw.live hds] at hp
  rw [Store.shown_of_displays hw.live hds'] at hq
  have hsp := hds.row.shows_ p hp
  have hsq := hds'.row.shows_ q hq
  exact hi.eq_of_seen hsp.retained hsq.retained ho hsp.seen (hv ▸ hsq.seen)

theorem Reached.inTurn (h : Reached c w) (ho : w.store.disposed = false) : w.store.InTurn :=
  h.carried Store.along_inTurn (Store.inTurn_init c)
    (fun _ _ _ hs => hs.of_eq (fun _ => ⟨rfl, rfl, rfl⟩)
      (le_of_eq (Timeline.unpin_modification _ _ _).symm) (fun _ hi => hi) fun _ hi => hi)
    (fun _ _ _ hs => hs.of_eq (fun _ => ⟨rfl, rfl, rfl⟩) (le_refl _) (fun _ hi => hi)
      fun _ hi => hi) ho

/-- A snapshot tells of each node that it shows, in order, the link that was current at its version,
and whether it still is. Snapshots of one version tell the same of a node. As long as the snapshot
is open it goes on telling of the same links, each of which is tagged once at most, and then with
the modification version of the change that supersedes the link or unlinks its node. -/
theorem links_in_force (hr : Reached c w) (ho : w.store.disposed = false) :
    (∀ h ∈ w.held, w.store.InForce h) ∧
    (∀ h ∈ w.held, ∀ h' ∈ w.held, h'.view.version = h.view.version →
      ∀ a ∈ w.store.infos h.view, ∀ b ∈ w.store.infos h'.view, a.node = b.node → a = b) ∧
    (∀ {ρ : Type} (m : Mutation α ρ), w.Permits m →
      (w.after m).store.timeline.modification < .max → ∀ h ∈ w.held, h ∈ (w.after m).held →
      List.Forall₂ (LinkInfo.Follows (w.after m).store.timeline.modification)
        (w.store.infos h.view) ((w.after m).store.infos h.view)) ∧
    ∀ h ∈ w.held, ∀ u, Stretch (fun w m => h ∈ (w.after m).held) w u →
      u.store.InForce h ∧ List.Forall₂ (fun a b => ∃ v, a.Follows v b)
        (w.store.infos h.view) (u.store.infos h.view) := by
  obtain ⟨l, hw⟩ := hr.coherent ho
  have hi := hr.inTurn ho
  refine ⟨fun h hh => hw.inForce hh, fun h hh h' hh' hv a ha b hb hab => ?_,
    fun m hp hv h hh hh' => ?_, fun h hh u hu => ?_⟩
  · obtain ⟨p, hp, rfl⟩ := List.mem_map.1 ha
    obtain ⟨q, hq, rfl⟩ := List.mem_map.1 hb
    rw [hw.shown_eq hi hh hh' hv hp hq hab]
  · obtain ⟨hshown, hf⟩ := hw.follows hh hp hv hh'
    rw [Store.infos, Store.infos, hshown, List.forall₂_map_left_iff, List.forall₂_map_right_iff,
      List.forall₂_same]
    exact hf
  · obtain ⟨hhu, ⟨l', hu'⟩, hshown, hf⟩ := hu.follows hw hh
    refine ⟨hu'.inForce hhu, ?_⟩
    rw [Store.infos, Store.infos, hshown, List.forall₂_map_left_iff, List.forall₂_map_right_iff,
      List.forall₂_same]
    exact hf

/-- An insertion supersedes the link of the last node, and the snapshot tells on which version. -/
theorem single_tells_of_insertion :
    single.store.InForce onSingle ∧ single.store.infos onSingle.view = [⟨⟨2, 0⟩, .initial, none⟩] ∧
      ∃ b, (single.after (.insert 8 .last)).store.infos onSingle.view = [b] ∧
        LinkInfo.Follows Version.initial.next ⟨⟨2, 0⟩, .initial, none⟩ b ∧ b.obsoleteOn ≠ none := by
  obtain ⟨hin, -, hstep, -⟩ := links_in_force reached_single rfl
  have hs : single.store.infos onSingle.view = [⟨⟨2, 0⟩, .initial, none⟩] := by decide +kernel
  have hf := hstep (.insert 8 .last) trivial (by decide) onSingle (List.Mem.head _)
    (List.Mem.head _)
  have hmod : (single.after (.insert 8 .last)).store.timeline.modification =
      Version.initial.next := by decide
  have htagged : ∀ b ∈ (single.after (.insert 8 .last)).store.infos onSingle.view,
      b.obsoleteOn ≠ none := by decide +kernel
  rw [hs, hmod] at hf
  obtain ⟨b, bs, hb, hbs, he⟩ := List.forall₂_cons_left_iff.1 hf
  obtain rfl := List.forall₂_nil_left_iff.1 hbs
  exact ⟨hin onSingle (List.Mem.head _), hs, b, he, hb, htagged b (he ▸ List.Mem.head _)⟩

end World

end SnapshotDeque
