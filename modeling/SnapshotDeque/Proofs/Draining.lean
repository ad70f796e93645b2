import Mathlib.Data.List.Infix
import SnapshotDeque.Proofs.Retelling
import SnapshotDeque.Proofs.World

/-!
The queue of retired links. Links leave it only from the front, come to it only at the back, and do
not come to it again; a pass stops at the first link that a pinned version may still see. Main
statement: the links that a pass leaves behind though it might release them go on being released
by the passes to come, in their order, as long as no snapshot is opened on the version that they
were retired on; and none can be once the deque has gone on to another version.
-/

namespace SnapshotDeque

namespace Store

variable {α ρ : Type} {s t u : Store α} {d e : Nat}

/-- From `s` to `t`, the first `d` links are taken out of the queue, tags stay, and only links that
had no tag are put into the queue. -/
structure Sheds (s : Store α) (d : Nat) (t : Store α) : Prop where
  tag : ∀ {i v}, (s.links.get i).obsoleteOn = some v → (t.links.get i).obsoleteOn = some v
  queue : ∃ new, t.obsolete = s.obsolete.drop d ++ new ∧
    ∀ i ∈ new, (s.links.get i).obsoleteOn = none

theorem Sheds.of_append {q : List Nat} (hl : s.links.Dates t.links)
    (ho : t.obsolete = s.obsolete ++ q) (hn : ∀ i ∈ q, (s.links.get i).obsoleteOn = none) :
    Sheds s 0 t := ⟨hl.obsoleteOn, q, ho, hn⟩

theorem Sheds.of_eq (hl : s.links.Dates t.links) (ho : t.obsolete = s.obsolete) : Sheds s 0 t :=
  .of_append hl (ho.trans (List.append_nil _).symm) fun _ h => absurd h List.not_mem_nil

theorem Sheds.refl (s : Store α) : Sheds s 0 s := .of_eq (.refl _) rfl

theorem Sheds.trans (h : Sheds s d t) (h' : Sheds t e u) : Sheds s (d + e) u := by
  obtain ⟨new, ht, hn⟩ := h.queue
  obtain ⟨new', hu, hn'⟩ := h'.queue
  refine ⟨fun hv => h'.tag (h.tag hv), new.drop (e - (s.obsolete.drop d).length) ++ new', ?_, ?_⟩
  · rw [hu, ht, List.drop_append, List.drop_drop, List.append_assoc]
  · intro i hi
    rcases List.mem_append.1 hi with hi | hi
    · exact hn i (List.mem_of_mem_drop hi)
    · -- a tag that is missing later was missing before
      cases hv : (s.links.get i).obsoleteOn with
      | none => rfl
      | some v => exact absurd (hn' i hi) (by rw [h.tag hv]; nofun)

theorem sheds_reclaim (s : Store α) (budget : Nat) :
    Sheds s (s.due budget).length (s.reclaim budget).2 where
  tag hv := (obsoleteOn_reclaim s budget _).trans hv
  queue := ⟨[], by rw [obsolete_reclaim, List.append_nil], fun _ h => absurd h List.not_mem_nil⟩

theorem sheds_detach {x : Handle} {i : Nat} {v : Version} (h : s.Sound s.obsolete [])
    (hx : x.isSentinel = false) (hi : s.current? x = some i)
    (ht : (Edit.detach x v).Returns s () t) : Sheds s 0 t := by
  have hhead := (current?_of_payload hx).symm.trans hi
  by_cases ho : s.timeline.isObserved (s.links.get i).createdOn = true
  · obtain rfl : s.waiting x i v = t := by
      cases (returns_detach_waiting hhead ho).symm.trans ht
      rfl
    refine .of_append (q := [i]) (LinkTable.dates_markObsolete s.links i v) ?_ ?_
    · exact obsolete_waiting
    · intro k hk
      rw [List.mem_singleton.1 hk]
      exact h.obsoleteOn hi
  · obtain ⟨u, ds, he, _, hy⟩ := release_yields (h.unlinking (v := v) hx hi s.obsolete) {}
    obtain rfl : { u with totals := u.totals.recordReleased ⟨0 + 1, 0 + ds.length, 0⟩ } = t := by
      cases (returns_detach_released hhead ho he).symm.trans ht
      rfl
    refine ⟨fun {k w} hw => ?_, [], ?_, fun _ h => absurd h List.not_mem_nil⟩
    · refine (hy.obsoleteOn k).trans ?_
      rw [unlinking, links_emit]
      exact hw
    · exact (hy.obsolete.trans (obsolete_emit _ _)).trans (List.append_nil _).symm

/-- However a change goes about it, links leave the queue from the front only, and none comes to it
again. -/
theorem along_sheds : Along fun s t : Store α => ∃ d, Sheds s d t where
  refl s := ⟨0, .refl s⟩
  trans := fun ⟨_, h⟩ ⟨_, h'⟩ => ⟨_, h.trans h'⟩
  retimed _ _ _ := ⟨0, .of_eq (.refl _) rfl⟩
  reclaim {s} _ budget := ⟨_, sheds_reclaim s budget⟩
  supersede {s sp x i} h hi _ := by
    refine ⟨0, .of_append (q := [i]) ?_ rfl fun k hk => ?_⟩
    · rw [links_supersede]
      exact LinkTable.dates_forked s.links i s.timeline.modification
    · rw [List.mem_singleton.1 hk]
      exact h.obsoleteOn hi
  links hl _ _ := ⟨0, .of_eq hl.dates rfl⟩
  detach h hx hi ht := ⟨0, sheds_detach h hx hi ht⟩
  withArena _ := ⟨0, .of_eq (.refl _) rfl⟩
  enlisted {s x _ _ l} _ _ _ _ _ _ := by
    refine ⟨0, .of_eq ?_ obsolete_enlisted⟩
    rw [links_enlisted]
    exact LinkTable.dates_push s.links l
  emit s e := ⟨0, .of_eq (by rw [links_emit]; exact .refl _) (obsolete_emit _ _)⟩

theorem obsoleteOn_dispose (s : Store α) (k : Nat) :
    (s.dispose.links.get k).obsoleteOn = (s.links.get k).obsoleteOn := by
  have hmod : ∀ (l : LinkTable α) (i : Nat) (f : Link α → Link α),
      (∀ x, (f x).obsoleteOn = x.obsoleteOn) →
      ((l.modify i f).get k).obsoleteOn = (l.get k).obsoleteOn := by
    intro l i f hf
    rw [LinkTable.get_modify]
    split
    · exact hf _
    · rfl
  have hfold : ∀ (is : List Nat) (l : LinkTable α),
      ((is.foldl (fun t i => t.modify i Link.release) l).get k).obsoleteOn =
        (l.get k).obsoleteOn := by
    intro is
    induction is with
    | nil => exact fun l => rfl
    | cons i is ih => exact fun l => (ih _).trans (hmod l i Link.release fun _ => rfl)
  unfold dispose
  dsimp only
  rw [hmod _ s.beginLink (fun l => { l with count := 0 }) fun _ => rfl, hfold]

theorem sheds_dispose (s : Store α) : Sheds s s.obsolete.length s.dispose where
  tag {i v} hv := (obsoleteOn_dispose s i).trans hv
  queue := by
    refine ⟨[], ?_, fun _ h => absurd h List.not_mem_nil⟩
    rw [List.drop_length]
    rfl

/-! ## What a pass takes -/

/-- The links that a pass may release if nothing bounds it. -/
def reclaimable (s : Store α) : List Nat := s.obsolete.filter s.isReclaimable

/-- Whether a snapshot is open on the version that link `i` was retired on. -/
def Withheld (s : Store α) (i : Nat) : Prop :=
  ∃ v ∈ s.timeline.pinned, (s.links.get i).obsoleteOn = some v

theorem isReclaimable_iff {i : Nat} {v : Version} (hv : (s.links.get i).obsoleteOn = some v) :
    s.isReclaimable i = true ↔ v < s.timeline.oldestPinned := by
  rw [isReclaimable, hv]
  exact decide_eq_true_iff

theorem exists_tag_of_isReclaimable {i : Nat} (h : s.isReclaimable i = true) :
    ∃ v, (s.links.get i).obsoleteOn = some v ∧ v < s.timeline.oldestPinned := by
  cases hv : (s.links.get i).obsoleteOn with
  | none =>
    rw [isReclaimable, hv] at h
    cases h
  | some v => exact ⟨v, rfl, (isReclaimable_iff hv).1 h⟩

/-- What is picked out of a list in which nothing that is left over comes before it. -/
theorem filter_prefix_of_pairwise {β : Type} {p : β → Bool} {l : List β}
    (h : l.Pairwise fun i j => p j = true → p i = true) : l.filter p <+: l := by
  induction l with
  | nil => exact List.nil_prefix
  | cons i l ih =>
    obtain ⟨hi, hl⟩ := List.pairwise_cons.1 h
    by_cases hp : p i = true
    · rw [List.filter_cons_of_pos hp]
      exact List.cons_prefix_cons.2 ⟨rfl, ih hl⟩
    · rw [List.filter_cons_of_neg hp, List.filter_eq_nil_iff.2 fun j hj hpj => hp (hi j hj hpj)]
      exact List.nil_prefix

/-- The links that may be released stand in front. -/
theorem Stamped.reclaimable_prefix (h : s.Stamped) : s.reclaimable <+: s.obsolete := by
  refine filter_prefix_of_pairwise (h.sorted.imp_of_mem fun {i j} hi _ hij hj => ?_)
  obtain ⟨v, hv, _⟩ := h.tag hi
  obtain ⟨w, hw, hlt⟩ := exists_tag_of_isReclaimable hj
  exact (isReclaimable_iff hv).2 (lt_of_le_of_lt (hij v w hv hw) hlt)

/-- The links that may be released and were retired before the present version. -/
def aged (s : Store α) : List Nat :=
  s.reclaimable.filter fun i => (s.links.get i).obsoleteOn ≠ some s.timeline.modification

/-- They stand in front of those that were retired on the present version. -/
theorem Stamped.aged_prefix (h : s.Stamped) : s.aged <+: s.reclaimable := by
  refine filter_prefix_of_pairwise
    ((h.sorted.filter s.isReclaimable).imp_of_mem fun {i j} hi hj hij hne => ?_)
  obtain ⟨v, hv, -⟩ := exists_tag_of_isReclaimable (List.mem_filter.1 hi).2
  obtain ⟨w, hw, -, hle⟩ := h.tag (List.mem_filter.1 hj).1
  rw [decide_eq_true_iff, hw] at hne
  rw [decide_eq_true_iff, hv]
  intro he
  obtain rfl := Option.some.inj he
  exact hne (congrArg some (le_antisymm hle (hij _ w hv hw)))

/-- A pass takes what may be released in front, as far as its budget goes. -/
theorem le_length_due {l : List Nat} (hl : l <+: s.obsolete)
    (hr : ∀ i ∈ l, s.isReclaimable i = true) (budget : Nat) :
    min budget l.length ≤ (s.due budget).length := by
  have hle : l.length ≤ (s.obsolete.takeWhile s.isReclaimable).length := by
    obtain ⟨rest, ho⟩ := hl
    rw [← ho, List.takeWhile_append_of_pos hr, List.length_append]
    exact Nat.le_add_right _ _
  rw [due, List.length_take]
  omega

theorem sheds_reclaimPending (s : Store α) :
    Sheds s (s.due s.config.reclaimBatch).length s.reclaimPending := by
  unfold reclaimPending
  split
  · exact sheds_reclaim s _
  next hr =>
    have hd : s.due s.config.reclaimBatch = [] := by
      unfold due
      cases ho : s.obsolete with
      | nil => exact List.take_nil
      | cons i is =>
        rw [ho] at hr
        rw [List.takeWhile_cons_of_neg (by simpa using hr), List.take_nil]
    rw [hd]
    exact .refl s

/-- The pass that comes before a change takes its share, and nothing is put back. -/
theorem sheds_run {m : Mutation α ρ} (hm : m.reclaimsFirst = true) (hs : s.Formed) :
    ∃ e, Sheds s ((s.due s.config.reclaimBatch).length + e) (m.run s).2 := by
  obtain ⟨l, hl⟩ := hs
  obtain ⟨hf, -⟩ := carries_reclaimPending along_sheds m.traffic s ⟨l, hl⟩
  rw [Mutation.run_snd hl.open_, Mutation.base, if_pos hm]
  obtain ⟨_, _, e, he⟩ :=
    carries_effect along_sheds hm (fun _ s _ _ => ⟨0, .of_eq (.refl s.links) rfl⟩) _ hf
  exact ⟨e, (sheds_reclaimPending s).trans he⟩

section Change

variable {m : Mutation α ρ} {l : List Nat}

/-- The links in front of the queue that may be released are taken as far as the budget goes. -/
theorem sheds_run_of_due (hm : m.reclaimsFirst = true) (hs : s.Formed) (hl : l <+: s.obsolete)
    (hr : ∀ i ∈ l, s.isReclaimable i = true) :
    ∃ d, Sheds s d (m.run s).2 ∧ min s.config.reclaimBatch l.length ≤ d := by
  obtain ⟨e, he⟩ := sheds_run hm hs
  exact ⟨_, he, Nat.le_trans (le_length_due hl hr _) (Nat.le_add_right _ _)⟩

/-- A link of the queue may be released when its tag says so, whatever store it is looked up in. -/
theorem Sheds.isReclaimable_congr (h : Sheds s d t) (hst : s.Stamped)
    (hp : s.timeline.oldestPinned = t.timeline.oldestPinned) {i : Nat} (hi : i ∈ s.obsolete) :
    s.isReclaimable i = t.isReclaimable i := by
  obtain ⟨v, hv, -⟩ := hst.tag hi
  rw [Bool.eq_iff_iff, isReclaimable_iff hv, isReclaimable_iff (h.tag hv), hp]

theorem Sheds.drop_prefix (h : Sheds s d t) (hl : l <+: s.obsolete) : l.drop d <+: t.obsolete := by
  obtain ⟨new, hn, -⟩ := h.queue
  obtain ⟨rest, ho⟩ := hl
  rw [hn, ← ho, List.drop_append, List.append_assoc]
  exact List.prefix_append _ _

/-- When a snapshot is closed, what it kept from being released is released. -/
theorem sheds_close {k : List (Handle × α)} (hs : s.Live k) {id : SnapshotId} {v : Version}
    (hid : s.timeline.Holds v id) (hl : l <+: s.obsolete)
    (hr : ∀ i ∈ l, (Mutation.run (.closeSnapshot id v) s).2.isReclaimable i = true) :
    ∃ d, Sheds s d (Mutation.run (.closeSnapshot id v) s).2 ∧
      min s.config.reclaimBatch l.length ≤ d := by
  obtain ⟨gone, hb, hg⟩ := hs.settled
  have h1 := sheds_reclaimPending s
  have hid' : s.reclaimPending.timeline.Holds v id := by rw [hg.timeline]; exact hid
  have hrun : (Mutation.run (.closeSnapshot id v) s).2 =
      (s.reclaimPending.closeSnapshot id v).2 := Mutation.run_snd hs.open_
  cases hu : (s.reclaimPending.timeline.unpin v id).1 with
  | true =>
    have hgo := hb.letGo hid'
    have ht : (Mutation.run (.closeSnapshot id v) s).2 =
        ((s.reclaimPending.letGo v id).reclaim s.reclaimPending.config.reclaimBatch).2 := by
      rw [hrun]
      unfold closeSnapshot
      dsimp only
      rw [if_pos hu]
      rfl
    have h2 := sheds_reclaim (s.reclaimPending.letGo v id) s.reclaimPending.config.reclaimBatch
    rw [← ht] at h2
    have h12 := h1.trans (Sheds.trans (d := 0) (t := s.reclaimPending.letGo v id)
      (.of_eq (.refl _) rfl) h2)
    have hrest := h1.drop_prefix hl
    have hd := le_length_due (s := s.reclaimPending.letGo v id) hrest (fun i hi => ?_)
      s.reclaimPending.config.reclaimBatch
    · refine ⟨_, h12, ?_⟩
      rw [List.length_drop, hg.spares.config] at hd
      rw [hg.spares.config]
      omega
    · have hmem := hrest.subset hi
      rw [h2.isReclaimable_congr hgo.stamped (by rw [ht, timeline_reclaim]) hmem]
      exact hr i (List.mem_of_mem_drop hi)
  | false =>
    -- the version is still pinned, so nothing was kept before that is not kept now
    obtain ⟨e, he⟩ := sheds_run (m := (.closeSnapshot id v : Mutation α Pass)) rfl ⟨k, hs.toShaped⟩
    have hp : s.timeline.oldestPinned =
        (Mutation.run (.closeSnapshot id v) s).2.timeline.oldestPinned := by
      have hpin := Timeline.pinned_unpin_of_not_last hu
      rw [hg.timeline] at hpin
      rw [hrun]
      unfold closeSnapshot
      dsimp only
      rw [if_neg (by rw [hu]; exact Bool.false_ne_true), hg.timeline]
      unfold Timeline.oldestPinned
      rw [hpin]
    refine ⟨_, he, Nat.le_trans (le_length_due hl (fun i hi => ?_) _) (Nat.le_add_right _ _)⟩
    rw [he.isReclaimable_congr hs.stamped hp (hl.subset hi)]
    exact hr i hi

end Change

end Store

namespace World

open Store (Sheds)

variable {α ρ : Type} {c : Config} {w u : World α} {l : List (Handle × α)} {n k : Nat}

/-- A run from `w` in which `P` holds of `n` changes where they are made, if not of more. -/
inductive Counting (P : ∀ {ρ : Type}, World α → Mutation α ρ → Prop) (w : World α) :
    Nat → World α → Prop
  | refl : Counting P w 0 w
  | counted {ρ : Type} {n : Nat} {u : World α} (m : Mutation α ρ) : Counting P w n u →
    u.Permits m → (u.after m).store.timeline.modification < .max → P u m →
    Counting P w (n + 1) (u.after m)
  | passed {ρ : Type} {n : Nat} {u : World α} (m : Mutation α ρ) : Counting P w n u →
    u.Permits m → (u.after m).store.timeline.modification < .max → Counting P w n (u.after m)
  | deliver {n : Nat} {u : World α} : Counting P w n u → Counting P w n u.delivered

theorem Counting.reached {P : ∀ {ρ : Type}, World α → Mutation α ρ → Prop}
    (h : Counting P w n u) (hw : Reached c w) : Reached c u := by
  induction h with
  | refl => exact hw
  | counted m _ hp hv _ ih => exact ih.change m hp hv
  | passed m _ hp hv ih => exact ih.change m hp hv
  | deliver _ ih => exact ih.deliver

theorem store_after_dispose (h : w.store.disposed = false) :
    (w.after (.dispose : Mutation α Unit)).store = w.store.dispose := Mutation.run_snd h

/-- No link is current once it has a tag, not even after disposal. -/
theorem Reached.obsoleteOn_current (h : Reached c w) {x : Handle} {i : Nat}
    (hi : w.store.current? x = some i) : (w.store.links.get i).obsoleteOn = none := by
  induction h with
  | init _ => exact (Store.live_init c).sound.obsoleteOn hi
  | @change _ w m hw hp hv ih =>
    cases hd : w.store.disposed with
    | true =>
      cases m with
      | observe on => exact ih hi
      | _ =>
        rw [World.after, Mutation.run_of_disposed hd rfl] at hi ⊢
        exact ih hi
    | false =>
      obtain ⟨l, hl⟩ := hw.coherent hd
      cases m with
      | dispose =>
        rw [store_after_dispose hd] at hi ⊢
        rw [Store.obsoleteOn_dispose]
        refine hl.live.sound.obsoleteOn (x := x) ?_
        -- only the sentinels have links left
        unfold Store.current? at hi ⊢
        split at hi
        next hx => rw [if_pos hx]; exact hi
        next hx =>
          rw [if_neg hx]
          split at hi
          next hx => rw [if_pos hx]; exact hi
          next =>
            unfold Arena.head? at hi
            rw [show w.store.dispose.arena = w.store.arena.drain.2 from rfl,
              Arena.get?_drain] at hi
            cases hi
      | _ =>
        obtain ⟨l', hl'⟩ := hl.after hp hv rfl
        exact hl'.live.sound.obsoleteOn hi
  | deliver _ ih => exact ih hi

/-- What was given back is not in use again. -/
theorem Reached.not_retained (hw : Reached c w) {i : Nat} {v : Version}
    (hv : (w.store.links.get i).obsoleteOn = some v) (hi : i ∉ w.store.obsolete) :
    ¬ w.store.Retained i := by
  rintro (hc | ho)
  · rw [hw.obsoleteOn_current hc] at hv
    cases hv
  · exact hi ho

/-! ## Pins -/

/-- A change pins no version but the modification version. -/
theorem Coherent.pinned_after (hw : w.Coherent l) {m : Mutation α ρ} (hp : w.Permits m)
    (hv : (w.after m).store.timeline.modification < .max) (hm : m.disposes = false) {v : Version}
    (hmem : v ∈ (w.after m).store.timeline.pinned) :
    v ∈ w.store.timeline.pinned ∨ v = w.store.timeline.modification := by
  have hout := hw.after_outcome hp hv hm
  obtain ⟨l', hl', -⟩ := hout.acts
  obtain ⟨id, hid⟩ := hl'.stamped.timeline.exists_holds hmem
  have hopened : ∀ {x : View} {cs : List (Handle × α)},
      Mutation.Opens w.store (w.after m).store x cs →
      x.version = w.store.timeline.modification →
      v ∈ w.store.timeline.pinned ∨ v = w.store.timeline.modification := by
    intro x cs ho hx
    exact ((ho.holds v id).1 hid).imp (fun h => h.mem_pinned) fun h => h.1.trans hx
  cases m with
  | openSnapshot =>
    obtain ⟨_, _, ⟨x, hr, _⟩, _⟩ := hw.opens rfl hout
    exact hopened (hout.pins x hr) (hw.live.version_of_opening (Or.inl rfl) hv hr)
  | openPolled limit =>
    obtain ⟨_, _, ⟨x, hr, _⟩, _⟩ := hw.opens rfl hout
    exact hopened (hout.pins x hr) (hw.live.version_of_opening (Or.inr ⟨limit, rfl⟩) hv hr)
  | closeSnapshot id v => exact Or.inl ((hout.pins.2 _ _).1 hid).1.mem_pinned
  | dispose => cases hm
  | _ =>
    rw [Timeline.pinned, hout.pins.2] at hmem
    exact Or.inl hmem

/-- What is pinned in `u` was pinned in `w`, or it was the modification version in between. -/
structure Since (w u : World α) : Prop where
  modification : w.store.timeline.modification ≤ u.store.timeline.modification
  pinned : ∀ v ∈ u.store.timeline.pinned,
    v ∈ w.store.timeline.pinned ∨ w.store.timeline.modification ≤ v

theorem Since.refl (w : World α) : Since w w := ⟨le_refl _, fun _ h => Or.inl h⟩

theorem Since.after (h : Since w u) (hu : Reached c u) {m : Mutation α ρ} (hp : u.Permits m)
    (hv : (u.after m).store.timeline.modification < .max) : Since w (u.after m) where
  modification := le_trans h.modification (Edit.below_run m _).modification
  pinned v hmem := by
    cases hd : u.store.disposed with
    | true =>
      cases m with
      | observe on => exact h.pinned v hmem
      | _ =>
        rw [World.after, Mutation.run_of_disposed hd rfl] at hmem
        exact h.pinned v hmem
    | false =>
      obtain ⟨l, hl⟩ := hu.coherent hd
      cases hm : m.disposes with
      | true =>
        cases m with
        | dispose =>
          rw [store_after_dispose hd] at hmem
          exact absurd hmem List.not_mem_nil
        | _ => cases hm
      | false =>
        rcases hl.pinned_after hp hv hm hmem with hpin | rfl
        · exact h.pinned v hpin
        · exact Or.inr h.modification

/-- What could be released once can be released until it is, unless a snapshot is opened on the very
version that it was retired on. -/
theorem Since.reclaimable (h : Since w u) (hw : w.Coherent l)
    (hlt : w.store.timeline.modification < .max) (hs : Sheds w.store k u.store) {i : Nat}
    (hi : i ∈ w.store.reclaimable) : u.store.isReclaimable i = true ∨
      u.store.Withheld i ∧ w.store.timeline.pinned = [] ∧
        (w.store.links.get i).obsoleteOn = some w.store.timeline.modification := by
  obtain ⟨hmem, hr⟩ := List.mem_filter.1 hi
  obtain ⟨v, hv, hold⟩ := Store.exists_tag_of_isReclaimable hr
  obtain ⟨v', hv', -, hle⟩ := hw.live.stamped.tag hmem
  obtain rfl : v' = v := Option.some.inj (hv'.symm.trans hv)
  rw [Store.isReclaimable_iff (hs.tag hv)]
  rcases u.store.timeline.oldestPinned_cases with ⟨-, ho⟩ | hpin
  · exact Or.inl (ho ▸ lt_of_le_of_lt hle hlt)
  · rcases h.pinned _ hpin with hpin' | hmod
    · exact Or.inl (lt_of_lt_of_le hold (hw.live.stamped.timeline.oldestPinned_le hpin'))
    · rcases lt_or_eq_of_le (le_trans hle hmod) with hlt' | heq
      · exact Or.inl hlt'
      · -- the tag is the modification version, and all pins of `w` are older than that
        have hmodv : v' = w.store.timeline.modification := le_antisymm hle (heq ▸ hmod)
        refine Or.inr ⟨⟨v', heq ▸ hpin, hs.tag hv⟩, ?_, hmodv ▸ hv⟩
        rcases w.store.timeline.oldestPinned_cases with ⟨hn, -⟩ | hpin'
        · exact hn
        · refine absurd hold (not_lt_of_ge ?_)
          rw [hmodv]
          exact hw.live.stamped.timeline.le _ hpin'

/-! ## Leftovers -/

/-- Of the links of `q`, none that still waits is withheld when the change is made; or the change
closes a snapshot, and none is withheld after that. -/
def Reaches (q : List Nat) {ρ : Type} (u : World α) (m : Mutation α ρ) : Prop :=
  m.reclaimsFirst = true ∧
    ((∀ i ∈ q, i ∈ u.store.obsolete → ¬ u.store.Withheld i) ∨
      m.closes = true ∧ ∀ i ∈ q, i ∈ u.store.obsolete → ¬ (u.after m).store.Withheld i)

/-- The change reaches all the links that could be released in `w`. -/
def Drains (w : World α) {ρ : Type} (u : World α) (m : Mutation α ρ) : Prop :=
  Reaches w.store.reclaimable u m

/-- How far the queue has come since `w`. -/
structure Drained (w : World α) (k : Nat) (u : World α) : Prop extends Since w u where
  sheds : Sheds w.store k u.store
  disposed : u.store.disposed = true → w.store.reclaimable.length ≤ k

theorem Drained.refl (ho : w.store.disposed = false) : Drained w 0 w :=
  ⟨.refl w, .refl w.store, fun h => absurd h (by rw [ho]; exact Bool.false_ne_true)⟩

section Step

variable {q : List Nat} (hw : w.Coherent l) (hlt : w.store.timeline.modification < .max)
  (hq : q <+: w.store.reclaimable) (h : Drained w k u) (hu : Reached c u) {m : Mutation α ρ}
  (hp : u.Permits m) (hv : (u.after m).store.timeline.modification < .max)

include hw hq h

/-- The leftovers of `w` stand in front of the queue. -/
theorem Drained.leftovers : q.drop k <+: u.store.obsolete :=
  h.sheds.drop_prefix (hq.trans hw.live.stamped.reclaimable_prefix)

include hlt hu hp hv

/-- A change takes its share of the leftovers, unless they are withheld. -/
theorem Drained.exists_sheds (hd : u.store.disposed = false) (hm : m.reclaimsFirst = true) :
    ∃ d, Sheds u.store d (u.after m).store ∧
      (Reaches q u m → min c.reclaimBatch (q.length - k) ≤ d) := by
  obtain ⟨l', hl⟩ := hu.coherent hd
  have hformed : u.store.Formed := ⟨l', hl.live.toShaped⟩
  have hfront := h.leftovers hw hq
  obtain ⟨e, he⟩ := Store.sheds_run hm hformed
  rw [← List.length_drop, ← hu.config]
  by_cases hdr : Reaches q u m
  · rcases hdr.2 with hn | ⟨hc, hn⟩
    · obtain ⟨d, hs, hle⟩ := Store.sheds_run_of_due hm hformed hfront fun i hi => by
        have hmem := List.mem_of_mem_drop hi
        rcases h.reclaimable hw hlt h.sheds (hq.subset hmem) with hr | ⟨hheld, -⟩
        · exact hr
        · exact absurd hheld (hn i hmem (hfront.subset hi))
      exact ⟨d, hs, fun _ => hle⟩
    · have hsince := h.toSince.after hu hp hv
      cases m with
      | closeSnapshot id v =>
        obtain ⟨d, hs, hle⟩ := Store.sheds_close hl.live (hl.permits hp) hfront fun i hi => by
          have hmem := List.mem_of_mem_drop hi
          rcases hsince.reclaimable hw hlt (h.sheds.trans he) (hq.subset hmem) with
            hr | ⟨hheld, -⟩
          · exact hr
          · exact absurd hheld (hn i hmem (hfront.subset hi))
        exact ⟨d, hs, fun _ => hle⟩
      | _ => cases hc
  · exact ⟨_, he, fun hdr' => absurd hdr' hdr⟩

theorem Drained.after : ∃ d, Drained w (k + d) (u.after m) ∧
    (Reaches q u m → min c.reclaimBatch (q.length - k) ≤ d) := by
  have hsince := h.toSince.after hu hp hv
  cases hd : u.store.disposed with
  | true =>
    -- all has been given back
    have hle := h.disposed hd
    have hlen := hq.length_le
    refine ⟨0, ⟨hsince, h.sheds.trans ?_, fun _ => hle⟩, fun _ => by omega⟩
    cases m with
    | observe on => exact .of_eq (.refl _) rfl
    | _ =>
      rw [World.after, Mutation.run_of_disposed hd rfl]
      exact .refl _
  | false =>
    cases hm : m.reclaimsFirst with
    | true =>
      obtain ⟨l', hl⟩ := hu.coherent hd
      obtain ⟨d, hs, hle⟩ := h.exists_sheds hw hlt hq hu hp hv hd hm
      refine ⟨d, ⟨hsince, h.sheds.trans hs, fun ho => ?_⟩, hle⟩
      obtain ⟨l'', hl''⟩ := hl.after hp hv (by cases m <;> first | rfl | cases hm)
      rw [hl''.live.open_] at ho
      cases ho
    | false =>
      have hno : ¬ Reaches q u m := fun hdr => by
        rw [hdr.1] at hm
        cases hm
      cases m with
      | dispose =>
        have hs := Store.sheds_dispose u.store
        rw [← store_after_dispose hd] at hs
        refine ⟨_, ⟨hsince, h.sheds.trans hs, fun _ => ?_⟩, fun hdr => absurd hdr hno⟩
        have hle := (h.leftovers hw (List.prefix_refl _)).length_le
        rw [List.length_drop] at hle
        omega
      | observe on =>
        refine ⟨0, ⟨hsince, h.sheds.trans (.of_eq (.refl _) rfl), fun ho => ?_⟩,
          fun hdr => absurd hdr hno⟩
        rw [show (u.after (.observe on)).store.disposed = u.store.disposed from rfl, hd] at ho
        cases ho
      | _ => cases hm

end Step

/-- In a run with `n` changes that reach the links of `q`, the queue comes so many batches on, as
far as these links go. -/
theorem Counting.drained {P : ∀ {ρ : Type}, World α → Mutation α ρ → Prop} {q : List Nat}
    (hw : Reached c w) (ho : w.store.disposed = false) (hq : q <+: w.store.reclaimable)
    (hP : ∀ {ρ k u} {m : Mutation α ρ}, Drained w k u → P u m → Reaches q u m)
    (h : Counting P w n u) :
    ∃ k, Drained w k u ∧ min q.length (n * c.reclaimBatch) ≤ k := by
  obtain ⟨l, hl⟩ := hw.coherent ho
  have hlt := hw.modification_lt
  induction h with
  | refl => exact ⟨0, .refl ho, by omega⟩
  | counted m hs hp hv hd ih =>
    obtain ⟨k, hk, hle⟩ := ih
    obtain ⟨d, hkd, hmin⟩ := hk.after hl hlt hq (hs.reached hw) hp hv
    have hmin := hmin (hP hk hd)
    refine ⟨k + d, hkd, ?_⟩
    rw [Nat.add_one_mul]
    omega
  | passed m hs hp hv ih =>
    obtain ⟨k, hk, hle⟩ := ih
    obtain ⟨d, hkd, -⟩ := hk.after hl hlt hq (hs.reached hw) hp hv
    exact ⟨k + d, hkd, Nat.le_trans hle (Nat.le_add_right _ _)⟩
  | deliver _ ih =>
    obtain ⟨k, hk, hle⟩ := ih
    exact ⟨k, ⟨⟨hk.modification, hk.pinned⟩, ⟨hk.sheds.tag, hk.sheds.queue⟩, hk.disposed⟩, hle⟩

/-- What the queue has passed does not come back. -/
theorem Drained.not_retained (h : Drained w k u) (hw : w.Coherent l) (hu : Reached c u) {i : Nat}
    (hi : i ∈ w.store.reclaimable.take k) : ¬ u.store.Retained i := by
  obtain ⟨hmem, hr⟩ := List.mem_filter.1 (List.mem_of_mem_take hi)
  obtain ⟨v, hv, -⟩ := Store.exists_tag_of_isReclaimable hr
  obtain ⟨new, ho, hn⟩ := h.sheds.queue
  refine hu.not_retained (h.sheds.tag hv) fun hu => ?_
  rw [ho] at hu
  rcases List.mem_append.1 hu with hu | hu
  · have htake := (hw.live.stamped.reclaimable_prefix.take k).subset hi
    exact List.disjoint_take_drop hw.live.sound.nodup (Nat.le_refl k) htake hu
  · rw [hn i hu] at hv
    cases hv

/-- The leftovers of a bounded pass go on being released, in their order: by so many changes that
drain them, so many batches of them. Until then they can be released, unless they were retired on
the present version and a snapshot is opened on that. -/
theorem leftovers_are_drained (hw : Reached c w) (ho : w.store.disposed = false)
    (h : Counting (Drains w) w n u) :
    (∀ i ∈ w.store.reclaimable, ¬ u.store.Retained i ∨ i ∈ u.store.reclaimable ∨
      u.store.Withheld i ∧ w.store.timeline.pinned = [] ∧
        (w.store.links.get i).obsoleteOn = some w.store.timeline.modification) ∧
    ∃ k, min w.store.reclaimable.length (n * c.reclaimBatch) ≤ k ∧
      ∀ i ∈ w.store.reclaimable.take k, ¬ u.store.Retained i := by
  obtain ⟨l, hl⟩ := hw.coherent ho
  obtain ⟨k, hk, hle⟩ := h.drained hw ho (List.prefix_refl _) fun _ hd => hd
  have hgone := fun i hi => hk.not_retained (i := i) hl (h.reached hw) hi
  refine ⟨fun i hi => ?_, k, hle, hgone⟩
  rw [← List.take_append_drop k w.store.reclaimable] at hi
  rcases List.mem_append.1 hi with hi | hi
  · exact Or.inl (hgone i hi)
  · have hu := (hk.leftovers hl (List.prefix_refl _)).subset hi
    rcases hk.reclaimable hl hw.modification_lt hk.sheds (List.mem_of_mem_drop hi) with hr | hr
    · exact Or.inr (Or.inl (List.mem_filter.2 ⟨hu, hr⟩))
    · exact Or.inr (Or.inr hr)

/-- Two links are left behind, and the next insertion releases the first of them. -/
theorem insertion_drains_outlived :
    outlived.store.reclaimable = [2, 0] ∧
      ¬ (outlived.after (.insert 3 .last)).store.Retained 2 := by
  have hrun : Counting (Drains outlived) outlived 1 (outlived.after (.insert 3 .last)) := by
    refine .counted (.insert 3 .last) .refl trivial (by decide) ⟨rfl, Or.inl fun i _ _ => ?_⟩
    rintro ⟨v, hv, -⟩
    exact absurd hv (List.not_mem_nil (a := v))
  obtain ⟨-, k, hk, hgone⟩ := leftovers_are_drained reached_outlived rfl hrun
  have hr : outlived.store.reclaimable = [2, 0] := by decide
  refine ⟨hr, hgone 2 ?_⟩
  obtain ⟨k, rfl⟩ := Nat.exists_eq_add_of_le' (show 1 ≤ k from hk)
  rw [hr]
  exact List.Mem.head _

/-- A snapshot that is opened on the version of the leftovers withholds them: they can no longer be
released, and insertions release none of them. -/
theorem leftovers_withheld_by_opening :
    ¬ ∀ (c : Config) (w u : World Nat) (n : Nat), Reached c w → w.store.disposed = false →
      Counting (fun _ m => 0 < m.additional) w n u →
      (∀ i ∈ w.store.reclaimable, i ∈ u.store.obsolete → u.store.isReclaimable i = true) ∨
        min w.store.reclaimable.length (n * c.reclaimBatch) ≤
          (w.store.reclaimable.filter (· ∉ u.store.obsolete)).length := by
  intro h
  have hrun : Counting (fun _ m => 0 < m.additional) outlived 2
      (((outlived.after .openSnapshot).after (.insert 3 .last)).after (.insert 4 .last)) := by
    refine .counted (.insert 4 .last) (.counted (.insert 3 .last)
      (.passed .openSnapshot .refl trivial ?_) trivial ?_ ?_) trivial ?_ ?_ <;> decide
  rcases h _ _ _ _ reached_outlived rfl hrun with hall | hle
  · exact absurd (hall 0 (by decide) (by decide)) (by decide)
  · exact absurd hle (by decide)

/-- A version that was behind the modification version is not pinned anew, so nothing that was
retired on such a version is withheld. -/
theorem Drained.reaches_aged (h : Drained w k u) (hw : w.Coherent l) {m : Mutation α ρ}
    (hm : m.reclaimsFirst = true) : Reaches w.store.aged u m := by
  refine ⟨hm, Or.inl fun i hi _ => ?_⟩
  rintro ⟨v, hpin, htag⟩
  obtain ⟨hi, hne⟩ := List.mem_filter.1 hi
  obtain ⟨hmem, hr⟩ := List.mem_filter.1 hi
  obtain ⟨v', hv, hold⟩ := Store.exists_tag_of_isReclaimable hr
  obtain ⟨v'', hv', -, hle⟩ := hw.live.stamped.tag hmem
  obtain rfl : v' = v := Option.some.inj ((h.sheds.tag hv).symm.trans htag)
  obtain rfl : v'' = v' := Option.some.inj (hv'.symm.trans hv)
  rcases h.pinned _ hpin with hpin | hmod
  · exact absurd hold (not_lt_of_ge (hw.live.stamped.timeline.oldestPinned_le hpin))
  · rw [decide_eq_true_iff, hv, le_antisymm hle hmod] at hne
    exact hne rfl

/-- Leftovers that were retired before the present version are released batch by batch, whatever
snapshots are opened in between and whatever these withhold of the links behind them. -/
theorem aged_leftovers_are_drained (hw : Reached c w) (ho : w.store.disposed = false)
    (h : Counting (fun _ m => m.reclaimsFirst = true) w n u) :
    ∃ k, min w.store.aged.length (n * c.reclaimBatch) ≤ k ∧
      ∀ i ∈ w.store.aged.take k, ¬ u.store.Retained i := by
  obtain ⟨l, hl⟩ := hw.coherent ho
  have hq := hl.live.stamped.aged_prefix
  obtain ⟨k, hk, hle⟩ := h.drained hw ho hq fun hd hm => hd.reaches_aged hl hm
  exact ⟨k, hle, fun i hi => hk.not_retained hl (h.reached hw) ((hq.take k).subset hi)⟩

end World

end SnapshotDeque
