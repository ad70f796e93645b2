import SnapshotDeque.Proofs.Writable

/-!
Splicing: two writable links are made neighbours and the counts at both ends are adjusted. What that
does to the ring and the counts does not depend on stamps.
-/

namespace SnapshotDeque.Store

variable {α : Type} {s t : Store α} {sp : List Handle}

/-- What is current is the owner's only link without a successor, whatever leads to it. -/
theorem Sound.owner_of_leads {r : List Nat} (h : s.Sound r sp) {x : Handle} {i j : Nat}
    (hi : s.current? x = some i) (hj : s.links.Leads j i) : s.owner j = x :=
  (hj.owner h.chained).symm.trans (h.owner hi)

section Join

variable {p n : Nat}

/-- The store with links `p` and `n` as neighbours. -/
def joined (s : Store α) (p n : Nat) : Store α := { s with links := s.links.join p n }

@[simp] theorem current?_joined (s : Store α) (p n : Nat) (x : Handle) :
    (s.joined p n).current? x = s.current? x := rfl

@[simp] theorem obsolete_joined (s : Store α) (p n : Nat) :
    (s.joined p n).obsolete = s.obsolete := rfl

theorem Sound.joined {r : List Nat} (h : s.Sound r sp) (p n : Nat) : (s.joined p n).Sound r sp :=
  h.sameSpine (LinkTable.sameSpine_join _ _ _)

theorem returns_join (s : Store α) (p n : Nat) :
    (Edit.join p n).Returns s () (s.joined p n) := Edit.returns_editLinks _ s

variable (h : s.Sound s.obsolete sp) {x y : Handle} (hp : s.current? x = some p)
  (hn : s.current? y = some n)

include h hp hn

theorem adjacent_joined : (s.joined p n).Adjacent x y := by
  have hps := h.current_lt hp
  have hns := h.current_lt hn
  refine ⟨p, n, hp, hn, ⟨n, ?_, .refl n⟩, p, ?_, .refl p⟩
  · exact (LinkTable.next_join hps p).trans (if_pos rfl)
  · exact (LinkTable.previous_join hns n).trans (if_pos rfl)

theorem adjacent_joined_of_ne {a b : Handle} (ha : a ≠ x) (hb : b ≠ y) (hab : s.Adjacent a b) :
    (s.joined p n).Adjacent a b := by
  have hps := h.current_lt hp
  have hns := h.current_lt hn
  have hg := (LinkTable.sameSpine_join s.links p n).grows
  obtain ⟨i, k, hi, hk, ⟨j, hj, hjk⟩, j', hj', hji⟩ := hab
  have hip : i ≠ p := fun e => ha (h.eq_of_owner (e ▸ hi) hp)
  have hkn : k ≠ n := fun e => hb (h.eq_of_owner (e ▸ hk) hn)
  refine ⟨i, k, hi, hk, ⟨j, ?_, hg.leads hjk⟩, j', ?_, hg.leads hji⟩
  · exact (LinkTable.next_join hps i).trans ((if_neg hip).trans hj)
  · exact (LinkTable.previous_join hns k).trans ((if_neg hkn).trans hj')

end Join

theorem counted_joined {p n m : Nat} (h : s.Counted m) : (s.joined p n).Counted m := by
  have hc : ∀ i, ((s.links.join p n).get i).count = (s.links.get i).count := by
    intro i
    simp only [LinkTable.join, LinkTable.setNext, LinkTable.setPrevious, LinkTable.get_modify,
      LinkTable.size_modify]
    split_ifs <;> rfl
  exact ⟨(hc _).trans h.first, (hc _).trans h.last⟩

theorem returns_checkSplice (h : s.Sound s.obsolete sp) {x y : Handle} {p n : Nat}
    (hp : s.current? x = some p) (hn : s.current? y = some n)
    (hxy : s.Adjacent x y) : (Edit.checkSplice p n).Returns s () s := by
  obtain ⟨p', n', hp', hn', ⟨j, hj, hjn⟩, k, hk, hkp⟩ := hxy
  rw [hp] at hp'; cases hp'
  rw [hn] at hn'; cases hn'
  have hop := h.owner hp
  have hon := h.owner hn
  unfold Edit.checkSplice
  refine (Edit.returns_get s).bind ?_
  simp only [hj, hk, hop, hon, head_of_current? hp, head_of_current? hn, Option.any_some,
    h.owner_of_leads hn hjn, h.owner_of_leads hp hkp, decide_true, Bool.and_self, if_true]
  exact Edit.returns_pure () s

/-! ## Both ends -/

/-- The store with the counts of links `b` and `e` changed. -/
def recounted (s : Store α) (b e : Nat) (f : Nat → Nat) : Store α :=
  let apply (l : Link α) := { l with count := f l.count }
  { s with links := (s.links.modify b apply).modify e apply }

@[simp] theorem current?_recounted (s : Store α) (b e : Nat) (f : Nat → Nat) (x : Handle) :
    (s.recounted b e f).current? x = s.current? x := rfl

theorem sameSpine_recounted (s : Store α) (b e : Nat) (f : Nat → Nat) :
    s.links.SameSpine (s.recounted b e f).links := by
  have hs : ∀ (t : LinkTable α) (i : Nat),
      t.SameSpine (t.modify i fun l => { l with count := f l.count }) := fun t i =>
    LinkTable.sameSpine_modify t i fun _ => ⟨rfl, rfl, rfl, rfl, rfl, rfl⟩
  exact (hs s.links b).trans (hs _ e)

theorem neighbours_recounted (s : Store α) (b e : Nat) (f : Nat → Nat) (i : Nat) :
    ((s.recounted b e f).links.get i).previous = (s.links.get i).previous ∧
      ((s.recounted b e f).links.get i).next = (s.links.get i).next := by
  simp only [recounted, LinkTable.get_modify, LinkTable.size_modify]
  constructor <;> split_ifs <;> rfl

theorem pointed_recounted (h : s.links.Pointed) (b e : Nat) (f : Nat → Nat) :
    (s.recounted b e f).links.Pointed := by
  refine h.of_get (Nat.le_of_eq (sameSpine_recounted s b e f).size.symm) fun i j hj => ?_
  rw [(neighbours_recounted s b e f i).1, (neighbours_recounted s b e f i).2] at hj
  exact Or.inr ⟨i, hj⟩

theorem moored_recounted {i : Nat} (h : s.links.Moored i) (b e : Nat) (f : Nat → Nat) :
    (s.recounted b e f).links.Moored i := by
  unfold LinkTable.Moored
  rw [(neighbours_recounted s b e f i).1, (neighbours_recounted s b e f i).2]
  exact h

theorem adjacent_recounted {b e : Nat} {f : Nat → Nat} {x y : Handle} (h : s.Adjacent x y) :
    (s.recounted b e f).Adjacent x y := by
  have hl := (sameSpine_recounted s b e f).grows
  obtain ⟨p, n, hp, hn, ⟨j, hj, hjn⟩, k, hk, hkp⟩ := h
  exact ⟨p, n, hp, hn, ⟨j, (neighbours_recounted s b e f p).2.trans hj, hl.leads hjn⟩,
    k, (neighbours_recounted s b e f n).1.trans hk, hl.leads hkp⟩

theorem counted_recounted (h : s.Sound s.obsolete sp) {m : Nat} (hm : s.Counted m) (f : Nat → Nat) :
    (s.recounted s.beginLink s.endLink f).Counted (f m) := by
  have hb := h.current_lt (current?_atBegin s)
  have he := h.current_lt (current?_atEnd s)
  have hne : s.beginLink ≠ s.endLink := fun e => by
    have := h.eq_of_owner (current?_atBegin s) (e ▸ current?_atEnd s)
    revert this
    decide
  constructor
  · change (LinkTable.get _ s.beginLink).count = _
    rw [recounted, LinkTable.get_modify, if_neg fun e => hne e.1.symm, LinkTable.get_modify,
      if_pos ⟨rfl, hb⟩]
    exact congrArg f hm.first
  · change (LinkTable.get _ s.endLink).count = _
    rw [recounted, LinkTable.get_modify, if_pos ⟨rfl, by simpa using he⟩, LinkTable.get_modify,
      if_neg fun e => hne e.1]
    exact congrArg f hm.last

end SnapshotDeque.Store
