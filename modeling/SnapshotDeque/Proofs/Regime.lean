import SnapshotDeque.Proofs.Detach
import SnapshotDeque.Proofs.Enlist

/-!
What is kept track of while a change is under way. The steps of a change are the same whatever is
said about them: a regime tells what a store keeps to between the steps, what comes of those that
neither link nor unlink a node and of those that do, and which links may be changed in place. What
the steps are put together to holds under any regime. Main definitions: `Regime.stamped`, the regime
of a change with a stamp ahead of all pins, of which no pinned version notices anything;
`Regime.along`, any regime with one more thing that is kept track of.
-/

namespace SnapshotDeque

namespace Store

variable {α : Type} {s t : Store α} {v : Version} {sp : List Handle}

structure Regime (α : Type) (v : Version) where
  /-- What a store keeps to while the nodes in a list have no link yet. -/
  Holds : Store α → List Handle → Prop
  /-- What comes of steps that neither link nor unlink a node. -/
  Comes : Store α → Store α → Prop
  /-- Which links may be changed in place. -/
  Free : Store α → Nat → Prop
  /-- What comes of unlinking a node. -/
  Unlinks : Store α → Store α → Handle → Prop
  /-- What comes of unlinking any number of nodes. -/
  Clears : Store α → Store α → Prop
  /-- What comes of linking a new node at one end. -/
  Inserts : Store α → Store α → Handle → α → End → Prop
  sound : ∀ {s sp}, Holds s sp → s.Sound s.obsolete sp
  stamp : ∀ {s sp}, Holds s sp → s.timeline.modification = v
  refl : ∀ s, Comes s s
  trans : ∀ {s t u}, Comes s t → Comes t u → Comes s u
  heads : ∀ {s t}, Comes s t → ∀ x, (t.arena.head? x).isSome = (s.arena.head? x).isSome
  element : ∀ {s t}, Comes s t → ∀ x,
    (t.arena.get? x).map (·.element) = (s.arena.get? x).map (·.element)
  disposed : ∀ {s t}, Comes s t → t.disposed = s.disposed
  free : ∀ {s t i}, Comes s t → i < s.links.size → Free s i → Free t i
  in_place : ∀ {s sp x i}, Holds s sp → s.current? x = some i →
    v ≤ (s.links.get i).createdOn ∨ s.timeline.isObserved (s.links.get i).createdOn = false →
    Free s i
  supersede : ∀ {s sp x i}, Holds s sp → s.current? x = some i → (s.links.get i).createdOn < v →
    s.timeline.isObserved (s.links.get i).createdOn = true →
    Comes s (s.supersede i v) ∧ Holds (s.supersede i v) sp ∧ Free (s.supersede i v) s.links.size
  links : ∀ {s sp l}, Holds s sp → s.links.SameSpine l → (s.links.Pointed → l.Pointed) →
    (∀ {i}, s.links.Moored i → l.Moored i) →
    (∀ {i}, i < s.links.size → ¬ Free s i →
      (l.get i).previous = (s.links.get i).previous ∧ (l.get i).next = (s.links.get i).next) →
    Comes s { s with links := l } ∧ Holds { s with links := l } sp
  detach : ∀ {s x i}, Holds s [] → x.isSentinel = false → s.current? x = some i →
    ∃ t, (Edit.detach x v).Returns s () t ∧ Holds t [] ∧ Store.Unhooks s t x ∧ Unlinks s t x
  comes_unlinks : ∀ {s t u x}, Comes s t → Unlinks t u x → Unlinks s u x
  unlinks_clears : ∀ {s t x}, Unlinks s t x → Clears s t
  comes_clears : ∀ {s t}, Comes s t → Clears s t
  clears_trans : ∀ {s t u}, Clears s t → Clears t u → Clears s u
  clears_disposed : ∀ {s t}, Clears s t → t.disposed = s.disposed
  gained : ∀ {s b x a}, Holds s [] → Arena.Gains s.arena b x a → Holds (s.withArena b) [x]
  enlisted : ∀ {s x n a l}, Holds s [x] → s.arena.get? x = some n → n.head = none →
    n.element = a → FirstLink l x v a → Holds (s.enlisted x l) [] ∧
      Free (s.enlisted x l) s.links.size ∧
      ∀ i < s.links.size, Free s i → Free (s.enlisted x l) i
  inserts : ∀ {s b t u x n a l} (side), Holds s [] → Arena.Gains s.arena b x a →
    Comes (s.withArena b) t → Holds t [x] → t.arena.get? x = some n → n.head = none →
    FirstLink l x v a → (t.links.Pointed → (t.links.push l).Pointed) → l.previous.isSome = true →
    Comes (t.enlisted x l) u → Holds u [] →
    Inserts s (emit (.link x side v) u) x a side ∧ Holds (emit (.link x side v) u) []

/-! ## A change with a stamp ahead of all pins -/

theorem reworks_links {l : LinkTable α} (hl : s.links.SameSpine l)
    (hk : ∀ {i}, i < s.links.size → ¬ s.Unseen i →
      (l.get i).previous = (s.links.get i).previous ∧ (l.get i).next = (s.links.get i).next) :
    Reworks s { s with links := l } where
  spares := .sameSpine hl fun hv hi hs => hk hi fun hu => absurd (hu _ hv) (not_lt_of_ge hs.1)
  turnover := .of_eq rfl rfl rfl
  timeline := rfl
  heads _ := rfl
  element _ := rfl
  succeeds _ _ _ _ := by
    rintro ⟨i, hi, hq⟩
    exact ⟨i, hi, hq.imp id fun hq => (hl.older i).trans hq⟩

theorem Changing.links (h : s.Changing v sp) {l : LinkTable α} (hl : s.links.SameSpine l) :
    ({ s with links := l } : Store α).Changing v sp :=
  ⟨h.sound.sameSpine hl, h.stamped.sameSpine hl, ⟨h.stamp.eq, h.stamp.ahead⟩⟩

theorem Changing.modification_eq (h : s.Changing v sp) : s.timeline.modification = v :=
  h.stamp.eq.symm

theorem Changing.unseen (h : s.Changing v sp) {i : Nat}
    (hw : v ≤ (s.links.get i).createdOn ∨
      s.timeline.isObserved (s.links.get i).createdOn = false) : s.Unseen i := by
  intro w hp
  rcases hw with hw | hw
  · exact lt_of_lt_of_le (h.stamp.ahead w hp) hw
  · by_contra hle
    have := h.stamped.timeline.isObserved_iff.2 ⟨w, hp, not_lt.1 hle⟩
    rw [hw] at this
    cases this

/-- `t` is `s` after node `x` was unlinked in a change stamped `v`. -/
structure Unlinks (s t : Store α) (v : Version) (x : Handle) (gone : List (NodeId × α)) : Prop
    extends Amends s t [] gone where
  stamp : t.Stamp v
  succeeds : ∀ {w y q}, w ∈ s.timeline.pinned → (∀ u ∈ s.timeline.pinned, u ≤ w) →
    q < s.links.size → s.links.Seen w q → y ≠ x → s.Succeeds y q → t.Succeeds y q

/-- `t` is `s` after node `x` with element `a` was linked. -/
structure Inserts (s t : Store α) (x : Handle) (a : α) : Prop
    extends Amends s t [(⟨s.arena.nextId⟩, a)] [] where
  fresh : s.arena.get? x = none
  element : ∀ y, y ≠ x → (t.arena.get? y).map (·.element) = (s.arena.get? y).map (·.element)

theorem Drops.succeeds {x : Handle} {g : List (NodeId × α)} (h : Drops s t x g) {y : Handle}
    {q : Nat} (hy : y ≠ x) (hq : s.Succeeds y q) : t.Succeeds y q := by
  obtain ⟨i, hi, hiq⟩ := hq
  have hi' := (h.current? hy).trans hi
  exact ⟨i, hi', by rw [h.older hi']; exact hiq⟩

theorem Unlinks.rework {u : Store α} {x : Handle} {g : List (NodeId × α)} (h : Reworks s t)
    (h' : Unlinks t u v x g) : Unlinks s u v x ([] ++ g) where
  toAmends := h.toAmends.trans h'.toAmends
  stamp := h'.stamp
  succeeds hw hmax hq hs hy hx := by
    refine h'.succeeds (by rw [h.timeline]; exact hw) (by rw [h.timeline]; exact hmax)
      (Nat.lt_of_lt_of_le hq h.spares.grows.size_le) (h.spares.keeps hw hq hs).seen hy ?_
    exact h.succeeds hw hmax hq hs hx

theorem Changing.emit (h : s.Changing v sp) (e : Event α) : (Store.emit e s).Changing v sp where
  sound := by
    rw [obsolete_emit]
    exact h.sound.congr (links_emit _ _) (arena_emit _ _) (beginLink_emit _ _) (endLink_emit _ _)
  stamped := h.stamped.congr (links_emit _ _) (timeline_emit _ _) (obsolete_emit _ _)
  stamp := ⟨by rw [timeline_emit]; exact h.stamp.eq, by rw [timeline_emit]; exact h.stamp.ahead⟩

theorem inserts_of_enlisted {u : Store α} {b : Arena α} {x : Handle} {n : Node α} {a : α}
    {l : Link α} {side : End} (hg : Arena.Gains s.arena b x a) (hr : Reworks (s.withArena b) t)
    (hx : t.arena.get? x = some n) (hh : n.head = none) (hl : FirstLink l x v a)
    (hu : Reworks (t.enlisted x l) u) : Inserts s (emit (.link x side v) u) x a where
  toAmends := (amends_gained hg).trans (hr.toAmends.trans ((amends_enlisted hx hh hl).trans
    (hu.toAmends.trans (givesBack_emit (e := .link x side v) rfl u).toAmends)))
  fresh := hg.fresh
  element y hy := by
    rw [arena_emit, hu.element, element_enlisted, hr.element, withArena, hg.get, if_neg hy]

/-- No pinned version notices anything of a change that is stamped ahead of all pins. -/
def Regime.stamped (α : Type) (v : Version) : Regime α v where
  Holds s sp := s.Changing v sp
  Comes := Reworks
  Free := Unseen
  Unlinks s t x := ∃ gone, Store.Unlinks s t v x gone
  Clears s t := ∃ gone, Amends s t [] gone
  Inserts s t x a _ := Store.Inserts s t x a
  sound h := h.sound
  stamp h := h.modification_eq
  refl := .refl
  trans := .trans
  heads h := h.heads
  element h := h.element
  disposed h := h.spares.disposed
  free h := h.unseen
  in_place h _ := h.unseen
  supersede {s sp x i} h hi hv ho := by
    have hf := reworks_supersede h hi ho
    refine ⟨hf, ⟨h.sound.supersede hi hv, h.stamped.supersede h.sound hi hv h.stamp,
      hf.stamp h.stamp⟩, fun w hp => ?_⟩
    rw [timeline_supersede] at hp
    rw [links_supersede, LinkTable.get_forked_size (h.sound.current_lt hi) (h.sound.obsoleteOn hi)]
    exact h.stamp.ahead w hp
  links h hl _ _ hk := ⟨reworks_links hl hk, h.links hl⟩
  detach h hx hi := by
    obtain ⟨t, gone, ht, hc, hd⟩ := returns_detach h hx hi
    exact ⟨t, ht, hc, hd.toUnhooks, gone,
      { hd.toAmends with stamp := hc.stamp, succeeds := fun _ _ _ _ hy hq => hd.succeeds hy hq }⟩
  comes_unlinks := fun h ⟨_, h'⟩ => ⟨_, h'.rework h⟩
  unlinks_clears := fun ⟨gone, h⟩ => ⟨gone, h.toAmends⟩
  comes_clears h := ⟨[], h.toAmends⟩
  clears_trans := fun ⟨_, h⟩ ⟨_, h'⟩ => ⟨_, h.trans h'⟩
  clears_disposed := fun ⟨_, h⟩ => h.spares.disposed
  gained h hg := h.gained hg
  enlisted {s x n a l} h hx hh he hl := by
    refine ⟨Changing.enlisted hx hh he hl h, ?_, fun i hi hu => ?_⟩ <;> unfold Unseen <;>
      rw [timeline_enlisted, links_enlisted]
    · rw [LinkTable.get_push_size, hl.createdOn]
      exact h.stamp.ahead
    · rw [LinkTable.get_push_of_lt hi]
      exact hu
  inserts _ _ hg hr _ hx hh hl _ _ hu hc := ⟨inserts_of_enlisted hg hr hx hh hl hu, hc.emit _⟩

/-! ## What holds along a change -/

/-- What is so from each store to the next, in whatever change. All that a change makes or retires
is stamped with the modification version, and a link is superseded only if it is observed. -/
structure Along (K : Store α → Store α → Prop) : Prop where
  refl : ∀ s, K s s
  trans : ∀ {s t u}, K s t → K t u → K s u
  retimed : ∀ {s : Store α} {tl : Timeline} (n : Nat),
    s.timeline.modification ≤ tl.modification → (∀ w ∈ s.timeline.pinned, w ∈ tl.pinned) →
    K s { s with timeline := tl, snapshotsOpened := n }
  reclaim : ∀ {s}, s.Sound s.obsolete [] → ∀ budget, K s (s.reclaim budget).2
  supersede : ∀ {s sp x i}, s.Sound s.obsolete sp → s.current? x = some i →
    s.timeline.isObserved (s.links.get i).createdOn = true →
    K s (s.supersede i s.timeline.modification)
  links : ∀ {s l}, s.links.SameSpine l → (s.links.Pointed → l.Pointed) →
    (∀ {i}, s.links.Moored i → l.Moored i) → K s { s with links := l }
  detach : ∀ {s t x i}, s.Sound s.obsolete [] → x.isSentinel = false → s.current? x = some i →
    (Edit.detach x s.timeline.modification).Returns s () t → K s t
  withArena : ∀ {s b x a}, s.arena.Gains b x a → K s (s.withArena b)
  enlisted : ∀ {s x n a l}, s.Sound s.obsolete [x] → s.arena.get? x = some n →
    n.head = none → FirstLink l x s.timeline.modification a →
    (s.links.Pointed → (s.links.push l).Pointed) → l.previous.isSome = true →
    K s (s.enlisted x l)
  emit : ∀ s e, K s (Store.emit e s)

theorem along_true : Along (α := α) fun _ _ => True := by constructor <;> intros <;> trivial

/-- The regime in which, besides, `K` holds from each store to the next. -/
def Regime.along (R : Regime α v) {K : Store α → Store α → Prop} (hK : Along K) :
    Regime α v where
  Holds := R.Holds
  Comes s t := R.Comes s t ∧ K s t
  Free := R.Free
  Unlinks s t x := R.Unlinks s t x ∧ K s t
  Clears s t := R.Clears s t ∧ K s t
  Inserts s t x a side := R.Inserts s t x a side ∧ K s t
  sound := R.sound
  stamp := R.stamp
  refl s := ⟨R.refl s, hK.refl s⟩
  trans h h' := ⟨R.trans h.1 h'.1, hK.trans h.2 h'.2⟩
  heads h := R.heads h.1
  element h := R.element h.1
  disposed h := R.disposed h.1
  free h := R.free h.1
  in_place := R.in_place
  supersede h hi hv ho := by
    obtain ⟨hc, hh, hf⟩ := R.supersede h hi hv ho
    have hs := hK.supersede (R.sound h) hi ho
    rw [R.stamp h] at hs
    exact ⟨⟨hc, hs⟩, hh, hf⟩
  links h hl hp hm hk := by
    obtain ⟨hc, hh⟩ := R.links h hl hp hm hk
    exact ⟨⟨hc, hK.links hl hp hm⟩, hh⟩
  detach h hx hi := by
    obtain ⟨t, ht, hh, hu, hd⟩ := R.detach h hx hi
    exact ⟨t, ht, hh, hu, hd, hK.detach (R.sound h) hx hi ((R.stamp h).symm ▸ ht)⟩
  comes_unlinks h h' := ⟨R.comes_unlinks h.1 h'.1, hK.trans h.2 h'.2⟩
  unlinks_clears h := ⟨R.unlinks_clears h.1, h.2⟩
  comes_clears h := ⟨R.comes_clears h.1, h.2⟩
  clears_trans h h' := ⟨R.clears_trans h.1 h'.1, hK.trans h.2 h'.2⟩
  clears_disposed h := R.clears_disposed h.1
  gained := R.gained
  enlisted := R.enlisted
  inserts {s b t u x _ _ l} side h hg hr ht hx hh hl hp hm hu hc := by
    obtain ⟨hi, he⟩ := R.inserts side h hg hr.1 ht hx hh hl hp hm hu.1 hc
    have hst : K s t := hK.trans (hK.withArena hg) hr.2
    have hl' := (R.stamp ht).symm ▸ hl
    have htu : K t u := hK.trans (hK.enlisted (R.sound ht) hx hh hl' hp hm) hu.2
    exact ⟨⟨hi, hK.trans (hK.trans hst htu) (hK.emit u _)⟩, he⟩

/-! ## Which nodes get other links -/

/-- From `s` to `t` no node but those in `xs` loses the current link that it has. -/
def Touches (s t : Store α) (xs : List Handle) : Prop :=
  ∀ x, x ∉ xs → (s.current? x).isSome → t.current? x = s.current? x

theorem Touches.refl (s : Store α) (xs : List Handle) : Touches s s xs := fun _ _ _ => rfl

theorem Touches.trans {u : Store α} {xs ys : List Handle} (h : Touches s t xs)
    (h' : Touches t u ys) (hy : ∀ y ∈ ys, y ∈ xs ∨ s.current? y = none) : Touches s u xs := by
  intro x hx hs
  have hxy : x ∉ ys := fun hm => (hy x hm).elim hx fun hn => by simp [hn] at hs
  have ht := h x hx hs
  rw [h' x hxy (by rw [ht]; exact hs), ht]

theorem Touches.mono {xs ys : List Handle} (h : Touches s t xs) (hs : ∀ x ∈ xs, x ∈ ys) :
    Touches s t ys := fun x hx => h x fun hm => hx (hs x hm)

namespace Regime

variable (R : Regime α v)

/-- `t` is `s` with some current links superseded by forks of them. -/
structure Forks (s t : Store α) : Prop where
  comes : R.Comes s t
  adjacent : ∀ {x y}, s.Adjacent x y → t.Adjacent x y
  counted : ∀ {n}, s.Counted n → t.Counted n

variable {R}

theorem Forks.refl (s : Store α) : R.Forks s s := ⟨R.refl s, id, id⟩

theorem Forks.trans {u : Store α} (h : R.Forks s t) (h' : R.Forks t u) : R.Forks s u :=
  ⟨R.trans h.comes h'.comes, fun ha => h'.adjacent (h.adjacent ha),
    fun hn => h'.counted (h.counted hn)⟩

theorem heads_iff (h : R.Comes s t) {l : List Handle} (hl : s.Heads l) : t.Heads l :=
  fun x => by rw [R.heads h]; exact hl x

variable (h : R.Holds s sp)

include h

/-- A link in use is writable as it is, or a fork takes its place. -/
theorem returns_writable {x : Handle} {i : Nat} (hi : s.current? x = some i) :
    ∃ j t, (Edit.writable i v).Returns s j t ∧ R.Forks s t ∧ R.Holds t sp ∧
      t.current? x = some j ∧ R.Free t j ∧ ∀ y, y ≠ x → t.current? y = s.current? y := by
  have hs := R.sound h
  rcases writable_cases hs hi v with ⟨hw, ht⟩ | ⟨hv, ho, ht⟩
  · exact ⟨i, s, ht, .refl s, h, hi, R.in_place h hi hw, fun _ _ => rfl⟩
  · obtain ⟨hc, hh, hf⟩ := R.supersede h hi hv ho
    refine ⟨s.links.size, s.supersede i v, ht,
      ⟨hc, Adjacent.supersede hs hi, Counted.supersede hs hi⟩, hh, ?_, hf, fun y hy => ?_⟩
    · rw [current?_supersede hs hi, if_pos rfl]
    · rw [current?_supersede hs hi, if_neg hy]

theorem joined {p n : Nat} (hp : p < s.links.size) (hn : n < s.links.size) (hpf : R.Free s p)
    (hnf : R.Free s n) : R.Comes s (s.joined p n) ∧ R.Holds (s.joined p n) sp := by
  refine R.links h (LinkTable.sameSpine_join _ _ _) (fun h => h.join hp hn)
    (fun h => h.join hp hn) fun {i} _ hi => ?_
  rw [LinkTable.next_join hp, LinkTable.previous_join hn]
  exact ⟨if_neg fun e : i = n => hi (e ▸ hnf), if_neg fun e : i = p => hi (e ▸ hpf)⟩

theorem recounted (b e : Nat) (f : Nat → Nat) :
    R.Comes s (s.recounted b e f) ∧ R.Holds (s.recounted b e f) sp :=
  R.links h (sameSpine_recounted s b e f) (fun h => pointed_recounted h b e f)
    (fun h => moored_recounted h b e f) fun _ _ => neighbours_recounted s b e f _

/-- Both ends are made writable before anything is counted. -/
theorem exists_ends : ∃ u, (∀ f, (Edit.recount f v).Returns s ()
      (u.recounted u.beginLink u.endLink f)) ∧ R.Forks s u ∧ R.Holds u sp ∧
    ∀ x, x ≠ .atBegin → x ≠ .atEnd → u.current? x = s.current? x := by
  obtain ⟨b, t, ht, hf, hct, hb, _, hne⟩ := returns_writable h (current?_atBegin s)
  obtain ⟨e, u, hu, hf', hcu, he, _, hne'⟩ := returns_writable hct (current?_atEnd t)
  obtain rfl : u.beginLink = b :=
    Option.some.inj ((current?_atBegin u).symm.trans ((hne' _ (by decide)).trans hb))
  obtain rfl : u.endLink = e := Option.some.inj ((current?_atEnd u).symm.trans he)
  refine ⟨u, fun f => ?_, hf.trans hf', hcu, fun x h1 h2 => (hne' x h2).trans (hne x h1)⟩
  unfold Edit.recount
  refine (Edit.returns_get s).bind (ht.bind ?_)
  refine (Edit.returns_get t).bind (hu.bind ?_)
  exact Edit.returns_editLinks _ u

theorem returns_recount {m : Nat} (hm : s.Counted m) (f : Nat → Nat) :
    ∃ t, (Edit.recount f v).Returns s () t ∧ R.Comes s t ∧ R.Holds t sp ∧ t.Counted (f m) ∧
      (∀ {x y}, s.Adjacent x y → t.Adjacent x y) ∧
      ∀ x, x ≠ .atBegin → x ≠ .atEnd → t.current? x = s.current? x := by
  obtain ⟨u, hu, hf, hc, hne⟩ := exists_ends h
  obtain ⟨hr, hcr⟩ := recounted hc u.beginLink u.endLink f
  exact ⟨u.recounted u.beginLink u.endLink f, hu f, R.trans hf.comes hr, hcr,
    counted_recounted (R.sound hc) (hf.counted hm) f,
    fun hxy => adjacent_recounted (hf.adjacent hxy), hne⟩

/-- Two neighbouring links are made writable, the second of them first. -/
theorem returns_writables {w y : Handle} {p n : Nat} (hwy : w ≠ y) (hp : s.current? w = some p)
    (hn : s.current? y = some n) :
    ∃ p' n' s1 t, (Edit.writable n v).Returns s n' s1 ∧ s1.current? w = some p ∧
      (Edit.writable p v).Returns s1 p' t ∧ R.Forks s t ∧ R.Holds t sp ∧
      t.current? w = some p' ∧ t.current? y = some n' ∧ R.Free t p' ∧ R.Free t n' ∧
      ∀ z, z ≠ w → z ≠ y → t.current? z = s.current? z := by
  obtain ⟨n', s1, h1, hf1, hc1, hn1, hu1, hne1⟩ := returns_writable h hn
  have hp1 := (hne1 w hwy).trans hp
  obtain ⟨p', t, h2, hf2, hc2, hp2, hu2, hne2⟩ := returns_writable hc1 hp1
  exact ⟨p', n', s1, t, h1, hp1, h2, hf1.trans hf2, hc2, hp2, (hne2 y hwy.symm).trans hn1, hu2,
    R.free hf2.comes ((R.sound hc1).current_lt hn1) hu1,
    fun z hw hy => (hne2 z hw).trans (hne1 z hy)⟩

end Regime

end Store

end SnapshotDeque
