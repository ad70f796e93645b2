import Mathlib.Logic.Relation
import SnapshotDeque.Link
import SnapshotDeque.Proofs.Timeline

/-!
The links of one node form a chain, each superseded by a later one. A snapshot at `v` sees the one
link of the chain that was created by then and not superseded or unlinked by then. Main statement:
from any link that leads to it, `resolve` finds the link that is seen, so a pointer to a superseded
link is as good as one to its successor.
-/

namespace SnapshotDeque.LinkTable

variable {α : Type} {t u : LinkTable α}

structure Chained (t : LinkTable α) : Prop where
  lt : ∀ {i j}, (t.get i).newer = some j → i < j
  lt_size : ∀ {i j}, (t.get i).newer = some j → j < t.size
  owner : ∀ {i j}, (t.get i).newer = some j → (t.get j).owner = (t.get i).owner
  createdOn : ∀ {i j}, (t.get i).newer = some j → (t.get i).createdOn < (t.get j).createdOn
  obsoleteOn : ∀ {i j}, (t.get i).newer = some j →
    (t.get i).obsoleteOn = some (t.get j).createdOn
  older : ∀ {i j}, (t.get j).older = some i → (t.get i).newer = some j

/-- Superseding leads from link `i` to link `j`. -/
def Leads (t : LinkTable α) : Nat → Nat → Prop :=
  Relation.ReflTransGen fun i j => (t.get i).newer = some j

/-- Whether link `i` was current at `v`. -/
def Seen (t : LinkTable α) (v : Version) (i : Nat) : Prop :=
  (t.get i).createdOn ≤ v ∧ ∀ w, (t.get i).obsoleteOn = some w → v < w

theorem Leads.refl (i : Nat) : t.Leads i i := Relation.ReflTransGen.refl

theorem Leads.tail {i j k : Nat} (h : t.Leads i j) (hjk : (t.get j).newer = some k) :
    t.Leads i k := Relation.ReflTransGen.tail h hjk

theorem Leads.owner (ht : t.Chained) {i j : Nat} (h : t.Leads i j) :
    (t.get j).owner = (t.get i).owner := by
  induction h with
  | refl => rfl
  | tail _ hjk ih => exact (ht.owner hjk).trans ih

theorem Leads.le (ht : t.Chained) {i j : Nat} (h : t.Leads i j) :
    (t.get i).createdOn ≤ (t.get j).createdOn := by
  induction h with
  | refl => exact Nat.le_refl _
  | tail _ hjk ih => exact Nat.le_trans ih (Nat.le_of_lt (ht.createdOn hjk))

/-! ## Resolving -/

theorem resolveForward_of_seen (ht : t.Chained) {v : Version} {i : Nat} (hs : t.Seen v i) :
    t.resolveForward v i = i := by
  rw [resolveForward]
  cases hn : (t.get i).newer with
  | none => rfl
  | some j =>
    have hlt := hs.2 _ (ht.obsoleteOn hn)
    exact if_neg fun hc => absurd hc.2.2 (not_le_of_gt hlt)

theorem resolveForward_of_leads (ht : t.Chained) {v : Version} {i j : Nat} (h : t.Leads i j)
    (hs : t.Seen v j) : t.resolveForward v i = j := by
  induction h using Relation.ReflTransGen.head_induction_on with
  | refl => exact resolveForward_of_seen ht hs
  | head hik hkj ih =>
    have hle := Nat.le_trans (Leads.le ht hkj) hs.1
    rw [resolveForward, hik]
    exact (if_pos ⟨ht.lt hik, ht.lt_size hik, hle⟩).trans ih

theorem resolve_of_leads (ht : t.Chained) {v : Version} {i j : Nat} (h : t.Leads i j)
    (hs : t.Seen v j) : t.resolve v i = some j := by
  have hle : (t.get i).createdOn ≤ v := Nat.le_trans (Leads.le ht h) hs.1
  rw [resolve, resolveBack, if_pos hle, Option.map_some, resolveForward_of_leads ht h hs]

/-- A link that is too young is left for its predecessor. -/
theorem resolve_of_older (ht : t.Chained) {v : Version} {i j : Nat}
    (ho : (t.get i).older = some j) (hi : v < (t.get i).createdOn) (hs : t.Seen v j) :
    t.resolve v i = some j := by
  rw [resolve, resolveBack, if_neg (not_le_of_gt hi), ho]
  simp only [if_pos (ht.lt (ht.older ho))]
  rw [resolveBack, if_pos hs.1, Option.map_some, resolveForward_of_seen ht hs]

/-! ## How a table may change -/

/-- `u` has the links of `t`, each leading at least where it led. -/
structure Grows (t u : LinkTable α) : Prop where
  size_le : t.size ≤ u.size
  owner : ∀ {i}, i < t.size → (u.get i).owner = (t.get i).owner
  createdOn : ∀ {i}, i < t.size → (u.get i).createdOn = (t.get i).createdOn
  newer : ∀ {i j}, (t.get i).newer = some j → (u.get i).newer = some j

theorem Grows.refl (t : LinkTable α) : Grows t t :=
  ⟨Nat.le_refl _, fun _ => rfl, fun _ => rfl, id⟩

theorem Grows.trans {w : LinkTable α} (h : Grows t u) (h' : Grows u w) : Grows t w where
  size_le := Nat.le_trans h.size_le h'.size_le
  owner hi := (h'.owner (Nat.lt_of_lt_of_le hi h.size_le)).trans (h.owner hi)
  createdOn hi := (h'.createdOn (Nat.lt_of_lt_of_le hi h.size_le)).trans (h.createdOn hi)
  newer hn := h'.newer (h.newer hn)

theorem Grows.leads (h : Grows t u) {i j : Nat} (hl : t.Leads i j) : u.Leads i j :=
  Relation.ReflTransGen.mono (fun _ _ hn => h.newer hn) i j hl

/-- What is seen at `v` in `t` is seen in `u` as well, with the same neighbours and element. -/
structure Keeps (t u : LinkTable α) (v : Version) (i : Nat) : Prop where
  seen : u.Seen v i
  previous : (u.get i).previous = (t.get i).previous
  next : (u.get i).next = (t.get i).next
  element : (u.get i).element = (t.get i).element

theorem Keeps.refl {v : Version} {i : Nat} (h : t.Seen v i) : Keeps t t v i :=
  ⟨h, rfl, rfl, rfl⟩

theorem Keeps.trans {w : LinkTable α} {v : Version} {i : Nat} (h : Keeps t u v i)
    (h' : Keeps u w v i) : Keeps t w v i :=
  ⟨h'.seen, h'.previous.trans h.previous, h'.next.trans h.next, h'.element.trans h.element⟩

theorem Keeps.of_get_eq {v : Version} {i : Nat} (h : t.Seen v i) (he : u.get i = t.get i) :
    Keeps t u v i := by
  refine ⟨?_, ?_, ?_, ?_⟩ <;> simp only [Seen, he]
  exact h

/-! ## Changes that leave the chains alone -/

/-- `u` differs from `t` in neighbours and counts only. -/
structure SameSpine (t u : LinkTable α) : Prop where
  size : u.size = t.size
  owner : ∀ i, (u.get i).owner = (t.get i).owner
  createdOn : ∀ i, (u.get i).createdOn = (t.get i).createdOn
  obsoleteOn : ∀ i, (u.get i).obsoleteOn = (t.get i).obsoleteOn
  older : ∀ i, (u.get i).older = (t.get i).older
  newer : ∀ i, (u.get i).newer = (t.get i).newer
  element : ∀ i, (u.get i).element = (t.get i).element

theorem SameSpine.trans {w : LinkTable α} (h : SameSpine t u) (h' : SameSpine u w) :
    SameSpine t w where
  size := h'.size.trans h.size
  owner i := (h'.owner i).trans (h.owner i)
  createdOn i := (h'.createdOn i).trans (h.createdOn i)
  obsoleteOn i := (h'.obsoleteOn i).trans (h.obsoleteOn i)
  older i := (h'.older i).trans (h.older i)
  newer i := (h'.newer i).trans (h.newer i)
  element i := (h'.element i).trans (h.element i)

theorem SameSpine.chained (h : SameSpine t u) (ht : t.Chained) : u.Chained where
  lt hn := ht.lt ((h.newer _).symm.trans hn)
  lt_size hn := by rw [h.size]; exact ht.lt_size ((h.newer _).symm.trans hn)
  owner hn := by rw [h.owner, h.owner]; exact ht.owner ((h.newer _).symm.trans hn)
  createdOn hn := by rw [h.createdOn, h.createdOn]; exact ht.createdOn ((h.newer _).symm.trans hn)
  obsoleteOn hn := by
    rw [h.obsoleteOn, h.createdOn]; exact ht.obsoleteOn ((h.newer _).symm.trans hn)
  older ho := (h.newer _).trans (ht.older ((h.older _).symm.trans ho))

theorem SameSpine.grows (h : SameSpine t u) : Grows t u where
  size_le := Nat.le_of_eq h.size.symm
  owner _ := h.owner _
  createdOn _ := h.createdOn _
  newer hn := (h.newer _).trans hn

theorem SameSpine.seen (h : SameSpine t u) {v : Version} {i : Nat} (hs : t.Seen v i) :
    u.Seen v i := by
  unfold Seen
  rw [h.createdOn, h.obsoleteOn]
  exact hs

/-- A change of neighbours and counts in a single link. -/
theorem sameSpine_modify (t : LinkTable α) (i : Nat) {f : Link α → Link α}
    (hf : ∀ l, (f l).owner = l.owner ∧ (f l).createdOn = l.createdOn ∧
      (f l).obsoleteOn = l.obsoleteOn ∧ (f l).older = l.older ∧ (f l).newer = l.newer ∧
      (f l).element = l.element) : SameSpine t (t.modify i f) := by
  refine ⟨by simp, ?_, ?_, ?_, ?_, ?_, ?_⟩ <;> intro j <;> rw [get_modify] <;> split <;> simp [hf]

/-- Makes two links lead to each other. -/
def join (t : LinkTable α) (left right : Nat) : LinkTable α :=
  (t.setNext left right).setPrevious right left

theorem sameSpine_join (t : LinkTable α) (p n : Nat) : SameSpine t (t.join p n) :=
  have hn : SameSpine t (t.setNext p n) :=
    sameSpine_modify _ _ fun _ => ⟨rfl, rfl, rfl, rfl, rfl, rfl⟩
  hn.trans (sameSpine_modify _ _ fun _ => ⟨rfl, rfl, rfl, rfl, rfl, rfl⟩)

theorem next_join {p n : Nat} (hp : p < t.size) (i : Nat) :
    ((t.join p n).get i).next = if i = p then some n else (t.get i).next := by
  simp only [join, setPrevious, setNext, get_modify, size_modify]
  by_cases hn : n = i <;> by_cases hi : p = i <;> grind

theorem previous_join {p n : Nat} (hn : n < t.size) (i : Nat) :
    ((t.join p n).get i).previous = if i = n then some p else (t.get i).previous := by
  simp only [join, setPrevious, setNext, get_modify, size_modify]
  by_cases hn : n = i <;> by_cases hi : p = i <;> grind

/-! ## Pointers -/

/-- Whether the links name links of the table only as their neighbours. -/
def Pointed (t : LinkTable α) : Prop :=
  ∀ i j, (t.get i).previous = some j ∨ (t.get i).next = some j → j < t.size

/-- A table in which each link names the neighbours that it named before, or others of the table. -/
theorem Pointed.of_get (ht : t.Pointed) (hs : t.size ≤ u.size)
    (h : ∀ i j, (u.get i).previous = some j ∨ (u.get i).next = some j →
      j < u.size ∨ ∃ k, (t.get k).previous = some j ∨ (t.get k).next = some j) : u.Pointed := by
  intro i j hij
  rcases h i j hij with hj | ⟨k, hk⟩
  · exact hj
  · exact Nat.lt_of_lt_of_le (ht k j hk) hs

theorem Pointed.join (ht : t.Pointed) {p n : Nat} (hp : p < t.size) (hn : n < t.size) :
    (t.join p n).Pointed := by
  have hs := (sameSpine_join t p n).size
  refine ht.of_get (Nat.le_of_eq hs.symm) fun i j hij => ?_
  rw [previous_join hn, next_join hp] at hij
  rw [hs]
  rcases hij with hij | hij
  · split at hij
    · cases hij
      exact Or.inl hp
    · exact Or.inr ⟨i, Or.inl hij⟩
  · split at hij
    · cases hij
      exact Or.inl hn
    · exact Or.inr ⟨i, Or.inr hij⟩

/-- Whether link `i` names a neighbour. -/
def Moored (t : LinkTable α) (i : Nat) : Prop :=
  (t.get i).previous.isSome = true ∨ (t.get i).next.isSome = true

theorem Moored.join {i : Nat} (h : t.Moored i) {p n : Nat} (hp : p < t.size) (hn : n < t.size) :
    (t.join p n).Moored i := by
  unfold Moored
  rw [previous_join hn, next_join hp]
  refine h.imp (fun h => ?_) fun h => ?_ <;> split
  · rfl
  · exact h
  · rfl
  · exact h

theorem Pointed.push (ht : t.Pointed) {l : Link α}
    (hl : ∀ j, l.previous = some j ∨ l.next = some j → j < t.size) : (t.push l).Pointed := by
  intro i j hij
  rw [size_push]
  rw [get_push] at hij
  split at hij
  · exact Nat.lt_succ_of_lt (hl j hij)
  · exact Nat.lt_succ_of_lt (ht i j hij)

/-! ## Superseding a link -/

/-- The successor that `fork` makes of link `i`. -/
def successor (t : LinkTable α) (i : Nat) (v : Version) : Link α :=
  { t.get i with createdOn := v, obsoleteOn := none, older := some i, newer := none }

/-- The table once link `i` is superseded on `v`. -/
def forked (t : LinkTable α) (i : Nat) (v : Version) : LinkTable α :=
  (t.push (t.successor i v)).modify i fun l =>
    ({ l with newer := some t.size }).markObsolete v

theorem fork_eq {i : Nat} {v : Version} (hn : (t.get i).newer = none)
    (hv : (t.get i).createdOn < v) : t.fork i v = .ok (t.size, t.forked i v) := by
  unfold fork
  dsimp only
  rw [if_neg (not_le_of_gt hv), hn]
  rfl

@[simp] theorem size_forked (t : LinkTable α) (i : Nat) (v : Version) :
    (t.forked i v).size = t.size + 1 := by simp [forked]

theorem get_forked {i : Nat} {v : Version} (hi : i < t.size) (ho : (t.get i).obsoleteOn = none)
    (k : Nat) :
    (t.forked i v).get k =
      if k = t.size then t.successor i v
      else if k = i then { t.get i with newer := some t.size, obsoleteOn := some v }
      else t.get k := by
  simp only [forked, get_modify, get_push, size_push]
  by_cases hk : k = i
  · subst hk
    have : k ≠ t.size := Nat.ne_of_lt hi
    simp [this, Nat.lt_succ_of_lt hi, Link.markObsolete, ho]
  · have : i ≠ k := fun e => hk e.symm
    simp [this, hk]

section Forked

variable {i : Nat} {v : Version} (hi : i < t.size) (ho : (t.get i).obsoleteOn = none)

include hi ho

theorem get_forked_size : (t.forked i v).get t.size = t.successor i v := by
  rw [get_forked hi ho, if_pos rfl]

theorem get_forked_self :
    (t.forked i v).get i = { t.get i with newer := some t.size, obsoleteOn := some v } := by
  rw [get_forked hi ho, if_neg (Nat.ne_of_lt hi), if_pos rfl]

theorem get_forked_of_ne {k : Nat} (hk : k < t.size) (hne : k ≠ i) :
    (t.forked i v).get k = t.get k := by
  rw [get_forked hi ho, if_neg (Nat.ne_of_lt hk), if_neg hne]

theorem owner_forked (k : Nat) (hk : k < t.size) :
    ((t.forked i v).get k).owner = (t.get k).owner := by
  by_cases hne : k = i
  · rw [hne, get_forked_self hi ho]
  · rw [get_forked_of_ne hi ho hk hne]

theorem createdOn_forked (k : Nat) (hk : k < t.size) :
    ((t.forked i v).get k).createdOn = (t.get k).createdOn := by
  by_cases hne : k = i
  · rw [hne, get_forked_self hi ho]
  · rw [get_forked_of_ne hi ho hk hne]

theorem Pointed.forked (ht : t.Pointed) : (t.forked i v).Pointed := by
  refine ht.of_get (by simp) fun k j hj => Or.inr ?_
  rw [get_forked hi ho] at hj
  split at hj
  · exact ⟨i, hj⟩
  · split at hj
    · exact ⟨i, hj⟩
    · exact ⟨k, hj⟩

theorem element_forked (k : Nat) (hk : k < t.size) :
    ((t.forked i v).get k).element = (t.get k).element := by
  by_cases hne : k = i
  · rw [hne, get_forked_self hi ho]
  · rw [get_forked_of_ne hi ho hk hne]

theorem newer_forked (hn : (t.get i).newer = none) {k j : Nat} :
    ((t.forked i v).get k).newer = some j ↔
      k = i ∧ j = t.size ∨ (t.get k).newer = some j := by
  rw [get_forked hi ho]
  by_cases hk : k = t.size
  · subst hk
    have : t.size ≠ i := Nat.ne_of_gt hi
    simp [successor, get_of_size_le (Nat.le_refl t.size), Link.blank, this]
  · by_cases hki : k = i
    · subst hki
      simp [hk, hn, eq_comm]
    · simp [hk, hki]

theorem grows_forked (hn : (t.get i).newer = none) : Grows t (t.forked i v) where
  size_le := by simp
  owner hk := owner_forked hi ho _ hk
  createdOn hk := createdOn_forked hi ho _ hk
  newer h := (newer_forked hi ho hn).2 (Or.inr h)

theorem leads_forked (hn : (t.get i).newer = none) {k : Nat} (h : t.Leads k i) :
    (t.forked i v).Leads k t.size :=
  ((grows_forked hi ho hn).leads h).tail ((newer_forked hi ho hn).2 (Or.inl ⟨rfl, rfl⟩))

theorem keeps_forked {w : Version} (hw : w < v) {k : Nat} (hk : k < t.size) (hs : t.Seen w k) :
    Keeps t (t.forked i v) w k := by
  by_cases hne : k = i
  · subst hne
    rw [Seen] at hs
    refine ⟨?_, ?_, ?_, ?_⟩ <;> simp only [Seen, get_forked_self hi ho, Option.some.injEq]
    exact ⟨hs.1, fun _ e => e ▸ hw⟩
  · exact Keeps.of_get_eq hs (get_forked_of_ne hi ho hk hne)

theorem Chained.forked (ht : t.Chained) (hn : (t.get i).newer = none)
    (hv : (t.get i).createdOn < v) : (t.forked i v).Chained where
  lt h := by
    rcases (newer_forked hi ho hn).1 h with ⟨rfl, rfl⟩ | h
    · exact hi
    · exact ht.lt h
  lt_size h := by
    rw [size_forked]
    rcases (newer_forked hi ho hn).1 h with ⟨_, rfl⟩ | h
    · exact Nat.lt_succ_self _
    · exact Nat.lt_succ_of_lt (ht.lt_size h)
  owner h := by
    rcases (newer_forked hi ho hn).1 h with ⟨rfl, rfl⟩ | h
    · rw [get_forked_size hi ho, owner_forked hi ho _ hi]; rfl
    · have hlt := ht.lt_size h
      rw [owner_forked hi ho _ hlt, owner_forked hi ho _ (Nat.lt_trans (ht.lt h) hlt)]
      exact ht.owner h
  createdOn h := by
    rcases (newer_forked hi ho hn).1 h with ⟨rfl, rfl⟩ | h
    · rw [get_forked_size hi ho, createdOn_forked hi ho _ hi]; exact hv
    · have hlt := ht.lt_size h
      rw [createdOn_forked hi ho _ hlt, createdOn_forked hi ho _ (Nat.lt_trans (ht.lt h) hlt)]
      exact ht.createdOn h
  obsoleteOn {k j} h := by
    rcases (newer_forked hi ho hn).1 h with ⟨rfl, rfl⟩ | h
    · rw [get_forked_size hi ho, get_forked_self hi ho]; rfl
    · have hlt := ht.lt_size h
      have hne : k ≠ i := fun e => by rw [e, hn] at h; cases h
      rw [createdOn_forked hi ho _ hlt, get_forked_of_ne hi ho (Nat.lt_trans (ht.lt h) hlt) hne]
      exact ht.obsoleteOn h
  older {k j} h := by
    rw [newer_forked hi ho hn]
    rw [get_forked hi ho] at h
    split at h
    next hj =>
      have : i = k := Option.some.inj h
      exact Or.inl ⟨this.symm, hj⟩
    next =>
      split at h
      next hj =>
        rw [hj]
        exact Or.inr (ht.older h)
      next => exact Or.inr (ht.older h)

end Forked

end SnapshotDeque.LinkTable
