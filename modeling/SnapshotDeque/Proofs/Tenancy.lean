import SnapshotDeque.Proofs.Anatomy

/-!
Who sits in a slot of the arena. A pass, a removal and disposal only vacate slots, and an insertion
only fills vacant ones. So in the course of a change the node in a slot goes once at most; if it
goes the slot gets a new generation, and whoever sits there afterwards is a node that was not there
before.
-/

namespace SnapshotDeque

namespace Arena

variable {α : Type} {a b c : Arena α} {i : UInt32} {k n : Nat}

/-- What stays the same of the node in a slot. -/
def occupant? (a : Arena α) (i : UInt32) : Option (NodeId × α) :=
  (a.slot i).node.map fun n => (n.id, n.element)

/-- How often the node in slot `i` of `a` goes on the way to `b`: once, if it is not there. -/
def leaves (a b : Arena α) (i : UInt32) : Nat :=
  match a.occupant? i with
  | none => 0
  | some x => if (b.occupant? i).map (·.1) = some x.1 then 0 else 1

/-- From `a` to `b` slots are only vacated. -/
structure Lets (a b : Arena α) : Prop where
  valid : b.Valid
  nextId : b.nextId = a.nextId
  slot : ∀ i, (b.slot i).generation = (a.slot i).generation ∧ b.occupant? i = a.occupant? i ∨
    (b.slot i).generation = (a.slot i).generation + 1 ∧ (∃ x, a.occupant? i = some x) ∧
      b.occupant? i = none

/-- From `a` to `b` vacant slots are filled. -/
structure Takes (a b : Arena α) : Prop where
  valid : b.Valid
  nextId : a.nextId ≤ b.nextId
  generation : ∀ i, (b.slot i).generation = (a.slot i).generation
  slot : ∀ i, b.occupant? i = a.occupant? i ∨
    a.occupant? i = none ∧ ∃ x, b.occupant? i = some x ∧ a.nextId ≤ x.1.val

/-- What an edit does to the arena in which nodes only come or only go. -/
def Ferries : Traffic → Arena α → Arena α → Prop
  | .coming => Takes
  | .going => Lets

theorem Lets.refl (ha : a.Valid) : Lets a a := ⟨ha, rfl, fun _ => Or.inl ⟨rfl, rfl⟩⟩

theorem Lets.trans (h : Lets a b) (h' : Lets b c) : Lets a c := by
  refine ⟨h'.valid, h'.nextId.trans h.nextId, fun i => ?_⟩
  rcases h'.slot i with ⟨hg', hn'⟩ | ⟨hg', ⟨x, hx⟩, hn'⟩
  · rw [hg', hn']
    exact h.slot i
  · rcases h.slot i with ⟨hg, hn⟩ | ⟨hg, -, hn⟩
    · exact Or.inr ⟨by rw [hg', hg], ⟨x, hn ▸ hx⟩, hn'⟩
    · -- a vacant slot is not vacated
      rw [hn] at hx
      cases hx

theorem Takes.refl (ha : a.Valid) : Takes a a :=
  ⟨ha, Nat.le_refl _, fun _ => rfl, fun _ => Or.inl rfl⟩

theorem Takes.trans (h : Takes a b) (h' : Takes b c) : Takes a c := by
  refine ⟨h'.valid, Nat.le_trans h.nextId h'.nextId,
    fun i => (h'.generation i).trans (h.generation i), fun i => ?_⟩
  rcases h'.slot i with hn' | ⟨hv, x, hx, hle⟩
  · rw [hn']
    exact h.slot i
  · rcases h.slot i with hn | ⟨-, y, hy, -⟩
    · exact Or.inr ⟨hn ▸ hv, x, hx, Nat.le_trans h.nextId hle⟩
    · rw [hv] at hy
      cases hy

theorem Ferries.refl (ha : a.Valid) : ∀ k, Ferries k a a
  | .coming => Takes.refl ha
  | .going => Lets.refl ha

theorem Ferries.valid : ∀ {k}, Ferries k a b → b.Valid
  | .coming, h => Takes.valid h
  | .going, h => Lets.valid h

theorem Ferries.trans : ∀ {k}, Ferries k a b → Ferries k b c → Ferries k a c
  | .coming, h, h' => Takes.trans h h'
  | .going, h, h' => Lets.trans h h'

/-- What is in the slots stays the same. -/
theorem Ferries.of_slot (hb : b.Valid) (hn : b.nextId = a.nextId)
    (hg : ∀ i, (b.slot i).generation = (a.slot i).generation)
    (ho : ∀ i, b.occupant? i = a.occupant? i) : ∀ k, Ferries k a b
  | .coming => ⟨hb, Nat.le_of_eq hn.symm, hg, fun i => Or.inl (ho i)⟩
  | .going => ⟨hb, hn, fun i => Or.inl ⟨hg i, ho i⟩⟩

theorem ferries_modify (ha : a.Valid) (x : Handle) {f : Node α → Node α}
    (hf : ∀ n, (f n).id = n.id ∧ (f n).element = n.element) (k : Traffic) :
    Ferries k a (a.modify x f) := by
  refine .of_slot (ha.modify x hf) (nextId_modify ..) (fun i => ?_) (fun i => ?_) k
  · rw [slot_modify]
    split <;> rfl
  · unfold occupant?
    rw [slot_modify]
    split
    · rw [Option.map_map]
      exact congrArg (Option.map · _) (funext fun n => by simp [hf n])
    · rfl

theorem lets_vacated (ha : a.Valid) {x : Handle} {n : Node α} (hn : a.get? x = some n) :
    Lets a (a.vacated x) := by
  have hs := (get?_eq_some.1 hn).2.2
  refine ⟨ha.vacated hn, rfl, fun i => ?_⟩
  unfold occupant?
  rw [slot_vacated (lt_of_slot_node hs)]
  split
  next hi => exact Or.inr ⟨rfl, ⟨_, by rw [hi, hs]; rfl⟩, rfl⟩
  next => exact Or.inl ⟨rfl, rfl⟩

theorem slot_of_insert {e : α} {x : Handle} (ha : a.Valid) (h : a.insert e = .ok (x, b))
    (j : UInt32) : b.slot j = if j = x.index then
      { generation := (a.slot j).generation, node := some (a.newNode e) } else a.slot j := by
  unfold Arena.insert at h
  dsimp only at h
  split at h
  next i free hf =>
    cases h
    have hlt := ((ha.vacant i).1 (hf ▸ List.mem_cons_self ..)).2.1
    by_cases hj : j = i
    · subst hj
      simp [slot, hlt, Array.getElem_modify, newNode]
    · have : i.toNat ≠ j.toNat := fun e => hj (UInt32.toNat_inj.1 e).symm
      simp [slot, Array.getElem?_modify, this, hj]
  next hf =>
    split at h
    next hl =>
      cases h
      have ht : (UInt32.ofNat a.slots.size).toNat = a.slots.size := UInt32.toNat_ofNat_of_lt' hl
      by_cases hj : j.toNat = a.slots.size
      · obtain rfl : j = UInt32.ofNat a.slots.size := UInt32.toNat_inj.1 (hj.trans ht.symm)
        simp [slot, ht, newNode]
      · have hne : j ≠ UInt32.ofNat a.slots.size := fun e => hj (e ▸ ht)
        simp [slot, Array.getElem?_push, hj, hne]
    next => cases h

theorem Gains.vacant {e : α} {x : Handle} (hg : Gains a b x e) (ha : a.Valid)
    (h : a.insert e = .ok (x, b)) : (a.slot x.index).node = none := by
  have hx := hg.get x
  rw [if_pos rfl] at hx
  have hgen := (get?_eq_some.1 hx).2.1
  rw [slot_of_insert ha h, if_pos rfl] at hgen
  cases hv : (a.slot x.index).node with
  | none => rfl
  | some m =>
    have hm : a.get? x = some m := get?_eq_some.2 ⟨hg.payload, hgen, hv⟩
    rw [hg.fresh] at hm
    cases hm

/-- The node that comes is numbered on and sits in a slot that was vacant. -/
theorem takes_insert {e : α} {x : Handle} (ha : a.Valid) (h : a.insert e = .ok (x, b)) :
    Takes a b ∧ b.get? x = some (a.newNode e) := by
  have hs := slot_of_insert ha h
  rcases ha.insert e with ⟨x', b', h', hg⟩ | ⟨h', -⟩
  · obtain ⟨rfl, rfl⟩ : x' = x ∧ b' = b := by
      rw [h] at h'
      cases h'
      exact ⟨rfl, rfl⟩
    have hx := hg.get x'
    rw [if_pos rfl] at hx
    refine ⟨⟨hg.valid, ?_, fun i => ?_, fun i => ?_⟩, hx⟩
    · rw [hg.nextId]
      exact Nat.le_succ _
    · rw [hs]
      split <;> rfl
    · unfold occupant?
      rw [hs]
      split
      next hi =>
        refine Or.inr ⟨?_, _, rfl, Nat.le_refl a.nextId⟩
        rw [hi, hg.vacant ha h]
        rfl
      next => exact Or.inl rfl
  · rw [h] at h'
    cases h'

/-! ## Changes -/

/-- What the course of a change does to the slots: the node in a slot stays, or one comes to a
vacant slot, or the node goes and another may come. Whoever comes is numbered on. -/
structure Shifts (a b : Arena α) : Prop where
  nextId : a.nextId ≤ b.nextId
  slot : ∀ i,
    (b.slot i).generation = (a.slot i).generation ∧ (b.occupant? i = a.occupant? i ∨
      a.occupant? i = none ∧ ∃ x, b.occupant? i = some x ∧ a.nextId ≤ x.1.val) ∨
    (b.slot i).generation = (a.slot i).generation + 1 ∧ (∃ x, a.occupant? i = some x) ∧
      ∀ x, b.occupant? i = some x → a.nextId ≤ x.1.val

theorem Shifts.refl (a : Arena α) : Shifts a a :=
  ⟨Nat.le_refl _, fun _ => Or.inl ⟨rfl, Or.inl rfl⟩⟩

theorem Lets.shifts (h : Lets a b) : Shifts a b := by
  refine ⟨Nat.le_of_eq h.nextId.symm, fun i => ?_⟩
  rcases h.slot i with ⟨hg, hn⟩ | ⟨hg, hx, hn⟩
  · exact Or.inl ⟨hg, Or.inl hn⟩
  · refine Or.inr ⟨hg, hx, fun y hy => ?_⟩
    rw [hn] at hy
    cases hy

/-- First nodes go and then nodes come. -/
theorem Lets.shifts_of_takes (h : Lets a b) (h' : Takes b c) : Shifts a c := by
  refine ⟨Nat.le_trans (Nat.le_of_eq h.nextId.symm) h'.nextId, fun i => ?_⟩
  have hnext := h.nextId
  have hg' := h'.generation i
  rcases h.slot i with ⟨hg, hn⟩ | ⟨hg, hx, hn⟩
  · refine Or.inl ⟨hg'.trans hg, ?_⟩
    rcases h'.slot i with hn' | ⟨hv, x, hx, hle⟩
    · exact Or.inl (hn'.trans hn)
    · exact Or.inr ⟨hn.symm.trans hv, x, hx, hnext ▸ hle⟩
  · refine Or.inr ⟨hg'.trans hg, hx, fun y hy => ?_⟩
    rcases h'.slot i with hn' | ⟨_, x, hx, hle⟩
    · rw [hn', hn] at hy
      cases hy
    · rw [hx] at hy
      cases hy
      exact hnext ▸ hle

theorem Lets.shifts_of_ferries (h : Lets a b) : ∀ {k}, Ferries k b c → Shifts a c
  | .coming, h' => h.shifts_of_takes h'
  | .going, h' => (h.trans h').shifts

theorem shifts_drain (a : Arena α) : Shifts a a.drain.2 := by
  refine ⟨Nat.le_refl _, fun i => ?_⟩
  unfold occupant?
  rw [slot_drain]
  cases hn : (a.slot i).node with
  | none => exact Or.inl ⟨rfl, Or.inl (by simp [hn])⟩
  | some n => exact Or.inr ⟨rfl, ⟨_, rfl⟩, fun y hy => by cases hy⟩

/-- Handle `x` finds a node in `b` that was numbered since `a`. -/
def Enters (a b : Arena α) (x : Handle) : Prop := ∃ n, b.get? x = some n ∧ a.nextId ≤ n.id.val

theorem occupant?_of_get? {x : Handle} {m : Node α} (h : a.get? x = some m) :
    a.occupant? x.index = some (m.id, m.element) := by
  rw [occupant?, (get?_eq_some.1 h).2.2]
  rfl

theorem get?_of_occupant? {x : Handle} {m : Node α} (hm : a.get? x = some m)
    (hg : (b.slot x.index).generation = (a.slot x.index).generation)
    (ho : b.occupant? x.index = a.occupant? x.index) :
    ∃ n, b.get? x = some n ∧ n.id = m.id ∧ n.element = m.element := by
  obtain ⟨hs, hx, _⟩ := get?_eq_some.1 hm
  rw [occupant?_of_get? hm] at ho
  obtain ⟨n, hn, he⟩ := Option.map_eq_some_iff.1 ho
  exact ⟨n, get?_eq_some.2 ⟨hs, hg.trans hx, hn⟩, (Prod.mk.inj he).1, (Prod.mk.inj he).2⟩

theorem Enters.takes {x : Handle} (h : Enters a b x) (h' : Takes b c) : Enters a c x := by
  obtain ⟨m, hm, hle⟩ := h
  have ho := (h'.slot x.index).resolve_right fun hv => by
    rw [occupant?_of_get? hm] at hv
    cases hv.1
  obtain ⟨n, hn, hid, _⟩ := get?_of_occupant? hm (h'.generation _) ho
  exact ⟨n, hn, hid ▸ hle⟩

theorem Enters.mono {x : Handle} (h : Enters b c x) (hle : a.nextId ≤ b.nextId) : Enters a c x :=
  h.imp fun _ hn => ⟨hn.1, Nat.le_trans hle hn.2⟩

/-! ## Runs -/

/-- Whether every node in `a` was numbered before. -/
def Numbered (a : Arena α) : Prop := ∀ i x, a.occupant? i = some x → x.1.val < a.nextId

theorem Valid.numbered (ha : a.Valid) : a.Numbered := by
  intro i x hx
  obtain ⟨n, hn, rfl⟩ := Option.map_eq_some_iff.1 hx
  exact ha.ids_lt (n.id, n.element) (List.mem_map.2 ⟨n, (mem_nodes ha.limit).2 ⟨i, hn⟩, rfl⟩)

/-- From `a` to `b`, the node in slot `i` goes `k` times. -/
structure Lapse (i : UInt32) (k : Nat) (a b : Arena α) : Prop where
  nextId : a.nextId ≤ b.nextId
  generation : (b.slot i).generation = (a.slot i).generation + UInt32.ofNat k
  stays : k = 0 → ∀ x, a.occupant? i = some x → b.occupant? i = some x
  fresh : ∀ x, b.occupant? i = some x → k = 0 ∧ a.occupant? i = some x ∨ a.nextId ≤ x.1.val

theorem Lapse.refl (i : UInt32) (a : Arena α) : Lapse i 0 a a :=
  ⟨Nat.le_refl _, (UInt32.add_zero _).symm, fun _ _ h => h, fun _ h => Or.inl ⟨rfl, h⟩⟩

theorem Lapse.trans {l : Nat} (h : Lapse i k a b) (h' : Lapse i l b c) : Lapse i (k + l) a c where
  nextId := Nat.le_trans h.nextId h'.nextId
  generation := by rw [h'.generation, h.generation, UInt32.ofNat_add, UInt32.add_assoc]
  stays hk x hx := by
    obtain ⟨hk, hl⟩ := Nat.add_eq_zero_iff.1 hk
    exact h'.stays hl x (h.stays hk x hx)
  fresh x hx := by
    rcases h'.fresh x hx with ⟨rfl, hb⟩ | hle
    · exact h.fresh x hb
    · exact Or.inr (Nat.le_trans h.nextId hle)

/-- In the course of a change the node in a slot goes once at most. -/
theorem Shifts.lapse (h : Shifts a b) (ha : a.Numbered) (i : UInt32) :
    Lapse i (a.leaves b i) a b := by
  rcases h.slot i with ⟨hg, hn⟩ | ⟨hg, ⟨x, hx⟩, hn⟩
  · have h0 : a.leaves b i = 0 := by
      unfold leaves
      cases hx : a.occupant? i with
      | none => rfl
      | some x =>
        rw [hx] at hn
        rw [hn.resolve_right fun h => by cases h.1]
        simp
    rw [h0]
    refine ⟨h.nextId, by rw [hg]; exact (UInt32.add_zero _).symm, fun _ x hx => ?_, fun x hx => ?_⟩
    · exact (hn.resolve_right fun hv => by rw [hv.1] at hx; cases hx).trans hx
    · rcases hn with hn | ⟨_, y, hy, hle⟩
      · exact Or.inl ⟨rfl, hn ▸ hx⟩
      · rw [hx] at hy
        cases hy
        exact Or.inr hle
  · have h1 : a.leaves b i = 1 := by
      unfold leaves
      rw [hx]
      dsimp only
      rw [if_neg fun he => ?_]
      obtain ⟨y, hy, hyx⟩ := Option.map_eq_some_iff.1 he
      have := hn y hy
      have := ha i x hx
      rw [hyx] at *
      omega
    rw [h1]
    exact ⟨h.nextId, hg, nofun, fun x hx => Or.inr (hn x hx)⟩

/-- A handle finds nothing as soon as its node is gone, as long as the generations of the slot are
not used up. -/
theorem Lapse.get?_eq_none {x : Handle} {m : Node α} (h : Lapse x.index k a b)
    (hm : a.get? x = some m) (hk : 0 < k) (hlt : k < slotLimit) : b.get? x = none := by
  rw [Option.eq_none_iff_forall_ne_some]
  intro n hn
  have hg := (get?_eq_some.1 hn).2.1
  rw [h.generation, (get?_eq_some.1 hm).2.1] at hg
  have h0 : UInt32.ofNat k = 0 := by simpa using hg
  have := congrArg UInt32.toNat h0
  rw [UInt32.toNat_ofNat_of_lt' hlt] at this
  exact Nat.ne_of_gt hk this

/-- As long as its node is not gone, a handle finds it. -/
theorem Lapse.get?_eq_some {x : Handle} {m : Node α} (h : Lapse x.index 0 a b)
    (hm : a.get? x = some m) :
    ∃ n, b.get? x = some n ∧ n.id = m.id ∧ n.element = m.element :=
  get?_of_occupant? hm (h.generation.trans (UInt32.add_zero _))
    ((h.stays rfl _ (occupant?_of_get? hm)).trans (occupant?_of_get? hm).symm)

end Arena

end SnapshotDeque
