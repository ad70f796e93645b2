import SnapshotDeque.Proofs.Tenancy

/-!
The arena through any history of its own. Whatever is put in, taken out or drained, with whatever
handles, exactly the vacant slots are on the free list, an insertion takes one of these or a new
one, and a removal frees the slot of the node that its handle finds. A new slot is made only if none
is vacant, so there are as many as were ever needed at one time.
-/

namespace SnapshotDeque

namespace Arena

variable {α : Type}

/-- What is done to an arena. -/
inductive Operation (α : Type) where
  | insert (element : α)
  | remove (node : Handle)
  | drain

/-- The arena afterwards. A refused insertion and a removal that finds nothing leave it as it is. -/
def perform (a : Arena α) : Operation α → Arena α
  | .insert element => (a.insert element).toOption.elim a (·.2)
  | .remove node => (a.remove node).elim a (·.2)
  | .drain => a.drain.2

def performAll (a : Arena α) (ops : List (Operation α)) : Arena α := ops.foldl perform a

/-- The largest number of nodes held at one time. -/
def peak : Arena α → List (Operation α) → Nat
  | a, [] => a.size
  | a, o :: ops => max a.size ((a.perform o).peak ops)

/-- The identity of the node that comes in. -/
def issued? (a : Arena α) : Operation α → Option NodeId
  | .insert element => (a.insert element).toOption.bind fun r => (r.2.get? r.1).map (·.id)
  | _ => none

/-- The identities handed out, the first one in front. -/
def issued : Arena α → List (Operation α) → List NodeId
  | _, [] => []
  | a, o :: ops => (a.issued? o).toList ++ (a.perform o).issued ops

/-- An insertion fills a vacant slot of a payload node and touches no other. -/
structure Fills (a b : Arena α) (x : Handle) (element : α) : Prop where
  payload : x.isSentinel = false
  vacant : (a.slot x.index).node = none
  found : b.get? x = some (a.newNode element)
  slot : ∀ i ≠ x.index, b.slot i = a.slot i

/-- A removal vacates the slot of the node and touches no other. -/
structure Frees (a b : Arena α) (x : Handle) : Prop where
  occupied : (a.slot x.index).node.isSome
  free : b.free = x.index :: a.free
  slot : ∀ i, b.slot i =
    if i = x.index then { generation := (a.slot i).generation + 1 } else a.slot i

/-- The free list, the number of nodes and the slots agree, and go on doing so. -/
structure Kept (a : Arena α) : Prop where
  nodup : a.free.Nodup
  free : ∀ i, i ∈ a.free ↔ 2 ≤ i.toNat ∧ i.toNat < a.slots.size ∧ (a.slot i).node = none
  size : a.size = a.slots.countP (·.node.isSome)
  insert : ∀ e, (∃ x b, a.insert e = .ok (x, b) ∧ a.Fills b x e) ∨
    a.insert e = .error exhausted ∧ a.size + 2 = slotLimit
  remove : ∀ x, (∃ n b, a.get? x = some n ∧ a.remove x = some (n, b) ∧ a.Frees b x) ∨
    a.get? x = none ∧ a.remove x = none

variable {a b : Arena α}

/-! ## Draining -/

/-- The slots that draining vacates, in ascending order. -/
def vacates (a : Arena α) : List UInt32 :=
  a.slots.toList.zipIdx.filterMap fun p => p.1.node.map fun _ => UInt32.ofNat p.2

theorem free_drain (a : Arena α) : a.drain.2.free = a.vacates.reverse ++ a.free := rfl

theorem nodes_drain (a : Arena α) : a.drain.2.nodes = [] := by
  simp only [nodes, drain, Array.toList_map, List.filterMap_eq_nil_iff, List.mem_map]
  rintro s ⟨s', -, rfl⟩
  cases h : s'.node <;> simp [h]

theorem length_vacates (a : Arena α) : a.vacates.length = a.nodes.length := by
  have hl : ∀ (l : List (Slot α)) (k : Nat),
      ((l.zipIdx k).filterMap fun p => p.1.node.map fun _ => UInt32.ofNat p.2).length =
        (l.filterMap (·.node)).length := by
    intro l
    induction l with
    | nil => exact fun _ => rfl
    | cons s l ih =>
      intro k
      rw [List.zipIdx_cons, List.filterMap_cons, List.filterMap_cons]
      cases s.node with
      | none => exact ih (k + 1)
      | some n => exact congrArg (· + 1) (ih (k + 1))
  exact hl _ 0

theorem mem_vacates (hl : a.slots.size ≤ slotLimit) {i : UInt32} :
    i ∈ a.vacates ↔ (a.slot i).node.isSome := by
  simp only [vacates, List.mem_filterMap, Prod.exists, List.mem_zipIdx_iff_getElem?,
    Array.getElem?_toList, Option.map_eq_some_iff]
  constructor
  · rintro ⟨s, k, hs, n, hn, rfl⟩
    obtain ⟨hk, rfl⟩ := Array.getElem?_eq_some_iff.1 hs
    have ht : (UInt32.ofNat k).toNat = k := UInt32.toNat_ofNat_of_lt' (Nat.lt_of_lt_of_le hk hl)
    rw [slot, ht, hs, Option.getD_some, hn]
    rfl
  · intro hi
    obtain ⟨n, hn⟩ := Option.isSome_iff_exists.1 hi
    have hlt := lt_of_slot_node hn
    rw [slot_of_lt hlt] at hn
    exact ⟨_, _, Array.getElem?_eq_getElem hlt, n, hn, UInt32.ofNat_toNat⟩

theorem nodup_vacates (hl : a.slots.size ≤ slotLimit) : a.vacates.Nodup := by
  have hp : a.slots.toList.zipIdx.Pairwise fun p q => p.2 < q.2 := by
    rw [← List.pairwise_map (f := Prod.snd) (R := (· < ·)), List.zipIdx_map_snd]
    exact List.pairwise_lt_range'
  have hb : ∀ p ∈ a.slots.toList.zipIdx, p.2 < slotLimit := fun p hp => by
    have := List.snd_lt_of_mem_zipIdx hp
    rw [Array.length_toList] at this
    omega
  refine List.Pairwise.filterMap _ (fun p q hpq i hi j hj => ?_) (hp.imp_of_mem
    fun hx hy h => (⟨h, hb _ hx, hb _ hy⟩ : _ ∧ _ ∧ _))
  obtain ⟨h, hpl, hql⟩ := hpq
  obtain ⟨-, -, rfl⟩ := Option.map_eq_some_iff.1 hi
  obtain ⟨-, -, rfl⟩ := Option.map_eq_some_iff.1 hj
  intro he
  have hpq := congrArg UInt32.toNat he
  rw [UInt32.toNat_ofNat_of_lt' hpl, UInt32.toNat_ofNat_of_lt' hql] at hpq
  exact Nat.ne_of_lt h hpq

theorem node_drain (a : Arena α) (i : UInt32) : (a.drain.2.slot i).node = none := by
  rw [slot_drain]
  cases hn : (a.slot i).node with
  | none => simpa using hn
  | some n => rfl

theorem slots_size_drain (a : Arena α) : a.drain.2.slots.size = a.slots.size := by
  simp [drain]

theorem Valid.drain (ha : a.Valid) : a.drain.2.Valid := by
  have hs := a.slots_size_drain
  have hr : a.drain.2.roster = [] := by rw [roster, nodes_drain, List.map_nil]
  have hv : ∀ i, i ∈ a.vacates ↔ (a.slot i).node.isSome := fun i => mem_vacates ha.limit
  refine ⟨fun i => ?_, ?_, ?_, ?_, fun i _ => a.node_drain i, ?_, ?_, ?_⟩
  · rw [free_drain, List.mem_append, List.mem_reverse, hv, ha.vacant, hs]
    constructor
    · rintro (hi | ⟨h2, hlt, -⟩)
      · obtain ⟨n, hn⟩ := Option.isSome_iff_exists.1 hi
        refine ⟨Nat.not_lt.1 fun h2 => ?_, lt_of_slot_node hn, a.node_drain i⟩
        rw [ha.reserved i h2] at hn
        cases hn
      · exact ⟨h2, hlt, a.node_drain i⟩
    · rintro ⟨h2, hlt, -⟩
      cases hn : (a.slot i).node with
      | none => exact Or.inr ⟨h2, hlt, rfl⟩
      | some n => exact Or.inl rfl
  · rw [free_drain, List.nodup_append]
    refine ⟨List.nodup_reverse.2 (nodup_vacates ha.limit), ha.nodup, fun i hi j hj he => ?_⟩
    -- a slot that is vacated was occupied
    rw [List.mem_reverse, hv, he, ((ha.vacant j).1 hj).2.2] at hi
    cases hi
  · have hn := ha.size
    rw [roster, List.length_map] at hn
    have hc := ha.count
    rw [hs, free_drain, List.length_append, List.length_reverse, length_vacates]
    show _ = 0 + _ + 2
    omega
  · rw [hs]
    exact ha.limit
  · rw [hr]
    exact List.nodup_nil
  · rw [hr]
    exact fun x hx => absurd hx List.not_mem_nil
  · rw [hr]
    rfl

/-! ## One step -/

theorem Valid.room (ha : a.Valid) : a.size + 2 ≤ a.slots.size := by
  have := ha.count
  omega

theorem remove_of_none {x : Handle} (hx : a.get? x = none) : a.remove x = none := by
  rw [Arena.remove, hx]
  rfl

/-- A new slot is made only if none is vacant. -/
theorem slots_size_insert (ha : a.Valid) {e : α} {x : Handle} (h : a.insert e = .ok (x, b)) :
    b.slots.size = max a.slots.size (b.size + 2) := by
  have hc := ha.count
  unfold Arena.insert at h
  dsimp only at h
  split at h
  next i free hf =>
    cases h
    rw [hf, List.length_cons] at hc
    rw [Array.size_modify]
    show _ = max _ (a.size + 1 + 2)
    omega
  next hf =>
    split at h
    · cases h
      rw [hf, List.length_nil] at hc
      rw [Array.size_push]
      show _ = max _ (a.size + 1 + 2)
      omega
    · cases h

theorem Valid.perform (ha : a.Valid) (o : Operation α) :
    (a.perform o).Valid ∧ (a.perform o).slots.size = max a.slots.size ((a.perform o).size + 2) := by
  have hr := ha.room
  cases o with
  | insert e =>
    rcases ha.insert e with ⟨x, b, hb, hg⟩ | ⟨hb, -⟩ <;> rw [Arena.perform, hb]
    · exact ⟨hg.valid, slots_size_insert ha hb⟩
    · exact ⟨ha, (Nat.max_eq_left hr).symm⟩
  | remove x =>
    cases hx : a.get? x with
    | none =>
      rw [Arena.perform, remove_of_none hx]
      exact ⟨ha, (Nat.max_eq_left hr).symm⟩
    | some n =>
      obtain ⟨b, hb, hl⟩ := ha.remove hx
      rw [Arena.perform, hb]
      refine ⟨hl.valid, ?_⟩
      show b.slots.size = max _ (b.size + 2)
      have := hl.size
      rw [hl.slots]
      omega
  | drain =>
    refine ⟨ha.drain, ?_⟩
    show a.drain.2.slots.size = max _ (0 + 2)
    rw [slots_size_drain]
    omega

/-- Whoever comes in is given the next number, and no other operation gives one. -/
theorem issued?_perform (ha : a.Valid) (o : Operation α) :
    a.nextId ≤ (a.perform o).nextId ∧
      ∀ x ∈ a.issued? o, x.val = a.nextId ∧ (a.perform o).nextId = a.nextId + 1 := by
  cases o with
  | insert e =>
    rcases ha.insert e with ⟨x, b, hb, hg⟩ | ⟨hb, -⟩ <;> rw [perform, issued?, hb]
    · show _ ≤ b.nextId ∧ ∀ y ∈ (b.get? x).map (·.id), _ ∧ b.nextId = _
      rw [hg.nextId, hg.get, if_pos rfl]
      refine ⟨Nat.le_succ _, fun y hy => ?_⟩
      obtain rfl : (⟨a.nextId⟩ : NodeId) = y := Option.some.inj hy
      exact ⟨rfl, rfl⟩
    · exact ⟨Nat.le_refl _, fun y hy => absurd hy (Option.not_mem_none y)⟩
  | remove x =>
    refine ⟨?_, fun y hy => absurd hy (Option.not_mem_none y)⟩
    rw [perform, Arena.remove]
    cases a.get? x <;> exact Nat.le_refl _
  | drain => exact ⟨Nat.le_refl _, fun y hy => absurd hy (Option.not_mem_none y)⟩

theorem Valid.kept (ha : a.Valid) : a.Kept := by
  refine ⟨ha.nodup, ha.vacant, ?_, fun e => ?_, fun x => ?_⟩
  · rw [ha.size, roster, List.length_map, nodes, List.length_filterMap_eq_countP,
      Array.countP_toList]
  · rcases ha.insert e with ⟨x, b, hb, hg⟩ | hb
    · refine Or.inl ⟨x, b, hb, hg.payload, hg.vacant ha hb, ?_, fun i hi => ?_⟩
      · rw [hg.get, if_pos rfl]
      · rw [slot_of_insert ha hb, if_neg hi]
    · exact Or.inr hb
  · cases hx : a.get? x with
    | none => exact Or.inr ⟨rfl, remove_of_none hx⟩
    | some n =>
      obtain ⟨b, hb, hl⟩ := ha.remove hx
      have hs := (get?_eq_some.1 hx).2.2
      refine Or.inl ⟨n, b, rfl, hb, by rw [hs]; rfl, by rw [hl.vacates]; rfl, ?_⟩
      rw [hl.vacates]
      exact slot_vacated (lt_of_slot_node hs)

/-! ## Any number of steps -/

theorem Valid.performAll (ha : a.Valid) (ops : List (Operation α)) : (a.performAll ops).Valid := by
  induction ops generalizing a with
  | nil => exact ha
  | cons o ops ih => exact ih (ha.perform o).1

theorem size_le_peak (a : Arena α) (ops : List (Operation α)) : a.size ≤ a.peak ops := by
  cases ops with
  | nil => exact Nat.le_refl _
  | cons o ops => exact Nat.le_max_left ..

theorem slots_size_performAll (ha : a.Valid) (ops : List (Operation α)) :
    (a.performAll ops).slots.size = max a.slots.size (a.peak ops + 2) := by
  induction ops generalizing a with
  | nil => exact (Nat.max_eq_left ha.room).symm
  | cons o ops ih =>
    have hr := ha.room
    obtain ⟨hv, hs⟩ := ha.perform o
    have hp := (a.perform o).size_le_peak ops
    have hi := ih hv
    rw [hs] at hi
    show ((a.perform o).performAll ops).slots.size = max _ (max _ _ + 2)
    omega

/-- From the next number on. -/
theorem issued_ascending (ha : a.Valid) (ops : List (Operation α)) :
    (a.issued ops).Pairwise (·.val < ·.val) ∧ ∀ x ∈ a.issued ops, a.nextId ≤ x.val := by
  induction ops generalizing a with
  | nil => exact ⟨List.Pairwise.nil, fun x hx => absurd hx List.not_mem_nil⟩
  | cons o ops ih =>
    obtain ⟨hp, hle⟩ := ih (ha.perform o).1
    obtain ⟨hn, ho⟩ := issued?_perform ha o
    refine ⟨List.pairwise_append.2 ⟨?_, hp, fun x hx y hy => ?_⟩, fun x hx => ?_⟩
    · cases a.issued? o with
      | none => exact List.Pairwise.nil
      | some x => exact List.pairwise_singleton _ _
    · obtain ⟨hv, hs⟩ := ho x (Option.mem_toList.1 hx)
      have := hle y hy
      omega
    · rcases List.mem_append.1 hx with hx | hx
      · exact Nat.le_of_eq (ho x (Option.mem_toList.1 hx)).1.symm
      · exact Nat.le_trans hn (hle x hx)

/-- However an arena is used, its free list and its slots agree, the slots are as many as were
needed at one time, and the identities handed out ascend. -/
theorem kept_performAll (recordSequence : Bool) (ops : List (Operation α)) :
    (performAll { recordSequence } ops).Kept ∧
      (performAll ({ recordSequence } : Arena α) ops).slots.size =
        2 + peak ({ recordSequence } : Arena α) ops ∧
      (issued ({ recordSequence } : Arena α) ops).Pairwise (·.val < ·.val) := by
  have hv := valid_empty (α := α) recordSequence
  refine ⟨(hv.performAll ops).kept, ?_, (issued_ascending hv ops).1⟩
  rw [slots_size_performAll hv]
  simp [Handle.reservedSlots, Nat.add_comm]

end Arena

end SnapshotDeque
