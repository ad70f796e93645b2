import Mathlib.Data.List.Basic
import Mathlib.Data.List.Nodup
import Mathlib.Data.List.Perm.Basic
import Mathlib.Data.List.Perm.Subperm
import SnapshotDeque.Arena

/-!
The arena as a map from handles to nodes. A well-formed arena has exactly its vacant slots on the
free list, and the identities of its nodes are distinct and older than the next one to be given.
Main statements: what `insert`, `modify` and `remove` do to the map, that they keep the arena well
formed, and that an insertion fails only if every slot is taken.
-/

namespace SnapshotDeque.Arena

variable {α : Type}

/-- What stays the same of a node as long as it is there, for every node. -/
def roster (a : Arena α) : List (NodeId × α) := a.nodes.map fun n => (n.id, n.element)

structure Valid (a : Arena α) : Prop where
  vacant : ∀ i : UInt32,
    i ∈ a.free ↔ 2 ≤ i.toNat ∧ i.toNat < a.slots.size ∧ (a.slot i).node = none
  nodup : a.free.Nodup
  count : a.slots.size = a.size + a.free.length + 2
  limit : a.slots.size ≤ slotLimit
  reserved : ∀ i : UInt32, i.toNat < 2 → (a.slot i).node = none
  ids_nodup : (a.roster.map (·.1)).Nodup
  ids_lt : ∀ x ∈ a.roster, x.1.val < a.nextId
  size : a.size = a.roster.length

theorem isSentinel_iff {h : Handle} : h.isSentinel = true ↔ h.index.toNat < 2 := by
  simp only [Handle.isSentinel, decide_eq_true_eq, UInt32.lt_iff_toNat_lt]
  rfl

/-! ## Slots -/

theorem slot_of_size_le {a : Arena α} {i : UInt32} (h : a.slots.size ≤ i.toNat) :
    a.slot i = {} := by
  simp [slot, Array.getElem?_eq_none h]

theorem slot_of_lt {a : Arena α} {i : UInt32} (h : i.toNat < a.slots.size) :
    a.slot i = a.slots[i.toNat] := by
  simp [slot, h]

theorem lt_of_slot_node {a : Arena α} {i : UInt32} {n : Node α} (h : (a.slot i).node = some n) :
    i.toNat < a.slots.size := by
  by_contra hn
  rw [slot_of_size_le (Nat.le_of_not_lt hn)] at h
  cases h

theorem get?_eq_some {a : Arena α} {h : Handle} {n : Node α} :
    a.get? h = some n ↔
      h.isSentinel = false ∧ (a.slot h.index).generation = h.generation ∧
        (a.slot h.index).node = some n := by
  unfold get?
  split <;> simp_all

theorem get?_of_vacant {a : Arena α} {h : Handle} (hv : (a.slot h.index).node = none) :
    a.get? h = none := by
  rw [Option.eq_none_iff_forall_ne_some]
  intro n hn
  rw [(get?_eq_some.1 hn).2.2] at hv
  cases hv

theorem isSentinel_of_get? {a : Arena α} {h : Handle} {n : Node α} (hn : a.get? h = some n) :
    h.isSentinel = false := (get?_eq_some.1 hn).1

theorem get?_atBegin (a : Arena α) : a.get? .atBegin = none := if_pos rfl

theorem get?_atEnd (a : Arena α) : a.get? .atEnd = none := if_pos rfl

theorem ne_atBegin_of_get? {a : Arena α} {h : Handle} {n : Node α} (hn : a.get? h = some n) :
    h ≠ .atBegin := fun e => by rw [e, get?_atBegin] at hn; cases hn

theorem ne_atEnd_of_get? {a : Arena α} {h : Handle} {n : Node α} (hn : a.get? h = some n) :
    h ≠ .atEnd := fun e => by rw [e, get?_atEnd] at hn; cases hn

/-- A slot holds one node, so the generation is settled by the index. -/
theorem eq_of_index_eq {a : Arena α} {h k : Handle} {m n : Node α} (hm : a.get? h = some m)
    (hn : a.get? k = some n) (hi : h.index = k.index) : h = k := by
  have h1 := (get?_eq_some.1 hm).2.1
  have h2 := (get?_eq_some.1 hn).2.1
  rw [hi, h2] at h1
  cases h; cases k
  simp_all

/-! ## The list of nodes -/

/-- The nodes before a slot, the one in it, and those behind; a change of the slot changes only
the one in it. -/
theorem exists_nodes_split (a : Arena α) {k : Nat} (hk : k < a.slots.size) :
    ∃ l₁ l₂, a.nodes = l₁ ++ (a.slots[k].node.toList ++ l₂) ∧
      ∀ f : Slot α → Slot α, (a.slots.modify k f).toList.filterMap (·.node) =
        l₁ ++ ((f a.slots[k]).node.toList ++ l₂) := by
  have hcons : ∀ (s : Slot α) (l : List (Slot α)),
      (s :: l).filterMap (·.node) = s.node.toList ++ l.filterMap (·.node) := by
    intro s l
    rw [List.filterMap_cons]
    cases s.node <;> rfl
  have hk' : k < a.slots.toList.length := by simpa using hk
  refine ⟨(a.slots.toList.take k).filterMap (·.node),
    (a.slots.toList.drop (k + 1)).filterMap (·.node), ?_, fun f => ?_⟩
  · rw [nodes]
    conv_lhs => rw [← List.take_append_drop k a.slots.toList, List.drop_eq_getElem_cons hk']
    rw [List.filterMap_append, hcons, Array.getElem_toList]
  · rw [Array.toList_modify, List.modify_eq_take_cons_drop hk', List.filterMap_append, hcons,
      Array.getElem_toList]

theorem mem_nodes {a : Arena α} (hl : a.slots.size ≤ slotLimit) {n : Node α} :
    n ∈ a.nodes ↔ ∃ i, (a.slot i).node = some n := by
  simp only [nodes, List.mem_filterMap, Array.mem_toList_iff]
  constructor
  · rintro ⟨s, hs, hn⟩
    obtain ⟨k, hk, rfl⟩ := Array.getElem_of_mem hs
    have hk' : k < UInt32.size := Nat.lt_of_lt_of_le hk hl
    refine ⟨UInt32.ofNat k, ?_⟩
    have ht : (UInt32.ofNat k).toNat = k := UInt32.toNat_ofNat_of_lt' hk'
    have hk2 : (UInt32.ofNat k).toNat < a.slots.size := by rw [ht]; exact hk
    rw [slot_of_lt hk2]
    simpa only [ht] using hn
  · rintro ⟨i, hi⟩
    have hlt := lt_of_slot_node hi
    rw [slot_of_lt hlt] at hi
    exact ⟨_, Array.getElem_mem hlt, hi⟩

theorem mem_roster_of_get? {a : Arena α} (hl : a.slots.size ≤ slotLimit) {h : Handle} {n : Node α}
    (hn : a.get? h = some n) : (n.id, n.element) ∈ a.roster :=
  List.mem_map.2 ⟨n, (mem_nodes hl).2 ⟨_, (get?_eq_some.1 hn).2.2⟩, rfl⟩

/-! ## Changing a node -/

theorem modify_of_none {a : Arena α} {h : Handle} (hn : a.get? h = none) (f : Node α → Node α) :
    a.modify h f = a := by
  rw [modify, hn]; rfl

theorem slot_modify (a : Arena α) (h : Handle) (f : Node α → Node α) (i : UInt32) :
    (a.modify h f).slot i =
      if i = h.index ∧ (a.get? h).isSome then
        { a.slot i with node := (a.slot i).node.map f }
      else a.slot i := by
  by_cases hn : (a.get? h).isSome
  · obtain ⟨n, hn'⟩ := Option.isSome_iff_exists.1 hn
    have hlt := lt_of_slot_node (get?_eq_some.1 hn').2.2
    unfold modify
    rw [if_pos hn]
    by_cases hi : i = h.index
    · subst hi
      simp [slot, hlt, hn, Array.getElem_modify]
    · have : h.index.toNat ≠ i.toNat := fun e => hi (UInt32.toNat_inj.1 e).symm
      simp [slot, Array.getElem?_modify, this, hi]
  · unfold modify
    rw [if_neg hn, if_neg (fun h => hn h.2)]

theorem get?_modify (a : Arena α) (h : Handle) (f : Node α → Node α) (k : Handle) :
    (a.modify h f).get? k = if k = h then (a.get? k).map f else a.get? k := by
  by_cases hk : k = h
  · subst hk
    rw [if_pos rfl]
    cases hn : a.get? k with
    | none => rw [modify_of_none hn, hn]; rfl
    | some n =>
      obtain ⟨h1, h2, h3⟩ := get?_eq_some.1 hn
      rw [Option.map_some, get?_eq_some, slot_modify, if_pos ⟨rfl, by rw [hn]; rfl⟩]
      exact ⟨h1, h2, by rw [h3]; rfl⟩
  · rw [if_neg hk]
    cases hn : a.get? h with
    | none => rw [modify_of_none hn]
    | some n =>
      by_cases hi : k.index = h.index
      · -- the slot has the generation of `h`, so `k` names nothing before and after
        have hg : (a.slot k.index).generation ≠ k.generation := by
          intro hg
          rw [hi, (get?_eq_some.1 hn).2.1] at hg
          exact hk (by cases h; cases k; simp_all)
        have h1 : a.get? k = none := by
          rw [get?]; split <;> simp_all
        rw [h1, Option.eq_none_iff_forall_ne_some]
        intro m hm
        have := (get?_eq_some.1 hm).2.1
        rw [slot_modify] at this
        split at this <;> exact hg this
      · unfold get?
        simp only [slot_modify, hi, false_and, if_false]

theorem head?_modify (a : Arena α) (h : Handle) (f : Node α → Node α) (k : Handle) :
    (a.modify h f).head? k =
      if k = h then (a.get? k).bind fun n => (f n).head else a.head? k := by
  unfold head?
  rw [get?_modify]
  split
  · cases a.get? k <;> rfl
  · rfl

@[simp] theorem size_modify (a : Arena α) (h : Handle) (f : Node α → Node α) :
    (a.modify h f).size = a.size := by
  unfold modify; split <;> rfl

@[simp] theorem nextId_modify (a : Arena α) (h : Handle) (f : Node α → Node α) :
    (a.modify h f).nextId = a.nextId := by
  unfold modify; split <;> rfl

@[simp] theorem free_modify (a : Arena α) (h : Handle) (f : Node α → Node α) :
    (a.modify h f).free = a.free := by
  unfold modify; split <;> rfl

@[simp] theorem slots_size_modify (a : Arena α) (h : Handle) (f : Node α → Node α) :
    (a.modify h f).slots.size = a.slots.size := by
  unfold modify; split <;> simp

theorem roster_modify (a : Arena α) (h : Handle) {f : Node α → Node α}
    (hf : ∀ n, (f n).id = n.id ∧ (f n).element = n.element) :
    (a.modify h f).roster = a.roster := by
  cases hn : a.get? h with
  | none => rw [modify_of_none hn]
  | some n =>
    have hlt := lt_of_slot_node (get?_eq_some.1 hn).2.2
    obtain ⟨l₁, l₂, hsplit, hmod⟩ := a.exists_nodes_split hlt
    have : (a.modify h f).nodes = l₁ ++ ((a.slots[h.index.toNat].node.map f).toList ++ l₂) := by
      unfold modify
      rw [if_pos (by rw [hn]; rfl)]
      exact hmod _
    rw [roster, roster, this, hsplit]
    cases a.slots[h.index.toNat].node with
    | none => rfl
    | some m => simp [hf m]

theorem Valid.modify {a : Arena α} (ha : a.Valid) (h : Handle) {f : Node α → Node α}
    (hf : ∀ n, (f n).id = n.id ∧ (f n).element = n.element) : (a.modify h f).Valid where
  vacant i := by
    rw [free_modify, slots_size_modify, ha.vacant, slot_modify]
    split <;> simp
  nodup := by rw [free_modify]; exact ha.nodup
  count := by rw [slots_size_modify, size_modify, free_modify]; exact ha.count
  limit := by rw [slots_size_modify]; exact ha.limit
  reserved i hi := by
    rw [slot_modify]
    split <;> simp [ha.reserved i hi]
  ids_nodup := by rw [roster_modify a h hf]; exact ha.ids_nodup
  ids_lt := by rw [roster_modify a h hf, nextId_modify]; exact ha.ids_lt
  size := by rw [roster_modify a h hf, size_modify]; exact ha.size

/-! ## Taking a node in -/

/-- The node that `insert` makes. -/
def newNode (a : Arena α) (element : α) : Node α :=
  { id := ⟨a.nextId⟩, element, sequence := if a.recordSequence then some a.nextId else none }

/-- `b` is `a` with a new node for `element` at `h`. -/
structure Gains (a b : Arena α) (h : Handle) (element : α) : Prop where
  payload : h.isSentinel = false
  fresh : a.get? h = none
  get : ∀ k, b.get? k = if k = h then some (a.newNode element) else a.get? k
  valid : b.Valid
  size : b.size = a.size + 1
  nextId : b.nextId = a.nextId + 1
  roster : b.roster.Perm ((⟨a.nextId⟩, element) :: a.roster)
  slots : a.slots.size ≤ b.slots.size

theorem ids_nodup_cons {a : Arena α} (ha : a.Valid) (element : α) :
    ((((⟨a.nextId⟩, element) :: a.roster : List (NodeId × α))).map (·.1)).Nodup := by
  rw [List.map_cons, List.nodup_cons]
  refine ⟨fun hm => ?_, ha.ids_nodup⟩
  obtain ⟨x, hx, he⟩ := List.mem_map.1 hm
  have := ha.ids_lt x hx
  rw [he] at this
  exact Nat.lt_irrefl _ this

theorem ids_lt_cons {a : Arena α} (ha : a.Valid) (element : α) :
    ∀ x ∈ ((⟨a.nextId⟩, element) :: a.roster : List (NodeId × α)), x.1.val < a.nextId + 1 := by
  intro x hx
  rcases List.mem_cons.1 hx with rfl | hx
  · exact Nat.lt_succ_self _
  · exact Nat.lt_succ_of_lt (ha.ids_lt x hx)

/-- A vacant slot takes the node; whether it was on the free list or is a new one decides only about
the free list and the number of slots. -/
theorem gains_of_slot {a b : Arena α} (ha : a.Valid) {i : UInt32} {element : α} (hi : 2 ≤ i.toNat)
    (hvac : (a.slot i).node = none)
    (hslot : ∀ j, b.slot j =
      if j = i then { generation := (a.slot i).generation, node := some (a.newNode element) }
      else a.slot j)
    (hfree : ∀ j, j ∈ b.free ↔ j ∈ a.free ∧ j ≠ i) (hnodup : b.free.Nodup)
    (hlt : ∀ j : UInt32, j.toNat < b.slots.size ↔ j.toNat < a.slots.size ∨ j = i)
    (hcount : b.slots.size = b.size + b.free.length + 2) (hlimit : b.slots.size ≤ slotLimit)
    (hslots : a.slots.size ≤ b.slots.size)
    (hsize : b.size = a.size + 1) (hnext : b.nextId = a.nextId + 1)
    (hroster : b.roster.Perm ((⟨a.nextId⟩, element) :: a.roster)) :
    Gains a b ⟨i, (a.slot i).generation⟩ element := by
  have hpay : Handle.isSentinel ⟨i, (a.slot i).generation⟩ = false := by
    rw [Bool.eq_false_iff, Ne, isSentinel_iff]
    exact Nat.not_lt.2 hi
  refine ⟨hpay, get?_of_vacant hvac, fun k => ?_, ?_, hsize, hnext, hroster, hslots⟩
  · split
    next hk =>
      subst hk
      rw [get?_eq_some, hslot, if_pos rfl]
      exact ⟨hpay, rfl, rfl⟩
    next hk =>
      by_cases hki : k.index = i
      · -- another generation of the slot names nothing before and after
        have ha' : a.get? k = none := get?_of_vacant (by rw [hki]; exact hvac)
        rw [ha', Option.eq_none_iff_forall_ne_some]
        intro m hm
        have hg := (get?_eq_some.1 hm).2.1
        rw [hslot, if_pos hki] at hg
        exact hk (by cases k; simp_all)
      · unfold get?
        rw [hslot, if_neg hki]
  · refine ⟨fun j => ?_, hnodup, hcount, hlimit, fun j hj => ?_, ?_, ?_, ?_⟩
    · rw [hfree, hslot, hlt, ha.vacant]
      by_cases hj : j = i
      · simp [hj]
      · simp [hj]
    · rw [hslot, if_neg fun e => absurd hj (by rw [e]; exact Nat.not_lt.2 hi)]
      exact ha.reserved j hj
    · exact (hroster.map _).nodup_iff.2 (ids_nodup_cons ha element)
    · rw [hnext]
      exact fun x hx => ids_lt_cons ha element x (hroster.mem_iff.1 hx)
    · rw [hsize, hroster.length_eq, List.length_cons, ha.size]

/-- The slot freed last takes the node. -/
theorem gains_of_free {a : Arena α} (ha : a.Valid) {i : UInt32} {free : List UInt32}
    (hf : a.free = i :: free) (element : α) :
    Gains a { a with
      nextId := a.nextId + 1, size := a.size + 1, free
      slots := a.slots.modify i.toNat fun s => { s with node := some (a.newNode element) } }
      ⟨i, (a.slot i).generation⟩ element := by
  obtain ⟨hi, hlt, hvac⟩ := (ha.vacant i).1 (hf ▸ List.mem_cons_self ..)
  have hnd := ha.nodup
  have hcount := ha.count
  rw [hf, List.nodup_cons] at hnd
  rw [hf, List.length_cons] at hcount
  refine gains_of_slot ha hi hvac (fun j => ?_) (fun j => ?_) hnd.2 (fun j => ?_) ?_ ?_ ?_
    rfl rfl ?_
  · by_cases hj : j = i
    · subst hj; simp [slot, hlt, Array.getElem_modify]
    · have : i.toNat ≠ j.toNat := fun e => hj (UInt32.toNat_inj.1 e).symm
      simp [slot, Array.getElem?_modify, this, hj]
  · rw [hf, List.mem_cons]
    by_cases hj : j = i
    · simp [hj, hnd.1]
    · simp [hj]
  · rw [Array.size_modify]
    exact ⟨Or.inl, fun h => h.elim id fun e => e ▸ hlt⟩
  · simp only [Array.size_modify]; omega
  · rw [Array.size_modify]; exact ha.limit
  · simp only [Array.size_modify, Nat.le_refl]
  · obtain ⟨l₁, l₂, hsplit, hmod⟩ := a.exists_nodes_split hlt
    rw [slot_of_lt hlt] at hvac
    rw [roster, nodes, hmod, roster, hsplit, hvac]
    simp only [Option.toList_some, Option.toList_none, List.nil_append, List.singleton_append,
      List.map_append, List.map_cons]
    exact List.perm_middle

/-- A new slot takes the node. -/
theorem gains_of_push {a : Arena α} (ha : a.Valid) (hf : a.free = [])
    (hl : a.slots.size < slotLimit) (element : α) :
    Gains a { a with
      nextId := a.nextId + 1, size := a.size + 1
      slots := a.slots.push { node := some (a.newNode element) } }
      ⟨UInt32.ofNat a.slots.size, 0⟩ element := by
  have hcount := ha.count
  rw [hf, List.length_nil] at hcount
  have ht : (UInt32.ofNat a.slots.size).toNat = a.slots.size := UInt32.toNat_ofNat_of_lt' hl
  have heq : ∀ j : UInt32, j = UInt32.ofNat a.slots.size ↔ j.toNat = a.slots.size := by
    intro j
    rw [← UInt32.toNat_inj, ht]
  have hvac : a.slot (UInt32.ofNat a.slots.size) = {} := slot_of_size_le (Nat.le_of_eq ht.symm)
  have hgen : (0 : UInt32) = (a.slot (UInt32.ofNat a.slots.size)).generation := by rw [hvac]
  rw [hgen]
  refine gains_of_slot ha ?_ ?_ (fun j => ?_) (fun j => ?_) ha.nodup (fun j => ?_) ?_ ?_ ?_
    rfl rfl ?_
  · rw [ht]; omega
  · rw [hvac]
  · simp only [heq, hvac]
    by_cases h : j.toNat = a.slots.size <;> simp [slot, Array.getElem?_push, h]
  · simp [hf]
  · rw [Array.size_push, heq]; omega
  · simp only [hf, List.length_nil, Array.size_push]; omega
  · rw [Array.size_push]; omega
  · rw [Array.size_push]; omega
  · simp only [roster, nodes, Array.toList_push, List.filterMap_append, List.map_append]
    exact List.perm_append_singleton _ _

theorem slots_size_of_insert {a b : Arena α} {e : α} {x : Handle}
    (h : a.insert e = .ok (x, b)) : a.slots.size ≤ b.slots.size := by
  unfold Arena.insert at h
  dsimp only at h
  split at h
  · cases h
    simp
  · split at h
    · cases h
      simp
    · cases h

/-- An insertion takes at most the first of the vacant slots. -/
theorem free_of_insert {a b : Arena α} {e : α} {x : Handle} (h : a.insert e = .ok (x, b)) :
    b.free <:+ a.free := by
  unfold Arena.insert at h
  dsimp only at h
  split at h
  · next hf =>
    cases h
    rw [hf]
    exact List.suffix_cons ..
  · split at h
    · cases h
      exact List.suffix_refl _
    · cases h

/-- How an insertion is refused when every slot is taken. -/
def exhausted : Error :=
  .internal ("node arena index space exhausted at " ++ toString slotLimit ++ " slots")

theorem Valid.insert {a : Arena α} (ha : a.Valid) (element : α) :
    (∃ h b, a.insert element = .ok (h, b) ∧ Gains a b h element) ∨
      a.insert element = .error exhausted ∧ a.size + 2 = slotLimit := by
  unfold Arena.insert
  dsimp only
  split
  next i free hf => exact Or.inl ⟨_, _, rfl, gains_of_free ha hf element⟩
  next hf =>
    split
    next hl => exact Or.inl ⟨_, _, rfl, gains_of_push ha hf hl element⟩
    next hl =>
      have hs : a.slots.size = slotLimit := Nat.le_antisymm ha.limit (Nat.not_lt.1 hl)
      have hc := ha.count
      rw [hf, List.length_nil] at hc
      exact Or.inr ⟨by rw [exhausted, hs], by omega⟩

/-! ## Taking a node out -/

/-- The arena once the slot of `h` is vacated. -/
def vacated (a : Arena α) (h : Handle) : Arena α :=
  { a with
    slots := a.slots.modify h.index.toNat fun s => { generation := s.generation + 1, node := none }
    free := h.index :: a.free
    size := a.size - 1 }

/-- `b` is `a` without the node `n` at `h`. -/
structure Loses (a b : Arena α) (h : Handle) (n : Node α) : Prop where
  vacates : b = a.vacated h
  get : ∀ k, b.get? k = if k = h then none else a.get? k
  valid : b.Valid
  size : a.size = b.size + 1
  nextId : b.nextId = a.nextId
  roster : a.roster.Perm ((n.id, n.element) :: b.roster)
  slots : b.slots.size = a.slots.size

theorem size_pos_of_get? {a : Arena α} (ha : a.Valid) {h : Handle} {n : Node α}
    (hn : a.get? h = some n) : 0 < a.size := by
  rw [ha.size]
  exact List.length_pos_of_mem (mem_roster_of_get? ha.limit hn)

section Vacated

variable {a : Arena α} {h : Handle} {n : Node α}

@[simp] theorem slots_size_vacated : (a.vacated h).slots.size = a.slots.size := by
  simp [vacated]

theorem slot_vacated (hlt : h.index.toNat < a.slots.size) (i : UInt32) :
    (a.vacated h).slot i =
      if i = h.index then { generation := (a.slot i).generation + 1, node := none }
      else a.slot i := by
  by_cases hi : i = h.index
  · subst hi
    simp [vacated, slot, hlt, Array.getElem_modify]
  · have : h.index.toNat ≠ i.toNat := fun e => hi (UInt32.toNat_inj.1 e).symm
    simp [vacated, slot, Array.getElem?_modify, this, hi]

variable (ha : a.Valid) (hn : a.get? h = some n)

include hn

theorem roster_vacated : a.roster.Perm ((n.id, n.element) :: (a.vacated h).roster) := by
  obtain ⟨_, _, hnode⟩ := get?_eq_some.1 hn
  have hlt := lt_of_slot_node hnode
  obtain ⟨l₁, l₂, hsplit, hmod⟩ := a.exists_nodes_split hlt
  have hv : (a.vacated h).nodes = l₁ ++ ([] ++ l₂) := hmod _
  rw [slot_of_lt hlt] at hnode
  rw [roster, roster, hv, hsplit, hnode]
  simp only [Option.toList_some, List.nil_append, List.singleton_append, List.map_append,
    List.map_cons]
  exact List.perm_middle

/-- A handle of an earlier generation found nothing in the slot before. -/
theorem get?_vacated (k : Handle) : (a.vacated h).get? k = if k = h then none else a.get? k := by
  obtain ⟨_, _, hnode⟩ := get?_eq_some.1 hn
  have hslot := slot_vacated (lt_of_slot_node hnode)
  by_cases hi : k.index = h.index
  · have hv : (a.vacated h).get? k = none := get?_of_vacant (by rw [hslot, if_pos hi])
    rw [hv]
    split
    · rfl
    next hk =>
      symm
      rw [Option.eq_none_iff_forall_ne_some]
      exact fun m hm => hk (eq_of_index_eq hm hn hi)
  · rw [if_neg fun e => hi (by rw [e])]
    unfold get?
    rw [hslot, if_neg hi]

include ha

theorem Valid.vacated : (a.vacated h).Valid := by
  obtain ⟨hp, _, hnode⟩ := get?_eq_some.1 hn
  have hlt := lt_of_slot_node hnode
  have hslot := slot_vacated hlt
  have hpos := size_pos_of_get? ha hn
  have h2 : 2 ≤ h.index.toNat := by
    refine Nat.not_lt.1 fun hc => ?_
    rw [isSentinel_iff.2 hc] at hp
    cases hp
  have hfree : (a.vacated h).free = h.index :: a.free := rfl
  have hsize : (a.vacated h).size = a.size - 1 := rfl
  have hroster := roster_vacated hn
  have hids := hroster.map (·.1)
  refine ⟨fun j => ?_, ?_, ?_, ?_, fun j hj => ?_, ?_, fun x hx => ?_, ?_⟩
  · rw [slots_size_vacated, hslot, hfree, List.mem_cons, ha.vacant]
    by_cases hj : j = h.index
    · subst hj
      simp [h2, hlt]
    · simp [hj]
  · rw [hfree, List.nodup_cons, ha.vacant]
    exact ⟨fun hc => (by rw [hc.2.2] at hnode; cases hnode), ha.nodup⟩
  · have := ha.count
    rw [slots_size_vacated, hfree, hsize, List.length_cons]
    omega
  · rw [slots_size_vacated]
    exact ha.limit
  · rw [hslot, if_neg (fun e => by rw [e] at hj; omega)]
    exact ha.reserved j hj
  · exact (List.nodup_cons.1 (hids.nodup_iff.1 ha.ids_nodup)).2
  · exact ha.ids_lt x (hroster.mem_iff.2 (List.mem_cons_of_mem _ hx))
  · have := ha.size
    rw [hroster.length_eq, List.length_cons] at this
    omega

theorem Valid.remove : ∃ b, a.remove h = some (n, b) ∧ Loses a b h n := by
  have hpos := size_pos_of_get? ha hn
  refine ⟨a.vacated h, by rw [Arena.remove, hn]; rfl, rfl, get?_vacated hn, ha.vacated hn, ?_, rfl,
    roster_vacated hn, slots_size_vacated⟩
  exact (Nat.sub_add_cancel hpos).symm

end Vacated

/-! ## Taking everything out -/

theorem slot_drain (a : Arena α) (i : UInt32) : a.drain.2.slot i =
    if (a.slot i).node.isSome then { generation := (a.slot i).generation + 1 } else a.slot i := by
  unfold drain slot
  simp only [Array.getElem?_map]
  cases a.slots[i.toNat]? <;> rfl

theorem get?_drain (a : Arena α) (h : Handle) : a.drain.2.get? h = none := by
  refine get?_of_vacant ?_
  rw [slot_drain]
  cases hn : (a.slot h.index).node with
  | none => simpa using hn
  | some n => rfl

theorem valid_empty (recordSequence : Bool) :
    Valid ({ recordSequence } : Arena α) where
  vacant i := by
    have : (Array.replicate Handle.reservedSlots ({} : Slot α)).size = 2 := by
      simp [Handle.reservedSlots]
    simp only [List.not_mem_nil, this, false_iff]
    omega
  nodup := List.nodup_nil
  count := by simp [Handle.reservedSlots]
  limit := by simp [Handle.reservedSlots, slotLimit]
  reserved i _ := by
    simp only [slot, Array.getElem?_replicate]
    split <;> rfl
  ids_nodup := by simp [roster, nodes, Handle.reservedSlots]
  ids_lt := by simp [roster, nodes, Handle.reservedSlots]
  size := by simp [roster, nodes, Handle.reservedSlots]

end SnapshotDeque.Arena
