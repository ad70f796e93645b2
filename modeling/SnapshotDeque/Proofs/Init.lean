import SnapshotDeque.Proofs.Removal

/-!
A fresh deque holds nothing: two sentinels lead to each other, and there is no node.
-/

namespace SnapshotDeque.Store

variable {α : Type} (c : Config)

theorem get_init (i : Nat) : (init c : Store α).links.get i =
    if i = 1 then { owner := .atEnd, createdOn := .initial, previous := some 0 }
    else if i = 0 then { owner := .atBegin, createdOn := .initial, next := some 1 }
    else .blank := by
  change ((LinkTable.push {} _).push _).get i = _
  rw [LinkTable.get_push, LinkTable.get_push, LinkTable.size_push]
  rfl

theorem newer_init (i : Nat) : ((init c : Store α).links.get i).newer = none := by
  rw [get_init]
  split
  · rfl
  · split <;> rfl

theorem older_init (i : Nat) : ((init c : Store α).links.get i).older = none := by
  rw [get_init]
  split
  · rfl
  · split <;> rfl

theorem createdOn_init {i : Nat} (hi : i < 2) :
    ((init c : Store α).links.get i).createdOn = .initial := by
  rw [get_init]
  split
  · rfl
  · rw [if_pos (by omega)]

theorem get?_init (x : Handle) : (init c : Store α).arena.get? x = none := by
  cases hs : x.isSentinel with
  | true => rw [Arena.get?, if_pos hs]
  | false =>
    refine Arena.get?_of_vacant ?_
    change ((Array.replicate 2 {} : Array (Slot α))[x.index.toNat]?.getD {}).node = none
    rw [Array.getElem?_replicate]
    split <;> rfl

theorem head?_init (x : Handle) : (init c : Store α).arena.head? x = none := by
  rw [Arena.head?, get?_init]
  rfl

theorem current?_init {x : Handle} {i : Nat} (h : (init c : Store α).current? x = some i) :
    x = .atBegin ∧ i = 0 ∨ x = .atEnd ∧ i = 1 := by
  unfold current? at h
  split at h
  · cases h
    exact Or.inl ⟨‹_›, rfl⟩
  · split at h
    · cases h
      exact Or.inr ⟨‹_›, rfl⟩
    · rw [head?_init] at h
      cases h

theorem sound_init : (init c : Store α).Sound [] [] where
  chained := {
    lt := fun {i j} h => by rw [newer_init] at h; cases h
    lt_size := fun {i j} h => by rw [newer_init] at h; cases h
    owner := fun {i j} h => by rw [newer_init] at h; cases h
    createdOn := fun {i j} h => by rw [newer_init] at h; cases h
    obsoleteOn := fun {i j} h => by rw [newer_init] at h; cases h
    older := fun {i j} h => by rw [older_init] at h; cases h }
  arena := Arena.valid_empty c.nodeMetadata
  current_lt h := by
    rcases current?_init c h with ⟨_, rfl⟩ | ⟨_, rfl⟩
    · exact Nat.zero_lt_two
    · exact Nat.one_lt_two
  owner h := by
    rcases current?_init c h with ⟨rfl, rfl⟩ | ⟨rfl, rfl⟩ <;> rfl
  newer _ := newer_init c _
  obsoleteOn h := by
    rcases current?_init c h with ⟨_, rfl⟩ | ⟨_, rfl⟩ <;> rfl
  element hn _ := by rw [get?_init] at hn; cases hn
  retired_lt := nofun
  retired_ne := nofun
  retired_node := nofun
  nodup := List.nodup_nil
  liveLinks hn := by rw [get?_init] at hn; cases hn
  occupied hn := by rw [get?_init] at hn; cases hn

theorem stamped_init : (init c : Store α).Stamped where
  timeline := Timeline.valid_fresh
  createdOn_le hi := le_of_eq (createdOn_init c hi)
  tag := nofun
  sorted := List.Pairwise.nil

theorem adjacent_init : (init c : Store α).Adjacent .atBegin .atEnd :=
  ⟨0, 1, rfl, rfl, ⟨1, rfl, .refl 1⟩, 0, rfl, .refl 0⟩

theorem live_init : (init c : Store α).Live [] where
  open_ := rfl
  sound := sound_init c
  stamped := stamped_init c
  ring := ⟨show [Handle.atBegin, .atEnd].Nodup by decide,
    List.isChain_cons_cons.2 ⟨adjacent_init c, List.isChain_singleton _⟩⟩
  heads x := by
    rw [head?_init]
    exact ⟨nofun, nofun⟩
  counted := ⟨rfl, rfl⟩
  element := nofun

end SnapshotDeque.Store
