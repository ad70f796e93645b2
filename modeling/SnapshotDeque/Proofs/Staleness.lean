import SnapshotDeque.Proofs.Accounting
import SnapshotDeque.Proofs.Stock
import SnapshotDeque.Proofs.Traffic

/-!
What becomes of a handle once its node is disposed. In a run of a deque, a handle that was given out
goes on to name the one node that it was given out for; when that node is gone the handle is stale,
and it stays so until the generations of its slot are used up.
-/

namespace SnapshotDeque

namespace Arena

variable {α σ : Type} {a b : Arena α}

/-- A run of steps in the course of which the node in slot `i` goes `k` times. -/
inductive Vacating (R : σ → σ → Prop) (arena : σ → Arena α) (i : UInt32) : Nat → σ → σ → Prop
  | refl (x : σ) : Vacating R arena i 0 x x
  | step {k : Nat} {x y z : σ} : Vacating R arena i k x y → R y z →
    Vacating R arena i (k + (arena y).leaves (arena z) i) x z

/-- Every run takes out the node in a slot so many times. -/
theorem Vacating.exists_of_run {R : σ → σ → Prop} {x y : σ} (h : Relation.ReflTransGen R x y)
    (arena : σ → Arena α) (i : UInt32) : ∃ k, Vacating R arena i k x y := by
  induction h with
  | refl => exact ⟨0, .refl x⟩
  | tail _ hr ih =>
    obtain ⟨k, hk⟩ := ih
    exact ⟨_, hk.step hr⟩

theorem Vacating.run {R : σ → σ → Prop} {arena : σ → Arena α} {i : UInt32} {k : Nat} {x y : σ}
    (h : Vacating R arena i k x y) : Relation.ReflTransGen R x y := by
  induction h with
  | refl => exact .refl
  | step _ hr ih => exact ih.tail hr

/-- The handles of all nodes, by slot. -/
def handles (a : Arena α) : List Handle :=
  (List.range a.slots.size).filterMap fun i =>
    (a.slot (.ofNat i)).node.map fun _ => ⟨.ofNat i, (a.slot (.ofNat i)).generation⟩

/-- Whether each node in the arena has one handle of its own, which is no sentinel's. -/
structure Handled (a : Arena α) : Prop where
  nodup : a.handles.Nodup
  payload : ∀ x ∈ a.handles, x.isSentinel = false
  mem : ∀ x, x ∈ a.handles ↔ (a.get? x).isSome

theorem handled_of_slots (hl : a.slots.size ≤ slotLimit)
    (hr : ∀ i : UInt32, i.toNat < 2 → (a.slot i).node = none) : a.Handled := by
  have hmem : ∀ x, x ∈ a.handles ↔ (a.get? x).isSome := by
    intro x
    unfold handles
    rw [List.mem_filterMap]
    constructor
    · rintro ⟨i, hi, hx⟩
      obtain ⟨n, hn, rfl⟩ := Option.map_eq_some_iff.1 hx
      rw [Option.isSome_iff_exists]
      refine ⟨n, get?_eq_some.2 ⟨Bool.eq_false_iff.2 fun hs => ?_, rfl, hn⟩⟩
      rw [hr _ (isSentinel_iff.1 hs)] at hn
      cases hn
    · intro hx
      obtain ⟨n, hn⟩ := Option.isSome_iff_exists.1 hx
      obtain ⟨_, hg, hn⟩ := get?_eq_some.1 hn
      refine ⟨x.index.toNat, List.mem_range.2 (lt_of_slot_node hn), ?_⟩
      rw [UInt32.ofNat_toNat, hn, hg]
      rfl
  refine ⟨?_, fun x hx => ?_, hmem⟩
  · unfold handles
    refine List.Pairwise.filterMap _ ?_ (List.Pairwise.and_mem.1 List.nodup_range)
    rintro i j ⟨hi, hj, hij⟩ x hx y hy rfl
    obtain ⟨_, _, hx⟩ := Option.map_eq_some_iff.1 hx
    obtain ⟨_, _, hy⟩ := Option.map_eq_some_iff.1 hy
    -- there are no more slots than numbers for them
    have hmod := congrArg UInt32.toNat (congrArg Handle.index (hx.trans hy.symm))
    have hlt : ∀ {k}, k ∈ List.range a.slots.size → k < UInt32.size := fun hk =>
      Nat.lt_of_lt_of_le (List.mem_range.1 hk) hl
    rw [UInt32.toNat_ofNat_of_lt' (hlt hi), UInt32.toNat_ofNat_of_lt' (hlt hj)] at hmod
    exact hij hmod
  · obtain ⟨n, hn⟩ := Option.isSome_iff_exists.1 ((hmem x).1 hx)
    exact isSentinel_of_get? hn

end Arena

/-! ## Walks -/

namespace Cursor

variable {α : Type} {t : LinkTable α} {c : Cursor} {x : Nat × α}

theorem shown_of_nextFront (h : (c.nextFront t).1 = some x) : (t.get x.1).shown? = some x.2 := by
  unfold nextFront at h
  split at h
  · cases h
  · split at h
    · cases h
    · split at h
      · cases h
      · rename_i ha
        cases h
        exact ha

theorem shown_of_nextBack (h : (c.nextBack t).1 = some x) : (t.get x.1).shown? = some x.2 := by
  unfold nextBack at h
  split at h
  · cases h
  · split at h
    · cases h
    · split at h
      · cases h
      · rename_i ha
        cases h
        exact ha

theorem of_mem_collect {P : Nat × α → Prop} {step : Cursor → Option (Nat × α) × Cursor}
    (hs : ∀ c x, (step c).1 = some x → P x) : ∀ {n : Nat} {c : Cursor},
    ∀ x ∈ collect step n c, P x := by
  intro n
  induction n with
  | zero => exact fun {c} x hx => absurd hx List.not_mem_nil
  | succ n ih =>
    intro c x hx
    rw [collect] at hx
    rcases he : step c with ⟨_ | y, d⟩
    · rw [he] at hx
      cases hx
    · rw [he] at hx
      rcases List.mem_cons.1 hx with rfl | hx
      · exact hs c x (by rw [he])
      · exact ih x hx

theorem shown_of_mem_forward (h : x ∈ c.forward t) : (t.get x.1).shown? = some x.2 :=
  of_mem_collect (P := fun x => (t.get x.1).shown? = some x.2)
    (fun _ _ hx => shown_of_nextFront hx) x h

theorem shown_of_mem_backward (h : x ∈ c.backward t) : (t.get x.1).shown? = some x.2 :=
  of_mem_collect (P := fun x => (t.get x.1).shown? = some x.2)
    (fun _ _ hx => shown_of_nextBack hx) x h

end Cursor

namespace Store

open Arena (Vacating Lapse Enters Shifts)

variable {α ρ : Type} {s t u : Store α} {x h : Handle} {k : Nat}

/-! ## Stores of deques -/

theorem nodeInfo?_eq_some {i : NodeInfo} (hi : s.nodeInfo? x = some i) :
    i.handle = x ∧ ∃ n, s.arena.get? x = some n ∧ i.id = n.id := by
  unfold Store.nodeInfo? Store.read at hi
  split at hi
  · cases hi
  · obtain ⟨n, hn, rfl⟩ := Option.map_eq_some_iff.1 hi
    exact ⟨rfl, n, hn, rfl⟩

/-- One thing that happens to the store of a deque: it is changed, or its record of events is. -/
inductive Turn : Store α → Store α → Prop
  | change {ρ : Type} {s : Store α} (m : Mutation α ρ) : Turn s (m.run s).2
  | recording {s : Store α} (on : Bool) (events : List (Event α)) :
    Turn s (s.recording on events)

/-- A run of a deque. Every batch, every call and every reaction of an observer is a sequence of
turns. -/
abbrev Runs : Store α → Store α → Prop := Relation.ReflTransGen Turn

/-- What the store of a deque keeps to, disposed or not. -/
structure Kept (s : Store α) : Prop where
  history : ∃ ds, History ds s
  stocked : s.Stocked s.obsolete

theorem kept_init (c : Config) : Kept (.init c : Store α) where
  history := ⟨[], .going (account_init c)⟩
  stocked i hi := by
    rw [get_init] at hi
    split_ifs at hi <;> cases hi

namespace Kept

variable (hs : s.Kept)

include hs

theorem formed (ho : s.disposed = false) : s.Formed := by
  obtain ⟨ds, hd⟩ := hs.history
  obtain ⟨k, h⟩ := hd.account ho
  exact h.formed

theorem valid (ho : s.disposed = false) : s.arena.Valid := by
  obtain ⟨l, hl⟩ := hs.formed ho
  exact hl.sound.arena

theorem run (m : Mutation α ρ) : (m.run s).2.Kept := by
  cases hm : m.needsDeque with
  | false =>
    cases m with
    | observe on =>
      obtain ⟨ds, hd⟩ := hs.history
      exact ⟨⟨ds, hd.relabel on s.events⟩, hs.stocked⟩
    | _ => cases hm
  | true =>
    obtain ⟨ds, hd⟩ := hs.history
    obtain ⟨es, hd, _⟩ := hd.run hm
    refine ⟨⟨_, hd⟩, ?_⟩
    cases ho : s.disposed with
    | true =>
      rw [Mutation.run_of_disposed ho hm]
      exact hs.stocked
    | false =>
      cases hr : m.reclaimsFirst with
      | true =>
        exact (carries_run along_stocked hr (fun _ _ _ _ h => h) s (hs.formed ho)).2.2 hs.stocked
      | false =>
        obtain ⟨l, hl⟩ := hs.formed ho
        cases m with
        | dispose =>
          rw [Mutation.run_snd hl.open_]
          intro i hi
          have he := hs.stocked.element_dispose hl.sound i
          change (s.dispose.links.get i).element.isSome at hi
          rw [he] at hi
          cases hi
        | observe on => cases hm
        | _ => cases hr

theorem turn (h : Turn s t) : t.Kept := by
  cases h with
  | change m => exact hs.run m
  | recording on es =>
    obtain ⟨ds, hd⟩ := hs.history
    exact ⟨⟨ds, hd.relabel on es⟩, hs.stocked⟩

theorem numbered : s.arena.Numbered := by
  obtain ⟨ds, hd⟩ := hs.history
  cases hd with
  | going h =>
    obtain ⟨l, hl⟩ := h.formed
    exact hl.sound.arena.numbered
  | @ended k s _ _ h =>
    intro i x hx
    obtain ⟨n, hn, _⟩ := Option.map_eq_some_iff.1 hx
    change (s.arena.drain.2.slot i).node = some n at hn
    rw [Arena.slot_drain] at hn
    split at hn
    next => cases hn
    next hv => exact absurd (by rw [hn]; rfl) hv

theorem shifts (h : Turn s t) : Shifts s.arena t.arena := by
  cases h with
  | change m => exact m.shifts_run hs.valid
  | recording on es => exact .refl _

theorem runs (h : Runs s t) : t.Kept := by
  induction h with
  | refl => exact hs
  | tail _ ht ih => exact ih.turn ht

theorem lapse {i : UInt32} (h : Vacating Turn Store.arena i k s t) :
    Lapse i k s.arena t.arena := by
  induction h with
  | refl => exact .refl i _
  | @step k s t u h ht ih =>
    have ht' := hs.runs h.run
    exact (ih hs).trans ((ht'.shifts ht).lapse ht'.numbered i)

theorem nextId_le (h : Runs s t) : s.arena.nextId ≤ t.arena.nextId := by
  obtain ⟨k, hk⟩ := Vacating.exists_of_run h Store.arena 0
  exact (hs.lapse hk).nextId

/-- Whoever comes upon an element has come upon a node in the arena. -/
theorem isSome_of_shown {i : Nat} {a : α} (ha : (s.links.get i).shown? = some a) :
    (s.arena.get? (s.owner i)).isSome := by
  refine hs.stocked.isSome_of_shown (fun i hi hp => ?_) ha
  obtain ⟨ds, hd⟩ := hs.history
  cases hd with
  | going h =>
    obtain ⟨l, hl⟩ := h.formed
    obtain ⟨n, hn, _⟩ := hl.sound.retired_node hi hp
    rw [hn]
    rfl
  -- disposal leaves no retired link
  | ended => exact absurd hi List.not_mem_nil

/-- Two nodes in the arena have two numbers. -/
theorem eq_of_id_eq {y : Handle} {m n : Node α} (hx : s.arena.get? x = some m)
    (hy : s.arena.get? y = some n) (hid : m.id = n.id) : x = y := by
  obtain ⟨ds, hd⟩ := hs.history
  cases hd with
  | going h =>
    have hl := (h.chronicle.record.1 (record?_of_get? hx)).1
    have hl' := (h.chronicle.record.1 (record?_of_get? hy)).1
    exact (h.chronicle.eq_of_linked hl (hid ▸ hl')).1
  | @ended k s =>
    change s.arena.drain.2.get? x = some m at hx
    rw [Arena.get?_drain] at hx
    cases hx

theorem handled : s.arena.Handled := by
  obtain ⟨ds, hd⟩ := hs.history
  cases hd with
  | going h =>
    obtain ⟨l, hl⟩ := h.formed
    exact Arena.handled_of_slots hl.sound.arena.limit hl.sound.arena.reserved
  | @ended k s _ _ h =>
    obtain ⟨l, hl⟩ := h.formed
    have hsize : s.arena.drain.2.slots.size = s.arena.slots.size := by simp [Arena.drain]
    refine Arena.handled_of_slots (a := s.arena.drain.2) ?_ fun i hi => ?_
    · rw [hsize]
      exact hl.sound.arena.limit
    · rw [Arena.slot_drain]
      split
      · rfl
      · exact hl.sound.arena.reserved i hi

end Kept

/-! ## Stale handles -/

/-- Whether no node answers to `h`: nothing is known of it, to unlink it does no more than every
change does first, and no walk comes upon it. -/
structure Stale (s : Store α) (h : Handle) : Prop where
  isLinked : s.isLinked h = false
  element : s.element? h = none
  nodeInfo : s.nodeInfo? h = none
  unlink : s.disposed = false → (Mutation.unlink h).run s = (.ok false, s.reclaimPending) ∧
    s.reclaimPending.entries = s.entries
  unseen : ∀ {i a}, (s.links.get i).shown? = some a → s.owner i ≠ h

theorem Kept.stale (hs : s.Kept) (hp : h.isSentinel = false) (hn : s.arena.get? h = none) :
    s.Stale h where
  isLinked := by simp [Store.isLinked, Store.read, Arena.head?, hn]
  element := by simp [Store.element?, Store.read, hn]
  nodeInfo := by simp [Store.nodeInfo?, Store.read, hn]
  unlink ho := by
    obtain ⟨l, hl⟩ := hs.formed ho
    obtain ⟨_, hr⟩ := told_reclaimPending hl .going
    have hm : h ∉ l.map (·.1) := fun hm => by
      have := (hl.heads h).2 hm
      rw [Arena.head?, hn] at this
      cases this
    refine ⟨Mutation.run_of_returns (m := .unlink h) ho ?_, by rw [hr.entries, hl.entries]⟩
    exact returns_unlink_of_not_mem hr hp hm
  unseen ha ho := by
    have := hs.isSome_of_shown ha
    rw [ho, hn] at this
    cases this

/-- What is so of handle `h`, which was given out for node `n`, after the node in its slot went `k`
times. -/
structure Follows (u : Store α) (h : Handle) (n : Node α) (k : Nat) : Prop where
  denotes : ∀ m, u.arena.get? h = some m → m.id = n.id ∧ m.element = n.element
  present : k = 0 → (u.arena.get? h).isSome
  stale : 0 < k → u.Stale h
  not_given : ∀ {ρ : Type} (m : Mutation α ρ),
    k + u.arena.leaves (m.run u).2.arena h.index < Arena.slotLimit → h ∉ m.given (m.run u).1

theorem Kept.follows (hs : s.Kept) {n : Node α} (hn : s.arena.get? h = some n)
    (hu : Vacating Turn Store.arena h.index k s u) (hk : k < Arena.slotLimit) :
    u.Follows h n k where
  denotes m hm := by
    have hl := hs.lapse hu
    rcases Nat.eq_zero_or_pos k with rfl | hpos
    · obtain ⟨m', hm', hid, he⟩ := hl.get?_eq_some hn
      rw [hm] at hm'
      cases hm'
      exact ⟨hid, he⟩
    · rw [hl.get?_eq_none hn hpos hk] at hm
      cases hm
  present h0 := by
    subst h0
    obtain ⟨m, hm, _⟩ := (hs.lapse hu).get?_eq_some hn
    rw [hm]
    rfl
  stale hpos := (hs.runs hu.run).stale (Arena.isSentinel_of_get? hn)
    ((hs.lapse hu).get?_eq_none hn hpos hk)
  not_given {ρ} m hlt hm := by
    -- what is given out is new, and what `h` finds is not
    obtain ⟨m', hm', hle⟩ := Mutation.enters_of_given (hs.runs hu.run).valid hm
    have hl := hs.lapse (hu.step (.change m))
    have hid : m'.id = n.id := by
      rcases Nat.eq_zero_or_pos (k + u.arena.leaves (m.run u).2.arena h.index) with h0 | hpos
      · rw [h0] at hl
        obtain ⟨m'', hm'', hid, _⟩ := hl.get?_eq_some hn
        rw [hm'] at hm''
        cases hm''
        exact hid
      · rw [hl.get?_eq_none hn hpos hlt] at hm'
        cases hm'
    have h1 := hs.numbered _ _ (Arena.occupant?_of_get? hn)
    have h2 := hs.nextId_le hu.run
    rw [hid] at hle
    dsimp only at h1
    omega

/-- Who finds a node with an old number has found the node in a slot that it never left. -/
theorem Kept.found_before (hs : s.Kept) {n : Node α} (hn : s.arena.get? h = some n) {m : Node α}
    (hm : u.arena.get? x = some m) (hid : m.id = n.id)
    (hu : Vacating Turn Store.arena x.index k s u) :
    k = 0 ∧ ∃ p, s.arena.get? x = some p ∧ p.id = n.id := by
  have hl := hs.lapse hu
  rcases hl.fresh _ (Arena.occupant?_of_get? hm) with ⟨rfl, ho⟩ | hle
  · obtain ⟨p, hp, he⟩ := Option.map_eq_some_iff.1 ho
    obtain ⟨hx, hg, _⟩ := Arena.get?_eq_some.1 hm
    have hgen : (s.arena.slot x.index).generation = x.generation := by
      rw [← hg, hl.generation]
      exact (UInt32.add_zero _).symm
    exact ⟨rfl, p, Arena.get?_eq_some.2 ⟨hx, hgen, hp⟩, (Prod.mk.inj he).1.trans hid⟩
  · have h1 := hs.numbered _ _ (Arena.occupant?_of_get? hn)
    rw [← hid] at h1
    exact absurd h1 (Nat.not_lt.2 hle)

/-- A node's number is reported for its own handle only, and as long as the node is there. -/
theorem Kept.eq_of_reported (hs : s.Kept) {n : Node α} (hn : s.arena.get? h = some n)
    (hu : Vacating Turn Store.arena h.index k s u) {i : NodeInfo} (hi : u.nodeInfo? x = some i)
    (hid : i.id = n.id) : x = h ∧ k = 0 := by
  obtain ⟨_, m, hm, him⟩ := nodeInfo?_eq_some hi
  rw [him] at hid
  have hx : x = h := by
    obtain ⟨l, hl⟩ := Vacating.exists_of_run hu.run Store.arena x.index
    obtain ⟨_, p, hp, hpn⟩ := hs.found_before hn hm hid hl
    exact hs.eq_of_id_eq hp hn hpn
  subst hx
  exact ⟨rfl, (hs.found_before hn hm hid hu).1⟩

/-- Who is told a number before a node comes is told another number than that node's. -/
theorem Kept.ne_of_reported (hu : u.Kept) (hs : Runs u s) {n : Node α}
    (hn : s.arena.nextId ≤ n.id.val) {i : NodeInfo} (hi : u.nodeInfo? x = some i) :
    i.id ≠ n.id := by
  obtain ⟨_, m, hm, him⟩ := nodeInfo?_eq_some hi
  intro hid
  have h1 := hu.numbered _ _ (Arena.occupant?_of_get? hm)
  have h2 := hu.nextId_le hs
  rw [← hid, him] at hn
  dsimp only at h1
  omega

/-- What is so of the handle `h` of node `n` in `s`, and of the number of that node, from `s` on. -/
structure Denotes (s : Store α) (h : Handle) (n : Node α) : Prop where
  follows : ∀ {k u}, Vacating Turn Store.arena h.index k s u → k < Arena.slotLimit →
    u.Follows h n k
  reported : ∀ {k u x i}, Vacating Turn Store.arena h.index k s u → u.nodeInfo? x = some i →
    i.id = n.id → x = h ∧ k = 0

theorem Kept.denotes (hs : s.Kept) {n : Node α} (hn : s.arena.get? h = some n) :
    s.Denotes h n where
  follows hu hk := hs.follows hn hu hk
  reported hu hi hid := hs.eq_of_reported hn hu hi hid

/-- A handle is given out for a node in the arena whose number nobody was told before. -/
theorem Kept.exists_of_given (hs : s.Kept) {m : Mutation α ρ} (hh : h ∈ m.given (m.run s).1) :
    ∃ n, (m.run s).2.arena.get? h = some n ∧ ∀ {c u x i}, Runs (.init c) u → Runs u s →
      u.nodeInfo? x = some i → i.id ≠ n.id := by
  obtain ⟨n, hn, hle⟩ := Mutation.enters_of_given hs.valid hh
  exact ⟨n, hn, fun hu hr hi => ((kept_init _).runs hu).ne_of_reported hr hle hi⟩

end Store

end SnapshotDeque
