import SnapshotDeque.Proofs.Copying
import SnapshotDeque.Proofs.Exhausting
import SnapshotDeque.Proofs.Failures
import SnapshotDeque.Proofs.Mirroring

/-!
The alarms of a run that keeps a plain list beside the deque. Main statements: a run raises an alarm
just when an insertion finds no slot, or finds a deque that has no capacity of its own and yet holds
as many nodes as a capacity may admit, and at its end everything obsolete is given back; and one
that goes on appending meets the latter before it runs out of slots.
-/

namespace SnapshotDeque

namespace Shadow

variable {m : Shadow} {c : Config} {held : List (Holding Nat)}

/-! ## Runs -/

/-- Does an operation and, if asked for, compares both sides afterwards; what each came to. -/
def step (m : Shadow) (op : Op) (compare : Bool) : List Check × Shadow :=
  let (r, m) := m.apply op
  if compare then
    let (v, m) := m.verify
    ([r, v], m)
  else ([r], m)

def run (m : Shadow) : List (Op × Bool) → List Check × Shadow
  | [] => ([], m)
  | (op, compare) :: ops =>
    let (rs, m) := m.step op compare
    let (rest, m) := m.run ops
    (rs ++ rest, m)

def Op.inserts : Op → Bool
  | append _ | prepend _ => true
  | _ => false

/-- Whether `P` holds each time that an insertion of a run is to be done. -/
def EachInsertion (P : Shadow → Prop) (m : Shadow) : List (Op × Bool) → Prop
  | [] => True
  | (op, compare) :: ops =>
    (op.inserts = true → P m) ∧ EachInsertion P (m.step op compare).2 ops

/-- What is left when every snapshot is closed. -/
def closed (m : Shadow) : Store Nat := m.snapshots.foldl (fun store x => close x store) m.store

/-! ## Alarms -/

namespace Mirrors

variable (h : m.Mirrors c held)

include h

/-- No operation but an insertion raises an alarm. -/
theorem apply (op : Op) (hv : (m.apply op).2.store.timeline.modification < .max) :
    ((m.apply op).1 = .ok () ↔
      (op.inserts = true → m.Slotted ∧ (c.capacity = none → m.Roomy))) ∧
    ∃ held', (m.apply op).2.Mirrors c held' := by
  cases op with
  | append n =>
    obtain ⟨hok, hm⟩ := h.insert n .last hv
    exact ⟨hok.trans ⟨fun hs _ => hs, fun hs => hs rfl⟩, held, hm⟩
  | prepend n =>
    obtain ⟨hok, hm⟩ := h.insert n .first hv
    exact ⟨hok.trans ⟨fun hs _ => hs, fun hs => hs rfl⟩, held, hm⟩
  | pollFirst =>
    obtain ⟨hok, hm⟩ := h.poll .first hv
    exact ⟨iff_of_true hok nofun, held, hm⟩
  | pollLast =>
    obtain ⟨hok, hm⟩ := h.poll .last hv
    exact ⟨iff_of_true hok nofun, held, hm⟩
  | unlinkAt i =>
    obtain ⟨hok, hm⟩ := h.unlinkAt i hv
    exact ⟨iff_of_true hok nofun, held, hm⟩
  | openSnapshot =>
    obtain ⟨hok, hm⟩ := h.openSnapshot
    exact ⟨iff_of_true hok nofun, hm⟩
  | openPolled limit =>
    obtain ⟨hok, hm⟩ := h.openPolled limit hv
    exact ⟨iff_of_true hok nofun, hm⟩
  | closeSnapshot i =>
    obtain ⟨hok, hm⟩ := h.closeSnapshot i
    exact ⟨iff_of_true hok nofun, hm⟩

/-- A comparison adds no alarm. -/
theorem step (op : Op) (compare : Bool)
    (hv : (m.apply op).2.store.timeline.modification < .max) :
    ((∀ r ∈ (m.step op compare).1, r = .ok ()) ↔
      (op.inserts = true → m.Slotted ∧ (c.capacity = none → m.Roomy))) ∧
    ∃ held', (m.step op compare).2.Mirrors c held' := by
  obtain ⟨hok, held', hm⟩ := h.apply op hv
  unfold Shadow.step
  dsimp only
  rw [← hok]
  cases compare with
  | false => exact ⟨by simp, held', hm⟩
  | true =>
    obtain ⟨hc, hm'⟩ := hm.verify
    exact ⟨by simp [hc], held', hm'⟩

end Mirrors

/-! ## The end of a run -/

theorem below_insert (m : Shadow) (n : Nat) (side : End) :
    m.store.Below (m.insert n side).2.store := by
  rw [store_insert]
  exact Edit.below_run _ _

theorem below_poll (m : Shadow) (side : End) : m.store.Below (m.poll side).2.store := by
  rw [store_poll]
  exact Edit.below_run _ _

theorem below_apply (m : Shadow) (op : Op) : m.store.Below (m.apply op).2.store := by
  cases op with
  | append n => exact below_insert m n .last
  | prepend n => exact below_insert m n .first
  | pollFirst => exact below_poll m .first
  | pollLast => exact below_poll m .last
  | unlinkAt i =>
    change m.store.Below (m.unlinkAt i).2.store
    rcases hi : m.live[i % m.live.length]? with _ | ⟨n, x⟩
    · unfold unlinkAt
      dsimp only
      rw [hi]
      exact .refl _
    · rw [store_unlinkAt hi]
      exact Edit.below_run _ _
  | openSnapshot =>
    change m.store.Below m.openSnapshot.2.store
    rw [store_openSnapshot]
    exact Edit.below_run _ _
  | openPolled limit =>
    change m.store.Below (m.openPolled limit).2.store
    rw [store_openPolled]
    exact Edit.below_run _ _
  | closeSnapshot i =>
    change m.store.Below (m.closeSnapshot i).2.store
    unfold closeSnapshot
    dsimp only
    split
    · exact .refl _
    · exact Edit.below_run _ _

theorem below_verify (m : Shadow) : m.store.Below m.verify.2.store := by
  unfold verify
  split
  · exact .refl _
  · have ho := Edit.below_run .openSnapshot m.store
    dsimp only
    split
    · exact ho
    · exact ho.trans (Edit.below_run _ _)

theorem below_step (m : Shadow) (op : Op) (compare : Bool) :
    (m.apply op).2.store.Below (m.step op compare).2.store := by
  cases compare with
  | false => exact .refl _
  | true => exact below_verify _

/-- No run takes a stamp or a slot back. -/
theorem below_run (m : Shadow) (ops : List (Op × Bool)) : m.store.Below (m.run ops).2.store := by
  induction ops generalizing m with
  | nil => exact .refl _
  | cons p ops ih =>
    obtain ⟨op, compare⟩ := p
    exact ((below_apply m op).trans (below_step m op compare)).trans (ih _)

theorem Mirrors.run (ops : List (Op × Bool)) (h : m.Mirrors c held)
    (hv : (m.run ops).2.store.timeline.modification < .max) :
    ((∀ r ∈ (m.run ops).1, r = .ok ()) ↔
      m.EachInsertion Slotted ops ∧ (c.capacity = none → m.EachInsertion Roomy ops)) ∧
    ∃ held', (m.run ops).2.Mirrors c held' := by
  induction ops generalizing m held with
  | nil =>
    exact ⟨iff_of_true (fun _ hr => absurd hr List.not_mem_nil) ⟨trivial, fun _ => trivial⟩,
      held, h⟩
  | cons p ops ih =>
    obtain ⟨op, compare⟩ := p
    obtain ⟨hok, held', hm⟩ := h.step op compare (lt_of_le_of_lt
      ((below_step m op compare).trans (below_run _ ops)).modification hv)
    obtain ⟨hok', hend⟩ := ih hm hv
    refine ⟨?_, hend⟩
    unfold Shadow.run EachInsertion
    dsimp only
    rw [List.forall_mem_append, hok, hok']
    constructor
    · rintro ⟨hop, hslots, hroom⟩
      exact ⟨⟨fun hi => (hop hi).1, hslots⟩, fun hc => ⟨fun hi => (hop hi).2 hc, hroom hc⟩⟩
    · rintro ⟨⟨hop, hslots⟩, hroom⟩
      exact ⟨fun hi => ⟨hop hi, fun hc => (hroom hc).1 hi⟩, hslots, fun hc => (hroom hc).2⟩

/-- While a slot is left at least, an insertion finds one. -/
theorem Mirrors.slotted (h : m.Mirrors c held) {op : Op} (hop : op.inserts = true)
    (hs : (m.apply op).2.store.arena.slots.size < Arena.slotLimit) : m.Slotted := by
  have hinsert : ∀ n side, (m.insert n side).2.store.arena.slots.size < Arena.slotLimit →
      m.Slotted := fun n side hs _ => by
    obtain ⟨_, h0, _⟩ := h.holds.settled
    have hcount := h0.sound.arena.count
    have hslots : m.store.reclaimPending.arena.slots.size ≤ _ :=
      (Edit.rises_effect (.insert n side) m.store.reclaimPending).slots
    rw [store_insert, Mutation.run_snd h.open_] at hs
    have hs : ((Mutation.insert n side).effect.after m.store.reclaimPending).arena.slots.size <
      Arena.slotLimit := hs
    omega
  cases op with
  | append n => exact hinsert n .last hs
  | prepend n => exact hinsert n .first hs
  | _ => cases hop

theorem Mirrors.eachSlotted (ops : List (Op × Bool)) (h : m.Mirrors c held)
    (hv : (m.run ops).2.store.timeline.modification < .max)
    (hs : (m.run ops).2.store.arena.slots.size < Arena.slotLimit) :
    m.EachInsertion Slotted ops := by
  induction ops generalizing m held with
  | nil => trivial
  | cons p ops ih =>
    obtain ⟨op, compare⟩ := p
    have hb := (below_step m op compare).trans (below_run _ ops)
    obtain ⟨_, held', hm⟩ := h.step op compare (lt_of_le_of_lt hb.modification hv)
    exact ⟨fun hop => h.slotted hop (lt_of_le_of_lt hb.slots hs), ih hm hv hs⟩

/-- When every snapshot is closed, no link is held back. -/
theorem Mirrors.closed (h : m.Mirrors c held) :
    Mirrors c [] { m with store := m.closed, snapshots := [] } := by
  obtain ⟨store, live, xs⟩ := m
  unfold Shadow.closed
  dsimp only
  induction xs generalizing store held with
  | nil =>
    have hnil : held = [] := by simpa using h.snapshots
    subst hnil
    exact h
  | cons x xs ih =>
    obtain ⟨g, hg, rfl⟩ := List.mem_map.1 (h.snapshots.subset (List.mem_cons_self ..))
    exact ih _ (h.close hg (.refl _))

theorem Mirrors.unpinned (h : m.Mirrors c []) : m.store.Unpinned where
  markers := List.map_eq_nil_iff.1 (h.coherent.pinned_of_held rfl)
  modification := h.modification_lt
  budget := by
    rw [h.reached.config]
    exact (Config.bounds_of_validate h.reached.validate).2

theorem Mirrors.baseline (h : m.Mirrors c []) : m.store.timeline.baseline = none := by
  refine Option.eq_none_iff_forall_ne_some.2 fun b hb => ?_
  obtain ⟨-, hpin⟩ := (h.holds.stamped.timeline.baseline b).1 hb
  rw [h.coherent.pinned_of_held rfl] at hpin
  cases hpin

/-- The figures at the end of a run: everything that is not linked was given back. -/
structure Settled (m : Shadow) (stats : Stats) : Prop where
  /-- The passes after the last snapshot was closed come to an end. -/
  passes : ∃ t, reclaimAll m.closed = (.ok (), t) ∧ Exhausts m.closed t ∧ stats = t.stats
  obsoleteLinks : stats.obsoleteLinks = 0
  openSnapshots : stats.openSnapshots = 0
  arenaNodes : stats.arenaNodes = stats.len
  len : stats.len = m.live.length

theorem Mirrors.finish (h : m.Mirrors c held) :
    ∃ stats, m.finish = .ok stats ∧ m.Settled stats := by
  have hc := h.closed
  obtain ⟨t, hr, hx, hl, ht, ho⟩ := exhausts_reclaimAll hc.holds hc.unpinned
  have hr : reclaimAll (m.snapshots.foldl (fun store x => Shadow.close x store) m.store) =
    (.ok (), t) := hr
  have hlen : t.length = m.live.length := hl.length_eq.trans hc.length.symm
  have harena : t.arena.size = t.length := (hl.arena_size ho).trans hl.length_eq.symm
  have hobs : t.stats.obsoleteLinks = 0 := congrArg List.length ho
  have hopen : t.stats.openSnapshots = 0 := by
    change t.timeline.openSnapshots = 0
    rw [Timeline.openSnapshots, ht.markers]
    rfl
  refine ⟨t.stats, ?_, ⟨t, hr, hx, rfl⟩, hobs, hopen, harena, hlen⟩
  unfold Shadow.finish
  rw [hr]
  dsimp only
  rw [if_neg (not_not.2 hobs)]
  exact if_neg (not_not.2 (harena.trans hlen))

/-- An alarm is raised just when an insertion that the capacity admits finds all the slots taken
that an index can tell apart, or when the deque has no capacity of its own and holds as many nodes
as a capacity may admit: it refuses one more, and the list counts as full only at a capacity that
was set. However that may be, the snapshots are closed and everything obsolete is given back in the
end. -/
theorem alarms_are_foretold (hc : c.validate = .ok ()) (ops : List (Op × Bool))
    (hv : ((init c).run ops).2.store.timeline.modification < .max) :
    ((∀ r ∈ ((init c).run ops).1, r = .ok ()) ↔ (init c).EachInsertion Slotted ops ∧
      (c.capacity = none → (init c).EachInsertion Roomy ops)) ∧
    (((init c).run ops).2.store.arena.slots.size < Arena.slotLimit →
      (init c).EachInsertion Slotted ops) ∧
    ∃ stats, ((init c).run ops).2.finish = .ok stats ∧ ((init c).run ops).2.Settled stats := by
  obtain ⟨hok, held, hm⟩ := (mirrors_init hc).run ops hv
  exact ⟨hok, (mirrors_init hc).eachSlotted ops hv, hm.finish⟩

/-- A run with an insertion past the capacity and a snapshot that outlives its elements. -/
def outliving : List (Op × Bool) :=
  [(.append 1, true), (.append 2, false), (.append 3, true), (.openPolled (some 1), true),
    (.unlinkAt 4, false), (.prepend 5, true)]

theorem outliving_raises_no_alarm :
    (∀ r ∈ ((init (.bounded 2)).run outliving).1, r = .ok ()) ∧
      ∃ stats, ((init (.bounded 2)).run outliving).2.finish = .ok stats ∧
        stats.obsoleteLinks = 0 ∧ stats.openSnapshots = 0 ∧ stats.arenaNodes = 1 := by
  obtain ⟨hok, hslots, stats, hf, hs⟩ :=
    alarms_are_foretold (c := .bounded 2) rfl outliving (by decide +kernel)
  have hlen : ((init (.bounded 2)).run outliving).2.live.length = 1 := by decide +kernel
  exact ⟨hok.2 ⟨hslots (by decide +kernel), nofun⟩, stats, hf, hs.obsoleteLinks, hs.openSnapshots,
    hs.arenaNodes.trans (hs.len.trans hlen)⟩

/-! ## Appending without end -/

/-- So many appends, one after the other. -/
def flood (n : Nat) : List (Op × Bool) := List.replicate n (.append 0, false)

/-- When the largest capacity is reached, one slot is left besides those of the sentinels. -/
theorem maxCapacity_add : Config.maxCapacity + 3 = Arena.slotLimit := by decide

/-- A deque without a capacity of its own from which nothing was ever taken, and of which no
snapshot is open. -/
structure Filled (m : Shadow) : Prop where
  mirrors : m.Mirrors {} []
  obsolete : m.store.obsolete = []
  modification : m.store.timeline.modification = .initial
  free : m.store.arena.free = []

theorem filled_init : (init {}).Filled := ⟨mirrors_init rfl, rfl, rfl, rfl⟩

namespace Filled

variable (h : m.Filled)

include h

theorem isFull : m.isFull = false := h.mirrors.isFull.elim (fun hf => absurd rfl hf.1) (·.1)

theorem arena_size : m.store.arena.size = m.live.length :=
  (h.mirrors.holds.arena_size h.obsolete).trans h.mirrors.length.symm

theorem length_le : m.live.length ≤ Config.maxCapacity := by
  have hle := h.mirrors.reached.length_le h.mirrors.open_
  rwa [← h.mirrors.length, h.mirrors.capacity] at hle

/-- There are as many slots as nodes, besides those of the sentinels. -/
theorem slots_lt : m.store.arena.slots.size < Arena.slotLimit := by
  have hmax := maxCapacity_add
  have hcount := h.mirrors.holds.sound.arena.count
  rw [h.free, h.arena_size, List.length_nil] at hcount
  have := h.length_le
  omega

theorem reclaimPending : m.store.reclaimPending = m.store :=
  Store.reclaimPending_of_idle (by rw [Store.reclaimable, h.obsolete]; rfl)

theorem slotted : m.Slotted := fun hlt => by
  have hmax := maxCapacity_add
  rw [h.mirrors.capacity] at hlt
  have hlt : m.live.length < Config.maxCapacity := hlt
  rw [h.reclaimPending, h.arena_size]
  omega

/-- There is nothing to give back before. -/
theorem store_eq_after (n : Nat) (side : End) :
    (m.insert n side).2.store = (Edit.insert n side).after m.store := by
  rw [store_insert, Mutation.run_snd h.mirrors.open_]
  change (Edit.insert n side).after m.store.reclaimPending = _
  rw [h.reclaimPending]

theorem modification_insert_lt (n : Nat) (side : End) :
    (m.insert n side).2.store.timeline.modification < .max := by
  have hadv : m.store.timeline.advance.1 < .max := by
    rw [Timeline.advance_of_none h.mirrors.baseline]
    exact h.mirrors.modification_lt
  rw [h.store_eq_after]
  exact lt_of_le_of_lt (Store.modification_insert_le h.mirrors.holds side n hadv) hadv

theorem insert (n : Nat) (side : End) : (m.insert n side).2.Filled := by
  have hv := h.modification_insert_lt n side
  have hun := h.mirrors.reached.unobserved (m := .insert n side) rfl trivial
    (by rw [store_insert] at hv; exact hv) rfl
  have hw : (World.after { store := m.store, held := [] } (.insert n side)).store =
    (m.insert n side).2.store := (store_insert m n side).symm
  refine ⟨(h.mirrors.insert n side hv).2, ?_, ?_, ?_⟩
  · have hadded := hun.added
    rw [World.added, hw, show (World.mk m.store []).store.obsolete = [] from h.obsolete] at hadded
    simpa using hadded
  · have hm := hun.modification
    rw [hw] at hm
    exact hm.trans h.modification
  · have hf := (Edit.Built.insert n side).free_suffix m.store
    rw [← h.store_eq_after, h.free] at hf
    exact List.suffix_nil.1 hf

theorem insert_of_room (n : Nat) (side : End) (hlt : m.live.length < Config.maxCapacity) :
    (m.insert n side).1 = .ok () ∧ (m.insert n side).2.live.length = m.live.length + 1 := by
  have hok := (h.mirrors.insert n side (h.modification_insert_lt n side)).1.2
    ⟨h.slotted, fun _ => hlt⟩
  refine ⟨hok, ?_⟩
  rcases hrun : Mutation.run (.insert n side) m.store with ⟨e | x, t⟩
  · have hf := ((insert_of_error hrun).1.1 hok).1
    rw [h.isFull] at hf
    cases hf
  · rw [insert_of_ok h.isFull hrun]
    exact End.length_add ..

theorem insert_of_full (n : Nat) (side : End) (hfull : m.live.length = Config.maxCapacity) :
    (m.insert n side).1 = .error ("insert of " ++ toString n ++ " failed: " ++
      (Error.capacityExceeded Config.maxCapacity).message) := by
  have hcap : m.store.capacity = Config.maxCapacity := h.mirrors.capacity
  have hlen := h.mirrors.length
  have hv := h.modification_insert_lt n side
  rw [store_insert] at hv
  rcases hrun : Mutation.run (.insert n side) m.store with ⟨r, t⟩
  rw [hrun] at hv
  rcases h.mirrors.holds.run_insert hrun hv with ⟨-, rfl, -⟩ | ⟨hle, -⟩ | ⟨hle, -⟩
  · unfold Shadow.insert
    rw [hrun, h.isFull, hcap]
    rfl
  · omega
  · omega

/-- By induction on the appends that there is room for. -/
theorem run_flood {n : Nat} (hn : m.live.length + n = Config.maxCapacity) :
    (m.run (flood (n + 1))).1 = List.replicate n (.ok ()) ++
        [.error ("insert of 0 failed: " ++ (Error.capacityExceeded Config.maxCapacity).message)] ∧
      (m.run (flood (n + 1))).2.Filled := by
  induction n generalizing m with
  | zero => exact ⟨congrArg (fun r => [r]) (h.insert_of_full 0 .last hn), h.insert 0 .last⟩
  | succ n ih =>
    obtain ⟨hok, hlen⟩ := h.insert_of_room 0 .last (by omega)
    obtain ⟨hr, hf⟩ := ih (h.insert 0 .last) (by omega)
    refine ⟨?_, hf⟩
    change (m.insert 0 .last).1 :: ((m.insert 0 .last).2.run (flood (n + 1))).1 = _
    rw [hok, hr]
    rfl

end Filled

/-- The deque refuses the append after the largest capacity is reached, though no capacity was set
and there is a slot left for the node. -/
theorem flood_raises_alarm :
    ({} : Config).validate = .ok () ∧
    ((init {}).run (flood (Config.maxCapacity + 1))).2.store.timeline.modification < .max ∧
    ((init {}).run (flood (Config.maxCapacity + 1))).2.store.arena.slots.size < Arena.slotLimit ∧
    ((init {}).run (flood (Config.maxCapacity + 1))).1.getLast? = some (.error
      ("insert of 0 failed: " ++ (Error.capacityExceeded Config.maxCapacity).message)) ∧
    ¬ ∀ r ∈ ((init {}).run (flood (Config.maxCapacity + 1))).1, r = .ok () := by
  obtain ⟨hr, hf⟩ := filled_init.run_flood (Nat.zero_add _)
  refine ⟨rfl, hf.mirrors.modification_lt, hf.slots_lt, by rw [hr, List.getLast?_concat], ?_⟩
  rw [hr]
  intro hok
  cases hok _ (List.mem_append_right _ (List.mem_singleton_self _))

end Shadow

end SnapshotDeque
