import SnapshotDeque.Shadow
import SnapshotDeque.Proofs.Sharing

/-!
A deque of numbers with a plain list at its side. The list stays what the deque holds, and what is
kept for each snapshot stays what the snapshot shows. So no comparison ever fails, and no operation
but an insertion. Main statements: what each operation comes to while both sides agree.
-/

namespace SnapshotDeque

/-- An accepted configuration has a capacity that handles can name, and passes get on. -/
theorem Config.bounds_of_validate {c : Config} (h : c.validate = .ok ()) :
    c.effectiveCapacity ≤ maxCapacity ∧ minReclaimBatch ≤ c.reclaimBatch := by
  unfold validate at h
  unfold effectiveCapacity
  cases hc : c.capacity with
  | none =>
    rw [hc] at h
    by_cases hb : c.reclaimBatch < minReclaimBatch
    · simp [hb] at h
    · exact ⟨Nat.le_refl _, Nat.le_of_not_lt hb⟩
  | some n =>
    rw [hc] at h
    by_cases h0 : n = 0
    · simp [h0, throw, throwThe, MonadExceptOf.throw, bind, Except.bind] at h
    by_cases hn : n > maxCapacity
    · simp [h0, hn, throw, throwThe, MonadExceptOf.throw, bind, Except.bind] at h
    by_cases hb : c.reclaimBatch < minReclaimBatch
    · simp [h0, hn, hb, throw, throwThe, MonadExceptOf.throw] at h
    · exact ⟨Nat.le_of_not_lt hn, Nat.le_of_not_lt hb⟩

/-- What an insertion comes to: the capacity refuses it, or a slot is found, or there is none. -/
theorem Store.Live.run_insert {α : Type} {s t : Store α} {l : List (Handle × α)} (h : s.Live l)
    {a : α} {side : End} {r : Except Error Handle}
    (hr : Mutation.run (.insert a side) s = (r, t)) (hv : t.timeline.modification < .max) :
    s.capacity < l.length + 1 ∧ r = .error (.capacityExceeded s.capacity) ∧ t.entries = l ∨
    l.length + 1 ≤ s.capacity ∧ s.reclaimPending.arena.size + 3 ≤ Arena.slotLimit ∧
      (∃ x, r = .ok x ∧ t.entries = side.add [(x, a)] l) ∨
    l.length + 1 ≤ s.capacity ∧ Arena.slotLimit < s.reclaimPending.arena.size + 3 ∧
      r = .error Arena.exhausted ∧ t.entries = l := by
  obtain ⟨gone, h0, hg⟩ := h.settled
  have hcap : s.reclaimPending.capacity = s.capacity := by
    rw [Store.capacity, hg.spares.config]
    rfl
  by_cases hn : s.capacity < l.length + 1
  · have hf := fails_insert h0 side a (by rw [hcap]; exact hn)
    rw [Mutation.run_of_fails (m := .insert a side) h.open_ hf, hcap] at hr
    cases hr
    exact Or.inl ⟨hn, rfl, h0.entries⟩
  have hn := Nat.le_of_not_lt hn
  rcases insert_spec h0 side a (by omega) (h.after_lt hr hv) with
    ⟨x, u, ht, hl, hk⟩ | ⟨u, hf, hl, _, _, hlt⟩
  · rw [Mutation.run_of_returns (m := .insert a side) h.open_ ht] at hr
    cases hr
    obtain ⟨born, hb, hc⟩ := hk.changes
    refine Or.inr (Or.inl ⟨hn, ?_, x, rfl, hl.entries⟩)
    have hsize := hc.turnover.roster.length_eq
    have hborn := hb.length_eq
    have hcount := hl.sound.arena.count
    have hlim := hl.sound.arena.limit
    rw [List.nil_append, List.length_append, ← hl.sound.arena.size, ← h0.sound.arena.size] at hsize
    rw [List.length_map, List.length_map, List.length_singleton] at hborn
    omega
  · rw [Mutation.run_of_fails (m := .insert a side) h.open_ hf] at hr
    cases hr
    exact Or.inr (Or.inr ⟨hn, hlt, rfl, hl.entries⟩)

theorem World.Reached.validate {α : Type} {c : Config} {w : World α} (h : Reached c w) :
    c.validate = .ok () := by
  induction h with
  | init hc => exact hc
  | change _ _ _ _ ih => exact ih
  | deliver _ ih => exact ih

namespace Shadow

variable {m : Shadow} {c : Config} {held : List (Holding Nat)}

/-- Whether a slot is found for one more node, if the capacity admits one. -/
def Slotted (m : Shadow) : Prop :=
  m.live.length < m.store.capacity → m.store.reclaimPending.arena.size + 3 ≤ Arena.slotLimit

/-- Whether fewer nodes are linked than the largest capacity admits. -/
def Roomy (m : Shadow) : Prop := m.live.length < Config.maxCapacity

/-! ## The deque's side of an operation -/

theorem store_insert (m : Shadow) (n : Nat) (side : End) :
    (m.insert n side).2.store = (Mutation.run (.insert n side) m.store).2 := by
  unfold insert
  dsimp only
  repeat' split
  all_goals rfl

theorem store_poll (m : Shadow) (side : End) :
    (m.poll side).2.store = (Mutation.run (.poll side) m.store).2 := by
  unfold poll
  dsimp only
  repeat' split
  all_goals rfl

theorem store_openSnapshot (m : Shadow) :
    m.openSnapshot.2.store = (Mutation.run .openSnapshot m.store).2 := by
  unfold openSnapshot
  dsimp only
  split <;> rfl

theorem store_openPolled (m : Shadow) (limit : Option Nat) :
    (m.openPolled limit).2.store = (Mutation.run (.openPolled limit) m.store).2 := by
  unfold openPolled
  dsimp only
  split <;> rfl

theorem store_unlinkAt {i n : Nat} {x : Handle} (hi : m.live[i % m.live.length]? = some (n, x)) :
    (m.unlinkAt i).2.store = (Mutation.run (.unlink x) m.store).2 := by
  unfold unlinkAt
  dsimp only
  rw [hi]
  dsimp only
  repeat' split
  all_goals rfl

/-! ## Operations that agree -/

section Agreed

variable {t : Store Nat} {v : View}

theorem insert_of_ok {n : Nat} {side : End} {x : Handle} (hf : m.isFull = false)
    (h : Mutation.run (.insert n side) m.store = (.ok x, t)) :
    m.insert n side = (.ok (), { m with store := t, live := side.add [(n, x)] m.live }) := by
  unfold insert
  rw [h, hf]
  cases side <;> rfl

theorem insert_of_error {n : Nat} {side : End} {e : Error}
    (h : Mutation.run (.insert n side) m.store = (.error e, t)) :
    ((m.insert n side).1 = .ok () ↔ m.isFull = true ∧ e.isCapacityExceeded = true) ∧
      (m.insert n side).2 = { m with store := t } := by
  unfold insert
  rw [h]
  dsimp only
  rw [← Bool.and_eq_true]
  cases m.isFull && e.isCapacityExceeded with
  | false => exact ⟨⟨nofun, nofun⟩, rfl⟩
  | true => exact ⟨⟨fun _ => rfl, fun _ => rfl⟩, rfl⟩

theorem poll_of_run {side : End} (h : Mutation.run (.poll side) m.store =
    (.ok ((side.outermost? m.live).map (·.1)), t)) :
    m.poll side = (.ok (), { m with store := t, live := side.rest m.live }) := by
  unfold poll
  rw [h]
  cases side <;> exact if_pos rfl

theorem unlinkAt_of_run {i n : Nat} {x : Handle}
    (hi : m.live[i % m.live.length]? = some (n, x))
    (h : Mutation.run (.unlink x) m.store = (.ok true, t)) : m.unlinkAt i =
      (.ok (), { m with store := t, live := m.live.eraseIdx (i % m.live.length) }) := by
  unfold unlinkAt
  dsimp only
  rw [hi]
  dsimp only
  rw [h]

theorem openSnapshot_of_run (h : Mutation.run .openSnapshot m.store = (.ok v, t)) :
    m.openSnapshot = (.ok (), { m with
      store := t, snapshots := m.snapshots ++ [⟨{ view := v }, m.values⟩] }) := by
  unfold openSnapshot
  rw [h]
  rfl

theorem openPolled_of_run {limit : Option Nat}
    (h : Mutation.run (.openPolled limit) m.store = (.ok v, t)) :
    m.openPolled limit = (.ok (), { m with
      store := t
      live := m.live.drop (Store.taken limit m.live.length)
      snapshots := m.snapshots ++
        [⟨{ view := v }, m.values.take (Store.taken limit m.live.length)⟩] }) := by
  unfold openPolled
  rw [h]
  rfl

end Agreed

/-- The item at a position is the only one with its key. -/
theorem filter_ne_eq_eraseIdx {β γ : Type} [DecidableEq γ] (f : β → γ) :
    ∀ {l : List β} {i : Nat} {b : β}, (l.map f).Nodup → l[i]? = some b →
      l.filter (f · ≠ f b) = l.eraseIdx i := by
  intro l
  induction l with
  | nil => intro i b _ hi; cases hi
  | cons a l ih =>
    intro i b hnd hi
    obtain ⟨ha, hnd⟩ := List.nodup_cons.1 hnd
    cases i with
    | zero =>
      cases hi
      rw [List.filter_cons_of_neg (by simp), List.eraseIdx_zero, List.tail_cons]
      exact List.filter_eq_self.2 fun x hx =>
        decide_eq_true fun he => ha (List.mem_map.2 ⟨x, hx, he⟩)
    | succ i =>
      have hne : f a ≠ f b := fun he =>
        ha (List.mem_map.2 ⟨b, List.mem_of_getElem? hi, he.symm⟩)
      rw [List.filter_cons_of_pos (by simpa using hne), List.eraseIdx_cons_succ, ih hnd hi]

theorem swapRemove_perm {β : Type} {xs : List β} {i : Nat} {b : β} (hi : xs[i]? = some b) :
    (b :: swapRemove xs i).Perm xs := by
  rcases List.eq_nil_or_concat xs with rfl | ⟨ys, y, rfl⟩
  · cases hi
  rw [List.concat_eq_append] at *
  obtain ⟨hlt, rfl⟩ := List.getElem?_eq_some_iff.1 hi
  rw [List.length_append, List.length_singleton] at hlt
  have hr : swapRemove (ys ++ [y]) i = ((ys ++ [y]).set i y).dropLast := by
    rw [swapRemove, List.getLast?_concat]
  rw [hr]
  rcases Nat.lt_or_eq_of_le (Nat.le_of_lt_succ hlt) with hi' | rfl
  · -- the last item takes the place
    rw [List.set_append_left _ _ hi', List.dropLast_concat, List.getElem_append_left hi']
    refine (((List.set_perm_cons_eraseIdx hi' y).cons _).trans (.swap _ _ _)).trans ?_
    exact ((List.getElem_cons_eraseIdx_perm hi').cons y).trans
      (List.perm_append_singleton y ys).symm
  · rw [List.getElem_concat_length rfl, List.set_append_right _ _ (Nat.le_refl _), Nat.sub_self,
      List.set_cons_zero, List.dropLast_concat]
    exact (List.perm_append_singleton y ys).symm

theorem forM_eq_ok {β : Type} {f : β → Check} {xs : List β} (h : ∀ x ∈ xs, f x = .ok ()) :
    xs.forM f = .ok () := by
  induction xs with
  | nil => rfl
  | cons x xs ih =>
    change (f x >>= fun _ => xs.forM f) = _
    rw [h x (List.mem_cons_self ..)]
    exact ih fun y hy => h y (List.mem_cons_of_mem x hy)

/-! ## The list beside the deque -/

/-- A held snapshot and the elements it has to show. -/
def expectation (h : Holding Nat) : Expectation := ⟨{ view := h.view }, h.contents.map (·.2)⟩

/-- The list is what the deque holds, and the snapshots kept are those that are held of it. -/
structure Mirrors (c : Config) (held : List (Holding Nat)) (m : Shadow) : Prop where
  reached : World.Reached c { store := m.store, held }
  open_ : m.store.disposed = false
  live : m.live = m.store.entries.map Prod.swap
  snapshots : m.snapshots.Perm (held.map expectation)

theorem mirrors_init (hc : c.validate = .ok ()) : (init c).Mirrors c [] where
  reached := .init hc
  open_ := rfl
  live := by rw [init, (Store.live_init c).entries]; rfl
  snapshots := .nil

namespace Mirrors

variable (h : m.Mirrors c held)

include h

theorem coherent : World.Coherent { store := m.store, held } m.store.entries := by
  obtain ⟨l, hw⟩ := h.reached.coherent h.open_
  rw [hw.live.entries]
  exact hw

theorem holds : m.store.Live m.store.entries := h.coherent.live

theorem length : m.live.length = m.store.entries.length := by
  rw [h.live, List.length_map]

theorem values : m.values = m.store.entries.map (·.2) := by
  rw [Shadow.values, h.live, List.map_map]
  rfl

theorem capacity : m.store.capacity = c.effectiveCapacity := by
  rw [Store.capacity, h.reached.config]

/-- A list without a capacity of its own never counts as full. -/
theorem isFull : c.capacity ≠ none ∧ m.isFull = true ∧ m.store.capacity ≤ m.live.length ∨
    m.isFull = false ∧ (m.store.capacity ≤ m.live.length →
      c.capacity = none ∧ Config.maxCapacity ≤ m.live.length) := by
  have hc : m.store.config = c := h.reached.config
  rw [Shadow.isFull, h.capacity, Config.effectiveCapacity, hc]
  cases c.capacity with
  | none => exact Or.inr ⟨rfl, fun hn => ⟨rfl, hn⟩⟩
  | some n =>
    by_cases hn : n ≤ m.live.length
    · exact Or.inl ⟨nofun, decide_eq_true hn, hn⟩
    · exact Or.inr ⟨decide_eq_false hn, fun h => absurd h hn⟩

section Change

variable {ρ : Type} {μ : Mutation Nat ρ} {r : Except Error ρ} {t : Store Nat}

theorem reaches (hrun : μ.run m.store = (r, t))
    (hp : World.Permits { store := m.store, held } μ) (hv : t.timeline.modification < .max)
    (hd : μ.disposes = false) :
    World.Reached c { store := t, held := World.holdings { store := m.store, held } μ r } ∧
      t.disposed = false := by
  have hafter : World.after { store := m.store, held } μ =
      { store := t, held := World.holdings { store := m.store, held } μ r } := by
    rw [World.after, hrun]
  rw [← hafter]
  have hv' : (World.after { store := m.store, held } μ).store.timeline.modification < .max := by
    rw [hafter]
    exact hv
  obtain ⟨l, hl⟩ := h.coherent.after hp hv' hd
  refine ⟨h.reached.change μ hp hv', ?_⟩
  have ho := hl.live.open_
  rw [hafter] at ho
  exact ho

/-- A change that needs no slot acts on the list that the deque holds. -/
theorem acts (hrun : μ.run m.store = (r, t))
    (hp : World.Permits { store := m.store, held } μ) (hv : t.timeline.modification < .max)
    (hd : μ.disposes = false) (ha : μ.additional = 0) :
    μ.Acts c.effectiveCapacity (fun x => m.store.reclaimPending.arena.get? x = none)
      m.store.entries r t.entries := by
  have ht : (World.after { store := m.store, held } μ).store = t := congrArg Prod.snd hrun
  have hacts := h.coherent.acts hp (by rw [ht]; exact hv) hd (h.holds.fits ha)
  rw [ht, hrun, h.capacity] at hacts
  exact hacts

end Change

/-! ## Operations -/

theorem poll (side : End) (hv : (m.poll side).2.store.timeline.modification < .max) :
    (m.poll side).1 = .ok () ∧ (m.poll side).2.Mirrors c held := by
  rw [store_poll] at hv
  rcases hrun : Mutation.run (.poll side) m.store with ⟨r, t⟩
  rw [hrun] at hv
  obtain ⟨hr, ho⟩ := h.reaches hrun trivial hv rfl
  obtain ⟨rfl, hl⟩ := h.acts hrun trivial hv rfl rfl
  have hgot : (side.outermost? m.store.entries).map (·.2) =
      (side.outermost? m.live).map (·.1) := by
    rw [h.live, End.outermost?_map, Option.map_map]
    rfl
  rw [hgot] at hrun
  rw [poll_of_run hrun]
  refine ⟨rfl, hr, ho, ?_, h.snapshots⟩
  rw [hl]
  change side.rest m.live = _
  rw [h.live]
  cases side with
  | first => exact List.map_tail.symm
  | last => exact List.map_dropLast.symm

theorem unlinkAt (i : Nat) (hv : (m.unlinkAt i).2.store.timeline.modification < .max) :
    (m.unlinkAt i).1 = .ok () ∧ (m.unlinkAt i).2.Mirrors c held := by
  rcases hi : m.live[i % m.live.length]? with _ | ⟨n, x⟩
  · unfold Shadow.unlinkAt
    dsimp only
    rw [hi]
    exact ⟨rfl, h⟩
  have hx : m.store.entries[i % m.live.length]? = some (x, n) := by
    have hlive := congrArg (·[i % m.live.length]?) h.live
    rw [hi, List.getElem?_map] at hlive
    obtain ⟨e, he, hs⟩ := Option.map_eq_some_iff.1 hlive.symm
    cases e
    cases hs
    exact he
  have hmem : x ∈ m.store.entries.map (·.1) := List.mem_map_of_mem (List.mem_of_getElem? hx)
  rw [store_unlinkAt hi] at hv
  rcases hrun : Mutation.run (.unlink x) m.store with ⟨r, t⟩
  rw [hrun] at hv
  obtain ⟨hr, ho⟩ := h.reaches hrun trivial hv rfl
  have ha := h.acts hrun trivial hv rfl rfl
  have hs : x.isSentinel = false := h.holds.isSentinel hmem
  obtain ⟨rfl, hl⟩ := (if_neg (by rw [hs]; exact Bool.false_ne_true)).mp ha
  rw [decide_eq_true hmem] at hrun hr
  rw [unlinkAt_of_run hi hrun]
  refine ⟨rfl, hr, ho, ?_, h.snapshots⟩
  rw [hl, filter_ne_eq_eraseIdx (·.1) h.holds.nodup hx, ← List.eraseIdx_map, ← h.live]

theorem modification_lt : m.store.timeline.modification < .max := h.reached.modification_lt

/-- A snapshot of what the deque holds can be opened and kept. -/
theorem open_run : ∃ v t, Mutation.run .openSnapshot m.store = (.ok v, t) ∧
    Mirrors c (⟨v, m.store.entries⟩ :: held)
      { m with store := t, snapshots := ⟨{ view := v }, m.values⟩ :: m.snapshots } := by
  rcases hrun : Mutation.run .openSnapshot m.store with ⟨r, t⟩
  have hv : t.timeline.modification < .max := by
    have he := h.holds.modification_openSnapshot
    rw [hrun] at he
    rw [he]
    exact h.modification_lt
  obtain ⟨hr, ho⟩ := h.reaches hrun trivial hv rfl
  obtain ⟨⟨v, rfl, _⟩, hl⟩ := h.acts hrun trivial hv rfl rfl
  refine ⟨v, t, rfl, hr, ho, by rw [hl]; exact h.live, ?_⟩
  rw [h.values]
  exact h.snapshots.cons _

/-- The order in which the snapshots are kept does not matter. -/
theorem reorder {xs : List Expectation} (hp : xs.Perm m.snapshots) :
    Mirrors c held { m with snapshots := xs } :=
  ⟨h.reached, h.open_, h.live, hp.trans h.snapshots⟩

theorem openSnapshot : m.openSnapshot.1 = .ok () ∧ ∃ held', m.openSnapshot.2.Mirrors c held' := by
  obtain ⟨v, t, hrun, hm⟩ := h.open_run
  rw [openSnapshot_of_run hrun]
  exact ⟨rfl, _, hm.reorder (List.perm_append_singleton _ _)⟩

theorem openPolled (limit : Option Nat)
    (hv : (m.openPolled limit).2.store.timeline.modification < .max) :
    (m.openPolled limit).1 = .ok () ∧ ∃ held', (m.openPolled limit).2.Mirrors c held' := by
  rw [store_openPolled] at hv
  rcases hrun : Mutation.run (.openPolled limit) m.store with ⟨r, t⟩
  rw [hrun] at hv
  obtain ⟨hr, ho⟩ := h.reaches hrun trivial hv rfl
  obtain ⟨⟨v, rfl, _⟩, hl⟩ := h.acts hrun trivial hv rfl rfl
  rw [openPolled_of_run hrun]
  refine ⟨rfl, _, hr, ho, ?_, (List.perm_append_singleton _ _).trans ?_⟩
  · rw [hl, ← h.length, List.map_drop, ← h.live]
  · rw [h.values, h.length, ← List.map_take]
    exact h.snapshots.cons _

/-- When a snapshot is closed that is kept, the others go on being kept. -/
theorem close {g : Holding Nat} (hg : g ∈ held) {xs : List Expectation}
    (hp : (expectation g :: xs).Perm m.snapshots) :
    Mirrors c (held.filter (·.view.id ≠ g.view.id))
      { m with store := Shadow.close (expectation g) m.store, snapshots := xs } := by
  rcases hrun : Mutation.run (.closeSnapshot g.view.id g.view.version) m.store with ⟨r, t⟩
  have ht : Shadow.close (expectation g) m.store = t := congrArg Prod.snd hrun
  rw [ht]
  have hv : t.timeline.modification < .max := by
    have hs := Mutation.run_snd (m := .closeSnapshot g.view.id g.view.version) h.open_
    rw [hrun] at hs
    rw [show t = _ from hs]
    change (Store.closeSnapshot _ _ _).2.timeline.modification < .max
    rw [Store.modification_closeSnapshot, Store.timeline_base]
    exact h.modification_lt
  obtain ⟨hr, ho⟩ := h.reaches hrun ⟨g, hg, rfl, rfl⟩ hv rfl
  obtain ⟨⟨p, rfl⟩, hl⟩ := h.acts hrun ⟨g, hg, rfl, rfl⟩ hv rfl rfl
  obtain ⟨k, hk⟩ := List.getElem?_of_mem hg
  obtain ⟨hlt, rfl⟩ := List.getElem?_eq_some_iff.1 hk
  refine ⟨hr, ho, by rw [hl]; exact h.live, ?_⟩
  have hout := filter_ne_eq_eraseIdx (·.view.id) h.coherent.ids hk
  refine List.Perm.cons_inv (a := expectation held[k]) ?_
  rw [hout, ← List.map_cons]
  exact (hp.trans h.snapshots).trans ((List.getElem_cons_eraseIdx_perm hlt).symm.map _)

theorem closeSnapshot (i : Nat) : (m.closeSnapshot i).1 = .ok () ∧
    ∃ held', (m.closeSnapshot i).2.Mirrors c held' := by
  unfold Shadow.closeSnapshot
  dsimp only
  rcases hi : m.snapshots[i % m.snapshots.length]? with _ | x
  · exact ⟨rfl, held, h⟩
  obtain ⟨g, hg, rfl⟩ := List.mem_map.1 (h.snapshots.subset (List.mem_of_getElem? hi))
  exact ⟨rfl, _, h.close hg (swapRemove_perm hi)⟩

/-! ## Comparisons -/

/-- A snapshot that is kept shows what it has to show. -/
theorem checkSnapshot {x : Expectation} (hx : x ∈ m.snapshots) :
    Shadow.checkSnapshot m.store x = .ok () := by
  obtain ⟨g, hg, rfl⟩ := List.mem_map.1 (h.snapshots.subset hx)
  obtain ⟨hf, hb⟩ := h.coherent.nodes hg
  obtain ⟨ps, hd, hn⟩ := h.coherent.displays g hg
  have hsize : (expectation g).snapshot.size m.store = .ok (expectation g).elements.length := by
    rw [Snapshot.size, Snapshot.checkOpen, h.open_]
    refine congrArg Except.ok ?_
    change g.view.size = (g.contents.map (·.2)).length
    rw [hd.size, ← hn, List.length_map, Store.named, List.length_map]
  have hfront : (expectation g).snapshot.elements m.store = .ok (expectation g).elements := by
    rw [Snapshot.elements, show (expectation g).snapshot.nodes m.store = _ from hf]
    rfl
  have hback : (expectation g).snapshot.elementsReversed m.store =
      .ok (expectation g).elements.reverse := by
    rw [Snapshot.elementsReversed, show (expectation g).snapshot.nodesReversed m.store = _ from hb]
    exact congrArg Except.ok List.map_reverse
  unfold Shadow.checkSnapshot
  rw [hsize, hfront, hback]
  simp [worded, bind, Except.bind, pure, Except.pure]

theorem checkLive : m.checkLive = .ok () := by
  have hlen : m.store.len = m.live.length := by
    rw [h.length]
    exact h.holds.reads.len
  unfold Shadow.checkLive
  rw [if_neg (not_not.2 hlen)]
  refine forM_eq_ok fun e he => ?_
  have hx : e.2 ∈ m.store.entries.map (·.1) := by
    rw [h.live] at he
    obtain ⟨d, hd, rfl⟩ := List.mem_map.1 he
    exact List.mem_map_of_mem hd
  dsimp only
  rw [(h.holds.reads.isLinked e.2).2 hx]
  rfl

/-- A comparison succeeds, and the snapshot that is opened for it leaves nothing behind. -/
theorem verify : m.verify.1 = .ok () ∧ m.verify.2.Mirrors c held := by
  obtain ⟨v, t, hrun, hm⟩ := h.open_run
  have heq : m.verify = (((⟨{ view := v }, m.values⟩ :: m.snapshots).forM
        (Shadow.checkSnapshot t) : Check),
      { m with store := Shadow.close ⟨{ view := v }, m.values⟩ t }) := by
    unfold Shadow.verify
    rw [h.checkLive, hrun]
    rfl
  rw [heq]
  refine ⟨forM_eq_ok fun x hx => hm.checkSnapshot hx, ?_⟩
  have hperm : (expectation ⟨v, m.store.entries⟩ :: m.snapshots).Perm
      (⟨{ view := v }, m.values⟩ :: m.snapshots) := by
    rw [h.values]
    exact .refl _
  have hc := hm.close (List.mem_cons_self ..) hperm
  have hout := filter_ne_eq_eraseIdx (·.view.id) hm.coherent.ids
    (show (⟨v, m.store.entries⟩ :: held : List (Holding Nat))[0]? = some _ from rfl)
  rw [hout] at hc
  rw [h.values]
  exact hc

/-! ## Insertions -/

/-- The comparison of an insertion fails when no slot is left for the node, and when the deque,
though it has no capacity of its own, holds as many nodes as a capacity may admit. -/
theorem insert (n : Nat) (side : End)
    (hv : (m.insert n side).2.store.timeline.modification < .max) :
    ((m.insert n side).1 = .ok () ↔ m.Slotted ∧ (c.capacity = none → m.Roomy)) ∧
      (m.insert n side).2.Mirrors c held := by
  rw [store_insert] at hv
  rcases hrun : Mutation.run (.insert n side) m.store with ⟨r, t⟩
  rw [hrun] at hv
  obtain ⟨hr, ho⟩ := h.reaches hrun trivial hv rfl
  have hlen := h.length
  rcases h.holds.run_insert hrun hv with
    ⟨hcap, rfl, hl⟩ | ⟨hcap, hroom, x, rfl, hl⟩ | ⟨hcap, hroom, rfl, hl⟩
  · obtain ⟨hok, hm⟩ := insert_of_error hrun
    rw [hok, hm]
    refine ⟨?_, hr, ho, by rw [hl]; exact h.live, h.snapshots⟩
    have hslot : m.Slotted := fun hlt => absurd hlt (by omega)
    rcases h.isFull with ⟨hc, hf, _⟩ | ⟨hf, hnone⟩
    · exact ⟨fun _ => ⟨hslot, fun hn => absurd hn hc⟩, fun _ => ⟨hf, rfl⟩⟩
    · obtain ⟨hc, hmax⟩ := hnone (by omega)
      rw [hf]
      exact ⟨nofun, fun hn => absurd (hn.2 hc) (Nat.not_lt.2 hmax)⟩
  · have hf : m.isFull = false := h.isFull.elim (fun hf => absurd hf.2.2 (by omega)) (·.1)
    have hmax := (Config.bounds_of_validate h.reached.validate).1
    have hlt : m.Roomy := by
      rw [h.capacity] at hcap
      rw [Roomy]
      omega
    rw [insert_of_ok hf hrun]
    refine ⟨⟨fun _ => ⟨fun _ => hroom, fun _ => hlt⟩, fun _ => rfl⟩, hr, ho, ?_, h.snapshots⟩
    rw [hl]
    change side.add [(n, x)] m.live = _
    rw [h.live]
    cases side with
    | first => rfl
    | last =>
      change _ = (m.store.entries ++ [(x, n)]).map Prod.swap
      rw [List.map_append]
      rfl
  · have hf : m.isFull = false := h.isFull.elim (fun hf => absurd hf.2.2 (by omega)) (·.1)
    obtain ⟨hok, hm⟩ := insert_of_error hrun
    rw [hok, hm]
    refine ⟨⟨fun he => absurd he.2 Bool.false_ne_true, fun hn => ?_⟩, hr, ho,
      by rw [hl]; exact h.live, h.snapshots⟩
    have := hn.1 (by omega)
    omega

end Mirrors

end Shadow

end SnapshotDeque
