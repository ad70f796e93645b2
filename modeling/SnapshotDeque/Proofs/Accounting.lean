import SnapshotDeque.Proofs.Chronicle
import SnapshotDeque.Proofs.Lowering
import SnapshotDeque.Proofs.Moves

/-!
The account of links and nodes. Main statement: in a deque that is not disposed, the links of every
node are counted by it, also when they are given back; the nodes there are and those disposed are
all that were inserted, and the links in use and those given back are all that were made.
-/

namespace SnapshotDeque

variable {α : Type}

namespace Store

variable {s t : Store α} {ds es : List (Deed α)} {k m : Nat}

/-- All that was done to the nodes of a deque, and how many links were given back. -/
structure Account (ds : List (Deed α)) (k : Nat) (s : Store α) : Prop where
  formed : s.Formed
  chronicle : Chronicle ds s
  links : s.links.size + ds.countP Deed.isUnlink =
    2 + s.obsolete.length + ds.countP Deed.isLink + k
  given : s.totals.links = UInt64.ofNat k
  gone : s.totals.nodes = UInt64.ofNat (ds.countP Deed.isDispose)

theorem account_init (c : Config) : Account [] 0 (.init c : Store α) where
  formed := ⟨[], (live_init c).toShaped⟩
  chronicle := {
    numbers := rfl
    nextId := rfl
    size := rfl
    unlinks := List.nodup_nil
    disposes := List.nodup_nil
    linked := fun a d b h => absurd h (by simp)
    unlinked := fun a d b h => absurd h (by simp)
    record := fun {x r} => by
      rw [record?, get?_init]
      constructor
      · intro h
        cases h
      · rintro ⟨⟨d, hd, _⟩, _⟩
        cases hd
    versions := List.Pairwise.nil
    version_le := fun v hv => absurd hv List.not_mem_nil }
  links := rfl
  given := rfl
  gone := rfl

theorem Account.course (h : Account ds k s) (hc : Course s es m t) (ht : t.Formed) :
    Account (ds ++ es) (k + m) t where
  formed := ht
  chronicle := h.chronicle.tale hc.tale
  links := by
    have := h.links
    have := hc.links
    rw [List.countP_append, List.countP_append]
    omega
  given := by rw [hc.given, h.given, UInt64.ofNat_add]
  gone := by rw [hc.gone, h.gone, List.countP_append, UInt64.ofNat_add]

/-- Events are no part of the account. -/
theorem Account.events (h : Account ds k s) (b : Bool) (es : List (Event α)) :
    Account ds k { s with emitting := b, events := es } := by
  obtain ⟨l, hl⟩ := h.formed
  exact {
    formed := ⟨l, { hl with
      sound := { hl.sound with }
      ring := { hl.ring with }
      counted := { hl.counted with } }⟩
    chronicle := h.chronicle.congr (fun _ => rfl) rfl rfl (le_refl _)
    links := h.links
    given := h.given
    gone := h.gone }

/-- As many nodes are linked as the deque is long. -/
theorem Account.length (h : Account ds k s) :
    s.length + ds.countP Deed.isUnlink = ds.countP Deed.isLink := by
  obtain ⟨l, hl⟩ := h.formed
  rw [hl.length_eq]
  exact h.chronicle.length_add hl

/-- The figures of a deque that is not disposed, as far as links and nodes go. -/
structure Accounted (s : Store α) : Prop where
  /-- A node counts its current link and those of its links that are retired. -/
  liveLinks : ∀ {x n}, s.arena.get? x = some n → 1 ≤ n.liveLinks ∧
    n.liveLinks = (if n.head.isSome then 1 else 0) + s.obsolete.countP (s.owner · = x)
  /-- A node is there as long as it is linked or one of its links is retired. -/
  present : ∀ x, (s.arena.get? x).isSome ↔ x.isSentinel = false ∧
    ((s.arena.head? x).isSome ∨ ∃ i ∈ s.obsolete, s.owner i = x)
  /-- Every node that was numbered is there or was disposed. -/
  nodes : s.arena.nextId ≤ wordLimit →
    s.arena.nextId - 1 = s.stats.arenaNodes + s.stats.totals.nodes.toNat
  /-- Every link that was put into the table is a sentinel's current link, a node's current link, or
  obsolete, or was given back. -/
  links : s.links.size ≤ wordLimit →
    s.links.size = 2 + s.stats.len + s.stats.obsoleteLinks + s.stats.totals.links.toNat
  /-- Whatever change is made next, the node of a link that it gives back still counts it: it would
  make no difference what a count of zero is lowered to. -/
  releases : ∀ {ρ : Type} (m : Mutation α ρ) (g : Nat → Nat), (∀ n, g (n + 1) = n) →
    m.runBy (· - 1) g s = m.run s

theorem toNat_ofNat_of_le {n : Nat} (h : n ≤ wordLimit) : (UInt64.ofNat n).toNat = n :=
  UInt64.toNat_ofNat_of_lt' (Nat.lt_of_le_of_lt h (by decide))

section Sound

variable (h : s.Sound s.obsolete []) {x : Handle} {n : Node α}

include h

/-- No node is kept that has no link left. -/
theorem Sound.liveLinks_pos (hn : s.arena.get? x = some n) : 1 ≤ n.liveLinks := by
  rw [h.liveLinks hn]
  cases hh : n.head with
  | some i => exact Nat.le_add_right 1 _
  | none =>
    obtain ⟨i, hi, ho⟩ := h.occupied hn hh List.not_mem_nil
    have hpos : 0 < s.obsolete.countP (s.owner · = x) :=
      List.countP_pos_iff.2 ⟨i, hi, by simpa using ho⟩
    exact Nat.le_trans hpos (Nat.le_add_left _ _)

/-- A node is there as long as it is linked or one of its links is retired. -/
theorem Sound.isSome_get?_iff (x : Handle) : (s.arena.get? x).isSome ↔ x.isSentinel = false ∧
    ((s.arena.head? x).isSome ∨ ∃ i ∈ s.obsolete, s.owner i = x) := by
  constructor
  · intro hx
    obtain ⟨n, hn⟩ := Option.isSome_iff_exists.1 hx
    refine ⟨Arena.isSentinel_of_get? hn, ?_⟩
    rw [Arena.head?, hn]
    cases hh : n.head with
    | some i => exact Or.inl (by simp [hh])
    | none => exact Or.inr (h.occupied hn hh List.not_mem_nil)
  · rintro ⟨hs, hx | ⟨i, hi, rfl⟩⟩
    · rw [Arena.head?] at hx
      cases hn : s.arena.get? x with
      | none => rw [hn] at hx; cases hx
      | some n => rfl
    · obtain ⟨n, hn, _⟩ := h.retired_node hi hs
      rw [hn]
      rfl

end Sound

theorem Account.accounted (h : Account ds k s) : s.Accounted where
  liveLinks hn := by
    obtain ⟨l, hl⟩ := h.formed
    exact ⟨hl.sound.liveLinks_pos hn, hl.sound.liveLinks hn⟩
  present x := by
    obtain ⟨l, hl⟩ := h.formed
    exact hl.sound.isSome_get?_iff x
  nodes hn := by
    have h1 := h.chronicle.nextId
    have h2 := h.chronicle.size
    change _ = s.arena.size + s.totals.nodes.toNat
    rw [h.gone, toNat_ofNat_of_le (by omega)]
    omega
  links hn := by
    have h1 := h.links
    have h2 := h.length
    change _ = 2 + s.length + s.obsolete.length + s.totals.links.toNat
    rw [h.given, toNat_ofNat_of_le (by omega)]
    omega
  releases m _ hg := m.runBy_eq (fun _ => rfl) hg h.formed

theorem Account.run {ρ : Type} (h : Account ds k s) {m : Mutation α ρ} (hm : m.disposes = false) :
    ∃ es j, Account (ds ++ es) (k + j) (m.run s).2 := by
  obtain ⟨l, hl⟩ := h.formed
  cases hr : m.reclaimsFirst with
  | true =>
    obtain ⟨ht, es, j, hc, _⟩ := told_run hr h.formed
    exact ⟨es, j, h.course hc ht⟩
  | false =>
    refine ⟨[], 0, ?_⟩
    rw [List.append_nil, Mutation.run_snd hl.open_]
    cases m with
    | dispose => cases hm
    | observe on => exact h.events on s.events
    | _ => cases hr

/-! ## Disposal -/

/-- What is done when a deque is disposed: each of its nodes is. -/
structure Teardown (s : Store α) (es : List (Deed α)) : Prop where
  disposes : ∀ d ∈ es, d.isDispose = true
  record : ∀ d ∈ es, ∃ b, s.record? d.node = some ⟨d.id, d.element, b⟩
  all : ∀ {x r}, s.record? x = some r → ∃ d ∈ es, d.id = r.id
  nodup : (es.map (·.id)).Nodup
  length : es.length = s.arena.size

theorem exists_get?_of_mem_nodes {a : Arena α} (ha : a.Valid) {n : Node α} (hn : n ∈ a.nodes) :
    ∃ x, a.get? x = some n := by
  obtain ⟨i, hi⟩ := (Arena.mem_nodes ha.limit).1 hn
  refine ⟨⟨i, (a.slot i).generation⟩, Arena.get?_eq_some.2 ⟨?_, rfl, hi⟩⟩
  refine Bool.eq_false_iff.2 fun hs => ?_
  rw [ha.reserved i (Arena.isSentinel_iff.1 hs)] at hi
  cases hi

theorem mem_nodes_of_get? {a : Arena α} (ha : a.Valid) {x : Handle} {n : Node α}
    (hn : a.get? x = some n) : n ∈ a.nodes :=
  (Arena.mem_nodes ha.limit).2 ⟨x.index, (Arena.get?_eq_some.1 hn).2.2⟩

theorem exists_teardown (ha : s.arena.Valid) : ∃ es, Teardown s es ∧
    s.dispose.events = if s.emitting then s.events ++ es.map Deed.event else s.events := by
  have : Nonempty Handle := ⟨.atBegin⟩
  choose! f hf using fun n hn => exists_get?_of_mem_nodes ha (n := n) hn
  refine ⟨s.arena.nodes.map fun n => ⟨n.id, f n, n.element, .dispose⟩, ⟨fun d hd => ?_,
    fun d hd => ?_, fun {x r} hr => ?_, ?_, ?_⟩, ?_⟩
  · obtain ⟨n, _, rfl⟩ := List.mem_map.1 hd
    rfl
  · obtain ⟨n, hn, rfl⟩ := List.mem_map.1 hd
    exact ⟨_, record?_of_get? (hf n hn)⟩
  · obtain ⟨n, hn, rfl⟩ := Option.map_eq_some_iff.1 hr
    exact ⟨_, List.mem_map_of_mem (mem_nodes_of_get? ha hn), rfl⟩
  · have hnd := ha.ids_nodup
    rw [Arena.roster, List.map_map] at hnd
    rw [List.map_map]
    exact hnd
  · rw [List.length_map, ha.size, Arena.roster, List.length_map]
  · rw [List.map_map]
    rfl

/-- Whatever store is looked at then, no node but those there had been linked is torn down. -/
theorem Teardown.sequel (ht : Teardown s es) (h : Chronicle ds s) (u : Store α) :
    Sequel ds es u where
  linked d hd hl := by simp [(Deed.kinds_of_isDispose (ht.disposes d hd)).1] at hl
  unlinked d hd hu := by simp [(Deed.kinds_of_isDispose (ht.disposes d hd)).2.1] at hu
  known d hd _ := by
    obtain ⟨b, hb⟩ := ht.record d hd
    exact (h.record.1 hb).1

/-! ## The whole history -/

/-- Whether `ds` is all that was ever done to the nodes of the deque with this store, disposed or
not. -/
inductive History (ds : List (Deed α)) : Store α → Prop
  | going {k : Nat} {s : Store α} (account : Account ds k s) : History ds s
  | ended {k : Nat} {s : Store α} {before rest : List (Deed α)} (account : Account before k s)
      (teardown : Teardown s rest) (all : ds = before ++ rest) (emitting : Bool)
      (events : List (Event α)) : History ds { s.dispose with emitting, events }

namespace History

theorem relabel (h : History ds s) (b : Bool) (vs : List (Event α)) :
    History ds { s with emitting := b, events := vs } := by
  cases h with
  | going h => exact .going (h.events b vs)
  | ended h ht hall => exact .ended h ht hall b vs

/-- What a change does goes on with the history, and the events tell of it as long as they are
recorded. -/
theorem run {ρ : Type} (h : History ds s) {m : Mutation α ρ} (hm : m.needsDeque = true) :
    ∃ es, History (ds ++ es) (m.run s).2 ∧ (m.run s).2.emitting = s.emitting ∧
      ((m.run s).2.events = if s.emitting then s.events ++ es.map Deed.event else s.events) ∧
      Sequel ds es (m.run s).2 := by
  cases h with
  | going h =>
    cases hr : m.reclaimsFirst with
    | true =>
      obtain ⟨ht, es, j, hc, hw⟩ := told_run hr h.formed
      have ha := h.course hc ht
      obtain ⟨l, hl⟩ := ht
      exact ⟨es, .going ha, hc.tale.emitting, hc.tale.events,
        h.chronicle.sequel ha.chronicle hl.open_ hw⟩
    | false =>
      -- of the changes that do not reclaim first, only disposal needs a deque
      obtain ⟨l, hl⟩ := h.formed
      obtain ⟨es, ht, he⟩ := exists_teardown hl.sound.arena
      cases m with
      | dispose =>
        rw [Mutation.run_snd hl.open_]
        exact ⟨es, .ended h ht rfl s.emitting s.dispose.events, rfl, he, ht.sequel h.chronicle _⟩
      | observe on => cases hm
      | _ => cases hr
  | ended h ht hall b vs =>
    rw [Mutation.run_of_disposed rfl hm]
    refine ⟨[], ?_, rfl, ?_, .nil ds _⟩
    · rw [List.append_nil]
      exact .ended h ht hall b vs
    · simp

theorem account (h : History ds s) (ho : s.disposed = false) : ∃ k, Account ds k s := by
  cases h with
  | going h => exact ⟨_, h⟩
  | ended => cases ho

/-- Nothing was done to any node before the first one came. -/
theorem eq_nil (h : History ds s) (hn : s.arena.nextId = 1) : ds = [] := by
  cases h with
  | going h => exact h.chronicle.eq_nil hn
  | ended h ht hall =>
    obtain rfl := h.chronicle.eq_nil hn
    rw [hall, List.nil_append]
    refine List.eq_nil_iff_forall_not_mem.2 fun d hd => ?_
    obtain ⟨b, hb⟩ := ht.record d hd
    obtain ⟨⟨e, he, _⟩, _⟩ := h.chronicle.record.1 hb
    cases he

end History

end Store

namespace World

variable {c : Config} {ρ : Type} {w : World α}

theorem Reached.account (h : Reached c w) (ho : w.store.disposed = false) :
    ∃ ds k, w.store.Account ds k := by
  induction h with
  | init _ => exact ⟨[], 0, Store.account_init c⟩
  | change m _ _ _ ih =>
    obtain ⟨ds, k, h⟩ := ih (disposed_of_after m ho)
    obtain ⟨es, j, h⟩ := h.run (disposes_eq_false ho)
    exact ⟨_, _, h⟩
  | @deliver w _ ih =>
    obtain ⟨ds, k, h⟩ := ih ho
    exact ⟨ds, k, h.events w.store.emitting []⟩

end World

namespace Session

open Store (History)

variable {c : Config} {s : Session} {ds : List (Deed Element)}

theorem history_post (h : History ds s.store) : History ds s.post.store := by
  unfold post
  split
  · exact h
  · exact h.relabel _ _

/-- Every move goes on with the history of the deque. -/
theorem Move.history {x y : Due × Session} (h : Move x y)
    (hx : ∃ ds, History ds x.2.store) : ∃ ds, History ds y.2.store := by
  obtain ⟨ds, hx⟩ := hx
  cases h with
  | change m hm =>
    obtain ⟨es, hy, _⟩ := hx.run hm
    exact ⟨_, hy⟩
  | enroll o => exact ⟨ds, hx.relabel _ _⟩
  | strike id => exact ⟨ds, hx.relabel _ _⟩
  | post => exact ⟨ds, history_post hx⟩
  | keep hk =>
    refine ⟨ds, ?_⟩
    dsimp only
    rw [hk.store]
    exact hx
  | _ => exact ⟨ds, hx⟩

theorem Moves.history {x y : Due × Session} (h : Moves x y)
    (hx : ∃ ds, History ds x.2.store) : ∃ ds, History ds y.2.store :=
  h.preserves (P := fun z => ∃ ds, History ds z.2.store) Move.history hx

theorem history_run (hs : ∃ ds, History ds s.store) (cs : List Command) :
    ∃ ds, History ds (s.run cs).2.store := by
  induction cs generalizing s with
  | nil => exact hs
  | cons cmd cs ih => exact ih (s := (s.step cmd).2) ((goes_command cmd s).moves.history hs)

theorem history_start (h : start c = .ok s) : History [] s.store := by
  obtain ⟨_, rfl⟩ := eq_init_of_start h
  exact .going (Store.account_init c)

end Session

/-- As long as a deque is not disposed, its links and nodes are accounted for, whatever was done to
it; in a session, after every command and at every move of the next. -/
theorem links_and_nodes_accounted (c : Config) :
    (∀ {α : Type} (w : World α), World.Reached c w → w.store.disposed = false →
      w.store.Accounted) ∧
    ∀ (s : Session) (cs : List Session.Command) (x : Session.Due × Session),
      Session.start c = .ok s → Session.Moves ([], (s.run cs).2) x →
      x.2.store.disposed = false → x.2.store.Accounted := by
  refine ⟨fun w hr ho => ?_, fun s cs x hs hx ho => ?_⟩
  · obtain ⟨ds, k, h⟩ := hr.account ho
    exact h.accounted
  · obtain ⟨ds, h⟩ := hx.history (Session.history_run ⟨[], Session.history_start hs⟩ cs)
    obtain ⟨k, h⟩ := h.account ho
    exact h.accounted

/-- A session with two nodes, and with a snapshot that was opened when there was one. -/
def Session.doubled : Session :=
  let run {ρ : Type} (m : Mutation Element ρ) (s : Session) : Session :=
    { s with store := (m.run s.store).2 }
  run (.insert (.int 8) .last) (run .openSnapshot (run (.insert (.int 7) .last) (.init {})))

theorem Session.moves_doubled : Moves ([], .init {}) ([], doubled) :=
  ((Relation.ReflTransGen.single (.change (.insert (.int 7) .last) rfl)).tail
    (.change .openSnapshot rfl)).tail (.change (.insert (.int 8) .last) rfl)

/-- The accounts of a deque whose next change gives back a link that was superseded, and of one in
which three links were superseded and none was given back. -/
theorem outlived_accounted :
    (World.outlived.store.due 1 = [2] ∧ World.outlived.store.Accounted) ∧
      Session.doubled.store.obsolete = [1, 2, 0] ∧ Session.doubled.store.Accounted := by
  obtain ⟨hw, -⟩ := links_and_nodes_accounted { reclaimBatch := 1 }
  obtain ⟨-, hs⟩ := links_and_nodes_accounted {}
  exact ⟨⟨by decide, hw World.outlived World.reached_outlived rfl⟩, by decide +kernel,
    hs (.init {}) [] ([], Session.doubled) rfl Session.moves_doubled rfl⟩

end SnapshotDeque
