import SnapshotDeque.Proofs.Calls
import SnapshotDeque.Proofs.Staleness

/-!
Handles in a session. A session hands out the handles of nodes in the answers to insertions, and it
names nodes in what it shows of snapshots. Main statement: a handle names the one node that it was
given out for, and once that node is disposed no call finds anything under it and no answer names it
again, until the generations of its slot are used up.
-/

namespace SnapshotDeque

theorem Test.mem_of_first? {α β : Type} {p : Test α} {value : β → α} {b : β} :
    ∀ {bs : List β} {q : p.State}, p.first? value q bs = some b → b ∈ bs := by
  intro bs
  induction bs with
  | nil => exact fun h => by cases h
  | cons c bs ih =>
    intro q h
    unfold Test.first? at h
    dsimp only at h
    split at h
    · cases h
      exact List.mem_cons_self ..
    · exact List.mem_cons_of_mem _ (ih h)

namespace Session

open Store (Runs)
open Arena (Vacating)

/-! ## Sessions as runs -/

/-- In each move of a session its deque makes one turn, which may change nothing. -/
theorem Move.turn {x y : Due × Session} (h : Move x y) : Store.Turn x.2.store y.2.store := by
  have stay : ∀ s : Session, Store.Turn s.store s.store := fun s =>
    .recording s.store.emitting s.store.events
  cases h with
  | change m _ => exact .change m
  | @enroll _ s o => exact .recording true s.store.events
  | @strike _ s id => exact .recording (!(s.registered.filter (· ≠ id)).isEmpty) s.store.events
  | @post _ s =>
    dsimp only
    unfold Session.post
    split
    · exact stay s
    · exact .recording s.store.emitting []
  | @fetch s => exact stay s
  | @tell _ s => exact stay s
  | @skip _ s => exact stay s
  | @note _ s => exact stay s
  | @keep _ s t hk =>
    dsimp only
    rw [hk.store]
    exact stay s

theorem Moves.runs {x y : Due × Session} (h : Moves x y) : Runs x.2.store y.2.store := by
  induction h with
  | refl => exact .refl
  | tail _ hm ih => exact ih.tail hm.turn

/-- What goes in a session goes in its deque. -/
theorem vacating_store {i : UInt32} {k : Nat} {x y : Due × Session}
    (h : Vacating Move (fun x : Due × Session => x.2.store.arena) i k x y) :
    Vacating Store.Turn Store.arena i k x.2.store y.2.store := by
  induction h with
  | refl x => exact .refl x.2.store
  | step _ hm ih => exact ih.step hm.turn

/-! ## What answers name -/

/-- The nodes that an answer names. -/
def Answer.names : Answer → List Handle
  | handle x => [x]
  | handles xs => xs
  | node n => n.toList.map (·.1)
  | nodes ns => ns.map (·.1)
  | links ls => ls.map (·.node)
  | nodeInfo i => i.toList.map (·.handle)
  | _ => []

/-- The nodes that a position of a walk names. -/
def Shown.names : Shown → List Handle
  | element _ => []
  | node x _ => [x]
  | link l => [l.node]

variable {s : Session} {h : Handle} {m : Mode} {ρ : Type}

theorem names_changing {x : Mutation Element ρ} {f : ρ → Session → Answer × Session}
    (hh : h ∈ (s.changing m x f).1.names) :
    ∃ a t, (x.run s.store).1 = .ok a ∧ h ∈ (f a t).1.names := by
  rcases hc : s.change m x with ⟨e | a, t⟩
  · rw [changing_of_error hc] at hh
    cases hh
  · rw [changing_of_ok hc] at hh
    have hr := change_fst (s := s) (m := m) x
    rw [hc] at hr
    exact ⟨a, t, hr.symm, hh⟩

theorem not_names_changing {x : Mutation Element ρ} {f : ρ → Session → Answer × Session}
    (hf : ∀ a t, (f a t).1.names = []) : h ∉ (s.changing m x f).1.names := by
  intro hh
  obtain ⟨a, t, _, ha⟩ := names_changing hh
  rw [hf] at ha
  cases ha

theorem not_names_onNode {node : NodeRef} {f : Handle → Answer × Session}
    (hf : ∀ x, h ∉ (f x).1.names) : h ∉ (s.onNode node f).1.names := by
  unfold onNode
  split
  · exact hf _
  · exact List.not_mem_nil

theorem names_ofExcept {f : ρ → Answer} {r : Except Error ρ}
    (hh : h ∈ (Answer.ofExcept f r).names) : ∃ a, r = .ok a ∧ h ∈ (f a).names := by
  cases r with
  | ok a => exact ⟨a, rfl, hh⟩
  | error e => cases hh

/-- What a session knows of a handle that no node answers to. -/
structure Disowns (s : Session) (h : Handle) : Prop where
  isLinked : ∀ {node}, s.handle? node = some h → ∀ m,
    s.perform m (.isLinked node) = (.flag false, s)
  element : ∀ {node}, s.handle? node = some h → ∀ m,
    s.perform m (.element node) = (.element none, s)
  nodeInfo : ∀ {node}, s.handle? node = some h → ∀ m,
    s.perform m (.nodeInfo node) = (.nodeInfo none, s)
  /-- To unlink the node is to do what every change does first, which changes no live element. -/
  unlink : ∀ {node}, s.handle? node = some h → s.store.disposed = false → ∀ m,
    s.perform m (.unlink node) = (.flag false, (s.change m .settle).2)
  unlinkShown : ∀ {node}, s.handle? node = some h → s.store.disposed = false →
    ∀ m (snapshot : Snapshot), snapshot.closed = false →
      s.consult m snapshot (.unlink node) = (.flag false, (s.change m .settle).2)
  settled : s.store.disposed = false →
    ((Mutation.settle : Mutation Element Unit).run s.store).2.entries = s.store.entries
  /-- Only an insertion might name it. -/
  performed : ∀ m call, h ∈ (s.perform m call).1.names →
    (∃ e side, h ∈ (Mutation.insert e side).given ((Mutation.insert e side).run s.store).1) ∨
      ∃ es side, h ∈ (Mutation.insertAll es side).given
        ((Mutation.insertAll es side).run s.store).1
  consulted : ∀ m snapshot call, h ∉ (s.consult m snapshot call).1.names
  walked : ∀ form c x, (Cursor.nextFront s.store.links c).1 = some x ∨
    (Cursor.nextBack s.store.links c).1 = some x → h ∉ (shownAs s.store.links form x).names

section Stale

variable (hs : s.store.Stale h)

include hs

theorem ne_owner_of_shown {x : Nat × Element} (hx : (s.store.links.get x.1).shown? = some x.2) :
    h ≠ s.store.owner x.1 := fun he => hs.unseen hx he.symm

theorem change_unlink (ho : s.store.disposed = false) (m : Mode) :
    s.change m (.unlink h) = (.ok false, (s.change m .settle).2) := by
  have hr := (hs.unlink ho).1
  unfold change
  rw [hr, Mutation.run_settle ho]
  dsimp only
  split <;> rfl

theorem not_mem_of_shown {xs : List (Nat × Element)}
    (hxs : ∀ x ∈ xs, (s.store.links.get x.1).shown? = some x.2) :
    h ∉ xs.map fun x => s.store.owner x.1 := by
  rw [List.mem_map]
  rintro ⟨x, hx, he⟩
  exact ne_owner_of_shown hs (hxs x hx) he.symm

theorem not_mem_nodes {snapshot : Snapshot} {ns : List (Handle × Element)}
    (hn : snapshot.nodes s.store = .ok ns ∨ snapshot.nodesReversed s.store = .ok ns) :
    h ∉ ns.map (·.1) := by
  unfold Snapshot.nodes Snapshot.nodesReversed at hn
  rcases hc : snapshot.cursor s.store with e | c <;> rw [hc] at hn
  · rcases hn with hn | hn <;> cases hn
  · rcases hn with hn | hn <;> cases hn <;> rw [List.map_map]
    · exact not_mem_of_shown hs fun _ hx => Cursor.shown_of_mem_forward hx
    · exact not_mem_of_shown hs fun _ hx => Cursor.shown_of_mem_backward hx

theorem not_mem_links {snapshot : Snapshot} {ls : List LinkInfo}
    (hl : snapshot.links s.store = .ok ls) : h ∉ ls.map (·.node) := by
  unfold Snapshot.links at hl
  rcases hc : snapshot.cursor s.store with e | c <;> rw [hc] at hl
  · cases hl
  · cases hl
    rw [List.map_map]
    exact not_mem_of_shown hs fun _ hx => Cursor.shown_of_mem_forward hx

theorem ne_outermost {snapshot : Snapshot} {n : Option (Handle × Element)}
    (hn : snapshot.firstNode s.store = .ok n ∨ snapshot.lastNode s.store = .ok n) :
    h ∉ n.toList.map (·.1) := by
  unfold Snapshot.firstNode Snapshot.lastNode at hn
  have hstep : ∀ x : Option (Nat × Element),
      (∀ y, x = some y → (s.store.links.get y.1).shown? = some y.2) →
      h ∉ ((x.map fun y => (s.store.owner y.1, y.2)).toList.map (·.1)) := by
    rintro (_ | y) hx
    · exact List.not_mem_nil
    · exact fun hm => ne_owner_of_shown hs (hx y rfl) (List.mem_singleton.1 hm)
  rcases hc : snapshot.cursor s.store with e | c <;> rw [hc] at hn
  · rcases hn with hn | hn <;> cases hn
  · rcases hn with hn | hn <;> cases hn
    · exact hstep _ fun _ hx => Cursor.shown_of_nextFront hx
    · exact hstep _ fun _ hx => Cursor.shown_of_nextBack hx

theorem ne_found {snapshot : Snapshot} {p : Test Element} {n : Option (Handle × Element)}
    (hn : snapshot.find? s.store p = .ok n) : h ∉ n.toList.map (·.1) := by
  unfold Snapshot.find? at hn
  rcases hns : snapshot.nodes s.store with e | ns
  · rw [hns] at hn
    cases hn
  · rw [hns] at hn
    cases hn
    intro hh
    obtain ⟨x, hx, rfl⟩ := List.mem_map.1 hh
    exact not_mem_nodes hs (Or.inl hns)
      (List.mem_map_of_mem (Test.mem_of_first? (Option.mem_toList.1 hx)))

/-- Looking for the nodes that a snapshot shows, nobody comes upon a stale handle. -/
theorem not_names_consult (m : Mode) (snapshot : Snapshot) (call : SnapshotCall) :
    h ∉ (s.consult m snapshot call).1.names := by
  have hpicked : ∀ r : Except Error (List Handle), h ∉ (s.unlinkPicked m r).1.names := by
    rintro (e | _ | ⟨x, xs⟩)
    · exact List.not_mem_nil
    · exact List.not_mem_nil
    · exact not_names_changing fun _ _ => rfl
  have hplain : ∀ {σ : Type} {f : σ → Answer} {r : Except Error σ}, (∀ a, (f a).names = []) →
      h ∉ (Answer.ofExcept f r).names := fun hf hh => by
    obtain ⟨a, _, ha⟩ := names_ofExcept hh
    rw [hf] at ha
    cases ha
  cases call with
  | nodes =>
    intro hh
    obtain ⟨_, hr, hm⟩ := names_ofExcept hh
    exact not_mem_nodes hs (.inl hr) hm
  | nodesReversed =>
    intro hh
    obtain ⟨_, hr, hm⟩ := names_ofExcept hh
    exact not_mem_nodes hs (.inr hr) hm
  | links =>
    intro hh
    obtain ⟨_, hr, hm⟩ := names_ofExcept hh
    exact not_mem_links hs hr hm
  | firstNode =>
    intro hh
    obtain ⟨_, hr, hm⟩ := names_ofExcept hh
    exact ne_outermost hs (.inl hr) hm
  | lastNode =>
    intro hh
    obtain ⟨_, hr, hm⟩ := names_ofExcept hh
    exact ne_outermost hs (.inr hr) hm
  | find p =>
    intro hh
    obtain ⟨_, hr, hm⟩ := names_ofExcept hh
    exact ne_found hs hr hm
  | unlink node =>
    refine not_names_onNode fun x => ?_
    split
    · exact List.not_mem_nil
    · exact not_names_changing fun _ _ => rfl
  | remove a =>
    dsimp only [consult]
    split
    · exact List.not_mem_nil
    · exact List.not_mem_nil
    · exact not_names_changing fun _ _ => rfl
  | removeAll as => exact hpicked _
  | removeIf p => exact hpicked _
  | retainOnly p => exact hpicked _
  | size => exact hplain fun _ => rfl
  | isEmpty => exact hplain fun _ => rfl
  | elements => exact hplain fun _ => rfl
  | elementsReversed => exact hplain fun _ => rfl
  | first => exact hplain fun _ => rfl
  | last => exact hplain fun _ => rfl
  | contains a => exact hplain fun _ => rfl
  | position a => exact hplain fun _ => rfl
  | _ => exact List.not_mem_nil

theorem names_perform {call : Call} (hh : h ∈ (s.perform m call).1.names) :
    (∃ e side, h ∈ (Mutation.insert e side).given ((Mutation.insert e side).run s.store).1) ∨
      ∃ es side, h ∈ (Mutation.insertAll es side).given
        ((Mutation.insertAll es side).run s.store).1 := by
  have hempty : ∀ e, h ∉ (elementOrEmpty e).names := by
    rintro (_ | e) <;> exact List.not_mem_nil
  cases call with
  | insert e side =>
    obtain ⟨x, t, hx, ht⟩ := names_changing hh
    exact .inl ⟨e, side, by rw [hx]; exact ht⟩
  | insertAll es side =>
    obtain ⟨xs, t, hx, ht⟩ := names_changing hh
    exact .inr ⟨es, side, by rw [hx]; exact ht⟩
  | nodeInfo node =>
    refine absurd hh (not_names_onNode fun x hx => ?_)
    -- a node's report names the handle that it was asked for under
    obtain ⟨i, hi, rfl⟩ := List.mem_map.1 hx
    have hi := Option.mem_toList.1 hi
    have hn := hs.nodeInfo
    rw [(Store.nodeInfo?_eq_some hi).1, hi] at hn
    cases hn
  | offer e side =>
    dsimp only [perform] at hh
    split at hh <;> cases hh
  | unlink node =>
    exact absurd hh (not_names_onNode fun _ => not_names_changing fun _ _ => rfl)
  | poll side => exact absurd hh (not_names_changing fun _ _ => rfl)
  | remove side =>
    obtain ⟨e, t, _, he⟩ := names_changing hh
    exact absurd he (hempty e)
  | get side => exact absurd hh (hempty _)
  | clear => exact absurd hh (not_names_changing fun _ _ => rfl)
  | isLinked node => exact absurd hh (not_names_onNode fun _ => List.not_mem_nil)
  | element node => exact absurd hh (not_names_onNode fun _ => List.not_mem_nil)
  | live =>
    dsimp only [perform] at hh
    unfold live at hh
    split at hh
    · cases hh
    · refine absurd hh (not_names_changing fun v t => ?_)
      dsimp only
      split <;> rfl
  | reclaim => exact absurd hh (not_names_changing fun _ _ => rfl)
  | dispose => exact absurd hh (not_names_changing fun _ _ => rfl)
  | openSnapshot => exact absurd hh (not_names_changing fun _ _ => rfl)
  | openPolled limit => exact absurd hh (not_names_changing fun _ _ => rfl)
  | counts id =>
    dsimp only [perform] at hh
    split at hh <;> cases hh
  | _ => cases hh

theorem disowns : s.Disowns h where
  isLinked hn m := by simp only [perform, onNode, hn, hs.isLinked]
  element hn m := by simp only [perform, onNode, hn, hs.element]
  nodeInfo hn m := by simp only [perform, onNode, hn, hs.nodeInfo]
  unlink hn ho m := by
    simp only [perform, onNode, hn]
    rw [changing_of_ok (change_unlink hs ho m)]
  unlinkShown hn ho m snapshot hc := by
    have hopen : snapshot.checkOpen s.store = .ok () := by
      simp [Snapshot.checkOpen, hc, ho]
    simp only [consult, onNode, hn, hopen]
    rw [changing_of_ok (change_unlink hs ho m)]
  settled ho := by
    rw [Mutation.run_settle ho]
    exact (hs.unlink ho).2
  performed _ _ hh := names_perform hs hh
  consulted := not_names_consult hs
  walked form c x hx := by
    have hshown : (s.store.links.get x.1).shown? = some x.2 :=
      hx.elim Cursor.shown_of_nextFront Cursor.shown_of_nextBack
    have hne := ne_owner_of_shown hs hshown
    cases form with
    | elements => exact List.not_mem_nil
    | nodes => exact fun hm => hne (List.mem_singleton.1 hm)
    | links => exact fun hm => hne (List.mem_singleton.1 hm)

end Stale

/-- What is so of the handles of a session: its deque runs as a deque does, what the session hands
out its deque gave out, and what is stale the session disowns. -/
structure Hands (c : Config) (x : Due × Session) : Prop where
  runs : Runs (.init c) x.2.store
  vacating : ∀ {i k y}, Vacating Move (fun x : Due × Session => x.2.store.arena) i k x y →
    Vacating Store.Turn Store.arena i k x.2.store y.2.store
  inserted : ∀ m e side, ∀ h ∈ (x.2.perform m (.insert e side)).1.names,
    h ∈ (Mutation.insert e side).given ((Mutation.insert e side).run x.2.store).1
  insertedAll : ∀ m es side, ∀ h ∈ (x.2.perform m (.insertAll es side)).1.names,
    h ∈ (Mutation.insertAll es side).given ((Mutation.insertAll es side).run x.2.store).1
  disowns : ∀ h, x.2.store.Stale h → x.2.Disowns h

theorem hands_of_moves {c : Config} (hs : start c = .ok s) {x : Due × Session}
    (hx : Moves ([], s) x) : Hands c x where
  runs := by
    obtain ⟨_, rfl⟩ := eq_init_of_start hs
    exact hx.runs
  vacating := vacating_store
  inserted m e side h hh := by
    obtain ⟨a, t, ha, hm⟩ := names_changing hh
    rw [ha]
    exact hm
  insertedAll m es side h hh := by
    obtain ⟨as, t, ha, hm⟩ := names_changing hh
    rw [ha]
    exact hm
  disowns _ hs := Session.disowns hs

end Session

/-- Whatever was done to a deque, the nodes in its arena have one handle each. Each handle follows
its node: when that is gone, and until `2 ^ 32` nodes went from its slot, the handle is stale and is
not given out again; and no other node ever has the number of the node. A handle that is given out
is that of a new node. A session goes by what its deque gives out and disowns what is stale, in a
call on the deque, in a batch and in an open snapshot. -/
theorem handles_name_one_node (c : Config) :
    (∀ {α : Type} (s : Store α), Store.Runs (.init c) s → s.arena.Handled ∧
      (∀ h n, s.arena.get? h = some n → s.Denotes h n) ∧
      ∀ {ρ : Type} (m : Mutation α ρ), ∀ h ∈ m.given (m.run s).1,
        ∃ n, (m.run s).2.arena.get? h = some n ∧ ∀ u x i, Store.Runs (.init c) u →
          Store.Runs u s → u.nodeInfo? x = some i → i.id ≠ n.id) ∧
    ∀ (s : Session) (x : Session.Due × Session), Session.start c = .ok s →
      Session.Moves ([], s) x → Session.Hands c x := by
  refine ⟨fun s hr => ?_, fun _ _ hs hx => Session.hands_of_moves hs hx⟩
  have hs := (Store.kept_init c).runs hr
  refine ⟨hs.handled, fun h n hn => hs.denotes hn, fun m h hh => ?_⟩
  obtain ⟨n, hn, hnew⟩ := hs.exists_of_given hh
  exact ⟨n, hn, fun u x i hu hus hi => hnew hu hus hi⟩

/-- A session in whose deque there is one node. -/
def Session.tenanted : Session :=
  let s : Session := .init {}
  { s with store := ((Mutation.insert (.int 7) .last).run s.store).2 }

/-- The session after that node is gone. -/
def Session.deserted : Session :=
  let s := Session.tenanted
  { s with store := ((Mutation.unlink ⟨2, 0⟩).run s.store).2 }

/-- A handle whose node is gone is disowned, and the next node in its slot gets another handle. -/
theorem deserted_disowns :
    Session.deserted.Disowns ⟨2, 0⟩ ∧
      (Mutation.insert (Session.Element.int 8) .last).given
        ((Mutation.insert (.int 8) .last).run Session.deserted.store).1 = [⟨2, 1⟩] := by
  obtain ⟨hstore, hsession⟩ := handles_name_one_node {}
  obtain ⟨-, -, hgiven⟩ := hstore (α := Session.Element) (.init {}) .refl
  obtain ⟨n, hn, -⟩ := hgiven (.insert (.int 7) .last) ⟨2, 0⟩ (by decide)
  obtain ⟨-, hdenotes, -⟩ := hstore Session.tenanted.store (.single (.change _))
  have hone : 0 + Session.tenanted.store.arena.leaves Session.deserted.store.arena 2 = 1 := by
    decide
  have hgone : Arena.Vacating Store.Turn Store.arena 2 1 Session.tenanted.store
      Session.deserted.store := by
    rw [← hone]
    exact .step (.refl _) (.change (.unlink ⟨2, 0⟩))
  have hstale := ((hdenotes ⟨2, 0⟩ n hn).follows hgone (by decide)).stale Nat.one_pos
  have hmoves : Session.Moves ([], .init {}) ([], Session.deserted) :=
    (Relation.ReflTransGen.single (Session.Move.change (.insert (.int 7) .last) rfl)).tail
      (.change (.unlink ⟨2, 0⟩) rfl)
  exact ⟨(hsession (.init {}) _ rfl hmoves).disowns _ hstale, by decide⟩

end SnapshotDeque
