import SnapshotDeque.Proofs.Delivery
import SnapshotDeque.Proofs.Pins
import SnapshotDeque.Proofs.Refusals

/-!
Disposal, and what comes after it. Main statement: wherever it happens, in a batch, in a delivery or
under open snapshots, disposal leaves no node, no obsolete link and no pin, and each node that there
was is told of once; from then on the deque is left alone whatever is done, and whatever needs it is
refused.
-/

namespace SnapshotDeque

/-! ## Tearing a deque down -/

namespace Arena

variable {α : Type} {a : Arena α}

/-- No node is in two slots. -/
theorem Valid.eq_of_get?_eq (ha : a.Valid) {x y : Handle} {n : Node α} (hx : a.get? x = some n)
    (hy : a.get? y = some n) : x = y := by
  by_contra hne
  have hroster := (roster_vacated hy).map (·.1)
  have hmem : (n.id, n.element) ∈ (a.vacated y).roster := by
    refine mem_roster_of_get? (ha.vacated hy).limit (h := x) ?_
    rw [get?_vacated hy, if_neg hne, hx]
  have hnd := List.nodup_cons.1 (hroster.nodup_iff.1 ha.ids_nodup)
  exact hnd.1 (List.mem_map.2 ⟨_, hmem, rfl⟩)

theorem Valid.exists_handles (ha : a.Valid) : ∃ xs : List Handle, xs.Nodup ∧
    (∀ x, x ∈ xs ↔ (a.get? x).isSome) ∧ xs.filterMap a.get? = a.nodes := by
  have : Nonempty Handle := ⟨.atBegin⟩
  choose! f hf using fun n hn => Store.exists_get?_of_mem_nodes ha (n := n) hn
  have hnodes : a.nodes.Nodup := by
    have hnd := ha.ids_nodup
    rw [roster, List.map_map] at hnd
    exact .of_map _ hnd
  refine ⟨a.nodes.map f, hnodes.map_on fun n hn m hm e => ?_, fun x => ⟨fun hx => ?_, fun hx => ?_⟩,
    ?_⟩
  · have hnm := (hf n hn).symm.trans (e ▸ hf m hm)
    exact Option.some.inj hnm
  · obtain ⟨n, hn, rfl⟩ := List.mem_map.1 hx
    rw [hf n hn]
    rfl
  · obtain ⟨n, hn⟩ := Option.isSome_iff_exists.1 hx
    have hmem : n ∈ a.nodes := (mem_nodes ha.limit).2 ⟨_, (get?_eq_some.1 hn).2.2⟩
    exact List.mem_map.2 ⟨n, hmem, ha.eq_of_get?_eq (hf n hmem) hn⟩
  · rw [List.filterMap_map]
    exact (List.filterMap_congr hf).trans List.filterMap_some

end Arena

namespace Store

variable {α : Type} {s : Store α}

/-- `t` is the disposed `s`. -/
structure TornDown (s t : Store α) : Prop where
  disposed : t.disposed = true
  absent : ∀ x, t.arena.get? x = none
  nodes : t.arena.nodes = []
  size : t.arena.size = 0
  obsolete : t.obsolete = []
  markers : t.timeline.markers = []
  baseline : t.timeline.baseline = none
  length : t.length = 0
  emitting : t.emitting = s.emitting
  /-- If events are recorded, there is one more for each node that was there, linked or not. -/
  events : ∃ xs : List Handle, xs.Nodup ∧ (∀ x, x ∈ xs ↔ (s.arena.get? x).isSome) ∧
    t.events = s.events ++
      if s.emitting then (xs.filterMap s.arena.get?).map (.dispose ·.element) else []

theorem Formed.tornDown (h : s.Formed) : s.TornDown s.dispose where
  disposed := rfl
  absent x := Arena.get?_drain s.arena x
  nodes := by
    refine List.filterMap_eq_nil_iff.2 fun e he => ?_
    obtain ⟨k, hk, rfl⟩ := Array.getElem_of_mem (Array.mem_toList_iff.1 he)
    simp only [dispose, Arena.drain, Array.getElem_map]
    split
    · rfl
    next hn => simpa using hn
  size := rfl
  obsolete := rfl
  markers := rfl
  baseline := rfl
  length := by
    unfold length dispose
    dsimp only
    rw [LinkTable.get_modify]
    split
    · rfl
    next hlt => rw [LinkTable.get_of_size_le (Nat.le_of_not_lt fun hb => hlt ⟨rfl, hb⟩)]; rfl
  emitting := rfl
  events := by
    obtain ⟨l, hl⟩ := h
    obtain ⟨xs, hnd, hmem, hxs⟩ := hl.sound.arena.exists_handles
    refine ⟨xs, hnd, hmem, ?_⟩
    rw [hxs]
    simp only [dispose, Arena.drain]
    split
    · rfl
    · exact (List.append_nil _).symm

end Store

namespace Session

variable {c : Config} {m : Mode} {s t u : Session} {x y : Due × Session} {ρ : Type}

/-! ## The switch for events -/

/-- Events are recorded just while somebody is registered. -/
def Attuned (s : Session) : Prop := s.store.emitting = !s.registered.isEmpty

theorem Move.attuned (h : Move x y) (hx : x.2.Attuned)
    (hd : ∃ ds, Store.History ds x.2.store) : y.2.Attuned := by
  cases h with
  | change c hc =>
    obtain ⟨_, hd⟩ := hd
    obtain ⟨_, _, he, _⟩ := hd.run hc
    exact he.trans hx
  | @enroll _ s o =>
    change true = !(s.registered ++ [_]).isEmpty
    simp
  | strike id => rfl
  | @post _ s =>
    unfold Attuned
    rw [emitting_post, registered_post]
    exact hx
  | keep hk =>
    unfold Attuned
    rw [hk.store, hk.registered]
    exact hx
  | _ => exact hx

theorem Moves.attuned (h : Moves x y) (hx : x.2.Attuned)
    (hd : ∃ ds, Store.History ds x.2.store) : y.2.Attuned :=
  (h.preserves (P := fun z => z.2.Attuned ∧ ∃ ds, Store.History ds z.2.store)
    (fun hm hz => ⟨hm.attuned hz.1 hz.2, hm.history hz.2⟩) ⟨hx, hd⟩).1

theorem attuned_run (hs : s.Attuned) (hd : ∃ ds, Store.History ds s.store) (cs : List Command) :
    (s.run cs).2.Attuned := by
  induction cs generalizing s with
  | nil => exact hs
  | cons cmd cs ih =>
    have hm := (goes_command cmd s).moves
    exact ih (s := (s.step cmd).2) (hm.attuned hs hd) (hm.history hd)

/-! ## Disposing -/

/-- A session whose deque can be disposed of completely, by itself or in a batch. -/
structure Disposable (s : Session) : Prop where
  attuned : s.store.emitting = !s.registered.isEmpty
  torn : s.store.TornDown ((Mutation.dispose.run s.store).2)
  answer : ∀ m, (s.perform m .dispose).1 = .done
  batched : ∀ m, m.batch = true →
    (s.perform m .dispose).2 = { s with store := (Mutation.dispose.run s.store).2 }
  posted : ∀ m, m.batch = false → (s.perform m .dispose).2 =
    m.deliver ({ s with store := (Mutation.dispose.run s.store).2 } : Session).post

theorem disposable (hd : ∃ ds, Store.History ds s.store) (ha : s.Attuned)
    (ho : s.store.disposed = false) : s.Disposable := by
  obtain ⟨ds, hd⟩ := hd
  obtain ⟨k, hk⟩ := hd.account ho
  have hrun : (Mutation.dispose : Mutation Element Unit).run s.store = (.ok (), s.store.dispose) :=
    (Mutation.run_of_open ho).trans rfl
  have hfst (m : Mode) : (s.change m .dispose).1 = .ok () := by rw [change_fst, hrun]
  have hchange (m : Mode) : s.change m .dispose = (.ok (), (s.change m .dispose).2) := by
    rw [← hfst m]
  refine ⟨ha, ?_, fun m => ?_, fun m hb => ?_, fun m hb => ?_⟩
  · rw [hrun]
    exact hk.formed.tornDown
  · rw [perform, changing_of_ok (hchange m)]
  · rw [perform, changing_of_ok (hchange m), change_snd]
    exact if_pos hb
  · rw [perform, changing_of_ok (hchange m), change_snd]
    exact if_neg (by rw [hb]; exact Bool.false_ne_true)

/-! ## Afterwards -/

/-- The events that are queued or recorded, in order. -/
def waiting (s : Session) : List (Event Element) := s.outbox.flatten ++ s.store.events

/-- From `s` to `t` the deque is left alone, but that recorded events are taken and that the switch
for events follows the registry. Nothing new waits to be told. -/
structure Rests (s t : Session) : Prop where
  store : t.store = { s.store with emitting := !t.registered.isEmpty, events := t.store.events }
  events : t.store.events = s.store.events ∨ t.store.events = []
  waiting : t.waiting <:+ s.waiting

theorem Rests.of_eq (ha : s.Attuned) (hs : t.store = s.store) (hr : t.registered = s.registered)
    (ho : t.waiting <:+ s.waiting) : s.Rests t where
  store := by
    rw [hs, hr]
    exact congrArg (fun b => { s.store with emitting := b }) ha
  events := Or.inl (congrArg _ hs)
  waiting := ho

theorem Rests.refl (ha : s.Attuned) : s.Rests s := .of_eq ha rfl rfl (List.suffix_refl _)

theorem Rests.trans (h : s.Rests t) (h' : t.Rests u) : s.Rests u where
  store := by
    rw [h'.store, h.store]
  events := by
    rcases h'.events with he | he
    · rw [he]
      exact h.events
    · exact Or.inr he
  waiting := h'.waiting.trans h.waiting

theorem Rests.attuned (h : s.Rests t) : t.Attuned := by
  unfold Attuned
  rw [h.store]

theorem Rests.disposed (h : s.Rests t) (hd : s.store.disposed = true) :
    t.store.disposed = true := by
  rw [h.store]
  exact hd

theorem store_post (s : Session) : s.post.store = { s.store with events := [] } := by
  unfold post
  split
  next h => rw [← h]
  next => rfl

theorem waiting_post (s : Session) : s.post.waiting = s.waiting := by
  unfold post waiting
  split
  · rfl
  next => simp

theorem Keeps.waiting {s t : Session} (h : s.Keeps t) : t.waiting = s.waiting := by
  unfold Session.waiting
  rw [h.outbox, h.store]

theorem Move.rests (h : Move x y) (hd : x.2.store.disposed = true) (ha : x.2.Attuned) :
    x.2.Rests y.2 := by
  cases h with
  | change c hc =>
    dsimp only at hd
    rw [Mutation.run_of_disposed hd hc]
    exact .refl ha
  | @enroll _ s o =>
    refine ⟨?_, Or.inl rfl, List.suffix_refl _⟩
    simp [enrolled]
  | strike id => exact ⟨rfl, Or.inl rfl, List.suffix_refl _⟩
  | @post _ s =>
    refine ⟨?_, Or.inr (events_post s), waiting_post s ▸ List.suffix_refl _⟩
    dsimp only
    rw [events_post, registered_post, store_post]
    exact congrArg (fun b => { s.store with emitting := b, events := [] }) ha
  | @fetch s events outbox hq =>
    refine .of_eq ha rfl rfl ?_
    simp [waiting, hq]
  | keep hk =>
    exact .of_eq ha hk.store hk.registered (hk.waiting ▸ List.suffix_refl _)
  | skip _ => exact .refl ha
  | _ => exact .of_eq ha rfl rfl (List.suffix_refl _)

theorem Moves.rests (h : Moves x y) (hd : x.2.store.disposed = true) (ha : x.2.Attuned) :
    x.2.Rests y.2 := by
  induction h with
  | refl => exact .refl ha
  | tail _ hm ih => exact ih.trans (hm.rests (ih.disposed hd) ih.attuned)

theorem rests_run (hd : s.store.disposed = true) (ha : s.Attuned) (cs : List Command) :
    s.Rests (s.run cs).2 := by
  induction cs generalizing s with
  | nil => exact .refl ha
  | cons cmd cs ih =>
    have h : s.Rests (execute .outermost cmd s).2 := (goes_command cmd s).moves.rests hd ha
    have hm : s.Rests (s.step cmd).2 := ⟨h.store, h.events, h.waiting⟩
    exact hm.trans (ih (hm.disposed hd) hm.attuned)

/-! ## What is refused -/

/-- Whether a call needs a deque that is not disposed, to change it or to open a snapshot; a call on
a node also takes a handle. -/
def Call.NeedsDeque (s : Session) : Call → Prop
  | .insert .. | .insertAll .. | .offer .. | .poll _ | .remove _ | .clear | .live | .reclaim
  | .dispose | .openSnapshot | .openPolled _ => True
  | .unlink node => s.handle? node ≠ none
  | _ => False

/-- Whether a call on a snapshot that is not closed needs a deque that is not disposed. -/
def SnapshotCall.NeedsDeque (s : Session) : SnapshotCall → Prop
  | .id | .version | .isClosed | .debug | .malformed _ => False
  | .unlink node => s.handle? node ≠ none
  | _ => True

section Refused

variable (hd : s.store.disposed = true)

include hd

theorem change_of_disposed {c : Mutation Element ρ} (hc : c.needsDeque = true) :
    (s.change m c).1 = .error .disposed := by
  rw [change_fst, Mutation.run_of_disposed hd hc]

theorem changing_of_disposed {c : Mutation Element ρ} (hc : c.needsDeque = true)
    (f : ρ → Session → Answer × Session) : (s.changing m c f).1 = .failed .disposed := by
  have h : s.change m c = (.error .disposed, (s.change m c).2) := by
    rw [← change_of_disposed (m := m) hd hc]
  rw [changing_of_error h]

theorem perform_of_disposed {call : Call} (h : call.NeedsDeque s) :
    (s.perform m call).1 = .failed .disposed := by
  cases call with
  | insert e side => exact changing_of_disposed hd rfl _
  | insertAll es side => exact changing_of_disposed hd rfl _
  | offer e side =>
    have hc : s.change m (.insert e side) =
        (.error .disposed, (s.change m (.insert e side)).2) := by
      rw [← change_of_disposed (m := m) (c := .insert e side) hd rfl]
    rw [perform, hc]
  | unlink node =>
    obtain ⟨x, hx⟩ := Option.ne_none_iff_exists'.1 h
    rw [perform, onNode, hx]
    exact changing_of_disposed hd rfl _
  | poll side => exact changing_of_disposed hd rfl _
  | remove side => exact changing_of_disposed hd rfl _
  | clear => exact changing_of_disposed hd rfl _
  | live =>
    rw [perform, live, if_pos hd]
  | reclaim => exact changing_of_disposed hd rfl _
  | dispose => exact changing_of_disposed hd rfl _
  | openSnapshot => exact changing_of_disposed hd rfl _
  | openPolled limit => exact changing_of_disposed hd rfl _
  | _ => exact absurd h id

theorem consult_of_disposed {snapshot : Snapshot} (hc : snapshot.closed = false)
    {call : SnapshotCall} (h : call.NeedsDeque s) :
    s.consult m snapshot call = (.failed .disposed, s) := by
  have hopen : snapshot.checkOpen s.store = .error .disposed := by
    rw [Snapshot.checkOpen, hc, hd]
    rfl
  have hcursor : snapshot.cursor s.store = .error .disposed := by
    rw [Snapshot.cursor, hopen]
    rfl
  have hnodes : snapshot.nodes s.store = .error .disposed := by
    rw [Snapshot.nodes, hcursor]
    rfl
  have helements : snapshot.elements s.store = .error .disposed := by
    rw [Snapshot.elements, hnodes]
    rfl
  have hpicked (p : Test Element) : snapshot.picked s.store p = .error .disposed := by
    rw [Snapshot.picked, hnodes]
    rfl
  cases call with
  | size => rw [consult, Snapshot.size, hopen]; rfl
  | isEmpty => rw [consult, Snapshot.size, hopen]; rfl
  | elements => rw [consult, helements]; rfl
  | elementsReversed =>
    rw [consult, Snapshot.elementsReversed, Snapshot.nodesReversed, hcursor]; rfl
  | nodes => rw [consult, hnodes]; rfl
  | nodesReversed => rw [consult, Snapshot.nodesReversed, hcursor]; rfl
  | links => rw [consult, Snapshot.links, hcursor]; rfl
  | first => rw [consult, Snapshot.firstNode, hcursor]; rfl
  | last => rw [consult, Snapshot.lastNode, hcursor]; rfl
  | firstNode => rw [consult, Snapshot.firstNode, hcursor]; rfl
  | lastNode => rw [consult, Snapshot.lastNode, hcursor]; rfl
  | find p => rw [consult, Snapshot.find?, hnodes]; rfl
  | contains a => rw [consult, Snapshot.contains, helements]; rfl
  | position a => rw [consult, Snapshot.position?, helements]; rfl
  | unlink node =>
    obtain ⟨x, hx⟩ := Option.ne_none_iff_exists'.1 h
    rw [consult, onNode, hx, hopen]
  | remove a => rw [consult, Snapshot.find?, hnodes]; rfl
  | removeAll as => rw [consult, hpicked]; rfl
  | removeIf p => rw [consult, hpicked]; rfl
  | retainOnly p => rw [consult, hpicked]; rfl
  | _ => exact absurd h id

end Refused

/-- A session whose deque is disposed for good. -/
structure Final (s : Session) : Prop where
  /-- Whatever is done, at every move. -/
  moves : ∀ {due x}, Moves (due, s) x → s.Rests x.2
  runs : ∀ cs, s.Rests (s.run cs).2
  calls : ∀ (m : Mode) (call : Call), call.NeedsDeque s →
    (execute m (.call call) s).1 = .failed .disposed ∧
      (m.batch = true → (execute m (.txn call) s).1 = .failed .disposed)
  /-- A batch outside of any other is not begun. -/
  batches : ∀ (m : Mode) cs stop ending, m.batch = false →
    execute m (.compute cs stop ending) s = (.batch [] (.failed .disposed), s)
  looks : ∀ (m : Mode) k snapshot (call : SnapshotCall), s.claim k false = .ok snapshot →
    snapshot.closed = false → call.NeedsDeque s →
    (execute m (.snapshot k call) s).1 = .failed .disposed
  walks : ∀ (m : Mode) k snapshot form steps, s.claim k false = .ok snapshot →
    snapshot.closed = false → execute m (.walk k form steps) s = (.failed .disposed, s)
  closes : ∀ (m : Mode) k snapshot, s.claim k true = .ok snapshot →
    (execute m (.close k) s).1 = .pass {}
  drops : ∀ (m : Mode) k snapshot, s.claim k true = .ok snapshot →
    (execute m (.drop k) s).1 = .done

theorem final (hd : s.store.disposed = true) (ha : s.Attuned) : s.Final where
  moves h := h.rests hd ha
  runs := rests_run hd ha
  calls m call h := by
    refine ⟨?_, fun hb => ?_⟩
    · rw [execute]
      exact perform_of_disposed hd h
    · rw [execute, if_pos hb]
      exact perform_of_disposed hd h
  batches m cs stop ending hb := by
    have hr := Mutation.run_of_disposed (m := (.settle : Mutation Element Unit)) hd rfl
    rw [execute, if_neg (by rw [hb]; exact Bool.false_ne_true), hr]
  looks m k snapshot call hk hc h := by
    rw [execute, onSnapshot, hk]
    dsimp only
    rw [consult_of_disposed (s := s.addUse k) hd hc h]
  walks m k snapshot form steps hk hc := by
    have hcursor : snapshot.cursor s.store = .error .disposed := by
      rw [Snapshot.cursor, Snapshot.checkOpen, hc, hd]
      rfl
    exact execute_walk_of_failed hk hcursor
  closes m k snapshot hk := by
    rw [execute, close_of_claim hk]
    split
    · rfl
    · have h := change_of_disposed (m := m) (s := s.closing k)
        (c := .closeSnapshot snapshot.view.id snapshot.view.version) hd rfl
      dsimp only
      rw [h]
  drops m k snapshot hk := by
    rw [execute, drop_of_claim hk]
    split <;> rfl

end Session

/-- In whatever state a session comes to, in a batch or in a delivery or between commands, disposal
takes all that the deque has and tells of it, and once the deque is disposed it stays as it is. -/
theorem disposal_is_complete_and_final (c : Config) :
    (∀ {α : Type} (w : World α), World.Reached c w → w.store.disposed = false →
      w.store.TornDown (w.after .dispose).store) ∧
    ∀ (s : Session) (cs : List Session.Command) (x : Session.Due × Session),
      Session.start c = .ok s → Session.Moves ([], (s.run cs).2) x →
      (x.2.store.disposed = false → x.2.Disposable) ∧ (x.2.store.disposed = true → x.2.Final) := by
  refine ⟨fun w hr ho => ?_, fun s cs x hs hx => ?_⟩
  · obtain ⟨ds, k, h⟩ := hr.account ho
    have hrun : (w.after .dispose).store = w.store.dispose :=
      Mutation.run_snd (m := .dispose) ho
    rw [hrun]
    exact h.formed.tornDown
  · have hd := Session.history_run ⟨[], Session.history_start hs⟩ cs
    have ha : s.Attuned := by
      obtain ⟨_, rfl⟩ := Session.eq_init_of_start hs
      rfl
    have ha := hx.attuned (Session.attuned_run ha ⟨[], Session.history_start hs⟩ cs) hd
    exact ⟨Session.disposable (hx.history hd) ha, fun hx => Session.final hx ha⟩

namespace Session

/-- A session with an observer and an open snapshot that shows a node which is not linked any
more. -/
def laden : Session :=
  let s := (init {}).enrolled .noting
  let one := ((Mutation.insert (Element.int 7) .last).run s.store).2
  let shown := (Mutation.openSnapshot.run one).2
  { s with store := ((Mutation.poll .first).run shown).2 }

/-- `laden` once its deque is disposed. -/
def unladen : Session := { laden with store := (Mutation.dispose.run laden.store).2 }

theorem moves_laden : Moves ([], init {}) ([], laden) :=
  .tail (.tail (.tail (.tail .refl (.enroll .noting)) (.change (.insert (.int 7) .last) rfl))
    (.change .openSnapshot rfl)) (.change (.poll .first) rfl)

/-- The node that only the snapshot shows is disposed with the deque, and its disposal is told. -/
theorem laden_is_disposed :
    laden.store.obsolete = [1, 0, 2] ∧ laden.Disposable ∧ unladen.Final ∧
      unladen.store.events = laden.store.events ++ [.dispose (.int 7)] := by
  have h := (disposal_is_complete_and_final {}).2 (init {}) []
  exact ⟨by decide, (h ([], laden) rfl moves_laden).1 (by decide),
    (h ([], unladen) rfl (moves_laden.tail (.change .dispose rfl))).2 (by decide), by decide⟩

end Session

end SnapshotDeque
