import SnapshotDeque.Proofs.Calls

/-!
The deque as a list. What is read off a deque that is not disposed of is read off the list of its
linked nodes with their elements, and every change and every call acts on it as on a plain list,
whatever is retained for snapshots. Main statement: a deque refines a list that starts out empty.
-/

namespace SnapshotDeque

/-- The deque of `w` is a list for its readers and for its changes. A handle that an insertion gives
out names no node at that moment, retained ones included. -/
structure World.Refines {α : Type} (c : Config) (w : World α) : Prop where
  reads : w.store.Reads w.store.entries
  change : ∀ {ρ : Type} (m : Mutation α ρ), w.Permits m → m.disposes = false → m.Fits w.store →
    (w.after m).store.timeline.modification < .max →
    m.Acts c.effectiveCapacity (fun x => w.store.reclaimPending.arena.get? x = none)
      w.store.entries (m.run w.store).1 (w.after m).store.entries
  deliver : w.delivered.store.entries = w.store.entries

/-- The deque of `s` is a list for its calls, be it on the deque itself or in a batch, and for who
unlinks nodes through an open snapshot. -/
structure Session.Refines (c : Config) (s : Session) : Prop where
  call : ∀ (m : Mode) (call : Call), m.Still s → call.Fits s.store →
    (s.perform m call).2.store.timeline.modification < .max →
    call.Acts c.effectiveCapacity s s.store.entries (s.perform m call).1
      (s.perform m call).2.store.entries
  unlink : ∀ (m : Mode) (snapshot : Snapshot) (node : NodeRef) (x : Handle), m.Still s →
    snapshot.closed = false → s.handle? node = some x →
    (s.consult m snapshot (.unlink node)).2.store.timeline.modification < .max →
    UnlinkActs s.store.entries x (s.consult m snapshot (.unlink node)).1
      (s.consult m snapshot (.unlink node)).2.store.entries
  look : ∀ (m : Mode) (snapshot : Snapshot) (call : SnapshotCall), call.looks = true →
    (s.consult m snapshot call).2.store.entries = s.store.entries

variable {α : Type} {c : Config}

theorem World.Reached.refines {w : World α} (hr : Reached c w) (ho : w.store.disposed = false) :
    w.Refines c := by
  obtain ⟨l, hw⟩ := hr.coherent ho
  have hl := hw.live.entries
  refine ⟨?_, fun m hp hm hf hv => ?_, ?_⟩
  · rw [hl]
    exact hw.live.reads
  · have ha := hw.acts hp hv hm hf
    rw [Store.capacity, hr.config] at ha
    rw [hl]
    exact ha
  · exact hw.delivered.live.entries.trans hl.symm

theorem Session.refines_of_reached {s : Session} {held : List (Holding Session.Element)}
    (hr : World.Reached c { store := s.store, held }) (ho : s.store.disposed = false) :
    s.Refines c where
  call _ call hm hf hv := perform_acts hr ho hm call hf hv
  unlink _ _ _ _ hm hc hx hv := unlink_consult_acts hr ho hm hc hx hv
  look _ _ _ h := by rw [consult_of_looks h]

/-- The list that a deque holds is empty at first; until disposal, every read is a read of it and
every change a change of it. So it is for the calls of a session, whatever the session did before. -/
theorem World.deque_refines_list (c : Config) :
    (Store.init c : Store α).entries = [] ∧
    (∀ w : World α, Reached c w → w.store.disposed = false → w.Refines c) ∧
    (∀ (s : Session) (held : List (Holding Session.Element)),
      Reached c { store := s.store, held } → s.store.disposed = false → s.Refines c) ∧
    ∀ (s : Session) (cs : List Session.Command), Session.start c = .ok s →
      (s.run cs).2.store.timeline.modification < .max → (s.run cs).2.store.disposed = false →
      (s.run cs).2.Refines c := by
  refine ⟨(Store.live_init c).entries, fun w hr ho => hr.refines ho,
    fun s held hr ho => Session.refines_of_reached hr ho, fun s cs hs hv ho => ?_⟩
  obtain ⟨held, hr, _⟩ := (Session.backed_run hs cs hv).reached
  exact Session.refines_of_reached hr ho

/-- A poll takes the one node there is, and an insertion makes one. -/
theorem World.single_refines_list :
    ((Mutation.poll .first).run single.store).1 = .ok (some 7) ∧
    (single.after (.poll .first)).store.entries = [] ∧
    ∃ x, ((Session.init {}).perform .delivering (.insert (.int 7) .last)).1 = .handle x ∧
      ((Session.init {}).perform .delivering (.insert (.int 7) .last)).2.store.entries =
        [(x, .int 7)] := by
  obtain ⟨_, hw, _, hs⟩ := @deque_refines_list Nat {}
  obtain ⟨hr, hl⟩ := (hw single reached_single rfl).change (.poll .first) trivial rfl
    (fun _ => by decide) (by decide)
  have hi : (Session.init {}).Refines {} := hs (.init {}) [] rfl (by decide) rfl
  have hc := hi.call .delivering (.insert (.int 7) .last) (Or.inr (Or.inl rfl))
    (fun _ => by decide) (by decide)
  have hn : ¬ Config.effectiveCapacity {} < (Session.init {}).store.entries.length + 1 := by decide
  rw [Session.Call.Acts, if_neg hn] at hc
  obtain ⟨x, _, hx, hl'⟩ := hc
  exact ⟨hr, hl, x, hx, hl'⟩

end SnapshotDeque
