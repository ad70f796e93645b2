import Mathlib.Logic.Relation
import SnapshotDeque.Proofs.Sessions

/-!
Sessions move by move. Whatever calls, batches, walks and reactions of observers a session is made
of, there are only so many things that it does: it changes its deque, it registers an observer or
strikes one off, it queues events and takes them from the queue again, it makes a call that is due
to an observer, and it keeps its tables. Main statement: every command is a sequence of such moves,
so that what holds at each of them holds throughout a session.
-/

namespace SnapshotDeque.Session

/-- The calls of observers that are still to be made for the buffer under delivery. -/
abbrev Due := List (ObserverId × Event Element)

/-- Registers an observer under the next number and has events recorded. -/
def enrolled (s : Session) (o : Observer) : Session :=
  { s with
    store := { s.store with emitting := true }
    observers := s.observers.push o
    registered := s.registered ++ [⟨s.observers.size + 1⟩] }

/-- Strikes an observer off; with nobody left to hear of them, no events are recorded. -/
def struck (s : Session) (id : ObserverId) : Session :=
  { s with
    store := { s.store with emitting := !(s.registered.filter (· ≠ id)).isEmpty }
    registered := s.registered.filter (· ≠ id) }

/-- From `s` to `t` only the tables change, in which no place comes back that was taken out, no
snapshot is opened again and none is exchanged for another. -/
structure Keeps (s t : Session) : Prop where
  store : t.store = s.store
  outbox : t.outbox = s.outbox
  registered : t.registered = s.registered
  observers : t.observers = s.observers
  heard : t.heard = s.heard
  places : s.snapshots.size ≤ t.snapshots.size
  held : ∀ k < s.snapshots.size, ∀ e, t.held? k = some e → ∃ f, s.held? k = some f ∧
    e.snapshot.view = f.snapshot.view ∧ (f.snapshot.closed = true → e.snapshot.closed = true)

/-- One thing that a session does while the calls in the first component are due. -/
inductive Move : Due × Session → Due × Session → Prop
  | change {ρ : Type} {due : Due} {s : Session} (x : Mutation Element ρ)
      (needs : x.needsDeque = true) :
    Move (due, s) (due, { s with store := (x.run s.store).2 })
  | enroll {due : Due} {s : Session} (o : Observer) : Move (due, s) (due, s.enrolled o)
  | strike {due : Due} {s : Session} (id : ObserverId) : Move (due, s) (due, s.struck id)
  | post {due : Due} {s : Session} : Move (due, s) (due, s.post)
  | fetch {s : Session} {events : List (Event Element)} {outbox : List (List (Event Element))}
      (queued : s.outbox = events :: outbox) : Move ([], s) (s.calls events, { s with outbox })
  | tell {due : Due} {s : Session} {id : ObserverId} {e : Event Element} {o : Observer}
      (found : s.observer? id = some o) :
    Move ((id, e) :: due, s)
      (due, (s.setObserver id (o.respond e).next).log (.call id e (o.respond e).tag))
  | skip {due : Due} {s : Session} {id : ObserverId} {e : Event Element}
      (missing : s.observer? id = none) : Move ((id, e) :: due, s) (due, s)
  | note {due : Due} {s : Session} (tag : String) (answers : List Answer) :
    Move (due, s) (due, s.log (.reaction tag answers))
  | keep {due : Due} {s t : Session} (kept : s.Keeps t) : Move (due, s) (due, t)

/-- Any number of moves. -/
abbrev Moves : Due × Session → Due × Session → Prop := Relation.ReflTransGen Move

/-- What every move keeps, any number of moves keep. -/
theorem Moves.preserves {P : Due × Session → Prop} (hp : ∀ {x y}, Move x y → P x → P y)
    {x y : Due × Session} (h : Moves x y) (hx : P x) : P y := by
  induction h with
  | refl => exact hx
  | tail _ hm ih => exact hp hm ih

/-- Moves by way of the stores in a list: those that the moves leave, one after the other. -/
inductive Passage : Due × Session → List (Store Element) → Due × Session → Prop
  | refl {x : Due × Session} : Passage x [] x
  | tail {x y z : Due × Session} {us : List (Store Element)} (passage : Passage x us y)
      (move : Move y z) : Passage x (us ++ [z.2.store]) z

theorem Moves.exists_passage {x y : Due × Session} (h : Moves x y) : ∃ us, Passage x us y := by
  induction h with
  | refl => exact ⟨[], .refl⟩
  | tail _ hm ih =>
    obtain ⟨us, hp⟩ := ih
    exact ⟨_, hp.tail hm⟩

/-- What is run under `m` moves from `s` to `t` and, outside of a batch, leaves no event recorded
that is not queued. -/
structure Goes (m : Mode) (due : Due) (s t : Session) : Prop where
  moves : Moves (due, s) (due, t)
  posted : m.batch = false → s.store.events = [] → t.store.events = []

variable {m : Mode} {due : Due} {s t u : Session} {ρ : Type}

theorem Goes.refl (s : Session) : Goes m due s s := ⟨.refl, fun _ h => h⟩

theorem Goes.trans (h : Goes m due s t) (h' : Goes m due t u) : Goes m due s u :=
  ⟨h.moves.trans h'.moves, fun hm hs => h'.posted hm (h.posted hm hs)⟩

theorem Goes.keep (h : s.Keeps t) : Goes m due s t :=
  ⟨.single (.keep h), fun _ hs => by rw [h.store]; exact hs⟩

theorem events_post (s : Session) : s.post.store.events = [] := by
  unfold post
  split
  next h => exact h
  next => rfl

theorem heard_post (s : Session) : s.post.heard = s.heard := by
  unfold post
  split <;> rfl

/-- Only who is registered is due a call for a buffer. -/
theorem registered_of_mem_calls {es : List (Event Element)} {c : ObserverId × Event Element}
    (hc : c ∈ s.calls es) : c.1 ∈ s.registered := by
  obtain ⟨e, _, hc⟩ := List.mem_flatMap.1 hc
  obtain ⟨id, hid, rfl⟩ := List.mem_map.1 hc
  exact hid

/-- Deliveries under `m` are moves that take place while the calls in `due` are due. -/
def Mode.Moving (m : Mode) (due : Due) : Prop := ∀ s, Goes m due s (m.deliver s)

/-! ## Tables -/

section Tables

theorem keeps_addHandles (s : Session) (hs : List Handle) : s.Keeps (s.addHandles hs) :=
  ⟨rfl, rfl, rfl, rfl, rfl, Nat.le_refl _, fun _ _ e he => ⟨e, he, rfl, id⟩⟩

theorem keeps_known (s : Session) (known : List ObserverId) : s.Keeps { s with known } :=
  ⟨rfl, rfl, rfl, rfl, rfl, Nat.le_refl _, fun _ _ e he => ⟨e, he, rfl, id⟩⟩

theorem keeps_addSnapshot (s : Session) (v : View) : s.Keeps (s.addSnapshot v).2 := by
  refine ⟨rfl, rfl, rfl, rfl, rfl, by simp [addSnapshot], fun k hk e he => ⟨e, ?_, rfl, id⟩⟩
  rw [← he, held?, held?, addSnapshot, Array.getElem?_push_lt hk, Array.getElem?_eq_getElem hk]

theorem held?_setEntry (s : Session) (k j : Nat) (f : Entry → Entry) :
    (s.setEntry k f).held? j = if k = j then (s.held? j).map f else s.held? j := by
  rw [held?, setEntry, Array.getElem?_modify, held?]
  split
  · cases s.snapshots[j]? with
    | none => rfl
    | some e => cases e <;> rfl
  · rfl

theorem keeps_setEntry {f : Entry → Entry} (hv : ∀ e, (f e).snapshot.view = e.snapshot.view)
    (hc : ∀ e, e.snapshot.closed = true → (f e).snapshot.closed = true) (s : Session) (k : Nat) :
    s.Keeps (s.setEntry k f) := by
  refine ⟨rfl, rfl, rfl, rfl, rfl, by simp [setEntry], fun j _ e he => ?_⟩
  rw [held?_setEntry] at he
  split at he
  · obtain ⟨g, hg, rfl⟩ := Option.map_eq_some_iff.1 he
    exact ⟨g, hg, hv g, hc g⟩
  · exact ⟨e, he, rfl, id⟩

theorem keeps_addUse (s : Session) (k : Nat) : s.Keeps (s.addUse k) :=
  keeps_setEntry (f := fun e => { e with uses := e.uses + 1 }) (fun _ => rfl) (fun _ h => h) s k

theorem keeps_endUse (s : Session) (k : Nat) : s.Keeps (s.endUse k) :=
  keeps_setEntry (f := fun e => { e with uses := e.uses - 1 }) (fun _ => rfl) (fun _ h => h) s k

/-- The session without the snapshot in place `k`. -/
def without (s : Session) (k : Nat) : Session :=
  { s with snapshots := s.snapshots.setIfInBounds k none }

theorem held?_without (s : Session) (k j : Nat) :
    (s.without k).held? j = if k = j then none else s.held? j := by
  rw [held?, without, Array.getElem?_setIfInBounds, held?]
  split
  · split <;> rfl
  · rfl

theorem keeps_without (s : Session) (k : Nat) : s.Keeps (s.without k) := by
  refine ⟨rfl, rfl, rfl, rfl, rfl, by simp [without], fun j _ e he => ?_⟩
  rw [held?_without] at he
  split at he
  · cases he
  · exact ⟨e, he, rfl, id⟩

end Tables

/-! ## Calls -/

theorem goes_onNode {node : NodeRef} {f : Handle → Answer × Session}
    (h : ∀ x, Goes m due s (f x).2) : Goes m due s (s.onNode node f).2 := by
  unfold onNode
  split
  · exact h _
  · exact .refl s

section Change

variable (hm : m.Moving due)

include hm

/-- What follows once the deque was changed. -/
theorem goes_changed {x : Mutation Element ρ}
    (h : Moves (due, s) (due, { t with store := (x.run t.store).2 })) :
    Goes m due s (t.change m x).2 := by
  unfold change
  dsimp only
  cases hb : m.batch with
  | true => exact ⟨h, by rw [hb]; nofun⟩
  | false =>
    have hp : Goes m due s ({ t with store := (x.run t.store).2 } : Session).post :=
      ⟨h.tail .post, fun _ _ => events_post _⟩
    exact hp.trans (hm _)

theorem goes_change {x : Mutation Element ρ} (hx : x.needsDeque = true) :
    Goes m due s (s.change m x).2 :=
  goes_changed hm (.single (.change x hx))

theorem goes_changing {x : Mutation Element ρ} (hx : x.needsDeque = true)
    {f : ρ → Session → Answer × Session} (hf : ∀ a t, Goes m due t (f a t).2) :
    Goes m due s (s.changing m x f).2 := by
  have hc := goes_change (s := s) hm hx
  unfold changing
  split <;> rename_i h <;> rw [h] at hc
  · exact hc.trans (hf _ _)
  · exact hc

theorem goes_register (o : Observer) : Goes m due s (s.register m o).2 := by
  unfold register
  exact (goes_changed (x := .observe true) hm (.single (.enroll o))).trans (.keep (keeps_known _ _))

theorem goes_unregister (id : ObserverId) : Goes m due s (s.unregister m id).2 :=
  goes_changed (x := .observe _) hm (.single (.strike id))

theorem goes_live : Goes m due s (s.live m).2 := by
  unfold live
  split
  · exact .refl s
  · exact goes_changing hm rfl fun v t => goes_change hm rfl

theorem goes_perform (call : Call) : Goes m due s (s.perform m call).2 := by
  cases call with
  | insert e side => exact goes_changing hm rfl fun h t => .keep (keeps_addHandles t [h])
  | insertAll es side => exact goes_changing hm rfl fun hs t => .keep (keeps_addHandles t hs)
  | offer e side =>
    have hc := goes_change (s := s) (x := .insert e side) hm rfl
    simp only [perform]
    split <;> rename_i h <;> rw [h] at hc <;> exact hc
  | unlink node => exact goes_onNode fun x => goes_changing hm rfl fun b t => .refl t
  | isLinked node => exact goes_onNode fun x => .refl s
  | element node => exact goes_onNode fun x => .refl s
  | nodeInfo node => exact goes_onNode fun x => .refl s
  | poll side => exact goes_changing hm rfl fun e t => .refl t
  | remove side => exact goes_changing hm rfl fun e t => .refl t
  | clear => exact goes_changing hm rfl fun n t => .refl t
  | reclaim => exact goes_changing hm rfl fun p t => .refl t
  | dispose => exact goes_changing hm rfl fun _ t => .refl t
  | openSnapshot => exact goes_changing hm rfl fun v t => .keep (keeps_addSnapshot t v)
  | openPolled limit => exact goes_changing hm rfl fun v t => .keep (keeps_addSnapshot t v)
  | live => exact goes_live hm
  | unregister id => exact goes_unregister hm ⟨id⟩
  | counts id =>
    simp only [perform]
    split <;> exact .refl s
  | _ => exact .refl s

theorem goes_unlinkPicked (picked : Except Error (List Handle)) :
    Goes m due s (s.unlinkPicked m picked).2 := by
  unfold unlinkPicked
  split
  · exact .refl s
  · exact .refl s
  · exact goes_changing hm rfl fun n t => .refl t

theorem goes_consult (snapshot : Snapshot) (call : SnapshotCall) :
    Goes m due s (s.consult m snapshot call).2 := by
  cases call with
  | unlink node =>
    refine goes_onNode fun x => ?_
    split
    · exact .refl s
    · exact goes_changing hm rfl fun b t => .refl t
  | remove a =>
    simp only [consult]
    split
    · exact .refl s
    · exact .refl s
    · exact goes_changing hm rfl fun b t => .refl t
  | removeAll as => exact goes_unlinkPicked hm _
  | removeIf p => exact goes_unlinkPicked hm _
  | retainOnly p => exact goes_unlinkPicked hm _
  | _ => exact .refl s

theorem goes_onSnapshot (k : Nat) (call : SnapshotCall) :
    Goes m due s (s.onSnapshot m k call).2 := by
  unfold onSnapshot
  split
  · exact .refl s
  · exact (Goes.keep (keeps_addUse s k)).trans
      ((goes_consult hm _ call).trans (.keep (keeps_endUse _ k)))

theorem goes_close (k : Nat) : Goes m due s (s.close m k).2 := by
  unfold close
  split
  · exact .refl s
  · split
    · exact .refl s
    · have h := keeps_setEntry (f := fun e =>
        { e with snapshot := { e.snapshot with closed := true }, closing := true })
        (fun _ => rfl) (fun _ _ => rfl) s k
      have h' := keeps_setEntry (f := fun e => { e with closing := false })
        (fun _ => rfl) (fun _ h => h)
      exact (Goes.keep h).trans ((goes_change hm rfl).trans (.keep (h' _ k)))

theorem goes_drop (k : Nat) : Goes m due s (s.drop m k).2 := by
  unfold drop
  split
  · exact .refl s
  · dsimp only
    split
    · exact .keep (keeps_without s k)
    · exact (Goes.keep (keeps_without s k)).trans (goes_change hm rfl)

end Change

/-! ## Commands -/

/-- A batch is a command under a mode of its own; its end queues what it left recorded. -/
theorem Goes.of_batch (h : Goes { m with batch := true } due s t) (hm : m.Moving due) (b : Bool) :
    Goes m due s (if b then t.post else m.deliver t.post) := by
  have hp : Goes m due s t.post := ⟨h.moves.tail .post, fun _ _ => events_post t⟩
  cases b with
  | true => exact hp
  | false => exact hp.trans (hm _)

theorem goes_settle {store : Store Element} (h : Mutation.settle.run s.store = (.ok (), store)) :
    Moves (due, s) (due, { s with store }) := by
  have hc : Move (due, s) (due, { s with store := (Mutation.settle.run s.store).2 }) :=
    .change .settle rfl
  rw [h] at hc
  exact .single hc

theorem Mode.Moving.in_batch (hm : m.Moving due) : Mode.Moving { m with batch := true } due :=
  fun s => ⟨(hm s).moves, nofun⟩

mutual

theorem goes_execute {m : Mode} (hm : m.Moving due) (cmd : Command) (s : Session) :
    Goes m due s (execute m cmd s).2 := by
  cases cmd with
  | call call => exact goes_perform hm call
  | txn call =>
    simp only [execute]
    split
    · exact goes_perform hm call
    · exact .refl s
  | snapshot k call => exact goes_onSnapshot hm k call
  | close k => exact goes_close hm k
  | drop k => exact goes_drop hm k
  | register o => exact goes_register hm o
  | compute cs stop ending =>
    simp only [execute]
    split
    · exact goes_executeBatch hm stop cs s
    · split
      · exact .refl s
      · rename_i store he
        have hb := goes_executeBatch hm.in_batch stop cs { s with store }
        exact Goes.of_batch ⟨(goes_settle he).trans hb.moves, nofun⟩ hm _
  | walk k form steps =>
    simp only [execute]
    split
    · exact .refl s
    · split
      · exact .refl s
      · rename_i cursor _
        exact (Goes.keep (keeps_addUse s k)).trans
          ((goes_executeWalk hm form steps cursor _).trans (.keep (keeps_endUse _ k)))

theorem goes_executeBatch {m : Mode} (hm : m.Moving due) (stop : Bool) (cs : List Command)
    (s : Session) : Goes m due s (executeBatch m stop cs s).2.2 := by
  cases cs with
  | nil => exact .refl s
  | cons cmd cs =>
    have h := goes_execute hm cmd s
    have h' := goes_executeBatch hm stop cs (execute m cmd s).2
    simp only [executeBatch]
    split
    · exact h
    · exact h.trans h'

theorem goes_executeWalk {m : Mode} (hm : m.Moving due) (form : WalkForm) (steps : List WalkStep)
    (cursor : Cursor) (s : Session) : Goes m due s (executeWalk m form steps cursor s).2 := by
  cases steps with
  | nil => exact .refl s
  | cons step steps =>
    cases step with
    | front => exact goes_executeWalk hm form steps _ s
    | back => exact goes_executeWalk hm form steps _ s
    | hint => exact goes_executeWalk hm form steps _ s
    | command d =>
      have h := goes_execute hm d s
      simp only [executeWalk]
      split <;> rename_i he <;> rw [he] at h
      · exact h
      · rename_i t _
        exact h.trans (goes_executeWalk hm form steps cursor t)

end

theorem goes_executeAll (hm : m.Moving due) (cs : List Command) (s : Session) :
    Goes m due s (executeAll m cs s).2 := by
  induction cs generalizing s with
  | nil => exact .refl s
  | cons cmd cs ih => exact (goes_execute hm cmd s).trans (ih _)

/-! ## Delivery -/

theorem Mode.moving_delivering : Mode.Moving .delivering due := fun s => .refl s

theorem goes_react (due : Due) (s : Session) (tag : Option String) (cs : Option (List Command)) :
    Goes .delivering due s (s.react tag cs) := by
  cases cs with
  | none => exact .refl s
  | some cs =>
    have h : Goes .delivering due s (executeAll .delivering cs s).2 :=
      goes_executeAll Mode.moving_delivering cs s
    exact ⟨h.moves.tail (.note _ _), fun hb hs => h.posted hb hs⟩

theorem moves_hear (due : Due) (s : Session) (id : ObserverId) (e : Event Element) :
    Moves ((id, e) :: due, s) (due, s.hear id e) ∧
      (s.store.events = [] → (s.hear id e).store.events = []) := by
  unfold hear
  split
  · rename_i h
    exact ⟨.single (.skip h), fun hs => hs⟩
  · rename_i o h
    have hr := goes_react due
      ((s.setObserver id (o.respond e).next).log (.call id e (o.respond e).tag))
      (o.respond e).tag (o.respond e).commands
    exact ⟨.head (.tell h) hr.moves, fun hs => hr.posted rfl hs⟩

theorem moves_deliverFrom (due : Due) (s : Session) :
    Moves (due, s) ([], deliverFrom due s) ∧
      (s.store.events = [] → (deliverFrom due s).store.events = []) := by
  fun_induction deliverFrom due s with
  | case1 s id e due ih =>
    obtain ⟨hm, he⟩ := moves_hear due s id e
    exact ⟨hm.trans ih.1, fun hs => ih.2 (he hs)⟩
  | case2 s h => exact ⟨.refl, fun hs => hs⟩
  | case3 s events outbox h ih => exact ⟨.head (.fetch h) ih.1, ih.2⟩

theorem deliver_of_outbox (h : s.outbox = []) : s.deliver = s := by
  rw [deliver, deliverFrom]
  split
  next => rfl
  next events outbox hs => rw [h] at hs; cases hs

theorem deliver_of_queued {events : List (Event Element)} {outbox : List (List (Event Element))}
    (h : s.outbox = events :: outbox) :
    s.deliver = deliverFrom (s.calls events) { s with outbox } := by
  rw [deliver, deliverFrom]
  split
  next hs => rw [h] at hs; cases hs
  next hs => rw [h] at hs; cases hs; rfl

theorem deliverFrom_cons (id : ObserverId) (e : Event Element) (due : Due) (s : Session) :
    deliverFrom ((id, e) :: due) s = deliverFrom due (s.hear id e) := by
  rw [deliverFrom]

theorem Mode.moving_outermost : Mode.Moving .outermost [] := fun s =>
  ⟨(moves_deliverFrom [] s).1, fun _ => (moves_deliverFrom [] s).2⟩

/-- Every command of a session is made of moves, and leaves no event recorded that is not
delivered or queued. -/
theorem goes_command (cmd : Command) (s : Session) :
    Goes .outermost [] s (execute .outermost cmd s).2 :=
  goes_execute Mode.moving_outermost cmd s

/-! ## Batches outside of any other -/

/-- Inside an outermost batch. -/
def Mode.batched : Mode := { Mode.outermost with batch := true }

/-- A batch first reclaims what is pending, and what it recorded is delivered unless it panics. -/
theorem execute_compute (ho : s.store.disposed = false) (cs : List Command) (stop : Bool)
    (ending : Ending) : execute .outermost (.compute cs stop ending) s =
      let x := executeBatch .batched stop cs { s with store := s.store.reclaimPending }
      let result := batchEnd x.2.1 ending
      (.batch x.1 result, if result.isPanic then x.2.2.post else x.2.2.post.deliver) := by
  unfold execute
  rw [if_neg (show ¬ Mode.outermost.batch = true from Bool.false_ne_true),
    Mutation.run_settle ho]
  rfl

/-- A batch that finds the deque disposed is refused. -/
theorem execute_compute_of_disposed (ho : s.store.disposed = true) (cs : List Command)
    (stop : Bool) (ending : Ending) :
    execute .outermost (.compute cs stop ending) s = (.batch [] (.failed .disposed), s) := by
  have hr := Mutation.run_of_disposed (m := (.settle : Mutation Element Unit)) ho rfl
  unfold execute
  rw [if_neg (show ¬ Mode.outermost.batch = true from Bool.false_ne_true), hr]

section Walks

variable {m : Mode} {k : Nat} {snapshot : Snapshot} {form : WalkForm} {steps : List WalkStep}

theorem execute_walk_of_misuse {x : Misuse} (hs : s.claim k false = .error x) :
    execute m (.walk k form steps) s = (.misuse x, s) := by
  rw [execute, hs]

theorem execute_walk_of_failed {e : Error} (hs : s.claim k false = .ok snapshot)
    (hc : snapshot.cursor s.store = .error e) :
    execute m (.walk k form steps) s = (.failed e, s) := by
  rw [execute, hs]
  dsimp only
  rw [hc]

theorem execute_walk {cursor : Cursor} (hs : s.claim k false = .ok snapshot)
    (hc : snapshot.cursor s.store = .ok cursor) : execute m (.walk k form steps) s =
      let x := executeWalk m form steps cursor (s.addUse k)
      (x.1.elim .panicked .walk, x.2.endUse k) := by
  rw [execute, hs]
  dsimp only
  rw [hc]

end Walks

end SnapshotDeque.Session
