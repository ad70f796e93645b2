import SnapshotDeque.Proofs.Calls
import SnapshotDeque.Proofs.Heedless
import SnapshotDeque.Proofs.Moves

/-!
Two sessions that are told to do the same. Everything about observers is the company of a session,
and two sessions are alike if they differ in their company only. Main statements: if changes keep
two sessions alike, a call on the deque or on a snapshot gets the same answer from both and keeps
them alike.
-/

namespace SnapshotDeque

theorem Store.contains_recording {α : Type} [DecidableEq α] (s : Store α) (on : Bool)
    (es : List (Event α)) (a : α) : (s.recording on es).contains a = s.contains a := by
  have he : (s.recording on es).entries = s.entries := by
    unfold entries
    rw [Edit.Built.liveLinks_recording]
    rfl
  unfold contains Store.read
  dsimp only
  rw [he]
  rfl

namespace Session

/-- Whether a call asks the deque, and nothing of observers. -/
def Call.plain : Call → Bool
  | .unregister _ => false
  | .counts _ => false
  | _ => true

/-- Those who listen to a session, and what they are told and still to be told. -/
structure Company where
  emitting : Bool
  events : List (Event Element)
  outbox : List (List (Event Element))
  registered : List ObserverId
  observers : Array Observer
  known : List ObserverId
  heard : List Heard

/-- The session in other company. -/
def amid (s : Session) (c : Company) : Session :=
  { store := s.store.recording c.emitting c.events
    outbox := c.outbox
    registered := c.registered
    observers := c.observers
    known := c.known
    handles := s.handles
    snapshots := s.snapshots
    heard := c.heard }

def company (s : Session) : Company :=
  { emitting := s.store.emitting
    events := s.store.events
    outbox := s.outbox
    registered := s.registered
    observers := s.observers
    known := s.known
    heard := s.heard }

/-- Two sessions that differ in their company only. -/
def Alike (s t : Session) : Prop := t = s.amid t.company

/-- Two sessions, the one run under `m` and the other under `n`, that no change of the deque sets
apart. Of the answers that count observers, `seen` is what is to be the same. -/
structure Lockstep (R : Session → Session → Prop) (seen : Answer → Answer) (m n : Mode) :
    Prop where
  alike : ∀ {s t}, R s t → s.Alike t
  tables : ∀ {s t}, R s t → ∀ handles snapshots,
    R { s with handles, snapshots } { t with handles, snapshots }
  change : ∀ {s t}, R s t → ∀ {ρ : Type} (x : Mutation Element ρ), x.needsDeque = true →
    R (s.change m x).2 (t.change n x).2
  stats : ∀ {s t}, R s t → seen (.stats s.report) = seen (.stats t.report)
  report : ∀ {s t}, R s t → seen (.report s.report) = seen (.report t.report)

/-- The same answer from two sessions, as far as it is seen, that go on together. -/
structure Agree (R : Session → Session → Prop) (seen : Answer → Answer)
    (x y : Answer × Session) : Prop where
  answer : seen x.1 = seen y.1
  session : R x.2 y.2

namespace Lockstep

variable {R : Session → Session → Prop} {seen : Answer → Answer} {m n : Mode} {s t : Session}
  {ρ : Type} {x y : Answer × Session}

/-- A question to which both sessions know the same answer. -/
theorem asked (h : R s t) {a b : Answer} (hab : b = a) : Agree R seen (a, s) (b, t) :=
  ⟨congrArg seen hab.symm, h⟩

variable (l : Lockstep R seen m n) (h : R s t)

include l h

theorem change_fst {x : Mutation Element ρ} (hx : x.needsDeque = true) :
    (t.change n x).1 = (s.change m x).1 := by
  obtain ⟨news, hn⟩ := Mutation.regardless hx s.store
  have hrun := congrArg Prod.fst (hn.run t.company.emitting t.company.events)
  rw [Session.change_fst, Session.change_fst, l.alike h]
  exact hrun

theorem changing {x : Mutation Element ρ} (hx : x.needsDeque = true)
    {f g : ρ → Session → Answer × Session}
    (hf : ∀ a u v, R u v → Agree R seen (f a u) (g a v)) :
    Agree R seen (s.changing m x f) (t.changing n x g) := by
  have hfst := l.change_fst h hx
  have hsnd := l.change h x hx
  rcases hc : s.change m x with ⟨e | a, u⟩ <;> rcases hd : t.change n x with ⟨e' | b, v⟩ <;>
    rw [hc, hd] at hfst hsnd <;> cases hfst
  · rw [changing_of_error hc, changing_of_error hd]
    exact ⟨rfl, hsnd⟩
  · rw [changing_of_ok hc, changing_of_ok hd]
    exact hf a u v hsnd

/-- A change whose answer is given as it is. -/
theorem changed {x : Mutation Element ρ} (hx : x.needsDeque = true) (f : ρ → Answer) :
    Agree R seen (s.changing m x fun a u => (f a, u)) (t.changing n x fun a u => (f a, u)) :=
  l.changing h hx fun _ _ _ hu => ⟨rfl, hu⟩

theorem onNode {node : NodeRef} {f g : Handle → Answer × Session}
    (hf : ∀ x, Agree R seen (f x) (g x)) : Agree R seen (s.onNode node f) (t.onNode node g) := by
  have ht := l.alike h
  unfold Session.onNode
  rw [show t.handle? node = s.handle? node from by rw [ht]; cases node <;> rfl]
  rcases s.handle? node with _ | x
  · exact ⟨rfl, h⟩
  · exact hf x

theorem added (hs : List Handle) (a : Answer) :
    Agree R seen (a, s.addHandles hs) (a, t.addHandles hs) := by
  refine ⟨rfl, ?_⟩
  have ht := l.tables h (s.handles ++ hs.toArray) s.snapshots
  rw [l.alike h] at ht ⊢
  exact ht

theorem opened (v : View) : Agree R seen (s.addSnapshot v) (t.addSnapshot v) := by
  have ht := l.tables h s.handles (s.snapshots.push (some { snapshot := { view := v } }))
  rw [l.alike h] at ht ⊢
  exact ⟨rfl, ht⟩

theorem setEntry (k : Nat) (f : Entry → Entry) : R (s.setEntry k f) (t.setEntry k f) := by
  have ht := l.tables h s.handles (s.snapshots.modify k (·.map f))
  rw [l.alike h] at ht ⊢
  exact ht

theorem live : Agree R seen (s.live m) (t.live n) := by
  have ht := l.alike h
  unfold Session.live
  rw [show t.store.disposed = s.store.disposed from by rw [ht]; rfl]
  split
  · exact ⟨rfl, h⟩
  · refine l.changing h rfl fun v u w hu => ⟨?_, l.change hu _ rfl⟩
    rw [l.alike hu]
    rfl

theorem perform {call : Call} (hc : call.plain = true) :
    Agree R seen (s.perform m call) (t.perform n call) := by
  cases call with
  | insert e side => exact l.changing h rfl fun x u v hu => l.added hu [x] _
  | insertAll es side => exact l.changing h rfl fun xs u v hu => l.added hu xs _
  | offer e side =>
    have hfst := l.change_fst h (x := .insert e side) rfl
    have hsnd := l.change h (.insert e side) rfl
    dsimp only [Session.perform]
    rcases hc : s.change m (.insert e side) with ⟨r, u⟩
    rcases hd : t.change n (.insert e side) with ⟨r', v⟩
    rw [hc, hd] at hfst hsnd
    cases hfst
    rcases r with e' | a
    · cases e' <;> exact ⟨rfl, hsnd⟩
    · exact ⟨rfl, hsnd⟩
  | unlink node => exact l.onNode h fun x => l.changed h rfl _
  | poll side => exact l.changed h rfl _
  | remove side => exact l.changed h rfl _
  | clear => exact l.changed h rfl _
  | isLinked node => exact l.onNode h fun x => asked h (by rw [l.alike h]; rfl)
  | element node => exact l.onNode h fun x => asked h (by rw [l.alike h]; rfl)
  | nodeInfo node => exact l.onNode h fun x => asked h (by rw [l.alike h]; rfl)
  | contains a =>
    refine asked h ?_
    rw [l.alike h]
    exact congrArg Answer.flag (s.store.contains_recording _ _ a)
  | malformed reason => exact ⟨rfl, h⟩
  | stats => exact ⟨l.stats h, h⟩
  | report => exact ⟨l.report h, h⟩
  | live => exact l.live h
  | reclaim => exact l.changed h rfl _
  | dispose => exact l.changed h rfl fun _ => .done
  | openSnapshot => exact l.changing h rfl fun v _ _ hu => l.opened hu v
  | openPolled limit => exact l.changing h rfl fun v _ _ hu => l.opened hu v
  | unregister id => cases hc
  | counts id => cases hc
  | _ => exact asked h (by rw [l.alike h]; rfl)

theorem unlinkPicked {picked picked' : Except Error (List Handle)} (hp : picked' = picked) :
    Agree R seen (s.unlinkPicked m picked) (t.unlinkPicked n picked') := by
  rw [hp]
  rcases picked with e | _ | ⟨x, xs⟩
  · exact ⟨rfl, h⟩
  · exact ⟨rfl, h⟩
  · exact l.changed h rfl _

theorem consult (snapshot : Snapshot) (call : SnapshotCall) :
    Agree R seen (s.consult m snapshot call) (t.consult n snapshot call) := by
  have look : ∀ {β : Type} (f : Store Element → β), (∀ u on es, f (u.recording on es) = f u) →
      f t.store = f s.store := fun f hf => by
    rw [l.alike h]
    exact hf s.store _ _
  cases call with
  | unlink node =>
    refine l.onNode h fun x => ?_
    rw [look (snapshot.checkOpen ·) fun _ _ _ => rfl]
    rcases snapshot.checkOpen s.store with e | _
    · exact ⟨rfl, h⟩
    · exact l.changed h rfl _
  | remove a =>
    dsimp only [Session.consult]
    rw [look (snapshot.find? · _) fun _ _ _ => rfl]
    rcases snapshot.find? s.store (.ofPredicate (· = a)) with e | _ | ⟨x, b⟩
    · exact ⟨rfl, h⟩
    · exact ⟨rfl, h⟩
    · exact l.changed h rfl _
  | removeAll as => exact l.unlinkPicked h (look (snapshot.picked · _) fun _ _ _ => rfl)
  | removeIf p => exact l.unlinkPicked h (look (snapshot.picked · _) fun _ _ _ => rfl)
  | retainOnly p => exact l.unlinkPicked h (look (snapshot.picked · _) fun _ _ _ => rfl)
  | id => exact ⟨rfl, h⟩
  | version => exact ⟨rfl, h⟩
  | isClosed => exact ⟨rfl, h⟩
  | debug => exact ⟨rfl, h⟩
  | malformed reason => exact ⟨rfl, h⟩
  | _ => exact asked h (by rw [l.alike h]; rfl)

theorem claim (k : Nat) (toEnd : Bool) : t.claim k toEnd = s.claim k toEnd := by
  rw [l.alike h]
  rfl

theorem cursor (snapshot : Snapshot) : snapshot.cursor t.store = snapshot.cursor s.store := by
  rw [l.alike h]
  rfl

theorem onSnapshot (k : Nat) (call : SnapshotCall) :
    Agree R seen (s.onSnapshot m k call) (t.onSnapshot n k call) := by
  unfold Session.onSnapshot
  rw [l.claim h]
  rcases s.claim k false with e | snapshot
  · exact ⟨rfl, h⟩
  · have hc := l.consult (l.setEntry h k fun e => { e with uses := e.uses + 1 }) snapshot call
    exact ⟨hc.answer, l.setEntry hc.session k _⟩

theorem close (k : Nat) : Agree R seen (s.close m k) (t.close n k) := by
  unfold Session.close
  rw [l.claim h]
  rcases s.claim k true with e | snapshot
  · exact ⟨rfl, h⟩
  · dsimp only
    split
    · exact ⟨rfl, h⟩
    · have he := l.setEntry h k fun e =>
        { e with snapshot := { e.snapshot with closed := true }, closing := true }
      have hx : (Mutation.closeSnapshot (α := Element) snapshot.view.id
        snapshot.view.version).needsDeque = true := rfl
      rw [l.change_fst he hx]
      exact ⟨rfl, l.setEntry (l.change he _ hx) k _⟩

theorem drop (k : Nat) : Agree R seen (s.drop m k) (t.drop n k) := by
  have ht := l.tables h s.handles (s.snapshots.setIfInBounds k none)
  have hw : R (s.without k) (t.without k) := by
    rw [l.alike h] at ht ⊢
    exact ht
  unfold Session.drop
  rw [l.claim h]
  rcases s.claim k true with e | snapshot
  · exact ⟨rfl, h⟩
  · dsimp only
    split
    · exact ⟨rfl, hw⟩
    · exact ⟨rfl, l.change hw _ rfl⟩

end Lockstep

end Session

end SnapshotDeque
