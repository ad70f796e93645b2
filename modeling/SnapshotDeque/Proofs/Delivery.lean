import SnapshotDeque.Proofs.Hearing

/-!
Delivery as a queue. A session queues buffers of events, begins the delivery of one buffer at a time
and calls observers; `Service` follows a session and notes which of these it does. Main statement:
whatever observers do, the buffers are delivered in the order in which they were queued, one after
the other, and every call that a buffer takes is made.
-/

namespace SnapshotDeque.Session

/-- What a session does about its buffers. -/
inductive Act
  | queue (events : List (Event Element))
  /-- The delivery of a buffer begins, to those who are registered then. -/
  | fetch (events : List (Event Element)) (listeners : List ObserverId)
  | call (id : ObserverId) (e : Event Element)

/-- The buffers that are queued. -/
def queued (as : List Act) : List (List (Event Element)) :=
  as.filterMap fun
    | .queue events => some events
    | _ => none

/-- The buffers whose delivery is begun, each with its listeners. -/
def begun (as : List Act) : List (List (Event Element) × List ObserverId) :=
  as.filterMap fun
    | .fetch events listeners => some (events, listeners)
    | _ => none

/-- The calls that are made. -/
def called (as : List Act) : Due :=
  as.filterMap fun
    | .call id e => some (id, e)
    | _ => none

/-- The calls that a buffer takes: each event in turn goes to every listener in turn. -/
def callsOf (b : List (Event Element) × List ObserverId) : Due :=
  b.1.flatMap fun e => b.2.map (·, e)

/-- The calls that observers got. -/
def heardCalls (heard : List Heard) : Due :=
  heard.filterMap fun
    | .call id e _ => some (id, e)
    | .reaction .. => none

variable {x y z : Due × Session} {as bs : List Act} {s t : Session} {due : Due}

/-- A move, and what it does about buffers. -/
inductive Serves : Due × Session → List Act → Due × Session → Prop
  | queue {due : Due} {s : Session} (recorded : s.store.events ≠ []) :
    Serves (due, s) [.queue s.store.events] (due, s.post)
  | fetch {s : Session} {events : List (Event Element)} {outbox : List (List (Event Element))}
      (queued : s.outbox = events :: outbox) :
    Serves ([], s) [.fetch events s.registered] (s.calls events, { s with outbox })
  | call {due : Due} {s : Session} {id : ObserverId} {e : Event Element} {o : Observer}
      (found : s.observer? id = some o) :
    Serves ((id, e) :: due, s) [.call id e]
      (due, (s.setObserver id (o.respond e).next).log (.call id e (o.respond e).tag))
  /-- Any other move leaves the queue alone and makes no call. -/
  | other {x y : Due × Session} (move : Move x y) (due : y.1 = x.1)
      (outbox : y.2.outbox = x.2.outbox) (calls : heardCalls y.2.heard = heardCalls x.2.heard) :
    Serves x [] y

/-- Any number of moves, and what they do about buffers. -/
inductive Service : Due × Session → List Act → Due × Session → Prop
  | refl (x : Due × Session) : Service x [] x
  | step {x y z : Due × Session} {as bs : List Act} : Service x as y → Serves y bs z →
    Service x (as ++ bs) z

/-! ## The queue -/

/-- Buffers are begun in the order in which they were queued, each when all calls of the buffers
before it were made, and but for the calls that are due every call is made that they take. -/
structure Orderly (as : List Act) (x : Due × Session) : Prop where
  fifo : queued as = (begun as).map (·.1) ++ x.2.outbox
  calls : called as ++ x.1 = (begun as).flatMap callsOf
  turns : ∀ bs events listeners, bs ++ [.fetch events listeners] <+: as →
    called bs = (begun bs).flatMap callsOf
  heard : called as = heardCalls x.2.heard

theorem queued_append (as bs : List Act) : queued (as ++ bs) = queued as ++ queued bs :=
  List.filterMap_append

theorem begun_append (as bs : List Act) : begun (as ++ bs) = begun as ++ begun bs :=
  List.filterMap_append

theorem called_append (as bs : List Act) : called (as ++ bs) = called as ++ called bs :=
  List.filterMap_append

theorem heardCalls_append (h k : List Heard) : heardCalls (h ++ k) = heardCalls h ++ heardCalls k :=
  List.filterMap_append

theorem outbox_post (h : s.store.events ≠ []) : s.post.outbox = s.outbox ++ [s.store.events] := by
  unfold post
  split
  next he => exact absurd he h
  next => rfl

namespace Orderly

theorem turns_concat (h : Orderly as x) {a : Act}
    (ha : ∀ events listeners, a = .fetch events listeners →
      called as = (begun as).flatMap callsOf) :
    ∀ bs events listeners, bs ++ [.fetch events listeners] <+: as ++ [a] →
      called bs = (begun bs).flatMap callsOf := by
  intro bs events listeners hp
  rcases List.prefix_concat_iff.1 hp with heq | hp
  · obtain ⟨rfl, hlast⟩ := List.append_inj' heq rfl
    exact ha events listeners (List.singleton_inj.1 hlast).symm
  · exact h.turns bs events listeners hp

theorem step (h : Orderly as x) (hd : Serves x bs y) : Orderly (as ++ bs) y := by
  cases hd with
  | @queue due s hr =>
    constructor
    case fifo =>
      rw [queued_append, begun_append, outbox_post hr, h.fifo]
      simp [queued, begun]
    case calls =>
      rw [called_append, begun_append]
      simpa [called, begun] using h.calls
    case turns => exact h.turns_concat fun _ _ he => by cases he
    case heard =>
      rw [called_append, heard_post]
      simpa [called] using h.heard
  | @fetch s events outbox hq =>
    -- no call of another buffer is due any more
    have hdone : called as = (begun as).flatMap callsOf := by simpa using h.calls
    constructor
    case fifo =>
      have hf := h.fifo
      rw [hq] at hf
      rw [queued_append, begun_append, hf]
      simp [queued, begun]
    case calls =>
      rw [called_append, begun_append, List.flatMap_append, hdone]
      simp [called, begun, callsOf, Session.calls]
    case turns => exact h.turns_concat fun _ _ _ => hdone
    case heard =>
      rw [called_append]
      simpa [called] using h.heard
  | @call due s id e o ho =>
    constructor
    case fifo =>
      have hq : queued [.call id e] = [] := rfl
      have hb : begun [.call id e] = [] := rfl
      rw [queued_append, begun_append, hq, hb, List.append_nil, List.append_nil]
      exact h.fifo
    case calls =>
      rw [called_append, begun_append]
      simpa [called, begun] using h.calls
    case turns => exact h.turns_concat fun _ _ he => by cases he
    case heard =>
      rw [called_append, h.heard, log, heardCalls_append]
      rfl
  | other hm hdue hout hcalls =>
    rw [List.append_nil]
    exact ⟨by rw [hout]; exact h.fifo, by rw [hdue]; exact h.calls, h.turns,
      by rw [hcalls]; exact h.heard⟩

/-- When nothing is queued or due, all that was ever queued was delivered, once and in order. -/
theorem delivered (h : Orderly as ([], s)) (ho : s.outbox = []) :
    queued as = (begun as).map (·.1) ∧ called as = (begun as).flatMap callsOf := by
  have hf := h.fifo
  have hc := h.calls
  rw [ho, List.append_nil] at hf
  rw [List.append_nil] at hc
  exact ⟨hf, hc⟩

end Orderly

/-! ## Courses of sessions -/

/-- Whoever is registered or is due a call is an observer. -/
def Staffed (x : Due × Session) : Prop :=
  ∀ j, j ∈ x.2.registered ∨ j ∈ x.1.map (·.1) → 1 ≤ j.val ∧ j.val ≤ x.2.observers.size

theorem Staffed.congr (h : Staffed x) (hr : ∀ j ∈ y.2.registered, j ∈ x.2.registered)
    (hd : ∀ j ∈ y.1.map (·.1), j ∈ x.2.registered ∨ j ∈ x.1.map (·.1))
    (ho : x.2.observers.size ≤ y.2.observers.size) : Staffed y := fun j hj => by
  have := h j (hj.elim (fun hj => .inl (hr j hj)) (hd j))
  omega

theorem Staffed.observer?_ne_none {id : ObserverId} {e : Event Element}
    (h : Staffed ((id, e) :: due, s)) : s.observer? id ≠ none := by
  obtain ⟨h1, h2⟩ : 1 ≤ id.val ∧ id.val ≤ s.observers.size := h id (.inr (List.mem_cons_self ..))
  rw [observer?, if_neg (by omega), Array.getElem?_eq_getElem (by omega)]
  exact fun hn => by cases hn

/-- What is so of the buffers of a session that began as `s`. -/
structure InTurn (s : Session) : Prop where
  /-- Whatever the session does, it is known what it does about buffers. -/
  noted : ∀ {x}, Moves ([], s) x → ∃ as, Service ([], s) as x
  orderly : ∀ {as x}, Service ([], s) as x → Orderly as x
  /-- When nothing is queued or due, every buffer was delivered, once. -/
  delivered : ∀ {as t}, Service ([], s) as ([], t) → t.outbox = [] →
    queued as = (begun as).map (·.1) ∧ called as = (begun as).flatMap callsOf
  moments : ∀ cs, ∀ y ∈ s.moments [] cs, Moves ([], s) ([], y.session)
  /-- After a change outside of batches and deliveries nothing is queued. -/
  change : ∀ {ρ : Type} (t : Session) (x : Mutation Element ρ),
    (t.change .outermost x).2.outbox = []
  /-- After a batch that did not panic nothing is queued, either, if the deque was not disposed when
  the batch began. -/
  compute : ∀ {t cs stop ending answers r u},
    execute .outermost (.compute cs stop ending) t = (.batch answers r, u) → r.isPanic = false →
      t.store.disposed = false → u.outbox = []

/-- An observer that notes what it hears. -/
def Observer.noting : Observer := .scripted "a" (.note .ok) (.note .ok) (.note .ok)

end SnapshotDeque.Session
