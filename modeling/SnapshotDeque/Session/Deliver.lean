import SnapshotDeque.Session.Weight

/-!
Delivery. Buffers are delivered in the order in which they were queued. Every event of a buffer goes
to every observer that is registered when the buffer's turn comes, in the order of registration.
What an observer's commands change queues further buffers, which are delivered after that by the
delivery already under way: it ends since each buffer either makes an observer react, which happens
only so often, or makes the queue shorter.
-/

namespace SnapshotDeque.Session

/-- Outside of any batch, while a delivery is under way. -/
def Mode.delivering : Mode := { batch := false, deliver := id }

theorem Mode.quiet_delivering : Mode.delivering.Quiet := fun _ => rfl

/-- What a callback does in one call. -/
structure Turn where
  /-- Whether the event is noted. -/
  notes : Bool
  commands : Option (List Command)
  /-- What the callback does in the following calls. -/
  next : Behaviour

/-- A reaction with no calls left is passed over. -/
def Behaviour.turn : Behaviour → Turn
  | silent => ⟨false, none, silent⟩
  | note v => ⟨true, none, note v⟩
  | react 0 _ after => after.turn
  | react (n + 1) cs after => ⟨true, some cs, react n cs after⟩

theorem Behaviour.weight_turn (b : Behaviour) :
    b.turn.next.weight + (b.turn.commands.map fun cs => 1 + weightAll cs).getD 0 = b.weight := by
  fun_induction Behaviour.turn b with
  | case1 => rfl
  | case2 v => rfl
  | case3 cs after ih => simp [ih, Behaviour.weight]
  | case4 n cs after =>
    simp only [Option.map_some, Option.getD_some, Behaviour.weight, Nat.succ_mul]
    omega

/-- How an observer takes an event. -/
structure Response where
  /-- The tag of an observer that notes the event. -/
  tag : Option String
  commands : Option (List Command)
  /-- The observer afterwards. -/
  next : Observer

def Observer.respond : Observer → Event Element → Response
  | silent, _ => ⟨none, none, silent⟩
  | counting ls us ds, .link .. => ⟨none, none, counting (ls + 1) us ds⟩
  | counting ls us ds, .unlink .. => ⟨none, none, counting ls (us + 1) ds⟩
  | counting ls us ds, .dispose e => ⟨none, none, counting ls us (e :: ds)⟩
  | scripted tag l u d, .link .. =>
    ⟨if l.turn.notes then some tag else none, l.turn.commands, scripted tag l.turn.next u d⟩
  | scripted tag l u d, .unlink .. =>
    ⟨if u.turn.notes then some tag else none, u.turn.commands, scripted tag l u.turn.next d⟩
  | scripted tag l u d, .dispose _ =>
    ⟨if d.turn.notes then some tag else none, d.turn.commands, scripted tag l u d.turn.next⟩

theorem Observer.weight_respond (o : Observer) (e : Event Element) :
    (o.respond e).next.weight +
      ((o.respond e).commands.map fun cs => 1 + weightAll cs).getD 0 = o.weight := by
  cases o with
  | silent => rfl
  | counting ls us ds => cases e <;> rfl
  | scripted tag l u d =>
    have hl := l.weight_turn
    have hu := u.weight_turn
    have hd := d.weight_turn
    cases e <;> simp only [respond, Observer.weight] <;> omega

def log (s : Session) (h : Heard) : Session := { s with heard := s.heard ++ [h] }

/-- Runs the commands that an observer gives and logs their answers. -/
def react (s : Session) (tag : Option String) : Option (List Command) → Session
  | none => s
  | some cs =>
    let (answers, s) := executeAll .delivering cs s
    s.log (.reaction (tag.getD "") answers)

/-- Hands an event to an observer. -/
def hear (s : Session) (id : ObserverId) (e : Event Element) : Session :=
  match s.observer? id with
  | none => s
  | some o =>
    let r := o.respond e
    ((s.setObserver id r.next).log (.call id e r.tag)).react r.tag r.commands

@[simp] theorem weight_log (s : Session) (h : Heard) : (s.log h).weight = s.weight := rfl

theorem foldr_weight_set {os : List Observer} {i : Nat} {o : Observer} (h : os[i]? = some o)
    (p : Observer) :
    (os.set i p).foldr (fun o n => o.weight + n) 0 + o.weight =
      os.foldr (fun o n => o.weight + n) 0 + p.weight := by
  induction os generalizing i with
  | nil => simp at h
  | cons x xs ih =>
    cases i with
    | zero =>
      simp only [List.getElem?_cons_zero, Option.some.injEq] at h
      subst h
      simp only [List.set_cons_zero, List.foldr_cons]
      omega
    | succ i =>
      simp only [List.getElem?_cons_succ] at h
      have := ih h
      simp only [List.set_cons_succ, List.foldr_cons]
      omega

theorem weight_setObserver {s : Session} {id : ObserverId} {o : Observer}
    (h : s.observer? id = some o) (p : Observer) :
    (s.setObserver id p).weight + o.weight = s.weight + p.weight := by
  unfold observer? at h
  split at h
  · simp at h
  · have h' : s.observers.toList[id.val - 1]? = some o := by simpa using h
    simpa [weight, setObserver] using foldr_weight_set h' p

/-- How many calls of observers the queued buffers still take, with one more for each buffer. -/
def backlog (s : Session) : Nat :=
  s.outbox.foldr (fun b n => b.length * s.registered.length + 1 + n) 0

theorem weight_react (s : Session) (tag : Option String) (cs : Option (List Command)) :
    (s.react tag cs).weight ≤ s.weight + (cs.map weightAll).getD 0 := by
  cases cs with
  | none => exact Nat.le_refl _
  | some cs => exact weight_executeAll Mode.quiet_delivering cs s

/-- An observer either reacts, or it leaves the queue and the registry alone. -/
theorem hear_decreases (s : Session) (id : ObserverId) (e : Event Element) :
    (s.hear id e).weight < s.weight ∨
      (s.hear id e).weight = s.weight ∧ (s.hear id e).backlog = s.backlog := by
  cases ho : s.observer? id with
  | none => simp [hear, ho]
  | some o =>
    have hw := weight_setObserver ho (o.respond e).next
    have hr := o.weight_respond e
    have hx := weight_react
      ((s.setObserver id (o.respond e).next).log (.call id e (o.respond e).tag))
      (o.respond e).tag (o.respond e).commands
    simp only [hear, ho]
    cases hc : (o.respond e).commands with
    | none =>
      simp only [hc, Option.map_none, Option.getD_none] at hr
      refine Or.inr ⟨?_, ?_⟩
      · simp only [react, weight_log]
        omega
      · rfl
    | some cs =>
      simp only [hc, Option.map_some, Option.getD_some, weight_log] at hr hx
      exact Or.inl (by omega)

/-- The calls of observers that a buffer takes. -/
def calls (s : Session) (events : List (Event Element)) : List (ObserverId × Event Element) :=
  events.flatMap fun e => s.registered.map (·, e)

theorem length_calls (s : Session) (events : List (Event Element)) :
    (s.calls events).length = events.length * s.registered.length := by
  induction events with
  | nil => simp [calls]
  | cons e es ih =>
    rw [calls, List.flatMap_cons, List.length_append, ← calls, ih, List.length_map,
      List.length_cons, Nat.succ_mul, Nat.add_comm]

/-- Makes the calls that are due for the buffer under delivery, then delivers what is queued. -/
def deliverFrom (due : List (ObserverId × Event Element)) (s : Session) : Session :=
  match due with
  | (id, e) :: due => deliverFrom due (s.hear id e)
  | [] =>
    match _h : s.outbox with
    | [] => s
    | events :: outbox => deliverFrom (s.calls events) { s with outbox }
termination_by (s.weight, due.length + s.backlog)
decreasing_by
  · rcases s.hear_decreases id e with h | ⟨hw, hb⟩
    · exact Prod.Lex.left _ _ h
    · rw [hw, hb]
      exact Prod.Lex.right _ (by simp)
  · refine Prod.Lex.right _ ?_
    simp only [length_calls, backlog, _h, List.foldr_cons, List.length_nil]
    omega

/-- Delivers every queued buffer. -/
def deliver (s : Session) : Session := deliverFrom [] s

end SnapshotDeque.Session
