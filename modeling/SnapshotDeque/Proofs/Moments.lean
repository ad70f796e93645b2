import SnapshotDeque.Proofs.Moves

/-!
The moments of a session. A batch and a walk run commands of their own, so a session can be looked
at between any two of these, and not only between the commands that are given from outside. Main
statement: each moment is reached from the ones before it by moves, and outside of batches nothing
is recorded that is not queued.
-/

namespace SnapshotDeque.Session

/-- A state of a session between two commands, and whether a batch is under way. -/
structure Moment where
  batch : Bool
  session : Session

/-- The moments of a call: the live elements are read between two changes. -/
def callTrail (m : Mode) : Call → Session → List Moment
  | .live, s =>
    if s.store.disposed then [] else [⟨m.batch, (s.change m .openSnapshot).2⟩]
  | _, _ => []

mutual

/-- The moments between the start and the end of a command. -/
def trail (m : Mode) : Command → Session → List Moment
  | .call c, s => callTrail m c s
  | .txn c, s => if m.batch then callTrail m c s else []
  | .compute cs stop _, s =>
    if m.batch then trailBatch m stop cs s
    else
      match Mutation.settle.run s.store with
      | (.error _, _) => []
      | (.ok (), store) => trailBatch { m with batch := true } stop cs { s with store }
  | .walk k _ steps, s =>
    match s.claim k false with
    | .error _ => []
    | .ok snapshot =>
      match snapshot.cursor s.store with
      | .error _ => []
      | .ok _ => trailWalk m steps (s.addUse k)
  | _, _ => []

def trailBatch (m : Mode) (stop : Bool) : List Command → Session → List Moment
  | [], s => [⟨m.batch, s⟩]
  | c :: cs, s =>
    ⟨m.batch, s⟩ :: (trail m c s ++
      match if stop then (execute m c s).1.failure? else none with
      | some _ => [⟨m.batch, (execute m c s).2⟩]
      | none => trailBatch m stop cs (execute m c s).2)

def trailWalk (m : Mode) : List WalkStep → Session → List Moment
  | [], s => [⟨m.batch, s⟩]
  | .command d :: steps, s =>
    ⟨m.batch, s⟩ :: (trail m d s ++
      match execute m d s with
      | (.panicked, s) => [⟨m.batch, s⟩]
      | (_, s) => trailWalk m steps s)
  | _ :: steps, s => trailWalk m steps s

end

/-- Moments `xs` on the way from `s` to `t` under `m`. -/
structure Trails (m : Mode) (due : Due) (s : Session) (xs : List Moment) (t : Session) : Prop where
  goes : Goes m due s t
  passes : ∀ x ∈ xs, Moves (due, s) (due, x.session) ∧ Moves (due, x.session) (due, t)
  ordered : xs.Pairwise fun x y => Moves (due, x.session) (due, y.session)
  posted : ∀ x ∈ xs, x.batch = false →
    m.batch = false ∧ (s.store.events = [] → x.session.store.events = [])

namespace Trails

variable {m : Mode} {due : Due} {s t u v : Session} {xs ys : List Moment}

theorem nil (h : Goes m due s t) : Trails m due s [] t where
  goes := h
  passes _ hx := absurd hx List.not_mem_nil
  ordered := .nil
  posted _ hx := absurd hx List.not_mem_nil

theorem append (h : Trails m due s xs u) (h' : Trails m due u ys t) :
    Trails m due s (xs ++ ys) t where
  goes := h.goes.trans h'.goes
  passes x hx := by
    rcases List.mem_append.1 hx with hx | hx
    · exact ⟨(h.passes x hx).1, (h.passes x hx).2.trans h'.goes.moves⟩
    · exact ⟨h.goes.moves.trans (h'.passes x hx).1, (h'.passes x hx).2⟩
  ordered := List.pairwise_append.2 ⟨h.ordered, h'.ordered,
    fun x hx y hy => (h.passes x hx).2.trans (h'.passes y hy).1⟩
  posted x hx hb := by
    rcases List.mem_append.1 hx with hx | hx
    · exact h.posted x hx hb
    · obtain ⟨hm, hp⟩ := h'.posted x hx hb
      exact ⟨hm, fun hs => hp (h.goes.posted hm hs)⟩

theorem single (s : Session) : Trails m due s [⟨m.batch, s⟩] s where
  goes := .refl s
  passes x hx := by
    rw [List.mem_singleton.1 hx]
    exact ⟨.refl, .refl⟩
  ordered := List.pairwise_singleton ..
  posted x hx hb := by
    rw [List.mem_singleton.1 hx] at hb ⊢
    exact ⟨hb, id⟩

theorem cons (h : Trails m due s xs t) : Trails m due s (⟨m.batch, s⟩ :: xs) t :=
  (single s).append h

/-- What comes before and after may be taken in. -/
theorem within (hu : Goes m due s u) (h : Trails m due u xs v) (ht : Goes m due v t) :
    Trails m due s xs t := by
  have := ((nil hu).append h).append (nil ht)
  rwa [List.nil_append, List.append_nil] at this

/-- The moments of a batch, whose end queues what it left recorded. -/
theorem of_batch (hu : Moves (due, s) (due, u)) (h : Trails { m with batch := true } due u xs v)
    (hm : m.Moving due) (b : Bool) :
    Trails m due s xs (if b then v.post else m.deliver v.post) where
  goes := Goes.of_batch ⟨hu.trans h.goes.moves, fun hb => by cases hb⟩ hm b
  passes x hx := ⟨hu.trans (h.passes x hx).1,
    (h.passes x hx).2.trans (Goes.of_batch (.refl v) hm b).moves⟩
  ordered := h.ordered
  posted x hx hb := by cases (h.posted x hx hb).1

end Trails

section Execute

variable {due : Due}

theorem trails_live {m : Mode} (hm : m.Moving due) (s : Session) :
    Trails m due s (callTrail m .live s) (s.live m).2 := by
  have hc := goes_change (s := s) (x := .openSnapshot) hm rfl
  simp only [callTrail, live]
  split
  · exact .nil (.refl s)
  · unfold changing
    rcases he : s.change m .openSnapshot with ⟨e | v, t⟩
    all_goals rw [he] at hc
    · exact Trails.within hc (.single _) (.refl _)
    · exact Trails.within hc (.single _) (goes_change hm rfl)

theorem trails_perform {m : Mode} (hm : m.Moving due) (call : Call) (s : Session) :
    Trails m due s (callTrail m call s) (s.perform m call).2 := by
  cases call with
  | live => exact trails_live hm s
  | _ => exact .nil (goes_perform hm _)

mutual

theorem trails_execute {m : Mode} (hm : m.Moving due) (cmd : Command) (s : Session) :
    Trails m due s (trail m cmd s) (execute m cmd s).2 := by
  cases cmd with
  | call call => exact trails_perform hm call s
  | txn call =>
    simp only [trail, execute]
    split
    · exact trails_perform hm call s
    · exact .nil (.refl s)
  | compute cs stop ending =>
    simp only [trail, execute]
    split
    -- within a batch, a batch is no more than its commands
    · exact trails_executeBatch hm stop cs s
    · rcases he : Mutation.settle.run s.store with ⟨e | ⟨⟩, store⟩
      · exact .nil (.refl s)
      · have hb := trails_executeBatch hm.in_batch stop cs { s with store }
        exact Trails.of_batch (goes_settle he) hb hm _
  | walk k form steps =>
    simp only [trail, execute]
    rcases s.claim k false with x | snapshot
    · exact .nil (.refl s)
    · dsimp only
      rcases snapshot.cursor s.store with e | cursor
      · exact .nil (.refl s)
      · exact Trails.within (.keep (keeps_addUse s k))
          (trails_executeWalk hm form steps cursor (s.addUse k)) (.keep (keeps_endUse _ k))
  | _ => exact .nil (goes_execute hm _ s)

theorem trails_executeBatch {m : Mode} (hm : m.Moving due) (stop : Bool) (cs : List Command)
    (s : Session) : Trails m due s (trailBatch m stop cs s) (executeBatch m stop cs s).2.2 := by
  cases cs with
  | nil => exact .single s
  | cons cmd cs =>
    have h := trails_execute hm cmd s
    simp only [trailBatch, executeBatch]
    refine Trails.cons (h.append ?_)
    rcases (if stop then (execute m cmd s).1.failure? else none) with _ | e
    · exact trails_executeBatch hm stop cs _
    · exact .single _

theorem trails_executeWalk {m : Mode} (hm : m.Moving due) (form : WalkForm)
    (steps : List WalkStep) (cursor : Cursor) (s : Session) :
    Trails m due s (trailWalk m steps s) (executeWalk m form steps cursor s).2 := by
  cases steps with
  | nil => exact .single s
  | cons step steps =>
    cases step with
    | front => exact trails_executeWalk hm form steps _ s
    | back => exact trails_executeWalk hm form steps _ s
    | hint => exact trails_executeWalk hm form steps _ s
    | command d =>
      have h := trails_execute hm d s
      simp only [trailWalk, executeWalk]
      refine Trails.cons ?_
      rcases he : execute m d s with ⟨a, t⟩
      rw [he] at h
      cases a with
      | panicked => exact h.append (.single _)
      | _ => exact h.append (trails_executeWalk hm form steps cursor t)

end

end Execute

/-! ## Whole sessions -/

/-- The session with `h` heard before all that it tells of. -/
def heardAfter (h : List Heard) (s : Session) : Session := { s with heard := h ++ s.heard }

/-- What was heard before makes no difference to a move. -/
theorem Move.heardAfter {x y : Due × Session} (h : List Heard) (hm : Move x y) :
    Move (x.1, x.2.heardAfter h) (y.1, y.2.heardAfter h) := by
  cases hm with
  | change x hx => exact .change x hx
  | enroll o => exact .enroll o
  | strike id => exact .strike id
  | @post _ s =>
    have hp : s.post.heardAfter h = (s.heardAfter h).post := by
      unfold Session.post
      simp only [Session.heardAfter]
      split <;> rfl
    exact hp ▸ .post
  | fetch hq => exact .fetch hq
  | @tell _ s id e o ho =>
    have hl : ((s.setObserver id (o.respond e).next).log
        (.call id e (o.respond e).tag)).heardAfter h =
        ((s.heardAfter h).setObserver id (o.respond e).next).log
          (.call id e (o.respond e).tag) := by
      simp [Session.heardAfter, Session.log, setObserver]
    exact hl ▸ .tell ho
  | skip hn => exact .skip hn
  | @note _ s tag answers =>
    have hl : (s.log (.reaction tag answers)).heardAfter h =
        (s.heardAfter h).log (.reaction tag answers) := by
      simp [Session.heardAfter, Session.log]
    exact hl ▸ .note tag answers
  | keep hk =>
    exact .keep ⟨hk.store, hk.outbox, hk.registered, hk.observers, congrArg (h ++ ·) hk.heard,
      hk.places, hk.held⟩

theorem Moves.heardAfter {x y : Due × Session} (h : List Heard) (hm : Moves x y) :
    Moves (x.1, x.2.heardAfter h) (y.1, y.2.heardAfter h) := by
  induction hm with
  | refl => exact .refl
  | tail _ hm ih => exact ih.tail (hm.heardAfter h)

/-- The moment with `h` heard before all that it tells of. -/
def Moment.heardAfter (h : List Heard) (x : Moment) : Moment :=
  { x with session := x.session.heardAfter h }

variable {m : Mode} {due : Due} {s t : Session} {xs : List Moment}

theorem Trails.heardAfter (h : List Heard) (hx : Trails m due s xs t) :
    Trails m due (s.heardAfter h) (xs.map (·.heardAfter h)) (t.heardAfter h) where
  goes := ⟨hx.goes.moves.heardAfter h, hx.goes.posted⟩
  passes x hm := by
    obtain ⟨y, hy, rfl⟩ := List.mem_map.1 hm
    exact ⟨(hx.passes y hy).1.heardAfter h, (hx.passes y hy).2.heardAfter h⟩
  ordered := List.pairwise_map.2 (hx.ordered.imp fun hm => hm.heardAfter h)
  posted x hm := by
    obtain ⟨y, hy, rfl⟩ := List.mem_map.1 hm
    exact hx.posted y hy

theorem step_snd (s : Session) (c : Command) :
    (s.step c).2 = { (execute .outermost c s).2 with heard := [] } := rfl

theorem heard_step (s : Session) (c : Command) :
    (s.step c).1.heard = (execute .outermost c s).2.heard := rfl

/-- The moments of a session from its start to its end, in order, each with all that was heard until
then; `h` was heard before. -/
def moments (s : Session) (h : List Heard) : List Command → List Moment
  | [] => [⟨false, s.heardAfter h⟩]
  | c :: cs =>
    ⟨false, s.heardAfter h⟩ :: ((trail .outermost c s).map (·.heardAfter h) ++
      moments (s.step c).2 (h ++ (s.step c).1.heard) cs)

/-- Moments come one after the other, up to what the session comes to with all that was heard. -/
theorem trails_moments (s : Session) (h : List Heard) (cs : List Command) :
    Trails .outermost [] (s.heardAfter h) (s.moments h cs)
      ((s.run cs).2.heardAfter (h ++ (s.run cs).1.flatMap (·.heard))) := by
  induction cs generalizing s h with
  | nil =>
    rw [moments, run, List.flatMap_nil, List.append_nil]
    exact .single _
  | cons c cs ih =>
    have hstep : (s.step c).2.heardAfter (h ++ (s.step c).1.heard) =
        (execute .outermost c s).2.heardAfter h := by
      rw [step_snd, heard_step, Session.heardAfter, Session.heardAfter, List.append_nil]
    have ih := ih (s.step c).2 (h ++ (s.step c).1.heard)
    rw [hstep] at ih
    rw [moments, run, List.flatMap_cons, ← List.append_assoc]
    exact Trails.cons (((trails_execute Mode.moving_outermost c s).heardAfter h).append ih)

end SnapshotDeque.Session
