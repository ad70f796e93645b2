import SnapshotDeque.Proofs.Batches

/-!
Scores for two sessions. Both are told the same about the deque, while each may register and strike
off observers of its own, anywhere between two commands, in a batch and in a walk. What an answer
says about the deque can be told apart from what it says about observers. Main statements: batches,
walks and whole sessions go on from what a part of a score comes to, be it a command or a pause.
-/

namespace SnapshotDeque.Session

/-! ## Scores -/

/-- Whether a command is about observers only. -/
def Command.aside : Command → Bool
  | .call c => !c.plain
  | .txn c => !c.plain
  | .register _ => true
  | _ => false

/-- Whether a command is one call, on the deque or on a snapshot. -/
def Command.single : Command → Bool
  | .call c => c.plain
  | .txn c => c.plain
  | .snapshot .. => true
  | .close _ => true
  | .drop _ => true
  | _ => false

/-- A command about observers that registers none which calls the deque. -/
def Command.Aside : Command → Prop
  | .register o => o.Passive
  | c => c.aside = true

/-- The two sessions that play a score. -/
inductive Hand
  | left
  | right

mutual

/-- What two sessions do next: the same, or an aside of either. -/
inductive Part
  | single (c : Command) (h : c.single = true)
  | compute (parts : List Part) (stop : Bool) (ending : Ending)
  | walk (k : Nat) (form : WalkForm) (steps : List StepPart)
  | aside (left right : Option Command) (hl : ∀ c ∈ left, c.Aside) (hr : ∀ c ∈ right, c.Aside)

inductive StepPart
  | front
  | back
  | hint
  | part (p : Part)

end

mutual

/-- What one of the sessions is told. -/
def Part.on (hand : Hand) : Part → Option Command
  | .single c _ => some c
  | .compute ps stop ending => some (.compute (partsOn hand ps) stop ending)
  | .walk k form steps => some (.walk k form (stepsOn hand steps))
  | .aside l r _ _ =>
    match hand with
    | .left => l
    | .right => r

def partsOn (hand : Hand) : List Part → List Command
  | [] => []
  | p :: ps => (p.on hand).toList ++ partsOn hand ps

def stepsOn (hand : Hand) : List StepPart → List WalkStep
  | [] => []
  | .front :: steps => .front :: stepsOn hand steps
  | .back :: steps => .back :: stepsOn hand steps
  | .hint :: steps => .hint :: stepsOn hand steps
  | .part p :: steps => (p.on hand).toList.map .command ++ stepsOn hand steps

end

/-! ## Answers -/

/-- The answer without the number of observers. -/
def Answer.unattended : Answer → Answer
  | .stats r => .stats { r with observers := 0 }
  | .report r => .report { r with observers := 0 }
  | a => a

mutual

/-- What the answer to a command says about the deque. -/
def Command.view : Command → Answer → Answer
  | .compute cs _ _, .batch answers ending => .batch (viewAll cs answers) ending
  | .walk _ _ steps, .walk answers => .walk (viewSteps steps answers)
  | _, a => a.unattended

def viewAll : List Command → List Answer → List Answer
  | c :: cs, a :: answers =>
    if c.aside then viewAll cs answers else c.view a :: viewAll cs answers
  | _, _ => []

def viewSteps : List WalkStep → List WalkAnswer → List WalkAnswer
  | .command c :: steps, .answer a :: answers =>
    if c.aside then viewSteps steps answers else .answer (c.view a) :: viewSteps steps answers
  | _ :: steps, a :: answers => a :: viewSteps steps answers
  | _, _ => []

end

/-- The mode of what a session is told from outside, in a batch or not. -/
def Mode.at (batch : Bool) : Mode := { Mode.outermost with batch }

/-- The session once it did as it was told. -/
def obeying (s : Session) (batch : Bool) : Option Command → Session
  | none => s
  | some c => (execute (.at batch) c s).2

/-- What it answers to that. -/
def replies (s : Session) (batch : Bool) : Option Command → List Answer
  | none => []
  | some c => [(execute (.at batch) c s).1]

/-- What ends a batch early. -/
def halt (stop : Bool) (answers : List Answer) : Option Error :=
  if stop then answers.findSome? Answer.failure? else none

/-- Whether an answer ends the walks that the command was a step of. -/
def Answer.panics : Answer → Bool
  | panicked => true
  | _ => false

section Fits

variable (Fit : Option Command → Option Command → Session → Session → Prop)

mutual

/-- Whether the asides of a score are fit for the states in which they come. -/
def Part.Fits (batch : Bool) : Part → Session → Session → Prop
  | .single .., _, _ => True
  | .compute ps stop _, s, t =>
    if batch then fitsBatch true stop ps s t
    else s.store.disposed = false → fitsBatch true stop ps
      { s with store := s.store.reclaimPending } { t with store := t.store.reclaimPending }
  | .walk k _ steps, s, t => ∀ snapshot cursor, s.claim k false = .ok snapshot →
    snapshot.cursor s.store = .ok cursor → fitsWalk batch steps (s.addUse k) (t.addUse k)
  | .aside l r _ _, s, t => Fit l r s t

def fitsBatch (batch stop : Bool) : List Part → Session → Session → Prop
  | [], _, _ => True
  | p :: ps, s, t => p.Fits batch s t ∧ (halt stop (s.replies batch (p.on .left)) = none →
    fitsBatch batch stop ps (s.obeying batch (p.on .left)) (t.obeying batch (p.on .right)))

def fitsWalk (batch : Bool) : List StepPart → Session → Session → Prop
  | [], _, _ => True
  | .part p :: steps, s, t => p.Fits batch s t ∧
    ((s.replies batch (p.on .left)).any Answer.panics = false →
      fitsWalk batch steps (s.obeying batch (p.on .left)) (t.obeying batch (p.on .right)))
  | _ :: steps, s, t => fitsWalk batch steps s t

end

end Fits

/-! ## What asides and single calls come to -/

variable {s t : Session} {c : Command} {b stop : Bool}

theorem Command.Aside.aside (h : c.Aside) : c.aside = true := by
  cases c with
  | register o => rfl
  | _ => exact h

theorem Command.aside_of_single (h : c.single = true) : c.aside = false := by
  cases c with
  | call call => exact Eq.mpr (Bool.not_eq_false' _) h
  | txn call => exact Eq.mpr (Bool.not_eq_false' _) h
  | snapshot k call => rfl
  | close k => rfl
  | drop k => rfl
  | _ => cases h

theorem Command.view_of_single (h : c.single = true) (a : Answer) : c.view a = a.unattended := by
  cases c with
  | compute cs stop ending => cases h
  | walk k form steps => cases h
  | _ => rfl

theorem Command.failure?_view (c : Command) (a : Answer) : (c.view a).failure? = a.failure? := by
  cases c <;> cases a <;> rfl

theorem Command.panics_view (c : Command) (a : Answer) : (c.view a).panics = a.panics := by
  cases c <;> cases a <;> rfl

/-- Nobody fails or panics in an aside. -/
theorem perform_of_not_plain {call : Call} (h : call.plain = false) (m : Mode) :
    (s.perform m call).1.failure? = none ∧ (s.perform m call).1.panics = false := by
  cases call with
  | unregister id => exact ⟨rfl, rfl⟩
  | counts id =>
    dsimp only [perform]
    split <;> exact ⟨rfl, rfl⟩
  | _ => cases h

theorem execute_of_aside (h : c.aside = true) (m : Mode) :
    (execute m c s).1.failure? = none ∧ (execute m c s).1.panics = false := by
  cases c with
  | call call => exact perform_of_not_plain (Eq.mp (Bool.not_eq_true' _) h) m
  | txn call =>
    dsimp only [execute]
    split
    · exact perform_of_not_plain (Eq.mp (Bool.not_eq_true' _) h) m
    · exact ⟨rfl, rfl⟩
  | register o => exact ⟨rfl, rfl⟩
  | _ => cases h

theorem trail_of_aside (h : c.aside = true) (m : Mode) : trail m c s = [] := by
  have hcall : ∀ {call : Call}, call.plain = false → callTrail m call s = [] := by
    intro call hc
    cases call with
    | live => cases hc
    | _ => rfl
  cases c with
  | call call => exact hcall (Eq.mp (Bool.not_eq_true' _) h)
  | txn call =>
    dsimp only [trail]
    split
    · exact hcall (Eq.mp (Bool.not_eq_true' _) h)
    · rfl
  | register o => rfl
  | _ => cases h

theorem Passive.enrolled (hp : s.Passive) {o : Observer} (ho : o.Passive) :
    (s.enrolled o).Passive := by
  intro id hid p hop
  rw [observer?] at hop
  split at hop
  · cases hop
  · rename_i hz
    change (s.observers.push o)[id.val - 1]? = some p at hop
    rw [Array.getElem?_push] at hop
    split at hop
    · cases hop
      exact ho
    · next hne =>
      refine hp id ((List.mem_append.1 hid).resolve_right fun hid => hne ?_) p ?_
      · rw [List.mem_singleton.1 hid]
        rfl
      · rw [observer?, if_neg hz]
        exact hop

theorem Passive.struck (hp : s.Passive) (id : ObserverId) : (s.struck id).Passive :=
  fun j hj => hp j (List.mem_filter.1 hj).1

/-- What an aside changes in the registry, if it changes it. -/
inductive Rearranged (s : Session) : Command → Session → Prop
  | register {o : Observer} (passive : o.Passive) : Rearranged s (.register o) (s.enrolled o)
  | unregister (id : Nat) : Rearranged s (.call (.unregister id)) (s.struck ⟨id⟩)
  | unregisterTxn (id : Nat) : Rearranged s (.txn (.unregister id)) (s.struck ⟨id⟩)

theorem Rearranged.passive {u : Session} (h : s.Rearranged c u) (hp : s.Passive) : u.Passive := by
  cases h with
  | register ho => exact hp.enrolled ho
  | unregister id => exact hp.struck _
  | unregisterTxn id => exact hp.struck _

/-- The session with other observers known. -/
def knowing (s : Session) (known : List ObserverId) : Session := { s with known }

theorem change_observe (hp : s.Passive) (b on : Bool) : (s.change (.at b) (.observe on)).2 =
    if b then { s with store := { s.store with emitting := on } }
    else ({ s with store := { s.store with emitting := on } } : Session).flush := by
  cases b with
  | true => rfl
  | false => exact congrArg Prod.snd (change_outermost hp _)

theorem unregister_eq (hp : s.Passive) (b : Bool) (id : Nat) :
    (s.perform (.at b) (.unregister id)).2 = if b then s.struck ⟨id⟩ else (s.struck ⟨id⟩).flush :=
  change_observe (s := { s with registered := s.registered.filter (· ≠ ⟨id⟩) }) (hp.struck ⟨id⟩) b _

theorem obeying_register (hp : s.Passive) {o : Observer} (ho : o.Passive) (b : Bool) :
    s.obeying b (some (.register o)) = (if b then s.enrolled o else (s.enrolled o).flush).knowing
      (⟨s.observers.size + 1⟩ :: s.known) := by
  let id : ObserverId := ⟨s.observers.size + 1⟩
  let u : Session :=
    { s with observers := s.observers.push o, registered := s.registered ++ [id] }
  have h := change_observe (s := u) (hp.enrolled ho) b true
  have hknown : (u.change (.at b) (.observe true)).2.known = s.known := by
    rw [h]
    cases b <;> rfl
  rw [← hknown]
  exact congrArg (Session.knowing · _) h

/-- The registry is rearranged, and outside of batches what waits is delivered then. -/
theorem obeying_aside (hp : s.Passive) (hc : c.Aside) (b : Bool) :
    s.obeying b (some c) = s ∨ ∃ u known, s.Rearranged c u ∧
      s.obeying b (some c) = (if b then u else u.flush).knowing known := by
  have hcounts : ∀ id, (s.perform (.at b) (.counts id)).2 = s := fun id => by
    dsimp only [perform]
    split <;> rfl
  cases c with
  | register o =>
    exact Or.inr ⟨_, _, .register hc, obeying_register hp hc b⟩
  | call call =>
    cases call with
    | unregister id => exact Or.inr ⟨_, _, .unregister id, unregister_eq hp b id⟩
    | counts id => exact Or.inl (hcounts id)
    | _ => cases hc
  | txn call =>
    cases b with
    | false => exact Or.inl rfl
    | true =>
      cases call with
      | unregister id => exact Or.inr ⟨_, _, .unregisterTxn id, unregister_eq hp true id⟩
      | counts id => exact Or.inl (hcounts id)
      | _ => cases hc
  | _ => cases hc

/-! ## Views of answers -/

theorem viewAll_nil (cs : List Command) : viewAll cs [] = [] := by
  cases cs <;> rfl

theorem viewAll_replies (o : Option Command) (cs : List Command) (answers : List Answer) :
    viewAll (o.toList ++ cs) (s.replies b o ++ answers) =
      viewAll o.toList (s.replies b o) ++ viewAll cs answers := by
  cases o with
  | none => rfl
  | some c =>
    change (if c.aside then _ else _ :: _) = (if c.aside then _ else _ :: _) ++ _
    split <;> rfl

theorem viewSteps_replies (o : Option Command) (steps : List WalkStep)
    (answers : List WalkAnswer) :
    viewSteps (o.toList.map .command ++ steps) ((s.replies b o).map .answer ++ answers) =
      (viewAll o.toList (s.replies b o)).map .answer ++ viewSteps steps answers := by
  cases o with
  | none => rfl
  | some c =>
    change (if c.aside then _ else _ :: _) = (if c.aside then _ else _ :: _).map _ ++ _
    split <;> rfl

theorem viewAll_halted (o : Option Command) (cs : List Command) :
    viewAll (o.toList ++ cs) (s.replies b o) = viewAll o.toList (s.replies b o) := by
  have h := viewAll_replies (s := s) (b := b) o cs []
  rwa [List.append_nil, viewAll_nil, List.append_nil] at h

/-- Asides neither fail nor panic, and the failure of another command is in view. -/
theorem halt_view (o : Option Command) :
    halt stop (viewAll o.toList (s.replies b o)) = halt stop (s.replies b o) := by
  cases o with
  | none => rfl
  | some c =>
    have hf := c.failure?_view (execute (.at b) c s).1
    unfold halt
    change (if stop then (if c.aside then [] else [_]).findSome? _ else _) = _
    cases hc : c.aside with
    | true => simp [replies, (execute_of_aside (s := s) hc (.at b)).1]
    | false => simp [replies, hf]

theorem panics_view (o : Option Command) :
    (viewAll o.toList (s.replies b o)).any Answer.panics =
      (s.replies b o).any Answer.panics := by
  cases o with
  | none => rfl
  | some c =>
    have hf := c.panics_view (execute (.at b) c s).1
    change (if c.aside then [] else [_]).any _ = _
    cases hc : c.aside with
    | true => simp [replies, (execute_of_aside (s := s) hc (.at b)).2]
    | false => simp [replies, hf]

/-! ## Batches and walks, command by command -/

theorem halt_replies (c : Command) : halt stop (s.replies b (some c)) =
    if stop then (execute (.at b) c s).1.failure? else none := by
  cases stop with
  | true => simp [halt, replies]
  | false => rfl

theorem panics_replies (c : Command) :
    (s.replies b (some c)).any Answer.panics = (execute (.at b) c s).1.panics :=
  Bool.or_false _

theorem executeBatch_append (o : Option Command) (cs : List Command) :
    executeBatch (.at b) stop (o.toList ++ cs) s =
      match halt stop (s.replies b o) with
      | some e => (s.replies b o, some e, s.obeying b o)
      | none =>
        let (answers, failure, u) := executeBatch (.at b) stop cs (s.obeying b o)
        (s.replies b o ++ answers, failure, u) := by
  cases o with
  | none => cases stop <;> rfl
  | some c =>
    rw [halt_replies]
    change executeBatch _ _ (c :: cs) s = _
    dsimp only [executeBatch]
    rcases (if stop then (execute (.at b) c s).1.failure? else none) with _ | e <;> rfl

theorem executeWalk_append (o : Option Command) (form : WalkForm) (steps : List WalkStep)
    (cursor : Cursor) :
    executeWalk (.at b) form (o.toList.map .command ++ steps) cursor s =
      if (s.replies b o).any Answer.panics then (none, s.obeying b o)
      else
        let (answers, u) := executeWalk (.at b) form steps cursor (s.obeying b o)
        (answers.map ((s.replies b o).map .answer ++ ·), u) := by
  cases o with
  | none =>
    have hm : ∀ answers : Option (List WalkAnswer), answers.map ([] ++ ·) = answers :=
      fun answers => by cases answers <;> rfl
    exact Prod.ext (hm _).symm rfl
  | some c =>
    rw [panics_replies]
    change executeWalk _ _ (.command c :: steps) _ _ = _
    dsimp only [executeWalk, obeying, replies]
    rcases he : execute (.at b) c s with ⟨a, u⟩
    cases a <;> rfl

/-- The moments from the start of a command on. -/
def course (s : Session) (batch : Bool) : Option Command → List Moment
  | none => []
  | some c => ⟨batch, s⟩ :: trail (.at batch) c s

theorem trailBatch_append (o : Option Command) (cs : List Command) :
    trailBatch (.at b) stop (o.toList ++ cs) s = s.course b o ++
      match halt stop (s.replies b o) with
      | some _ => [⟨b, s.obeying b o⟩]
      | none => trailBatch (.at b) stop cs (s.obeying b o) := by
  cases o with
  | none => cases stop <;> rfl
  | some c =>
    rw [halt_replies]
    rfl

theorem trailWalk_append (o : Option Command) (steps : List WalkStep) :
    trailWalk (.at b) (o.toList.map .command ++ steps) s = s.course b o ++
      if (s.replies b o).any Answer.panics then [⟨b, s.obeying b o⟩]
      else trailWalk (.at b) steps (s.obeying b o) := by
  cases o with
  | none => rfl
  | some c =>
    rw [panics_replies]
    change trailWalk _ (.command c :: steps) _ = _
    dsimp only [trailWalk, obeying, course]
    rcases he : execute (.at b) c s with ⟨a, u⟩
    cases a <;> rfl

theorem exists_trailBatch (b stop : Bool) (s : Session) (cs : List Command) :
    ∃ xs, trailBatch (.at b) stop cs s = ⟨b, s⟩ :: xs := by
  cases cs <;> exact ⟨_, rfl⟩

theorem exists_trailWalk (b : Bool) (s : Session) (steps : List WalkStep) :
    ∃ xs, trailWalk (.at b) steps s = ⟨b, s⟩ :: xs := by
  induction steps with
  | nil => exact ⟨[], rfl⟩
  | cons step steps ih =>
    cases step with
    | command d => exact ⟨_, rfl⟩
    | _ => exact ih

/-! ## Whole sessions -/

/-- The session after a command from outside, if there is one. -/
def stepped (s : Session) : Option Command → Session
  | none => s
  | some c => (s.step c).2

/-- What is heard meanwhile. -/
def hearing (s : Session) : Option Command → List Heard
  | none => []
  | some c => (s.step c).1.heard

/-- The answers to commands from outside. -/
def answers (s : Session) (cs : List Command) : List Answer := (s.run cs).1.map (·.answer)

/-- What a session has come to, with all that was heard in it. -/
def outcome (s : Session) (h : List Heard) (cs : List Command) : Session :=
  (s.run cs).2.heardAfter (h ++ (s.run cs).1.flatMap (·.heard))

theorem heardAfter_stepped (o : Option Command) (h : List Heard) :
    (s.stepped o).heardAfter (h ++ s.hearing o) = (s.obeying false o).heardAfter h := by
  cases o with
  | none => exact congrArg (s.heardAfter ·) (List.append_nil h)
  | some c =>
    change (s.step c).2.heardAfter (h ++ (s.step c).1.heard) =
      (execute .outermost c s).2.heardAfter h
    rw [step_snd, heard_step, heardAfter, heardAfter, List.append_nil]

theorem answers_append (o : Option Command) (cs : List Command) :
    s.answers (o.toList ++ cs) = s.replies false o ++ (s.stepped o).answers cs := by
  cases o <;> rfl

theorem outcome_append (o : Option Command) (cs : List Command) (h : List Heard) :
    s.outcome h (o.toList ++ cs) = (s.stepped o).outcome (h ++ s.hearing o) cs := by
  cases o with
  | none => exact congrArg (s.outcome · cs) (List.append_nil h).symm
  | some c =>
    unfold outcome
    rw [List.append_assoc]
    rfl

theorem moments_append (o : Option Command) (cs : List Command) (h : List Heard) :
    s.moments h (o.toList ++ cs) = (s.course false o).map (·.heardAfter h) ++
      (s.stepped o).moments (h ++ s.hearing o) cs := by
  cases o with
  | none => exact congrArg (s.moments · cs) (List.append_nil h).symm
  | some c => rfl

theorem exists_moments (s : Session) (h : List Heard) (cs : List Command) :
    ∃ xs, s.moments h cs = ⟨false, s.heardAfter h⟩ :: xs := by
  cases cs <;> exact ⟨_, rfl⟩

/-- Whether the asides of a whole score are fit. -/
def fitsRun (Fit : Option Command → Option Command → Session → Session → Prop) :
    List Part → Session → Session → Prop
  | [], _, _ => True
  | p :: ps, s, t => p.Fits Fit false s t ∧
    fitsRun Fit ps (s.stepped (p.on .left)) (t.stepped (p.on .right))

end SnapshotDeque.Session
