import SnapshotDeque.Proofs.Duet

/-!
Observers are bystanders. A session with observers that do not call the deque goes the way that it
goes without observers: what is left of it when all about observers is left out is the run of the
commands that are not about observers. Main statement: two sessions that are told the same but for
observers get the same answers and go through the same states, but for what is recorded for
observers.
-/

namespace SnapshotDeque.Session

/-! ## Leaving observers out -/

mutual

/-- The command without the asides in it. -/
def Command.core : Command → Command
  | .compute cs stop ending => .compute (coreAll cs) stop ending
  | .walk k form steps => .walk k form (coreSteps steps)
  | c => c

def coreAll : List Command → List Command
  | [] => []
  | c :: cs => if c.aside then coreAll cs else c.core :: coreAll cs

def coreSteps : List WalkStep → List WalkStep
  | [] => []
  | .command c :: steps => if c.aside then coreSteps steps else .command c.core :: coreSteps steps
  | step :: steps => step :: coreSteps steps

end

mutual

/-- Whether no observer that a command registers calls the deque. -/
def Command.Calm : Command → Prop
  | .register o => o.Passive
  | .compute cs _ _ => calmAll cs
  | .walk _ _ steps => calmSteps steps
  | _ => True

def calmAll : List Command → Prop
  | [] => True
  | c :: cs => c.Calm ∧ calmAll cs

def calmSteps : List WalkStep → Prop
  | [] => True
  | .command c :: steps => c.Calm ∧ calmSteps steps
  | _ :: steps => calmSteps steps

end

theorem Command.Calm.aside {c : Command} (h : c.Calm) (hc : c.aside = true) : c.Aside := by
  cases c with
  | register o => exact h
  | _ => exact hc

mutual

/-- Commands make a score with what they come to without asides. -/
theorem exists_part {c : Command} (h : c.Calm) (hc : c.aside = false) :
    ∃ p : Part, p.on .left = some c ∧ p.on .right = some c.core := by
  cases c with
  | compute cs stop ending =>
    obtain ⟨ps, hl, hr⟩ := exists_parts h
    exact ⟨.compute ps stop ending, by rw [Part.on, hl], by rw [Part.on, hr, Command.core]⟩
  | walk k form steps =>
    obtain ⟨ps, hl, hr⟩ := exists_steps h
    exact ⟨.walk k form ps, by rw [Part.on, hl], by rw [Part.on, hr, Command.core]⟩
  | register o => cases hc
  | call call => exact ⟨.single (.call call) (Eq.mp (Bool.not_eq_false' _) hc), rfl, rfl⟩
  | txn call => exact ⟨.single (.txn call) (Eq.mp (Bool.not_eq_false' _) hc), rfl, rfl⟩
  | snapshot k call => exact ⟨.single (.snapshot k call) rfl, rfl, rfl⟩
  | close k => exact ⟨.single (.close k) rfl, rfl, rfl⟩
  | drop k => exact ⟨.single (.drop k) rfl, rfl, rfl⟩

theorem exists_parts {cs : List Command} (h : calmAll cs) :
    ∃ ps, partsOn .left ps = cs ∧ partsOn .right ps = coreAll cs := by
  cases cs with
  | nil => exact ⟨[], rfl, rfl⟩
  | cons c cs =>
    obtain ⟨ps, hl, hr⟩ := exists_parts h.2
    cases hc : c.aside with
    | true =>
      refine ⟨.aside (some c) none (fun d hd => ?_) nofun :: ps, ?_, ?_⟩
      · cases hd
        exact h.1.aside hc
      · exact congrArg (c :: ·) hl
      · exact hr.trans (if_pos hc).symm
    | false =>
      obtain ⟨p, hpl, hpr⟩ := exists_part h.1 hc
      refine ⟨p :: ps, ?_, ?_⟩
      · rw [partsOn, hpl, hl]
        rfl
      · rw [partsOn, hpr, hr, coreAll, hc]
        rfl

theorem exists_steps {steps : List WalkStep} (h : calmSteps steps) :
    ∃ ps, stepsOn .left ps = steps ∧ stepsOn .right ps = coreSteps steps := by
  cases steps with
  | nil => exact ⟨[], rfl, rfl⟩
  | cons step steps =>
    cases step with
    | front =>
      obtain ⟨ps, hl, hr⟩ := exists_steps (show calmSteps steps from h)
      exact ⟨.front :: ps, by rw [stepsOn, hl], by rw [stepsOn, hr]; rfl⟩
    | back =>
      obtain ⟨ps, hl, hr⟩ := exists_steps (show calmSteps steps from h)
      exact ⟨.back :: ps, by rw [stepsOn, hl], by rw [stepsOn, hr]; rfl⟩
    | hint =>
      obtain ⟨ps, hl, hr⟩ := exists_steps (show calmSteps steps from h)
      exact ⟨.hint :: ps, by rw [stepsOn, hl], by rw [stepsOn, hr]; rfl⟩
    | command c =>
      obtain ⟨ps, hl, hr⟩ := exists_steps h.2
      cases hc : c.aside with
      | true =>
        refine ⟨.part (.aside (some c) none (fun d hd => ?_) nofun) :: ps, ?_, ?_⟩
        · cases hd
          exact h.1.aside hc
        · exact congrArg (_ :: ·) hl
        · exact hr.trans (if_pos hc).symm
      | false =>
        obtain ⟨p, hpl, hpr⟩ := exists_part h.1 hc
        refine ⟨.part p :: ps, ?_, ?_⟩
        · rw [stepsOn, hpl, hl]
          rfl
        · rw [stepsOn, hpr, hr, coreSteps, hc]
          rfl

end

/-! ## Sessions that are alike -/

variable {s t u : Session}

theorem Alike.symm (h : s.Alike t) : t.Alike s := by
  have hs : t.amid s.company = s.amid s.company := by
    rw [h]
    rfl
  exact hs.symm

theorem Alike.trans (h : s.Alike t) (h' : t.Alike u) : s.Alike u := by
  have hs : t.amid u.company = s.amid u.company := by
    rw [h]
    rfl
  exact Eq.trans h' hs

/-- What was heard is the observers' affair. -/
theorem alike_heardAfter {h h' : List Heard} :
    (s.heardAfter h).Alike (t.heardAfter h') ↔ s.Alike t := by
  have alike : ∀ (u : Session) (k : List Heard), u.Alike (u.heardAfter k) := fun _ _ => rfl
  exact ⟨fun hst => ((alike s h).trans hst).trans (alike t h').symm,
    fun hst => ((alike s h).symm.trans hst).trans (alike t h')⟩

/-- Alike sessions with nobody in company who calls the deque. -/
structure Peaceful (s t : Session) : Prop where
  alike : s.Alike t
  left : s.Passive
  right : t.Passive

theorem alike_post (s : Session) : s.Alike s.post := by
  obtain ⟨outbox, hpost, -⟩ := s.exists_post
  rw [hpost]
  rfl

theorem alike_flush (s : Session) : s.Alike s.flush := rfl

theorem Passive.post (hp : s.Passive) : s.post.Passive := by
  obtain ⟨outbox, hpost, -⟩ := s.exists_post
  rw [hpost]
  exact hp

theorem Alike.run {ρ : Type} (h : s.Alike t) {x : Mutation Element ρ} (hx : x.needsDeque = true) :
    ({ s with store := (x.run s.store).2 } : Session).Alike
      { t with store := (x.run t.store).2 } := by
  obtain ⟨c, rfl⟩ : ∃ c, t = s.amid c := ⟨_, h⟩
  obtain ⟨news, hn⟩ := Mutation.regardless hx s.store
  have hrun : (x.run (s.amid c).store).2 = _ := congrArg Prod.snd (hn.run c.emitting c.events)
  rw [hrun]
  rfl

theorem alike_obeying (hp : s.Passive) (b : Bool) {o : Option Command} (ho : ∀ c ∈ o, c.Aside) :
    s.Alike (s.obeying b o) ∧ (s.obeying b o).Passive := by
  cases o with
  | none => exact ⟨rfl, hp⟩
  | some c =>
    rcases obeying_aside hp (ho c rfl) b with he | ⟨u, known, hr, he⟩
    · rw [he]
      exact ⟨rfl, hp⟩
    · have hu := hr.passive hp
      have hs : s.Alike u := by cases hr <;> rfl
      rw [he]
      cases b with
      | true => exact ⟨hs.trans (t := u) rfl, hu⟩
      | false => exact ⟨hs.trans (t := u) rfl, hu.flush⟩

/-- Any aside is fit at any time. -/
def Free (_ _ : Option Command) (_ _ : Session) : Prop := True

/-- Nothing that observers do and nothing that is done about them sets two sessions apart. -/
theorem concord_peaceful : Concord Peaceful Free where
  alike h := h.alike
  passive h := ⟨h.left, h.right⟩
  tables h _ _ := ⟨by rw [h.alike]; rfl, h.left, h.right⟩
  change h _ x hx := ⟨h.alike.run hx, h.left, h.right⟩
  post {s t} h :=
    ⟨((alike_post s).symm.trans h.alike).trans (alike_post t), h.left.post, h.right.post⟩
  flush {s t} h :=
    ⟨((alike_flush s).symm.trans h.alike).trans (alike_flush t), h.left.flush, h.right.flush⟩
  aside h _ _ b hl hr _ := by
    obtain ⟨hl, hpl⟩ := alike_obeying h.left b hl
    obtain ⟨hr, hpr⟩ := alike_obeying h.right b hr
    exact ⟨(hl.symm.trans h.alike).trans hr, hpl, hpr⟩

theorem peaceful_heardAfter (h h' : List Heard) :
    (fun s t => Peaceful (s.heardAfter h) (t.heardAfter h')) = Peaceful := by
  funext s t
  refine propext ⟨fun hp => ?_, fun hp => ?_⟩
  · exact ⟨alike_heardAfter.1 hp.alike, hp.left, hp.right⟩
  · exact ⟨alike_heardAfter.2 hp.alike, hp.left, hp.right⟩

/-! ## Any aside at any time -/

mutual

theorem Part.fits_free {b : Bool} (p : Part) (s t : Session) : p.Fits Free b s t := by
  cases p with
  | single c h => trivial
  | aside l r hl hr => trivial
  | compute ps stop ending =>
    cases b with
    | true => exact fitsBatch_free stop ps s t
    | false => exact fun _ => fitsBatch_free stop ps _ _
  | walk k form steps => exact fun _ _ _ _ => fitsWalk_free steps _ _

theorem fitsBatch_free {b : Bool} (stop : Bool) (ps : List Part) (s t : Session) :
    fitsBatch Free b stop ps s t := by
  cases ps with
  | nil => trivial
  | cons p ps => exact ⟨p.fits_free s t, fun _ => fitsBatch_free stop ps _ _⟩

theorem fitsWalk_free {b : Bool} (steps : List StepPart) (s t : Session) :
    fitsWalk Free b steps s t := by
  cases steps with
  | nil => trivial
  | cons step steps =>
    cases step with
    | part p => exact ⟨p.fits_free s t, fun _ => fitsWalk_free steps _ _⟩
    | _ => exact fitsWalk_free steps s t

end

theorem fitsRun_free (ps : List Part) (s t : Session) : fitsRun Free ps s t := by
  induction ps generalizing s t with
  | nil => trivial
  | cons p ps ih => exact ⟨p.fits_free s t, ih _ _⟩

/-- A session goes the way it goes with nobody in company. -/
theorem played_core (hp : s.Passive) {cs : List Command} (hc : calmAll cs) :
    Played Peaceful s s [] [] cs (coreAll cs) := by
  obtain ⟨ps, hl, hr⟩ := exists_parts hc
  have k : ∀ h h', Concord (fun s t => Peaceful (s.heardAfter h) (t.heardAfter h')) Free :=
    fun h h' => by
      rw [peaceful_heardAfter]
      exact concord_peaceful
  have hplayed : Played Peaceful s s [] [] (partsOn .left ps) (partsOn .right ps) :=
    Concord.played k ps ⟨rfl, hp, hp⟩ (fitsRun_free ps s s)
  rwa [hl, hr] at hplayed

/-- Two runs that are the same once all asides are left out: both get the same answers, asides left
out and the number of observers left out of account, and at corresponding moments the deque is the
same, but for the events that wait to be taken and for whether any are recorded. -/
theorem observers_are_bystanders (c : Config) (s : Session) (cs ds : List Command)
    (hs : start c = .ok s) (hc : calmAll cs) (hd : calmAll ds) (h : coreAll cs = coreAll ds) :
    Played Alike s s [] [] cs ds := by
  have hp : s.Passive := by
    obtain ⟨_, rfl⟩ := eq_init_of_start hs
    exact fun id hid => absurd hid List.not_mem_nil
  have hx := played_core hp hc
  have hy := played_core hp hd
  rw [← h] at hy
  refine ⟨hx.view.trans hy.view.symm, hx.outcome.alike.trans hy.outcome.alike.symm, ?_⟩
  refine hx.moments.trans hy.moments.symm fun hxy hyz => ?_
  exact ⟨hxy.1.trans hyz.1.symm, hxy.2.alike.trans hyz.2.alike.symm⟩

/-- An insertion and a removal in a batch that fails, with one observer before the batch and another
one in it. -/
def watched : List Command :=
  [.register (.scripted "a" (.note .ok) (.note .error) (.note .panic)),
    .compute [.txn (.insert (.int 1) .last), .register .counter, .call (.poll .first)] false .fail,
    .call .stats]

/-- The same with an observer that comes too late and is struck off again. -/
def unwatched : List Command :=
  [.compute [.txn (.insert (.int 1) .last), .call (.poll .first)] false .fail, .register .silent,
    .call .stats, .call (.unregister 1)]

theorem watched_as_unwatched : Played Alike (init {}) (init {}) [] [] watched unwatched :=
  observers_are_bystanders {} (init {}) watched unwatched rfl
    ⟨⟨trivial, trivial, trivial⟩, ⟨trivial, trivial, trivial, trivial⟩, trivial, trivial⟩
    ⟨⟨trivial, trivial, trivial⟩, trivial, trivial, trivial, trivial⟩ rfl

end SnapshotDeque.Session
