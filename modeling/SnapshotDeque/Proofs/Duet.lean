import SnapshotDeque.Proofs.Score

/-!
Two sessions that play one score. Main statements: what the two have in common that neither changes
nor deliveries nor fitting asides take from them, they keep throughout a score, and they get the
same answers, asides left out; and the moments that one goes through are those of the other, up to
pauses.
-/

namespace SnapshotDeque.Session

/-! ## Two sessions at one score -/

/-- What two sessions have in common that changes of the deque, deliveries and fitting asides leave
them. -/
structure Concord (R : Session → Session → Prop)
    (Fit : Option Command → Option Command → Session → Session → Prop) : Prop where
  alike : ∀ {s t}, R s t → s.Alike t
  passive : ∀ {s t}, R s t → s.Passive ∧ t.Passive
  tables : ∀ {s t}, R s t → ∀ handles snapshots,
    R { s with handles, snapshots } { t with handles, snapshots }
  change : ∀ {s t}, R s t → ∀ {ρ : Type} (x : Mutation Element ρ), x.needsDeque = true →
    R { s with store := (x.run s.store).2 } { t with store := (x.run t.store).2 }
  post : ∀ {s t}, R s t → R s.post t.post
  flush : ∀ {s t}, R s t → R s.flush t.flush
  aside : ∀ {s t}, R s t → ∀ {l r} (b : Bool), (∀ c ∈ l, c.Aside) → (∀ c ∈ r, c.Aside) →
    Fit l r s t → R (s.obeying b l) (t.obeying b r)

/-- What two sessions come to that were told `l` and `r`. -/
structure Unison (R : Session → Session → Prop) (b : Bool) (s t : Session)
    (l r : Option Command) : Prop where
  view : viewAll l.toList (s.replies b l) = viewAll r.toList (t.replies b r)
  session : R (s.obeying b l) (t.obeying b r)

/-- What two batches come to, of `cs` and of `ds`. -/
structure Chorus (R : Session → Session → Prop) (cs ds : List Command)
    (x y : List Answer × Option Error × Session) : Prop where
  view : viewAll cs x.1 = viewAll ds y.1
  failure : x.2.1 = y.2.1
  session : R x.2.2 y.2.2

/-- What two walks come to, by the steps `ws` and `ws'`. -/
structure Stroll (R : Session → Session → Prop) (ws ws' : List WalkStep)
    (x y : Option (List WalkAnswer) × Session) : Prop where
  view : x.1.map (viewSteps ws) = y.1.map (viewSteps ws')
  session : R x.2 y.2

variable {R : Session → Session → Prop}
  {Fit : Option Command → Option Command → Session → Session → Prop} {l r : Option Command}

/-- Both walks go on with answers that look the same. -/
theorem Stroll.map {ws ws' vs vs' : List WalkStep} {x y : Option (List WalkAnswer) × Session}
    (h : Stroll R ws ws' x y) {f g : List WalkAnswer → List WalkAnswer} (seen : List WalkAnswer)
    (hf : ∀ as, viewSteps vs (f as) = seen ++ viewSteps ws as)
    (hg : ∀ as, viewSteps vs' (g as) = seen ++ viewSteps ws' as) :
    Stroll R vs vs' (x.1.map f, x.2) (y.1.map g, y.2) where
  view := by
    have hx : (x.1.map f).map (viewSteps vs) = (x.1.map (viewSteps ws)).map (seen ++ ·) := by
      rw [Option.map_map, Option.map_map]
      exact congrArg (Option.map · x.1) (funext hf)
    have hy : (y.1.map g).map (viewSteps vs') = (y.1.map (viewSteps ws')).map (seen ++ ·) := by
      rw [Option.map_map, Option.map_map]
      exact congrArg (Option.map · y.1) (funext hg)
    rw [hx, hy, h.view]
  session := h.session

theorem Stroll.step {ws ws' : List WalkStep} {x y : Option (List WalkAnswer) × Session}
    (h : Stroll R ws ws' x y) {w : WalkStep} (a : WalkAnswer)
    (hw : ∀ vs as, viewSteps (w :: vs) (a :: as) = a :: viewSteps vs as) :
    Stroll R (w :: ws) (w :: ws') (x.1.map (a :: ·), x.2) (y.1.map (a :: ·), y.2) :=
  h.map [a] (hw ws) (hw ws')

/-- The answers to the two walks look the same. -/
theorem Stroll.answer {ws ws' : List WalkStep} {x y : Option (List WalkAnswer) × Session}
    (h : Stroll R ws ws' x y) (i : Nat) (form : WalkForm) :
    Command.view (.walk i form ws) (x.1.elim .panicked .walk) =
      Command.view (.walk i form ws') (y.1.elim .panicked .walk) := by
  have hview := h.view
  revert hview
  rcases x.1 with _ | as <;> rcases y.1 with _ | as' <;> intro hview
  · rfl
  · cases hview
  · cases hview
  · exact congrArg Answer.walk (Option.some.inj hview)

namespace Unison

theorem of_view {c d : Command} (hc : c.aside = false) (hd : d.aside = false)
    (hv : c.view (execute (.at b) c s).1 = d.view (execute (.at b) d t).1)
    (hs : R (execute (.at b) c s).2 (execute (.at b) d t).2) :
    Unison R b s t (some c) (some d) := by
  refine ⟨?_, hs⟩
  change (if c.aside then [] else [_]) = if d.aside then [] else [_]
  rw [hc, hd, hv]

theorem of_asides (hl : ∀ c ∈ l, c.Aside) (hr : ∀ c ∈ r, c.Aside)
    (hs : R (s.obeying b l) (t.obeying b r)) : Unison R b s t l r := by
  have hnil : ∀ {u : Session} {o : Option Command}, (∀ c ∈ o, c.Aside) →
      viewAll o.toList (u.replies b o) = [] := by
    intro u o ho
    cases o with
    | none => rfl
    | some c => exact if_pos (ho c rfl).aside
  exact ⟨(hnil hl).trans (hnil hr).symm, hs⟩

variable (h : Unison R b s t l r)

include h

theorem halt (stop : Bool) :
    Session.halt stop (t.replies b r) = Session.halt stop (s.replies b l) := by
  rw [← halt_view, ← h.view, halt_view]

theorem panics :
    (t.replies b r).any Answer.panics = (s.replies b l).any Answer.panics := by
  rw [← panics_view, ← h.view, panics_view]

end Unison

namespace Concord

variable (k : Concord R Fit)

include k

theorem lockstep (b : Bool) : Lockstep R Answer.unattended (.at b) (.at b) where
  alike h := k.alike h
  tables h := k.tables h
  change {s t} h _ x hx := by
    have hc := k.change h x hx
    cases b with
    | true => exact hc
    | false =>
      have hf := k.flush hc
      obtain ⟨hs, ht⟩ := k.passive h
      change R (s.change .outermost x).2 (t.change .outermost x).2
      rw [change_outermost hs, change_outermost ht]
      exact hf
  stats h := by rw [k.alike h]; rfl
  report h := by rw [k.alike h]; rfl

theorem single (b : Bool) (h : R s t) {c : Command} (hc : c.single = true) :
    Agree R Answer.unattended (execute (.at b) c s) (execute (.at b) c t) := by
  have hl := k.lockstep b
  cases c with
  | call call => exact hl.perform h hc
  | txn call =>
    dsimp only [execute]
    split
    · exact hl.perform h hc
    · exact ⟨rfl, h⟩
  | snapshot i call => exact hl.onSnapshot h i call
  | close i => exact hl.close h i
  | drop i => exact hl.drop h i
  | _ => cases hc

omit k in
/-- A batch within another one. -/
theorem compute_batched {cs ds : List Command} (ending : Ending)
    (hb : Chorus R cs ds (executeBatch (.at true) stop cs s) (executeBatch (.at true) stop ds t)) :
    Unison R true s t (some (.compute cs stop ending)) (some (.compute ds stop ending)) := by
  refine .of_view rfl rfl ?_ hb.session
  change Answer.batch (viewAll _ _) (batchEnd _ _) = .batch (viewAll _ _) (batchEnd _ _)
  rw [hb.view, hb.failure]

/-- A batch outside of any other. -/
theorem compute_outermost (h : R s t) {cs ds : List Command} (ending : Ending)
    (hb : s.store.disposed = false → ∀ {u v : Session},
      u = { s with store := s.store.reclaimPending } →
      v = { t with store := t.store.reclaimPending } → R u v →
      Chorus R cs ds (executeBatch (.at true) stop cs u) (executeBatch (.at true) stop ds v)) :
    Unison R false s t (some (.compute cs stop ending)) (some (.compute ds stop ending)) := by
  have hd : t.store.disposed = s.store.disposed := by rw [k.alike h]; rfl
  cases ho : s.store.disposed with
  | true =>
    have hx : execute (.at false) (.compute cs stop ending) s = _ :=
      execute_compute_of_disposed ho cs stop ending
    have hy : execute (.at false) (.compute ds stop ending) t = _ :=
      execute_compute_of_disposed (hd.trans ho) ds stop ending
    refine .of_view rfl rfl ?_ ?_
    · rw [hx, hy]
      simp only [Command.view, viewAll_nil]
    · rw [hx, hy]
      exact h
  | false =>
    have hset := k.change h (.settle : Mutation Element Unit) rfl
    rw [Mutation.run_settle ho, Mutation.run_settle (hd.trans ho)] at hset
    have hb := hb ho rfl rfl hset
    obtain ⟨hps, hpt⟩ := k.passive hb.session
    have hflush := k.flush hb.session
    rw [← deliver_post hps, ← deliver_post hpt] at hflush
    have hx : execute (.at false) (.compute cs stop ending) s = _ :=
      execute_compute ho cs stop ending
    have hy : execute (.at false) (.compute ds stop ending) t = _ :=
      execute_compute (hd.trans ho) ds stop ending
    have hfailure : (executeBatch .batched stop cs _).2.1 = (executeBatch .batched stop ds _).2.1 :=
      hb.failure
    refine .of_view rfl rfl ?_ ?_
    · rw [hx, hy]
      exact congrArg₂ Answer.batch hb.view (congrArg (batchEnd · ending) hfailure)
    · rw [hx, hy]
      dsimp only
      rw [← hfailure]
      split
      · exact k.post hb.session
      · exact hflush

theorem walked (h : R s t) {i : Nat} {form : WalkForm} {ws ws' : List WalkStep}
    (hw : ∀ snapshot cursor, s.claim i false = .ok snapshot →
      snapshot.cursor s.store = .ok cursor → R (s.addUse i) (t.addUse i) →
      Stroll R ws ws' (executeWalk (.at b) form ws cursor (s.addUse i))
        (executeWalk (.at b) form ws' cursor (t.addUse i))) :
    Unison R b s t (some (.walk i form ws)) (some (.walk i form ws')) := by
  have hl := k.lockstep b
  have hc := hl.claim h i false
  rcases hs : s.claim i false with e | snapshot <;> rw [hs] at hc
  · refine .of_view rfl rfl ?_ ?_ <;> rw [execute_walk_of_misuse hs, execute_walk_of_misuse hc]
    · rfl
    · exact h
  have hcur := hl.cursor h snapshot
  rcases hs' : snapshot.cursor s.store with e | cursor <;> rw [hs'] at hcur
  · refine .of_view rfl rfl ?_ ?_ <;>
      rw [execute_walk_of_failed hs hs', execute_walk_of_failed hc hcur]
    · rfl
    · exact h
  have hw := hw snapshot cursor hs hs' (hl.setEntry h i _)
  refine .of_view rfl rfl ?_ ?_ <;> rw [execute_walk hs hs', execute_walk hc hcur]
  · exact hw.answer i form
  · exact hl.setEntry hw.session i _

omit k

mutual

theorem part (k : Concord R Fit) {b : Bool} (p : Part) {s t : Session} (h : R s t)
    (hf : p.Fits Fit b s t) :
    Unison R b s t (p.on .left) (p.on .right) := by
  cases p with
  | single c hc =>
    have ha := k.single b h hc
    refine .of_view (Command.aside_of_single hc) (Command.aside_of_single hc) ?_ ha.session
    rw [Command.view_of_single hc, Command.view_of_single hc]
    exact ha.answer
  | compute ps stop ending =>
    cases b with
    | true => exact compute_batched ending (k.batch stop ps h hf)
    | false =>
      refine k.compute_outermost h ending fun ho u v hu hv huv => ?_
      subst hu hv
      exact k.batch stop ps huv (hf ho)
  | walk i form steps =>
    exact k.walked h fun snapshot cursor hs hc hw => k.walk form steps cursor hw (hf _ _ hs hc)
  | aside l r hl hr => exact .of_asides hl hr (k.aside h b hl hr hf)

theorem batch (k : Concord R Fit) {b : Bool} (stop : Bool) (ps : List Part) {s t : Session}
    (h : R s t) (hf : fitsBatch Fit b stop ps s t) :
    Chorus R (partsOn .left ps) (partsOn .right ps)
      (executeBatch (.at b) stop (partsOn .left ps) s)
      (executeBatch (.at b) stop (partsOn .right ps) t) := by
  cases ps with
  | nil => exact ⟨rfl, rfl, h⟩
  | cons p ps =>
    have hu := k.part p h hf.1
    rw [partsOn, partsOn, executeBatch_append, executeBatch_append, hu.halt]
    rcases hh : Session.halt stop (s.replies b (p.on .left)) with _ | e
    · have hb := k.batch stop ps hu.session (hf.2 hh)
      refine ⟨?_, hb.failure, hb.session⟩
      dsimp only
      rw [viewAll_replies, viewAll_replies, hu.view, hb.view]
    · refine ⟨?_, rfl, hu.session⟩
      dsimp only
      rw [viewAll_halted, viewAll_halted, hu.view]

theorem walk (k : Concord R Fit) {b : Bool} (form : WalkForm) (steps : List StepPart)
    (cursor : Cursor) {s t : Session} (h : R s t) (hf : fitsWalk Fit b steps s t) :
    Stroll R (stepsOn .left steps) (stepsOn .right steps)
      (executeWalk (.at b) form (stepsOn .left steps) cursor s)
      (executeWalk (.at b) form (stepsOn .right steps) cursor t) := by
  have hlinks : t.store.links = s.store.links := by rw [k.alike h]; rfl
  cases steps with
  | nil => exact ⟨rfl, h⟩
  | cons step steps =>
    cases step with
    | front =>
      have hw := k.walk form steps (cursor.nextFront s.store.links).2 h hf
      rw [stepsOn, stepsOn, executeWalk, executeWalk, hlinks]
      exact hw.step _ fun _ _ => rfl
    | back =>
      have hw := k.walk form steps (cursor.nextBack s.store.links).2 h hf
      rw [stepsOn, stepsOn, executeWalk, executeWalk, hlinks]
      exact hw.step _ fun _ _ => rfl
    | hint =>
      have hw := k.walk form steps cursor h hf
      rw [stepsOn, stepsOn, executeWalk, executeWalk]
      exact hw.step _ fun _ _ => rfl
    | part p =>
      have hu := k.part p h hf.1
      rw [stepsOn, stepsOn, executeWalk_append, executeWalk_append, hu.panics]
      cases hp : (s.replies b (p.on .left)).any Answer.panics with
      | true => exact ⟨rfl, hu.session⟩
      | false =>
        have hw := k.walk form steps cursor hu.session (hf.2 hp)
        refine hw.map _ (viewSteps_replies (p.on .left) _) fun as => ?_
        rw [viewSteps_replies, hu.view]

end

end Concord

/-! ## The moments of two sessions -/

/-- Two sequences that are the same up to `S`, and up to pauses in either. -/
inductive Abreast {β γ : Type} (S : β → γ → Prop) : List β → List γ → Prop
  | nil : Abreast S [] []
  | both {x : β} {y : γ} {xs : List β} {ys : List γ} (meet : S x y) (rest : Abreast S xs ys) :
    Abreast S (x :: xs) (y :: ys)
  | left {x : β} {y : γ} {xs : List β} {ys : List γ} (meet : S x y)
      (rest : Abreast S xs (y :: ys)) : Abreast S (x :: xs) (y :: ys)
  | right {x : β} {y : γ} {xs : List β} {ys : List γ} (meet : S x y)
      (rest : Abreast S (x :: xs) ys) : Abreast S (x :: xs) (y :: ys)

theorem Abreast.append {β γ : Type} {S : β → γ → Prop} {xs xs' : List β} {ys ys' : List γ}
    (h : Abreast S xs ys) (h' : Abreast S xs' ys') : Abreast S (xs ++ xs') (ys ++ ys') := by
  induction h with
  | nil => exact h'
  | both meet _ ih => exact .both meet ih
  | left meet _ ih => exact .left meet ih
  | right meet _ ih => exact .right meet ih

theorem Abreast.symm {β γ : Type} {S : β → γ → Prop} {xs : List β} {ys : List γ}
    (h : Abreast S xs ys) : Abreast (fun y x => S x y) ys xs := by
  induction h with
  | nil => exact .nil
  | both meet _ ih => exact .both meet ih
  | left meet _ ih => exact .right meet ih
  | right meet _ ih => exact .left meet ih

theorem Abreast.exists_head {β γ : Type} {S : β → γ → Prop} {x : β} {xs : List β} {ys : List γ}
    (h : Abreast S (x :: xs) ys) : ∃ y ys', ys = y :: ys' ∧ S x y := by
  cases h with
  | both meet _ => exact ⟨_, _, rfl, meet⟩
  | left meet _ => exact ⟨_, _, rfl, meet⟩
  | right meet _ => exact ⟨_, _, rfl, meet⟩

theorem Abreast.trans {β γ δ : Type} {S : β → γ → Prop} {T : γ → δ → Prop} {U : β → δ → Prop}
    {xs : List β} {ys : List γ} {zs : List δ} (h : Abreast S xs ys) (h' : Abreast T ys zs)
    (hU : ∀ {x y z}, S x y → T y z → U x z) : Abreast U xs zs := by
  induction h generalizing zs with
  | nil =>
    cases h'
    exact .nil
  | @both x y xs ys meet _ ih =>
    generalize hl : y :: ys = l at h'
    induction h' with
    | nil => cases hl
    | both meet' rest' _ =>
      cases hl
      exact .both (hU meet meet') (ih rest')
    | left meet' rest' _ =>
      cases hl
      exact .left (hU meet meet') (ih rest')
    | right meet' _ ih' =>
      cases hl
      exact .right (hU meet meet') (ih' rfl)
  | left meet _ ih =>
    obtain ⟨z, zs', rfl, meet'⟩ := h'.exists_head
    exact .left (hU meet meet') (ih h')
  | @right x y xs ys meet _ ih =>
    generalize hl : y :: ys = l at h'
    induction h' with
    | nil => cases hl
    | both meet' rest' _ =>
      cases hl
      exact .right (hU meet meet') (ih rest')
    | left _ rest' _ =>
      cases hl
      exact ih rest'
    | right meet' _ ih' =>
      cases hl
      exact .right (hU meet meet') (ih' rfl)

/-- Two sequences may be continued where they meet. -/
theorem Abreast.join {β γ : Type} {S : β → γ → Prop} {x : β} {y : γ} {xs xs' : List β}
    {ys ys' : List γ} (h : Abreast S (xs ++ [x]) (ys ++ [y])) (h' : Abreast S (x :: xs') (y :: ys')) :
    Abreast S (xs ++ x :: xs') (ys ++ y :: ys') := by
  generalize hl : xs ++ [x] = l at h
  generalize hr : ys ++ [y] = r at h
  induction h generalizing xs ys with
  | nil => simp at hl
  | both meet rest ih =>
    rcases xs with _ | ⟨a, xs⟩ <;> rcases ys with _ | ⟨c, ys⟩ <;> cases hl <;> cases hr
    · exact h'
    · cases ys <;> cases rest
    · cases xs <;> cases rest
    · exact .both meet (ih rfl rfl)
  | left meet rest ih =>
    rcases xs with _ | ⟨a, xs⟩ <;> cases hl
    · cases rest
    · have hrest := ih rfl hr
      rcases ys with _ | ⟨c, ys⟩ <;> cases hr <;> exact .left meet hrest
  | right meet rest ih =>
    rcases ys with _ | ⟨c, ys⟩ <;> cases hr
    · cases rest
    · have hrest := ih hl rfl
      rcases xs with _ | ⟨a, xs⟩ <;> cases hl <;> exact .right meet hrest

theorem Abreast.map {β γ β' γ' : Type} {S : β → γ → Prop} {S' : β' → γ' → Prop} {f : β → β'}
    {g : γ → γ'} (hS : ∀ {x y}, S x y → S' (f x) (g y)) {xs : List β} {ys : List γ}
    (h : Abreast S xs ys) : Abreast S' (xs.map f) (ys.map g) := by
  induction h with
  | nil => exact .nil
  | both meet _ ih => exact .both (hS meet) ih
  | left meet _ ih => exact .left (hS meet) ih
  | right meet _ ih => exact .right (hS meet) ih

/-- Two moments, both in a batch or both outside, at which the sessions have `R` in common. -/
def Moment.Meets (R : Session → Session → Prop) (x y : Moment) : Prop :=
  x.batch = y.batch ∧ R x.session y.session

namespace Concord

theorem abreast_asides (h : R s t) (hl : ∀ c ∈ l, c.Aside) (hr : ∀ c ∈ r, c.Aside)
    (h' : R (s.obeying b l) (t.obeying b r)) :
    Abreast (Moment.Meets R) (s.course b l ++ [⟨b, s.obeying b l⟩])
      (t.course b r ++ [⟨b, t.obeying b r⟩]) := by
  have hcourse : ∀ {u : Session} {c : Command}, c.Aside → u.course b (some c) = [⟨b, u⟩] :=
    fun hc => congrArg (_ :: ·) (trail_of_aside hc.aside _)
  have last : ∀ {u v : Session}, R u v → Abreast (Moment.Meets R) [⟨b, u⟩] [⟨b, v⟩] :=
    fun huv => .both ⟨rfl, huv⟩ .nil
  rcases l with _ | c <;> rcases r with _ | d
  · exact last h'
  · rw [hcourse (hr d rfl)]
    exact .right ⟨rfl, h⟩ (last h')
  · rw [hcourse (hl c rfl)]
    exact .left ⟨rfl, h⟩ (last h')
  · rw [hcourse (hl c rfl), hcourse (hr d rfl)]
    exact .both ⟨rfl, h⟩ (last h')

variable (k : Concord R Fit)

include k

theorem abreast_single (b : Bool) (h : R s t) {c : Command} (hc : c.single = true) :
    Abreast (Moment.Meets R) (trail (.at b) c s) (trail (.at b) c t) := by
  have hcall : ∀ call : Call,
      Abreast (Moment.Meets R) (callTrail (.at b) call s) (callTrail (.at b) call t) := by
    intro call
    cases call with
    | live =>
      have hd : t.store.disposed = s.store.disposed := by rw [k.alike h]; rfl
      dsimp only [callTrail]
      rw [hd]
      split
      · exact .nil
      · exact .both ⟨rfl, (k.lockstep b).change h .openSnapshot rfl⟩ .nil
    | _ => exact .nil
  cases c with
  | call call => exact hcall call
  | txn call =>
    dsimp only [trail]
    split
    · exact hcall call
    · exact .nil
  | snapshot i call => exact .nil
  | close i => exact .nil
  | drop i => exact .nil
  | _ => cases hc

omit k

mutual

theorem abreast (k : Concord R Fit) {b : Bool} (p : Part) {s t : Session} (h : R s t)
    (hf : p.Fits Fit b s t) :
    Abreast (Moment.Meets R) (s.course b (p.on .left) ++ [⟨b, s.obeying b (p.on .left)⟩])
      (t.course b (p.on .right) ++ [⟨b, t.obeying b (p.on .right)⟩]) := by
  have hlast : Abreast (Moment.Meets R) [⟨b, s.obeying b (p.on .left)⟩]
      [⟨b, t.obeying b (p.on .right)⟩] := .both ⟨rfl, (k.part p h hf).session⟩ .nil
  cases p with
  | single c hc => exact .both ⟨rfl, h⟩ ((k.abreast_single b h hc).append hlast)
  | aside l r hl hr => exact abreast_asides h hl hr (k.aside h b hl hr hf)
  | compute ps stop ending =>
    refine .both ⟨rfl, h⟩ (Abreast.append ?_ hlast)
    cases b with
    | true => exact k.abreast_batch stop ps h hf
    | false =>
      have hd : t.store.disposed = s.store.disposed := by rw [k.alike h]; rfl
      dsimp only [trail]
      cases ho : s.store.disposed with
      | true =>
        rw [Mutation.run_of_disposed (m := .settle) ho rfl,
          Mutation.run_of_disposed (m := .settle) (hd.trans ho) rfl]
        exact .nil
      | false =>
        have hset := k.change h (.settle : Mutation Element Unit) rfl
        rw [Mutation.run_settle ho, Mutation.run_settle (hd.trans ho)] at hset ⊢
        exact k.abreast_batch (b := true) stop ps hset (hf ho)
  | walk i form steps =>
    refine .both ⟨rfl, h⟩ (Abreast.append ?_ hlast)
    have hl := k.lockstep b
    dsimp only [trail]
    rw [hl.claim h]
    rcases hs : s.claim i false with e | snapshot
    · exact .nil
    · dsimp only
      rw [hl.cursor h]
      rcases hc : snapshot.cursor s.store with e | cursor
      · exact .nil
      · exact k.abreast_walk steps (hl.setEntry h i _) (hf snapshot cursor hs hc)

theorem abreast_batch (k : Concord R Fit) {b : Bool} (stop : Bool) (ps : List Part)
    {s t : Session} (h : R s t) (hf : fitsBatch Fit b stop ps s t) :
    Abreast (Moment.Meets R) (trailBatch (.at b) stop (partsOn .left ps) s)
      (trailBatch (.at b) stop (partsOn .right ps) t) := by
  cases ps with
  | nil => exact .both ⟨rfl, h⟩ .nil
  | cons p ps =>
    have hu := k.part p h hf.1
    rw [partsOn, partsOn, trailBatch_append, trailBatch_append, hu.halt]
    rcases hh : Session.halt stop (s.replies b (p.on .left)) with _ | e
    · have hb := k.abreast_batch stop ps hu.session (hf.2 hh)
      obtain ⟨xs, hx⟩ := exists_trailBatch b stop (s.obeying b (p.on .left))
        (partsOn .left ps)
      obtain ⟨ys, hy⟩ := exists_trailBatch b stop (t.obeying b (p.on .right))
        (partsOn .right ps)
      dsimp only
      rw [hx, hy] at hb ⊢
      exact (k.abreast p h hf.1).join hb
    · exact k.abreast p h hf.1

theorem abreast_walk (k : Concord R Fit) {b : Bool} (steps : List StepPart) {s t : Session}
    (h : R s t) (hf : fitsWalk Fit b steps s t) :
    Abreast (Moment.Meets R) (trailWalk (.at b) (stepsOn .left steps) s)
      (trailWalk (.at b) (stepsOn .right steps) t) := by
  cases steps with
  | nil => exact .both ⟨rfl, h⟩ .nil
  | cons step steps =>
    cases step with
    | front => exact k.abreast_walk steps h hf
    | back => exact k.abreast_walk steps h hf
    | hint => exact k.abreast_walk steps h hf
    | part p =>
      have hu := k.part p h hf.1
      rw [stepsOn, stepsOn, trailWalk_append, trailWalk_append, hu.panics]
      cases hp : (s.replies b (p.on .left)).any Answer.panics with
      | true => exact k.abreast p h hf.1
      | false =>
        have hw := k.abreast_walk steps hu.session (hf.2 hp)
        obtain ⟨xs, hx⟩ := exists_trailWalk b (s.obeying b (p.on .left))
          (stepsOn .left steps)
        obtain ⟨ys, hy⟩ := exists_trailWalk b (t.obeying b (p.on .right))
          (stepsOn .right steps)
        rw [if_neg Bool.false_ne_true, if_neg Bool.false_ne_true]
        rw [hx, hy] at hw ⊢
        exact (k.abreast p h hf.1).join hw

end

end Concord

/-! ## Whole sessions -/

/-- What two whole sessions come to. -/
structure Played (S : Session → Session → Prop) (s t : Session) (h h' : List Heard)
    (cs ds : List Command) : Prop where
  view : viewAll cs (s.answers cs) = viewAll ds (t.answers ds)
  outcome : S (s.outcome h cs) (t.outcome h' ds)
  moments : Abreast (Moment.Meets S) (s.moments h cs) (t.moments h' ds)

/-- What sessions have in common they keep throughout a score. -/
theorem Concord.played {S : Session → Session → Prop}
    (k : ∀ h h', Concord (fun s t => S (s.heardAfter h) (t.heardAfter h')) Fit) (ps : List Part)
    {h h' : List Heard} (hs : S (s.heardAfter h) (t.heardAfter h')) (hf : fitsRun Fit ps s t) :
    Played S s t h h' (partsOn .left ps) (partsOn .right ps) := by
  induction ps generalizing s t h h' with
  | nil =>
    refine ⟨rfl, ?_, .both ⟨rfl, hs⟩ .nil⟩
    change S (s.heardAfter (h ++ [])) (t.heardAfter (h' ++ []))
    rwa [List.append_nil, List.append_nil]
  | cons p ps ih =>
    have hu := (k h h').part p hs hf.1
    have hm := (k h h').abreast p hs hf.1
    have hnext : S ((s.obeying false (p.on .left)).heardAfter h)
        ((t.obeying false (p.on .right)).heardAfter h') := hu.session
    rw [← heardAfter_stepped, ← heardAfter_stepped] at hnext
    have hp := ih hnext hf.2
    rw [partsOn, partsOn]
    refine ⟨?_, ?_, ?_⟩
    · rw [answers_append, answers_append, viewAll_replies, viewAll_replies, hu.view, hp.view]
    · rw [outcome_append, outcome_append]
      exact hp.outcome
    · have hmoments := hp.moments
      obtain ⟨xs, hx⟩ := exists_moments (s.stepped (p.on .left))
        (h ++ s.hearing (p.on .left)) (partsOn .left ps)
      obtain ⟨ys, hy⟩ := exists_moments (t.stepped (p.on .right))
        (h' ++ t.hearing (p.on .right)) (partsOn .right ps)
      rw [moments_append, moments_append]
      rw [hx, hy, heardAfter_stepped, heardAfter_stepped] at hmoments ⊢
      have hcourse : Abreast (Moment.Meets S) (_ : List Moment) _ :=
        hm.map (f := Moment.heardAfter h) (g := Moment.heardAfter h') fun hxy => hxy
      rw [List.map_append, List.map_append] at hcourse
      exact hcourse.join hmoments

end SnapshotDeque.Session
