import SnapshotDeque.Proofs.Lockstep
import SnapshotDeque.Proofs.Moments

/-!
Batches and the commands that they are made of. In a batch events wait that would be delivered
outside; as long as no observer calls the deque that is the only difference. Main statement: a batch
comes to what its commands come to one by one, and to the same however it ends.
-/

namespace SnapshotDeque

namespace Session

/-! ## Observers that do not call the deque -/

/-- Whether a callback gives no commands. -/
def Behaviour.Passive : Behaviour → Prop
  | silent => True
  | note _ => True
  | react times cs after => (times = 0 ∨ cs = []) ∧ after.Passive

def Observer.Passive : Observer → Prop
  | scripted _ onLink onUnlink onDispose => onLink.Passive ∧ onUnlink.Passive ∧ onDispose.Passive
  | _ => True

/-- Whether no registered observer calls the deque. -/
def Passive (s : Session) : Prop :=
  ∀ id ∈ s.registered, ∀ o, s.observer? id = some o → o.Passive

theorem Behaviour.Passive.turn {b : Behaviour} (h : b.Passive) :
    b.turn.next.Passive ∧ ∀ cs, b.turn.commands = some cs → cs = [] := by
  fun_induction Behaviour.turn b with
  | case1 => exact ⟨h, fun _ hc => by cases hc⟩
  | case2 v => exact ⟨h, fun _ hc => by cases hc⟩
  | case3 cs after ih => exact ih h.2
  | case4 n cs after =>
    obtain ⟨h0 | rfl, ha⟩ := h
    · cases h0
    · exact ⟨⟨Or.inr rfl, ha⟩, fun _ hc => (Option.some.inj hc).symm⟩

theorem Observer.Passive.respond {o : Observer} (h : o.Passive) (e : Event Element) :
    (o.respond e).next.Passive ∧ ∀ cs, (o.respond e).commands = some cs → cs = [] := by
  cases o with
  | silent => exact ⟨trivial, fun _ hc => by cases hc⟩
  | counting ls us ds => cases e <;> exact ⟨trivial, fun _ hc => by cases hc⟩
  | scripted tag l u d =>
    obtain ⟨hl, hu, hd⟩ := h
    cases e with
    | link x side v => exact ⟨⟨hl.turn.1, hu, hd⟩, hl.turn.2⟩
    | unlink x v => exact ⟨⟨hl, hu.turn.1, hd⟩, hu.turn.2⟩
    | dispose a => exact ⟨⟨hl, hu, hd.turn.1⟩, hd.turn.2⟩

/-! ## Audiences -/

/-- The observers of a session, and what they heard. -/
structure Audience where
  observers : Array Observer
  heard : List Heard

def audience (s : Session) : Audience := ⟨s.observers, s.heard⟩

/-- The session with another audience. -/
def before (s : Session) (a : Audience) : Session :=
  { s with observers := a.observers, heard := a.heard }

namespace Audience

def observer? (a : Audience) (id : ObserverId) : Option Observer :=
  if id.val = 0 then none else a.observers[id.val - 1]?

/-- A call of an observer that does not call the deque. -/
def hear (a : Audience) (c : ObserverId × Event Element) : Audience :=
  match a.observer? c.1 with
  | none => a
  | some o =>
    let r := o.respond c.2
    let reaction := match r.commands with
      | none => []
      | some _ => [.reaction (r.tag.getD "") []]
    { observers := a.observers.setIfInBounds (c.1.val - 1) r.next
      heard := a.heard ++ [.call c.1 c.2 r.tag] ++ reaction }

def hears (a : Audience) (calls : List (ObserverId × Event Element)) : Audience :=
  calls.foldl hear a

end Audience

variable {s t : Session} {m : Mode} {ρ : Type}

theorem hear_eq {id : ObserverId} (hp : ∀ o, s.observer? id = some o → o.Passive)
    (e : Event Element) : s.hear id e = s.before (s.audience.hear (id, e)) := by
  unfold hear Audience.hear
  change (match s.observer? id with | none => _ | some o => _) =
    s.before (match s.observer? id with | none => _ | some o => _)
  rcases ho : s.observer? id with _ | o
  · rfl
  · have hc := ((hp o ho).respond e).2
    dsimp only
    rcases hr : (o.respond e).commands with _ | cs
    · simp only [List.append_nil]
      rfl
    · rw [hc cs hr]
      rfl

theorem Passive.hear (hp : s.Passive) {id : ObserverId} (hid : id ∈ s.registered)
    (e : Event Element) : (s.hear id e).Passive := by
  rw [hear_eq (hp id hid)]
  intro j hj o hjo
  change (s.audience.hear (id, e)).observer? j = some o at hjo
  have hs : ∀ i, s.audience.observer? i = s.observer? i := fun _ => rfl
  unfold Audience.hear at hjo
  rw [hs] at hjo
  rcases ho : s.observer? id with _ | p <;> rw [ho] at hjo
  · exact hp j hj o hjo
  · change (if j.val = 0 then none else (s.observers.setIfInBounds _ _)[j.val - 1]?) = _ at hjo
    split at hjo
    · cases hjo
    · rename_i hz
      rw [Array.getElem?_setIfInBounds] at hjo
      split at hjo
      · split at hjo
        · cases hjo
          exact ((hp id hid p ho).respond e).1
        · cases hjo
      · refine hp j hj o ?_
        rw [observer?, if_neg hz]
        exact hjo

theorem calls_append (s : Session) (es fs : List (Event Element)) :
    s.calls (es ++ fs) = s.calls es ++ s.calls fs := List.flatMap_append

/-- Delivery to observers that do not call the deque. -/
theorem deliverFrom_eq (due : List (ObserverId × Event Element)) (hp : s.Passive)
    (hd : ∀ c ∈ due, c.1 ∈ s.registered) :
    deliverFrom due s = ({ s with outbox := [] } : Session).before
      (s.audience.hears (due ++ s.calls s.outbox.flatten)) := by
  fun_induction deliverFrom due s with
  | case1 s id e due ih =>
    have hid : id ∈ s.registered := hd (id, e) (List.mem_cons_self ..)
    have hh := hear_eq (hp id hid) e
    have hr : (s.hear id e).registered = s.registered := by rw [hh]; rfl
    rw [ih (hp.hear hid e) fun c hc => hr ▸ hd c (List.mem_cons_of_mem _ hc), hh]
    rfl
  | case2 s hs =>
    rw [hs]
    cases s
    cases hs
    rfl
  | case3 s events outbox hs ih =>
    rw [ih hp fun c hc => registered_of_mem_calls hc, hs, List.flatten_cons, calls_append]
    rfl

/-- The session with everything delivered that waits. -/
def flush (s : Session) : Session :=
  ({ s with store := { s.store with events := [] }, outbox := [] } : Session).before
    (s.audience.hears (s.calls (s.outbox.flatten ++ s.store.events)))

/-- Posting moves what is recorded to the end of the queue. -/
theorem exists_post (s : Session) : ∃ outbox,
    s.post = { s with store := { s.store with events := [] }, outbox } ∧
      outbox.flatten = s.outbox.flatten ++ s.store.events := by
  unfold post
  split
  next h =>
    refine ⟨s.outbox, ?_, by rw [h, List.append_nil]⟩
    cases s with
    | mk store =>
      cases store
      cases h
      rfl
  next => exact ⟨_, rfl, by rw [List.flatten_append, List.flatten_singleton]⟩

theorem deliver_post (hp : s.Passive) : s.post.deliver = s.flush := by
  obtain ⟨outbox, hpost, hflat⟩ := s.exists_post
  have hp' : s.post.Passive := by
    rw [hpost]
    exact hp
  rw [deliver, deliverFrom_eq [] hp' fun c hc => absurd hc List.not_mem_nil, flush, ← hflat, hpost]
  rfl

theorem Passive.flush (hp : s.Passive) : s.flush.Passive := by
  have hall : ∀ (calls : List (ObserverId × Event Element)) {t : Session}, t.Passive →
      (∀ c ∈ calls, c.1 ∈ t.registered) → (t.before (t.audience.hears calls)).Passive := by
    intro calls
    induction calls with
    | nil => exact fun ht _ => ht
    | cons c calls ih =>
      intro t ht hc
      have hid := hc c (List.mem_cons_self ..)
      have hh := hear_eq (ht c.1 hid) c.2
      have h := ih (ht.hear hid c.2) (fun d hd => by
        rw [hh]
        exact hc d (List.mem_cons_of_mem _ hd))
      rw [hh] at h
      exact h
  exact hall _ (t := { s with store := _, outbox := [] }) hp fun _ hc => registered_of_mem_calls hc

/-! ## Commands in a batch and outside -/

mutual

/-- Whether a command is no batch and asks nothing of observers. -/
def Command.plain : Command → Bool
  | .call c => c.plain
  | .txn c => c.plain
  | .register _ => false
  | .compute .. => false
  | .walk _ _ steps => plainSteps steps
  | _ => true

def WalkStep.plain : WalkStep → Bool
  | .command c => c.plain
  | _ => true

def plainSteps : List WalkStep → Bool
  | [] => true
  | w :: ws => w.plain && plainSteps ws

end

mutual

/-- The command with calls on the deque in place of those on the transaction. -/
def Command.direct : Command → Command
  | .txn c => .call c
  | .walk k form steps => .walk k form (directSteps steps)
  | c => c

def WalkStep.direct : WalkStep → WalkStep
  | .command c => .command c.direct
  | w => w

def directSteps : List WalkStep → List WalkStep
  | [] => []
  | w :: ws => w.direct :: directSteps ws

end

/-- What a command comes to in a batch and outside, begun in `s` and where `s` is with everything
delivered: the answers are the same, and after the batch only the delivery is missing. -/
structure Defers (s : Session) {β : Type} (x y : β × Session) : Prop where
  caughtUp : y = (x.1, x.2.flush)
  audience : x.2.audience = s.audience
  registered : x.2.registered = s.registered

variable {β γ : Type} {x y : β × Session}

namespace Defers

theorem passive (h : Defers s x y) (hp : s.Passive) : x.2.Passive := by
  intro id hid o ho
  rw [h.registered] at hid
  have hobs : x.2.observers = s.observers := congrArg Audience.observers h.audience
  unfold observer? at ho
  rw [hobs] at ho
  exact hp id hid o ho

theorem refl (s : Session) (b : β) : Defers s (b, s) (b, s.flush) := ⟨rfl, rfl, rfl⟩

/-- The tables make no difference to anyone. -/
theorem map (h : Defers t x y) (ha : t.audience = s.audience) (hr : t.registered = s.registered)
    (f : β → γ) {g : Session → Session} (hg : ∀ u, (g u).flush = g u.flush)
    (hga : ∀ u, (g u).audience = u.audience) (hgr : ∀ u, (g u).registered = u.registered) :
    Defers s (f x.1, g x.2) (f y.1, g y.2) where
  caughtUp := by rw [h.caughtUp, hg]
  audience := (hga _).trans (h.audience.trans ha)
  registered := (hgr _).trans (h.registered.trans hr)

theorem trans {z w : γ × Session} (h : Defers s x y) (h' : Defers x.2 z w) : Defers s z w :=
  ⟨h'.caughtUp, h'.audience.trans h.audience, h'.registered.trans h.registered⟩

end Defers

/-- What is delivered early need not be delivered late. -/
theorem flush_store (s : Session) (t : Store Element) :
    ({ s.flush with store := t } : Session).flush =
      ({ s with store := t.preceded s.store.events } : Session).flush := by
  have h : s.audience.hears (s.calls (s.outbox.flatten ++ (s.store.events ++ t.events))) =
      (s.audience.hears (s.calls (s.outbox.flatten ++ s.store.events))).hears
        (s.calls t.events) := by
    rw [← List.append_assoc, calls_append, Audience.hears, List.foldl_append]
    rfl
  change _ = Session.before _
    (s.audience.hears (s.calls (s.outbox.flatten ++ (s.store.events ++ t.events))))
  rw [h]
  rfl

/-- It makes no difference whether what waits was posted. -/
theorem flush_post (s : Session) (t : Store Element) :
    ({ s.post with store := t } : Session).flush =
      ({ s with store := t.preceded s.store.events } : Session).flush := by
  obtain ⟨outbox, hpost, hflat⟩ := s.exists_post
  have h : outbox.flatten ++ t.events = s.outbox.flatten ++ (s.store.events ++ t.events) := by
    rw [hflat, List.append_assoc]
  rw [hpost]
  change Session.before _ (s.audience.hears (s.calls (outbox.flatten ++ t.events))) = _
  rw [h]
  rfl

/-- A change outside of batches, if observers do not call the deque. -/
theorem change_outermost (hp : s.Passive) (x : Mutation Element ρ) : s.change .outermost x =
    ((x.run s.store).1, ({ s with store := (x.run s.store).2 } : Session).flush) :=
  congrArg (Prod.mk _) (deliver_post (s := { s with store := (x.run s.store).2 }) hp)

/-- A change makes the same difference in a batch, and its events come behind those that wait. -/
theorem defers_change (hp : s.Passive) (x : Mutation Element ρ) :
    Defers s (s.change .batched x) (s.flush.change .outermost x) where
  caughtUp := by
    have hrun := x.run_preceded { s.store with events := [] } s.store.events
    rw [Store.preceded_events] at hrun
    rw [change_outermost hp.flush]
    change _ = ((x.run s.store).1, ({ s with store := (x.run s.store).2 } : Session).flush)
    rw [hrun]
    exact congrArg (Prod.mk _) (flush_store s _)
  audience := rfl
  registered := rfl

/-- Sessions on the way from `s`: in the second one nothing waits any more. -/
structure CaughtUp (s u v : Session) : Prop where
  flushed : v = u.flush
  audience : u.audience = s.audience
  registered : u.registered = s.registered

theorem Defers.of_agree {x y : Answer × Session} (h : Agree (CaughtUp s) id x y) :
    Defers s x y :=
  ⟨Prod.ext h.answer.symm h.session.flushed, h.session.audience, h.session.registered⟩

/-- In a batch and outside, nothing but the delivery is missing. -/
theorem lockstep_caughtUp (hp : s.Passive) : Lockstep (CaughtUp s) id .batched .outermost where
  alike h := by rw [h.flushed]; rfl
  tables h _ _ := ⟨by rw [h.flushed]; rfl, h.audience, h.registered⟩
  change {u v} h _ x _ := by
    have hu : u.Passive := Defers.passive (x := (u, u)) (y := (u, u.flush))
      ⟨rfl, h.audience, h.registered⟩ hp
    have hd := defers_change hu x
    rw [h.flushed, hd.caughtUp]
    exact ⟨rfl, hd.audience.trans h.audience, hd.registered.trans h.registered⟩
  stats h := by rw [h.flushed]; rfl
  report h := by rw [h.flushed]; rfl

theorem CaughtUp.refl (s : Session) : CaughtUp s s s.flush := ⟨rfl, rfl, rfl⟩

mutual

theorem defers_execute {c : Command} (hc : c.plain = true) {s : Session} (hp : s.Passive) :
    Defers s (execute .batched c s) (execute .outermost c.direct s.flush) := by
  cases c with
  | call call => exact .of_agree ((lockstep_caughtUp hp).perform (.refl s) hc)
  | txn call => exact .of_agree ((lockstep_caughtUp hp).perform (.refl s) hc)
  | snapshot k call => exact .of_agree ((lockstep_caughtUp hp).onSnapshot (.refl s) k call)
  | close k => exact .of_agree ((lockstep_caughtUp hp).close (.refl s) k)
  | drop k => exact .of_agree ((lockstep_caughtUp hp).drop (.refl s) k)
  | register o => cases hc
  | compute cs stop ending => cases hc
  | walk k form steps =>
    dsimp only [execute, Command.direct]
    rw [show s.flush.claim k false = s.claim k false from rfl]
    rcases s.claim k false with e | snapshot
    · exact .refl s _
    · dsimp only
      rw [show snapshot.cursor s.flush.store = snapshot.cursor s.store from rfl]
      rcases snapshot.cursor s.store with e | cursor
      · exact .refl s _
      · have h := defers_executeWalk form cursor hc (s := s.addUse k) hp
        exact h.map (s := s) rfl rfl (·.elim Answer.panicked Answer.walk) (g := (·.endUse k))
          (fun _ => rfl) (fun _ => rfl) fun _ => rfl

theorem defers_executeWalk (form : WalkForm) (cursor : Cursor) {steps : List WalkStep}
    (hs : plainSteps steps = true) {s : Session} (hp : s.Passive) :
    Defers s (executeWalk .batched form steps cursor s)
      (executeWalk .outermost form (directSteps steps) cursor s.flush) := by
  cases steps with
  | nil => exact .refl s _
  | cons step steps =>
    obtain ⟨hstep, hsteps⟩ := Bool.and_eq_true_iff.1 hs
    cases step with
    | front =>
      exact (defers_executeWalk form _ hsteps hp).map (s := s) rfl rfl _ (g := id) (fun _ => rfl)
        (fun _ => rfl) fun _ => rfl
    | back =>
      exact (defers_executeWalk form _ hsteps hp).map (s := s) rfl rfl _ (g := id) (fun _ => rfl)
        (fun _ => rfl) fun _ => rfl
    | hint =>
      exact (defers_executeWalk form _ hsteps hp).map (s := s) rfl rfl _ (g := id) (fun _ => rfl)
        (fun _ => rfl) fun _ => rfl
    | command d =>
      have h := defers_execute (c := d) hstep hp
      dsimp only [executeWalk, directSteps, WalkStep.direct]
      rcases he : execute .batched d s with ⟨a, t⟩
      rw [he] at h
      rw [h.caughtUp]
      have ht := defers_executeWalk form cursor hsteps (h.passive hp)
      cases a with
      | panicked => exact h.trans (.refl t _)
      | _ => exact h.trans (ht.map rfl rfl _ (g := id) (fun _ => rfl) (fun _ => rfl) fun _ => rfl)

end

/-- The commands of a batch that no failure ends, and the same commands outside. -/
theorem defers_executeBatch {cs : List Command} (hc : ∀ c ∈ cs, c.plain = true) (hp : s.Passive) :
    ∃ answers t, executeBatch .batched false cs s = (answers, none, t) ∧
      Defers s (answers, t) (executeAll .outermost (cs.map Command.direct) s.flush) := by
  induction cs generalizing s with
  | nil => exact ⟨[], s, rfl, .refl s _⟩
  | cons c cs ih =>
    have h := defers_execute (hc c (List.mem_cons_self ..)) hp
    rcases he : execute .batched c s with ⟨a, t⟩
    rw [he] at h
    obtain ⟨answers, u, hb, hd⟩ := ih (fun d hd => hc d (List.mem_cons_of_mem _ hd)) (h.passive hp)
    refine ⟨a :: answers, u, ?_, ?_⟩
    · dsimp only [executeBatch]
      rw [he]
      dsimp only
      rw [if_neg Bool.false_ne_true]
      dsimp only
      rw [hb]
    · rw [List.map_cons]
      dsimp only [executeAll]
      rw [h.caughtUp]
      exact h.trans (hd.map rfl rfl (a :: ·) (g := id) (fun _ => rfl) (fun _ => rfl) fun _ => rfl)

/-! ## What a batch comes to -/

theorem Move.heard_prefix {x y : Due × Session} (h : Move x y) : x.2.heard <+: y.2.heard := by
  cases h with
  | @post _ s => exact (heard_post s).symm ▸ List.prefix_refl _
  | tell _ => exact List.prefix_append ..
  | note tag answers => exact List.prefix_append ..
  | keep hk => exact hk.heard.symm ▸ List.prefix_refl _
  | _ => exact List.prefix_refl _

theorem Moves.heard_prefix {x y : Due × Session} (h : Moves x y) : x.2.heard <+: y.2.heard := by
  induction h with
  | refl => exact List.prefix_refl _
  | tail _ hm ih => exact ih.trans hm.heard_prefix

/-- A batch outside of any other, of commands that no failure ends. -/
theorem compute_eq (ho : s.store.disposed = false) {cs : List Command} {answers : List Answer}
    (hb : executeBatch .batched false cs { s with store := s.store.reclaimPending } =
      (answers, none, t)) (ending : Ending) :
    execute .outermost (.compute cs false ending) s =
      (.batch answers (batchEnd none ending),
        if ending = .panic then t.post else t.post.deliver) := by
  rw [execute_compute ho, hb]
  cases ending <;> rfl

/-- Nobody hears anything before a batch ends. -/
theorem heard_trail (ho : s.store.disposed = false) {cs : List Command} {answers : List Answer}
    (hb : executeBatch .batched false cs { s with store := s.store.reclaimPending } =
      (answers, none, t)) (ht : t.heard = s.heard) (ending : Ending) :
    ∀ x ∈ trail .outermost (.compute cs false ending) s, x.session.heard = s.heard := by
  intro x hx
  unfold trail at hx
  rw [if_neg (show ¬ Mode.outermost.batch = true from Bool.false_ne_true),
    Mutation.run_settle ho] at hx
  have htr := trails_executeBatch Mode.moving_outermost.in_batch false cs
    { s with store := s.store.reclaimPending }
  obtain ⟨hfrom, hto⟩ := htr.passes x hx
  have hfrom := hfrom.heard_prefix
  have hto := hto.heard_prefix
  change _ <+: (executeBatch .batched false cs { s with store := s.store.reclaimPending }).2.2.heard
    at hto
  rw [hb, ht] at hto
  exact hto.eq_of_length_le hfrom.length_le

/-- If no registered observer calls the deque, a batch gives the answers of its commands one by one,
after an empty batch, and comes to the same session, whether it succeeds or fails. If it panics, the
deque and all tables are the same, but the observers are not told until the next change. In no case
does anybody hear anything before the batch ends. -/
theorem batch_comes_to_its_commands (s : Session) (cs : List Command) (hp : s.Passive)
    (ho : s.store.disposed = false) (hc : ∀ c ∈ cs, c.plain = true) :
    ∃ answers t,
      executeAll .outermost (.compute [] false .succeed :: cs.map Command.direct) s =
        (.batch [] .ok :: answers, t) ∧
      (∀ ending, ending ≠ .panic → execute .outermost (.compute cs false ending) s =
        (.batch answers (batchEnd none ending), t)) ∧
      (∃ u, execute .outermost (.compute cs false .panic) s = (.batch answers .panic, u) ∧
        u = { t with outbox := u.outbox, observers := s.observers, heard := s.heard } ∧
        ∀ {ρ : Type} (x : Mutation Element ρ), u.change .outermost x = t.change .outermost x) ∧
      ∀ ending, ∀ x ∈ trail .outermost (.compute cs false ending) s,
        x.session.heard = s.heard := by
  let r : Session := { s with store := s.store.reclaimPending }
  obtain ⟨answers, t, hb, hd⟩ := defers_executeBatch (s := r) hc hp
  have ht : t.Passive := hd.passive hp
  have hempty : execute .outermost (.compute [] false .succeed) s =
      (.batch [] .ok, r.post.deliver) := compute_eq ho rfl .succeed
  have heard : t.heard = s.heard := congrArg Audience.heard hd.audience
  refine ⟨answers, t.flush, ?_, fun ending he => ?_, ⟨t.post, ?_, ?_, fun x => ?_⟩,
    heard_trail ho hb heard⟩
  · dsimp only [executeAll]
    rw [hempty, deliver_post (s := r) hp, hd.caughtUp]
  · rw [compute_eq ho hb ending, if_neg he, deliver_post ht]
  · rw [compute_eq ho hb .panic, if_pos rfl]
    rfl
  · obtain ⟨outbox, hpost, -⟩ := t.exists_post
    have hobs : t.observers = s.observers := congrArg Audience.observers hd.audience
    rw [← hobs, ← heard, hpost]
    rfl
  · obtain ⟨outbox, hpost, -⟩ := t.exists_post
    have hstore : t.post.store = t.flush.store := by
      rw [hpost]
      rfl
    have hq : t.post.Passive := by
      rw [hpost]
      exact ht
    rw [change_outermost hq, change_outermost ht.flush, hstore, flush_post, flush_store]

/-- A session with an observer that notes what it hears. -/
def noted : Session :=
  { Session.init {} with
    store := { Store.init {} with emitting := true }
    registered := [⟨1⟩]
    observers := #[.scripted "a" (.note .ok) (.note .error) (.note .panic)] }

/-- A batch that fails after an insertion and a removal comes to what these come to by
themselves. -/
theorem failing_batch_of_noted :
    (execute .outermost (.compute [.txn (.insert (.int 1) .last), .call (.poll .first)] false .fail)
      noted).2 =
      (executeAll .outermost [.compute [] false .succeed, .call (.insert (.int 1) .last),
        .call (.poll .first)] noted).2 := by
  have hp : noted.Passive := by
    intro id hid o ho
    cases List.mem_singleton.1 hid
    cases ho
    exact ⟨trivial, trivial, trivial⟩
  obtain ⟨answers, t, hall, hend, -⟩ := batch_comes_to_its_commands noted
    [.txn (.insert (.int 1) .last), .call (.poll .first)] hp rfl (by decide)
  rw [hend .fail (by decide)]
  exact (congrArg Prod.snd hall).symm

end Session

end SnapshotDeque
