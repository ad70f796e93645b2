import SnapshotDeque.Proofs.Lifecycle
import SnapshotDeque.Proofs.Moments

/-!
What observers hear. Everything that is done to the nodes of a deque while an observer is registered
is recorded, queued, due to the observer or told to it, in this order. Main statement: once nothing
waits to be told, an observer that was there from the first node on has heard the life of every
node, as the stores show it that the deque went through.
-/

namespace SnapshotDeque.Session

open Store (History Lifecycle Reveals Sequel)

/-- The events of the calls that observer `id` got. -/
def received (id : ObserverId) (heard : List Heard) : List (Event Element) :=
  heard.filterMap fun
    | .call j e _ => if j = id then some e else none
    | .reaction .. => none

/-- The events of the calls that observer `id` is still to get for the buffer under delivery. -/
def awaited (id : ObserverId) (due : Due) : List (Event Element) :=
  due.filterMap fun x => if x.1 = id then some x.2 else none

/-- What observer `id` was told and what it will be told if it stays. -/
def toldOrWaiting (id : ObserverId) (x : Due × Session) : List (Event Element) :=
  received id x.2.heard ++ awaited id x.1 ++ x.2.outbox.flatten ++ x.2.store.events

/-- The registry of a session: whoever is in it is an observer, and then events are recorded. -/
structure Tuned (s : Session) : Prop where
  nodup : s.registered.Nodup
  numbered : ∀ j ∈ s.registered, 1 ≤ j.val ∧ j.val ≤ s.observers.size
  emitting : s.registered ≠ [] → s.store.emitting = true

variable {c : Config} {due : Due} {s t : Session} {x y : Due × Session} {id : ObserverId}
  {ds : List (Deed Element)} {ρ : Type}

section Queues

theorem awaited_cons (id j : ObserverId) (e : Event Element) (due : Due) :
    awaited id ((j, e) :: due) = (if j = id then [e] else []) ++ awaited id due := by
  unfold awaited
  rw [List.filterMap_cons]
  by_cases hj : j = id
  · simp only [if_pos hj, List.singleton_append]
  · simp only [if_neg hj, List.nil_append]

theorem received_log (id j : ObserverId) (e : Event Element) (tag : Option String) (s : Session) :
    received id (s.log (.call j e tag)).heard =
      received id s.heard ++ (if j = id then [e] else []) := by
  rw [log, received, List.filterMap_append, ← received, List.filterMap_cons]
  by_cases hj : j = id
  · simp only [if_pos hj, List.filterMap_nil]
  · simp only [if_neg hj, List.filterMap_nil]

theorem received_reaction (id : ObserverId) (tag : String) (answers : List Answer) (s : Session) :
    received id (s.log (.reaction tag answers)).heard = received id s.heard := by
  rw [log, received, List.filterMap_append, ← received]
  exact List.append_nil _

theorem awaited_map (id : ObserverId) (e : Event Element) (js : List ObserverId) :
    awaited id (js.map (·, e)) = List.replicate (js.count id) e := by
  induction js with
  | nil => rfl
  | cons j js ih =>
    rw [List.map_cons, awaited_cons, ih, List.count_cons]
    by_cases hj : j = id
    · simp [hj, List.replicate_succ]
    · simp [hj]

/-- Each event of a buffer is due once to whoever is registered. -/
theorem awaited_calls (h : s.registered.Nodup) (hid : id ∈ s.registered)
    (events : List (Event Element)) : awaited id (s.calls events) = events := by
  induction events with
  | nil => rfl
  | cons e events ih =>
    have he := awaited_map id e s.registered
    rw [List.count_eq_one_of_mem h hid] at he
    unfold awaited at he ih ⊢
    rw [calls, List.flatMap_cons, List.filterMap_append, he, ← calls, ih]
    rfl

theorem Tuned.observer?_ne_none (h : s.Tuned) (hid : id ∈ s.registered) :
    s.observer? id ≠ none := by
  obtain ⟨h1, h2⟩ := h.numbered id hid
  rw [observer?, if_neg (by omega), Array.getElem?_eq_getElem (by omega)]
  nofun

end Queues

/-! ## Moves -/

theorem Tuned.congr (h : s.Tuned) (hr : t.registered = s.registered)
    (ho : t.observers.size = s.observers.size) (he : t.store.emitting = s.store.emitting) :
    t.Tuned :=
  ⟨hr ▸ h.nodup, fun j hj => ho ▸ h.numbered j (hr ▸ hj), fun hn => he ▸ h.emitting (hr ▸ hn)⟩

theorem emitting_post (s : Session) : s.post.store.emitting = s.store.emitting := by
  unfold post
  split <;> rfl

theorem registered_post (s : Session) : s.post.registered = s.registered := by
  unfold post
  split <;> rfl

theorem Tuned.enrolled (h : s.Tuned) (o : Observer) : (s.enrolled o).Tuned where
  nodup := by
    refine List.Nodup.append h.nodup (List.nodup_singleton _) fun j hj hj' => ?_
    have := (h.numbered j hj).2
    rw [List.mem_singleton.1 hj'] at this
    exact Nat.not_succ_le_self _ this
  numbered j hj := by
    rw [Session.enrolled, Array.size_push]
    rcases List.mem_append.1 hj with hj | hj
    · have := h.numbered j hj
      omega
    · rw [List.mem_singleton.1 hj]
      exact ⟨Nat.le_add_left _ _, Nat.le_refl _⟩
  emitting _ := rfl

theorem Tuned.struck (h : s.Tuned) (id : ObserverId) : (s.struck id).Tuned where
  nodup := h.nodup.filter _
  numbered j hj := h.numbered j (List.mem_filter.1 hj).1
  emitting hn := by
    rw [Session.struck, Bool.not_eq_true', ← Bool.not_eq_true, List.isEmpty_iff]
    exact hn

theorem Move.tuned (h : Move x y) (hx : x.2.Tuned) (hd : History ds x.2.store) :
    y.2.Tuned := by
  cases h with
  | change m hm =>
    obtain ⟨_, _, he, _⟩ := hd.run hm
    exact hx.congr rfl rfl he
  | enroll o => exact hx.enrolled o
  | strike id => exact hx.struck id
  | @post _ s => exact hx.congr (registered_post s) (by rw [observers_post]) (emitting_post s)
  | @tell _ s id e o _ => exact hx.congr rfl (by simp [log, setObserver]) rfl
  | keep hk => exact hx.congr hk.registered (by rw [hk.observers]) (by rw [hk.store])
  | _ => exact hx.congr rfl rfl rfl

/-- Nobody is put back into the registry. -/
theorem Move.registered (h : Move x y) : x.2.observers.size ≤ y.2.observers.size ∧
    ∀ j ∈ y.2.registered, j ∈ x.2.registered ∨ x.2.observers.size < j.val := by
  cases h with
  | @enroll _ s o =>
    refine ⟨by simp [enrolled], fun j hj => ?_⟩
    rcases List.mem_append.1 hj with hj | hj
    · exact Or.inl hj
    · rw [List.mem_singleton.1 hj]
      exact Or.inr (Nat.lt_succ_self _)
  | strike id => exact ⟨Nat.le_refl _, fun j hj => Or.inl (List.mem_filter.1 hj).1⟩
  | @post _ s =>
    exact ⟨by rw [observers_post], fun j hj => Or.inl (by rwa [registered_post] at hj)⟩
  | @tell _ s id e o _ => exact ⟨by simp [log, setObserver], fun j hj => Or.inl hj⟩
  | keep hk => exact ⟨by rw [hk.observers], fun j hj => Or.inl (by rwa [hk.registered] at hj)⟩
  | _ => exact ⟨Nat.le_refl _, fun j hj => Or.inl hj⟩

/-- What happened to the nodes from `x` to `y`, and that everyone registered is told of it. -/
structure TellsOf (es : List (Deed Element)) (x y : Due × Session) : Prop where
  told : ∀ id ∈ x.2.registered, toldOrWaiting id y = toldOrWaiting id x ++ es.map Deed.event
  silent : es = [] → (∀ id, toldOrWaiting id x = []) → ∀ id, toldOrWaiting id y = []

theorem TellsOf.of_eq (h : ∀ id, toldOrWaiting id y = toldOrWaiting id x) : TellsOf [] x y where
  told id _ := by rw [h, List.map_nil, List.append_nil]
  silent _ hx id := (h id).trans (hx id)

theorem toldOrWaiting_post (id : ObserverId) (due : Due) (s : Session) :
    toldOrWaiting id (due, s.post) = toldOrWaiting id (due, s) := by
  unfold toldOrWaiting post
  dsimp only
  split
  · rfl
  · simp

/-- A call that is made is no longer due. -/
theorem toldOrWaiting_tell (id j : ObserverId) (e : Event Element) (due : Due) (o : Observer)
    (tag : Option String) :
    toldOrWaiting id (due, (s.setObserver j o).log (.call j e tag)) =
      toldOrWaiting id ((j, e) :: due, s) := by
  unfold toldOrWaiting
  dsimp only
  rw [received_log, awaited_cons, List.append_assoc (received _ _)]
  rfl

theorem tellsOf_change {m : Mutation Element ρ} (ht : s.Tuned) {es : List (Deed Element)}
    (he : (m.run s.store).2.events =
      if s.store.emitting then s.store.events ++ es.map Deed.event else s.store.events) :
    TellsOf es (due, s) (due, { s with store := (m.run s.store).2 }) where
  told id hid := by
    rw [ht.emitting (List.ne_nil_of_mem hid), if_pos rfl] at he
    unfold toldOrWaiting
    dsimp only
    rw [he, ← List.append_assoc]
  silent hes hx id := by
    rw [hes, List.map_nil, List.append_nil, ite_self] at he
    have hx := hx id
    unfold toldOrWaiting at hx ⊢
    rwa [he]

theorem tellsOf_fetch (ht : s.Tuned) {events : List (Event Element)}
    {outbox : List (List (Event Element))} (hq : s.outbox = events :: outbox) :
    TellsOf [] ([], s) (s.calls events, { s with outbox }) where
  told id hid := by
    unfold toldOrWaiting
    dsimp only
    rw [awaited_calls ht.nodup hid, hq, List.flatten_cons, List.map_nil]
    simp [awaited]
  silent _ hx id := by
    have hx := hx id
    unfold toldOrWaiting at hx ⊢
    rw [hq, List.flatten_cons] at hx
    simp only [List.append_eq_nil_iff] at hx
    obtain ⟨⟨⟨hr, _⟩, rfl, ho⟩, he⟩ := hx
    rw [hr, ho, he]
    rfl

/-- Whoever is registered is there to be told. -/
theorem tellsOf_skip (ht : s.Tuned) {j : ObserverId} {e : Event Element}
    (hj : s.observer? j = none) : TellsOf [] ((j, e) :: due, s) (due, s) where
  told id hid := by
    have hne : j ≠ id := fun h => ht.observer?_ne_none hid (h ▸ hj)
    unfold toldOrWaiting
    dsimp only
    rw [awaited_cons, if_neg hne, List.nil_append, List.map_nil, List.append_nil]
  silent _ hx := by
    have hx := hx j
    unfold toldOrWaiting at hx
    dsimp only at hx
    rw [awaited_cons, if_pos rfl] at hx
    simp at hx

theorem still (hy : History ds y.2.store) (h : TellsOf [] x y) :
    ∃ es, History (ds ++ es) y.2.store ∧ Sequel ds es y.2.store ∧ TellsOf es x y :=
  ⟨[], by rwa [List.append_nil], .nil ds _, h⟩

theorem Move.tells (h : Move x y) (ht : x.2.Tuned) (hx : History ds x.2.store) :
    ∃ es, History (ds ++ es) y.2.store ∧ Sequel ds es y.2.store ∧ TellsOf es x y := by
  cases h with
  | change m hm =>
    obtain ⟨es, hy, _, he, hq⟩ := hx.run hm
    exact ⟨es, hy, hq, tellsOf_change ht he⟩
  | enroll o => exact still (hx.relabel _ _) (.of_eq fun _ => rfl)
  | strike id => exact still (hx.relabel _ _) (.of_eq fun _ => rfl)
  | @post due s => exact still (history_post hx) (.of_eq fun id => toldOrWaiting_post id due s)
  | fetch hq => exact still hx (tellsOf_fetch ht hq)
  | @tell _ s j e o _ =>
    exact still hx (.of_eq fun id => toldOrWaiting_tell id j e _ _ _)
  | skip hj => exact still hx (tellsOf_skip ht hj)
  | note tag answers =>
    refine still hx (.of_eq fun id => ?_)
    unfold toldOrWaiting
    rw [received_reaction]
    rfl
  | @keep _ s t hk =>
    refine still (hk.store ▸ hx) (.of_eq fun id => ?_)
    unfold toldOrWaiting
    rw [hk.heard, hk.outbox, hk.store]

/-- A session in which nobody was told anything before the first node came. -/
structure Listens (x : Due × Session) : Prop where
  tuned : x.2.Tuned
  history : ∃ ds, History ds x.2.store ∧ (ds = [] → ∀ id, toldOrWaiting id x = [])

/-- A session that has all that was ever done told to observer `id`, unless it was struck off, and
that is what the stores in `us` show. -/
structure Tells (id : ObserverId) (us : List (Store Element)) (x : Due × Session) : Prop where
  tuned : x.2.Tuned
  known : id.val ≤ x.2.observers.size
  history : ∃ ds, History ds x.2.store ∧ Reveals us ds ∧
    (id ∈ x.2.registered → toldOrWaiting id x = ds.map Deed.event)

theorem Move.listens (h : Move x y) (hx : Listens x) : Listens y := by
  obtain ⟨ds, hd, hs⟩ := hx.history
  obtain ⟨es, hy, -, htells⟩ := h.tells hx.tuned hd
  refine ⟨h.tuned hx.tuned hd, ds ++ es, hy, fun hn => ?_⟩
  obtain ⟨hds, hes⟩ := List.append_eq_nil_iff.1 hn
  exact htells.silent hes (hs hds)

theorem Move.tells_on (h : Move x y) {us : List (Store Element)} (hx : Tells id us x) :
    Tells id (us ++ [y.2.store]) y := by
  obtain ⟨ds, hd, hr, hs⟩ := hx.history
  obtain ⟨es, hy, hq, htells⟩ := h.tells hx.tuned hd
  obtain ⟨hsize, hreg⟩ := h.registered
  refine ⟨h.tuned hx.tuned hd, Nat.le_trans hx.known hsize, ds ++ es, hy, hr.concat hy hq,
    fun hid => ?_⟩
  -- had it been struck off, it would not be back
  have hid : id ∈ x.2.registered :=
    (hreg id hid).resolve_right (Nat.not_lt_of_le hx.known)
  rw [htells.told id hid, hs hid, List.map_append]

theorem listens_start (h : start c = .ok s) : Listens ([], s) := by
  obtain ⟨_, rfl⟩ := eq_init_of_start h
  exact ⟨⟨List.nodup_nil, nofun, fun h => absurd rfl h⟩, [], .going (Store.account_init c),
    fun _ _ => rfl⟩

/-- Who is registered before the first node comes is told everything. -/
theorem Listens.tells (h : Listens x) (hn : x.2.store.arena.nextId = 1)
    (hid : id ∈ x.2.registered) : Tells id [x.2.store] x := by
  obtain ⟨ds, hd, hs⟩ := h.history
  obtain rfl := hd.eq_nil hn
  exact ⟨h.tuned, (h.tuned.numbered id hid).2, [], hd, .singleton hd, fun _ => hs rfl id⟩

theorem Passage.tells {us vs : List (Store Element)} (h : Passage x vs y) (hx : Tells id us x) :
    Tells id (us ++ vs) y := by
  induction h with
  | refl => rwa [List.append_nil]
  | tail _ hm ih =>
    rw [← List.append_assoc]
    exact hm.tells_on ih

theorem Tells.lifecycle {us : List (Store Element)} (h : Tells id us ([], s))
    (hid : id ∈ s.registered) (hq : s.outbox = []) (he : s.store.events = []) :
    ∃ ds, Lifecycle (received id s.heard) ds us s.store := by
  obtain ⟨ds, hd, hr, hs⟩ := h.history
  have heq : received id s.heard = ds.map Deed.event := by
    rw [← hs hid, toldOrWaiting, hq, he, List.flatten_nil, List.append_nil, List.append_nil]
    exact (List.append_nil _).symm
  exact ⟨ds, heq ▸ hd.lifecycle hr⟩

/-- At every moment of a session at which no batch is under way and nothing is queued, an observer
that was registered before the first node came, and is still, has heard the life of every node: of
each node that is seen in a store that the deque went through since. -/
theorem observers_hear_lives (c : Config) (s : Session) (cs : List Command) (i j : Nat)
    (x y : Moment) (id : ObserverId) (hs : start c = .ok s)
    (hx : (s.moments [] cs)[i]? = some x) (hy : (s.moments [] cs)[j]? = some y) (hij : i ≤ j)
    (hid : id ∈ x.session.registered) (hn : x.session.store.arena.nextId = 1)
    (hid' : id ∈ y.session.registered) (hb : y.batch = false) (hq : y.session.outbox = []) :
    (∃ us, Passage ([], x.session) us ([], y.session)) ∧
      ∀ us, Passage ([], x.session) us ([], y.session) →
        ∃ ds, Lifecycle (received id y.session.heard) ds (x.session.store :: us)
          y.session.store := by
  have ht := trails_moments s [] cs
  have hl : Listens ([], x.session) :=
    (ht.passes x (List.mem_of_getElem? hx)).1.preserves Move.listens (listens_start hs)
  have hm : Moves ([], x.session) ([], y.session) := by
    rcases Nat.eq_or_lt_of_le hij with rfl | hlt
    · rw [Option.some.inj (hx.symm.trans hy)]
    · obtain ⟨hi, rfl⟩ := List.getElem?_eq_some_iff.1 hx
      obtain ⟨hj, rfl⟩ := List.getElem?_eq_some_iff.1 hy
      exact List.pairwise_iff_getElem.1 ht.ordered i j hi hj hlt
  have he : y.session.store.events = [] := by
    refine (ht.posted y (List.mem_of_getElem? hy) hb).2 ?_
    obtain ⟨_, rfl⟩ := eq_init_of_start hs
    rfl
  exact ⟨hm.exists_passage, fun us hp => (hp.tells (hl.tells hn hid)).lifecycle hid' hq he⟩

/-- The session of a new deque with a counting observer. -/
def attended : Session :=
  { (init {}).enrolled .counter with known := [⟨1⟩] }

/-- `attended` once a first node was linked and the observer heard of it. -/
def attendedOne : Session :=
  let store := ((Mutation.insert (Element.int 7) .last).run attended.store).2
  (({ attended with store := { store with events := [] } } : Session).hear ⟨1⟩
    (.link ⟨2, 0⟩ .last .initial)).addHandles [⟨2, 0⟩]

theorem execute_register :
    (execute .outermost (.register .counter) (init {})).2 = attended := by
  change (let s := deliver ((init {}).enrolled .counter)
    { s with known := ⟨1⟩ :: s.known }) = attended
  rw [deliver_of_outbox rfl]
  rfl

theorem execute_insert :
    (execute .outermost (.call (.insert (.int 7) .last)) attended).2 = attendedOne := by
  let p : Session :=
    post { attended with store := ((Mutation.insert (Element.int 7) .last).run attended.store).2 }
  have hd : deliver p = ({ p with outbox := [] } : Session).hear ⟨1⟩
      (.link ⟨2, 0⟩ .last .initial) := by
    rw [deliver_of_queued (show p.outbox = [[.link ⟨2, 0⟩ .last .initial]] from rfl)]
    change deliverFrom [(⟨1⟩, .link ⟨2, 0⟩ .last .initial)] _ = _
    rw [deliverFrom_cons]
    exact deliver_of_outbox rfl
  change (deliver p).addHandles [⟨2, 0⟩] = attendedOne
  rw [hd]
  rfl

theorem moments_attended :
    (init {}).moments [] [.register .counter, .call (.insert (.int 7) .last)] =
      [⟨false, init {}⟩, ⟨false, attended⟩, ⟨false, attendedOne⟩] := by
  have hr : ((init {}).step (.register .counter)).2 = attended := by
    rw [step_snd, execute_register]
    rfl
  have hi : (attended.step (.call (.insert (.int 7) .last))).2 =
      { attendedOne with heard := [] } := by
    rw [step_snd, execute_insert]
  rw [moments, moments, moments, hr, hi, heard_step, heard_step, execute_register, execute_insert]
  rfl

/-- The observer of `attendedOne` has heard of the first node. -/
theorem attendedOne_heard_life :
    received ⟨1⟩ attendedOne.heard = [.link ⟨2, 0⟩ .last .initial] ∧
      ∃ us ds, Passage ([], attended) us ([], attendedOne) ∧
        Lifecycle (received ⟨1⟩ attendedOne.heard) ds (attended.store :: us) attendedOne.store := by
  have hm := moments_attended
  obtain ⟨⟨us, hus⟩, h⟩ := observers_hear_lives {} (init {}) _ 1 2 ⟨false, attended⟩
    ⟨false, attendedOne⟩ ⟨1⟩ rfl (by rw [hm]; rfl) (by rw [hm]; rfl) (by decide) (by decide) rfl
    (by decide) rfl rfl
  obtain ⟨ds, hds⟩ := h us hus
  exact ⟨rfl, us, ds, hus, hds⟩

end SnapshotDeque.Session
