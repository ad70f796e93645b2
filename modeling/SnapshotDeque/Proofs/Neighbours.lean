import SnapshotDeque.Proofs.Bystanders
import SnapshotDeque.Proofs.Disposal

/-!
What an observer hears from others' company. Events are recorded while there is any observer, and
whoever is registered when they are delivered hears them; so an observer that comes while something
waits hears of what others made the deque record. Main statement: if the same waits in two sessions
whenever an observer comes or goes, it hears the same in both, whoever else is there.
-/

namespace SnapshotDeque.Session

variable {s t u : Session} {b d : ObserverId} {h h' : List Heard}

/-! ## What an observer has heard or is waiting for -/

/-- What observer `b` was told, and what it will be told if it stays. -/
def told (b : ObserverId) (s : Session) : List (Event Element) :=
  received b s.heard ++ if b ∈ s.registered then s.waiting else []

theorem received_append (b : ObserverId) (h k : List Heard) :
    received b (h ++ k) = received b h ++ received b k := List.filterMap_append ..

theorem told_congr (hr : b ∈ t.registered ↔ b ∈ s.registered) (hh : t.heard = s.heard)
    (hw : t.waiting = s.waiting) : t.told b = s.told b := by
  unfold told
  rw [hh, hw, if_congr hr rfl rfl]

theorem told_heardAfter (b : ObserverId) (s : Session) (h : List Heard) :
    (s.heardAfter h).told b = received b h ++ s.told b := by
  unfold told
  rw [heardAfter, received_append, List.append_assoc]
  rfl

namespace Audience

theorem observer?_hear (a : Audience) (c : ObserverId × Event Element) (hb : a.observer? b ≠ none) :
    (a.hear c).observer? b ≠ none := by
  unfold hear
  rcases ho : a.observer? c.1 with _ | o
  · exact hb
  · unfold observer? at hb ⊢
    split
    · next hz => exact absurd (if_pos hz) hb
    · next hz =>
      rw [if_neg hz] at hb
      rw [ne_eq, Array.getElem?_eq_none_iff] at hb ⊢
      rwa [Array.size_setIfInBounds]

theorem received_call (b j : ObserverId) (e : Event Element) (tag : Option String) :
    received b [.call j e tag] = awaited b [(j, e)] := by
  by_cases hj : j = b <;> simp [received, awaited, hj]

/-- Whoever is there hears the call, and nobody else does. -/
theorem received_hear (a : Audience) (c : ObserverId × Event Element)
    (hb : c.1 = b → a.observer? b ≠ none) :
    received b (a.hear c).heard = received b a.heard ++ awaited b [c] := by
  obtain ⟨j, e⟩ := c
  unfold hear
  rcases ho : a.observer? j with _ | o
  · have hj : j ≠ b := fun hj => hb hj (hj ▸ ho)
    rw [awaited_cons, if_neg hj]
    exact (List.append_nil _).symm
  · dsimp only
    rw [received_append, received_append, received_call]
    -- a reaction is no call
    rcases (o.respond e).commands with _ | cs <;> exact List.append_nil _

theorem received_hears (calls : List (ObserverId × Event Element)) (a : Audience)
    (hb : ∀ c ∈ calls, c.1 = b → a.observer? b ≠ none) :
    received b (a.hears calls).heard = received b a.heard ++ awaited b calls := by
  induction calls generalizing a with
  | nil => exact (List.append_nil _).symm
  | cons c calls ih =>
    have hc := a.received_hear c (hb c (List.mem_cons_self ..))
    have hrest := ih (a.hear c) fun e he hb' =>
      a.observer?_hear c (hb e (List.mem_cons_of_mem _ he) hb')
    have hawaited : awaited b (c :: calls) = awaited b [c] ++ awaited b calls := by
      rw [awaited_cons, awaited_cons]
      exact congrArg (· ++ awaited b calls) (List.append_nil _).symm
    rw [hawaited, ← List.append_assoc, ← hc]
    exact hrest

theorem size_hears (calls : List (ObserverId × Event Element)) (a : Audience) :
    (a.hears calls).observers.size = a.observers.size := by
  induction calls generalizing a with
  | nil => rfl
  | cons c calls ih =>
    refine (ih (a.hear c)).trans ?_
    unfold hear
    rcases a.observer? c.1 with _ | o
    · rfl
    · exact Array.size_setIfInBounds ..

end Audience

theorem awaited_calls_of_not_mem (hb : b ∉ s.registered) (events : List (Event Element)) :
    awaited b (s.calls events) = [] := by
  refine List.filterMap_eq_nil_iff.2 fun c hc => if_neg fun h => hb ?_
  rw [← h]
  exact registered_of_mem_calls hc

/-- What is delivered does not wait any more. -/
theorem told_flush (ht : s.Tuned) (b : ObserverId) : s.flush.told b = s.told b := by
  have hflush : s.flush.told b = received b s.flush.heard ++ if b ∈ s.registered then [] else [] :=
    rfl
  have hheard : received b s.flush.heard =
      received b s.heard ++ awaited b (s.calls s.waiting) := by
    refine Audience.received_hears _ s.audience fun c hc hcb => ?_
    exact ht.observer?_ne_none (hcb ▸ registered_of_mem_calls hc)
  rw [hflush, ite_self, List.append_nil, hheard, told]
  split
  · next hb => rw [awaited_calls ht.nodup hb]
  · next hb => rw [awaited_calls_of_not_mem hb]

/-! ## Asides of others -/

/-- From `s` to `u` nothing is done about observer `b` and nothing is kept from it. -/
structure Steady (b : ObserverId) (s u : Session) : Prop where
  alike : s.Alike u
  passive : u.Passive
  tuned : u.Tuned
  registered : b ∈ u.registered ↔ b ∈ s.registered
  told : u.told b = s.told b

/-- A session whose observers do not call the deque and whose registry is in order. -/
structure Settled (s : Session) : Prop where
  passive : s.Passive
  tuned : s.Tuned

theorem Steady.refl (h : s.Settled) : Steady b s s :=
  ⟨rfl, h.passive, h.tuned, Iff.rfl, rfl⟩

theorem Steady.settled (h : Steady b s u) : u.Settled := ⟨h.passive, h.tuned⟩

theorem Steady.trans (h : Steady b s t) (h' : Steady b t u) : Steady b s u :=
  ⟨h.alike.trans h'.alike, h'.passive, h'.tuned, h'.registered.trans h.registered,
    h'.told.trans h.told⟩

theorem steady_post (h : s.Settled) : Steady b s s.post where
  alike := alike_post s
  passive := h.passive.post
  tuned := h.tuned.congr (registered_post s) (by rw [observers_post]) (emitting_post s)
  registered := by rw [registered_post]
  told := told_congr (by rw [registered_post]) (heard_post s) (waiting_post s)

theorem steady_flush (h : s.Settled) : Steady b s s.flush where
  alike := rfl
  passive := h.passive.flush
  tuned := h.tuned.congr rfl (Audience.size_hears _ s.audience) rfl
  registered := Iff.rfl
  told := told_flush h.tuned b

theorem Settled.enrolled (h : s.Settled) {o : Observer} (ho : o.Passive) : (s.enrolled o).Settled :=
  ⟨h.passive.enrolled ho, h.tuned.enrolled o⟩

theorem Settled.struck (h : s.Settled) (id : ObserverId) : (s.struck id).Settled :=
  ⟨h.passive.struck id, h.tuned.struck id⟩

/-- After an aside in a batch nothing is delivered, and after one outside everything. -/
theorem steady_settle (h : s.Settled) (batch : Bool) (known : List ObserverId) :
    Steady b s ((if batch then s else s.flush).knowing known) := by
  have hk : ∀ {u : Session}, u.Settled → Steady b u (u.knowing known) := fun hu =>
    ⟨rfl, hu.passive, hu.tuned.congr rfl rfl rfl, Iff.rfl, rfl⟩
  cases batch with
  | true => exact hk h
  | false => exact (steady_flush h).trans (hk (steady_flush (b := b) h).settled)

/-- Whether an aside makes a difference to whether `b` is registered. -/
def Command.Concerns (s : Session) (b : ObserverId) : Command → Prop
  | .register _ => s.observers.size + 1 = b.val
  | .call (.unregister id) => id = b.val ∧ b ∈ s.registered
  | .txn (.unregister id) => id = b.val ∧ b ∈ s.registered
  | _ => False

theorem steady_struck (h : s.Settled) {id : Nat} (hb : ¬ (id = b.val ∧ b ∈ s.registered)) :
    Steady b s (s.struck ⟨id⟩) := by
  have hreg : b ∈ (s.struck ⟨id⟩).registered ↔ b ∈ s.registered := by
    refine List.mem_filter.trans ⟨And.left, fun hm => ⟨hm, ?_⟩⟩
    exact decide_eq_true fun he => hb ⟨congrArg ObserverId.val he.symm, hm⟩
  exact ⟨rfl, h.passive.struck _, h.tuned.struck _, hreg, told_congr hreg rfl rfl⟩

theorem Rearranged.steady {c : Command} (hr : s.Rearranged c u) (h : s.Settled)
    (hb : ¬ c.Concerns s b) : Steady b s u := by
  cases hr with
  | @register o ho =>
    have hreg : b ∈ (s.enrolled o).registered ↔ b ∈ s.registered := by
      refine List.mem_append.trans ⟨fun hm => hm.resolve_right fun hm => hb ?_, Or.inl⟩
      rw [List.mem_singleton.1 hm]
      rfl
    exact ⟨rfl, h.passive.enrolled ho, h.tuned.enrolled o, hreg, told_congr hreg rfl rfl⟩
  | unregister id => exact steady_struck h hb
  | unregisterTxn id => exact steady_struck h hb

theorem steady_obeying (h : s.Settled) (batch : Bool) {o : Option Command}
    (ho : ∀ c ∈ o, c.Aside) (hb : ∀ c ∈ o, ¬ c.Concerns s b) : Steady b s (s.obeying batch o) := by
  cases o with
  | none => exact .refl h
  | some c =>
    rcases obeying_aside h.passive (ho c rfl) batch with he | ⟨u, known, hr, he⟩
    · rw [he]
      exact .refl h
    · rw [he]
      have hu := hr.steady h (hb c rfl)
      exact hu.trans (steady_settle hu.settled batch known)

/-! ## The same observer in two sessions -/

/-- Two sessions that are alike. Up to what waits, the observer that is `b` in the one and `d` in
the other was told the same, `h` and `h'` included. -/
structure Shares (b d : ObserverId) (h h' : List Heard) (s t : Session) : Prop where
  alike : s.Alike t
  left : s.Settled
  right : t.Settled
  registered : b ∈ s.registered ↔ d ∈ t.registered
  told : received b h ++ s.told b = received d h' ++ t.told d

theorem Shares.steady {v : Session} (hst : Shares b d h h' s t) (hs : Steady b s u)
    (ht : Steady d t v) : Shares b d h h' u v where
  alike := (hs.alike.symm.trans hst.alike).trans ht.alike
  left := hs.settled
  right := ht.settled
  registered := hs.registered.trans (hst.registered.trans ht.registered.symm)
  told := by rw [hs.told, hst.told, ht.told]

/-- Two asides that do the same about this observer. -/
inductive Matched (b d : ObserverId) (s t : Session) : Command → Command → Prop
  | register (o : Observer) (hb : s.observers.size + 1 = b.val)
      (hd : t.observers.size + 1 = d.val) : Matched b d s t (.register o) (.register o)
  | unregister : Matched b d s t (.call (.unregister b.val)) (.call (.unregister d.val))
  | unregisterTxn : Matched b d s t (.txn (.unregister b.val)) (.txn (.unregister d.val))

/-- Asides that do nothing about this observer, or the same in both sessions at a time at which `W`
holds. -/
inductive Fair (W : Session → Session → Prop) (b d : ObserverId) :
    Option Command → Option Command → Session → Session → Prop
  | apart {l r : Option Command} {s t : Session} (hl : ∀ c ∈ l, ¬ c.Concerns s b)
      (hr : ∀ c ∈ r, ¬ c.Concerns t d) : Fair W b d l r s t
  | together {c e : Command} {s t : Session} (matched : Matched b d s t c e) (hw : W s t) :
    Fair W b d (some c) (some e) s t

/-- The same waits in two sessions. -/
def Even (s t : Session) : Prop := s.waiting = t.waiting

theorem told_run (ht : s.Tuned) {ρ : Type} {x : Mutation Element ρ} {news : List (Event Element)}
    (hn : x.Regardless s.store news) (b : ObserverId) :
    ({ s with store := (x.run s.store).2 } : Session).told b =
      s.told b ++ if b ∈ s.registered then news else [] := by
  unfold told waiting
  dsimp only
  rw [hn.events]
  split
  · next hb =>
    rw [ht.emitting (List.ne_nil_of_mem hb), if_pos rfl]
    simp only [List.append_assoc]
  · rw [List.append_nil, List.append_nil]

theorem Shares.run (hst : Shares b d h h' s t) {ρ : Type} {x : Mutation Element ρ}
    (hx : x.needsDeque = true) : Shares b d h h' { s with store := (x.run s.store).2 }
      { t with store := (x.run t.store).2 } := by
  obtain ⟨news, hn⟩ := Mutation.regardless hx s.store
  have hn' : x.Regardless t.store news := by
    have := hn.recording t.company.emitting t.company.events
    rw [hst.alike]
    exact this
  refine ⟨hst.alike.run hx, ⟨hst.left.passive, hst.left.tuned.congr rfl rfl hn.emitting⟩,
    ⟨hst.right.passive, hst.right.tuned.congr rfl rfl hn'.emitting⟩, hst.registered, ?_⟩
  rw [told_run hst.left.tuned hn, told_run hst.right.tuned hn', ← List.append_assoc,
    ← List.append_assoc, hst.told, if_congr hst.registered rfl rfl]

theorem told_enrolled (ht : s.Tuned) (o : Observer) (hb : s.observers.size + 1 = b.val) :
    b ∉ s.registered ∧ b ∈ (s.enrolled o).registered ∧
      (s.enrolled o).told b = s.told b ++ s.waiting := by
  have hnew : b ∉ s.registered := fun hm => by
    have := (ht.numbered b hm).2
    omega
  have hmem : b ∈ (s.enrolled o).registered :=
    List.mem_append_right _ (List.mem_singleton.2 (congrArg ObserverId.mk hb.symm))
  refine ⟨hnew, hmem, ?_⟩
  unfold told
  rw [if_pos hmem, if_neg hnew, List.append_nil]
  rfl

theorem told_struck (s : Session) (b : ObserverId) :
    b ∉ (s.struck b).registered ∧ (s.struck b).told b = received b s.heard := by
  have hmem : b ∉ (s.struck b).registered := fun hm => by
    simpa using (List.mem_filter.1 hm).2
  refine ⟨hmem, ?_⟩
  unfold told
  rw [if_neg hmem, List.append_nil]
  rfl

theorem Shares.enrolled (hst : Shares b d h h' s t) (hw : Even s t) {o : Observer} (ho : o.Passive)
    (hb : s.observers.size + 1 = b.val) (hd : t.observers.size + 1 = d.val) :
    Shares b d h h' (s.enrolled o) (t.enrolled o) := by
  obtain ⟨-, hl, htl⟩ := told_enrolled hst.left.tuned o hb
  obtain ⟨-, hr, htr⟩ := told_enrolled hst.right.tuned o hd
  refine ⟨(Alike.symm (t := s.enrolled o) rfl).trans (hst.alike.trans rfl), hst.left.enrolled ho,
    hst.right.enrolled ho, iff_of_true hl hr, ?_⟩
  rw [htl, htr, ← List.append_assoc, ← List.append_assoc, hst.told, hw]

theorem Shares.struck (hst : Shares b d h h' s t) (hw : Even s t) :
    Shares b d h h' (s.struck b) (t.struck d) := by
  obtain ⟨hl, htl⟩ := told_struck s b
  obtain ⟨hr, htr⟩ := told_struck t d
  refine ⟨(Alike.symm (t := s.struck b) rfl).trans (hst.alike.trans rfl), hst.left.struck b,
    hst.right.struck d, iff_of_false hl hr, ?_⟩
  have htold := hst.told
  unfold Session.told at htold
  rw [if_congr hst.registered rfl rfl, hw, ← List.append_assoc, ← List.append_assoc] at htold
  rw [htl, htr]
  exact List.append_cancel_right htold

theorem Shares.settle (hst : Shares b d h h' s t) (batch : Bool)
    (known known' : List ObserverId) :
    Shares b d h h' ((if batch then s else s.flush).knowing known)
      ((if batch then t else t.flush).knowing known') :=
  hst.steady (steady_settle hst.left batch known) (steady_settle hst.right batch known')

theorem Shares.matched {c e : Command} (hst : Shares b d h h' s t) (hw : Even s t)
    (hm : Matched b d s t c e) (hc : c.Aside) (batch : Bool) :
    Shares b d h h' (s.obeying batch (some c)) (t.obeying batch (some e)) := by
  have hstruck : Shares b d h h' (if batch then s.struck b else (s.struck b).flush)
      (if batch then t.struck d else (t.struck d).flush) := by
    have h := hst.struck hw
    cases batch with
    | true => exact h
    | false => exact h.steady (steady_flush h.left) (steady_flush h.right)
  cases hm with
  | register o hb hd =>
    rw [obeying_register hst.left.passive hc, obeying_register hst.right.passive hc]
    exact (hst.enrolled hw hc hb hd).settle batch _ _
  | unregister =>
    rw [← unregister_eq hst.left.passive, ← unregister_eq hst.right.passive] at hstruck
    exact hstruck
  | unregisterTxn =>
    cases batch with
    | false => exact hst
    | true =>
      rw [← unregister_eq hst.left.passive, ← unregister_eq hst.right.passive] at hstruck
      exact hstruck

/-- What an observer is told is the same in two sessions in which only asides of others differ. -/
theorem concord_shares (h h' : List Heard) : Concord (Shares b d h h') (Fair Even b d) where
  alike hst := hst.alike
  passive hst := ⟨hst.left.passive, hst.right.passive⟩
  tables hst _ _ := by
    refine ⟨?_, ⟨hst.left.passive, hst.left.tuned.congr rfl rfl rfl⟩,
      ⟨hst.right.passive, hst.right.tuned.congr rfl rfl rfl⟩, hst.registered, hst.told⟩
    rw [hst.alike]
    rfl
  change hst _ x hx := hst.run hx
  post hst := hst.steady (steady_post hst.left) (steady_post hst.right)
  flush hst := hst.steady (steady_flush hst.left) (steady_flush hst.right)
  aside hst _ _ batch hl hr hf := by
    cases hf with
    | apart hnl hnr =>
      have hs := steady_obeying hst.left batch hl hnl
      exact hst.steady hs (steady_obeying hst.right batch hr hnr)
    | together hm hw => exact hst.matched hw hm (hl _ rfl) batch

theorem settled_heardAfter {h : List Heard} : (s.heardAfter h).Settled ↔ s.Settled :=
  ⟨fun hs => ⟨hs.passive, hs.tuned.congr rfl rfl rfl⟩,
    fun hs => ⟨hs.passive, hs.tuned.congr rfl rfl rfl⟩⟩

theorem shares_heardAfter (h h' : List Heard) :
    (fun s t => Shares b d [] [] (s.heardAfter h) (t.heardAfter h')) = Shares b d h h' := by
  have told : ∀ (u : Session) (j : ObserverId) (k : List Heard),
      received j [] ++ (u.heardAfter k).told j = received j k ++ u.told j := fun u j k =>
    told_heardAfter j u k
  funext s t
  refine propext ⟨fun hst => ?_, fun hst => ?_⟩
  · refine ⟨alike_heardAfter.1 hst.alike, settled_heardAfter.1 hst.left,
      settled_heardAfter.1 hst.right, hst.registered, ?_⟩
    rw [← told s b h, ← told t d h']
    exact hst.told
  · refine ⟨alike_heardAfter.2 hst.alike, settled_heardAfter.2 hst.left,
      settled_heardAfter.2 hst.right, hst.registered, ?_⟩
    rw [told s b h, told t d h']
    exact hst.told

/-- Two sessions that play one score, and an observer that is `b` in the one and `d` in the other:
it comes and goes at the same places, and other observers come and go as they like. If the same
waits in both whenever it comes or goes, and at the end unless it is gone, it was called with the
same events in the same order. -/
theorem neighbours_do_not_matter (c : Config) (s : Session) (ps : List Part) (b d : ObserverId)
    (hs : start c = .ok s) (hf : fitsRun (Fair Even b d) ps s s)
    (hend : b ∈ (s.outcome [] (partsOn .left ps)).registered →
      Even (s.outcome [] (partsOn .left ps)) (s.outcome [] (partsOn .right ps))) :
    received b (s.outcome [] (partsOn .left ps)).heard =
      received d (s.outcome [] (partsOn .right ps)).heard := by
  have ht := (listens_start hs).tuned
  obtain ⟨_, rfl⟩ := eq_init_of_start hs
  have hsettled : (init c).Settled := ⟨fun id hid => absurd hid List.not_mem_nil, ht⟩
  have hstart : Shares b d [] [] (init c) (init c) := by
    have htold : ∀ j, (init c).told j = [] := fun j =>
      congrArg (received j [] ++ ·) (if_neg List.not_mem_nil)
    exact ⟨rfl, hsettled, hsettled, iff_of_false List.not_mem_nil List.not_mem_nil,
      by rw [htold, htold]; rfl⟩
  have k : ∀ h h', Concord (fun s t => Shares b d [] [] (s.heardAfter h) (t.heardAfter h'))
      (Fair Even b d) := fun h h' => by
    rw [shares_heardAfter]
    exact concord_shares h h'
  have hplayed : Played (Shares b d [] []) (init c) (init c) [] [] (partsOn .left ps)
    (partsOn .right ps) := Concord.played k ps hstart hf
  have hout := hplayed.outcome
  have htold := hout.told
  unfold told at htold
  by_cases hb : b ∈ ((init c).outcome [] (partsOn .left ps)).registered
  · rw [if_pos hb, if_pos (hout.registered.1 hb), hend hb] at htold
    exact List.append_cancel_right htold
  · rw [if_neg hb, if_neg (hb ∘ hout.registered.2), List.append_nil, List.append_nil] at htold
    exact htold

/-! ## Fixed scores -/

/-- One command from outside, and the session after it. -/
theorem outcome_cons {c : Command} {v : Session} (hx : (execute .outermost c s).2 = v)
    (hu : { v with heard := [] } = u) (cs : List Command) (h : List Heard) :
    s.outcome h (c :: cs) = u.outcome (h ++ v.heard) cs := by
  rw [← hu, ← hx]
  exact outcome_append (some c) cs h

theorem stepped_eq {c : Command} {v : Session} (hx : (execute .outermost c s).2 = v)
    (hu : { v with heard := [] } = u) : s.stepped (some c) = u := by
  rw [← hu, ← hx]
  rfl

theorem received_outcome_nil (b : ObserverId) (h : List Heard) (hu : u.heard = []) :
    received b (u.outcome h []).heard = received b h := by
  change received b ((h ++ []) ++ u.heard) = _
  rw [hu, List.append_nil, List.append_nil]

/-- Where everything was delivered nothing waits. -/
theorem even_flush (s t : Session) (h h' : List Heard) :
    Even (({ s.flush with heard := [] } : Session).outcome h [])
      (({ t.flush with heard := [] } : Session).outcome h' []) := rfl

theorem passive_of_counters {n : Nat} (h : s.observers = Array.replicate n .counter) :
    s.Passive := by
  intro id _ o ho
  rw [observer?, h] at ho
  split at ho
  · cases ho
  · rw [(Array.mem_replicate.1 (Array.mem_of_getElem? ho)).2]
    trivial

/-- The session after the commands of a batch. -/
def doing (s : Session) (cs : List Command) : Session :=
  (executeBatch .batched false cs { s with store := s.store.reclaimPending }).2.2

theorem executeBatch_unstopped (m : Mode) (cs : List Command) (s : Session) :
    (executeBatch m false cs s).2.1 = none := by
  induction cs generalizing s with
  | nil => rfl
  | cons c cs ih => exact ih (execute m c s).2

theorem execute_compute_doing (ho : s.store.disposed = false) (cs : List Command)
    (ending : Ending) : (execute .outermost (.compute cs false ending) s).2 =
      if ending = .panic then (s.doing cs).post else (s.doing cs).post.deliver :=
  congrArg Prod.snd <|
    compute_eq ho (Prod.ext rfl (Prod.ext (executeBatch_unstopped ..) rfl)) ending

theorem execute_panicking (ho : s.store.disposed = false) (cs : List Command) :
    (execute .outermost (.compute cs false .panic) s).2 = (s.doing cs).post :=
  execute_compute_doing ho cs .panic

theorem execute_succeeding (ho : s.store.disposed = false) {cs : List Command}
    (hp : (s.doing cs).Passive) :
    (execute .outermost (.compute cs false .succeed) s).2 = (s.doing cs).flush :=
  (execute_compute_doing ho cs .succeed).trans (deliver_post hp)

/-- An aside of both sessions. -/
def Part.both (c : Command) (h : c.Aside) : Part :=
  .aside (some c) (some c) (fun _ hc => Option.some.inj hc ▸ h) fun _ hc => Option.some.inj hc ▸ h

/-- A counting observer in both sessions. -/
def Part.host : Part := .both (.register .counter) trivial

/-- A counting observer in the left session only. -/
def Part.guest : Part :=
  .aside (some (.register .counter)) none (fun _ hc => Option.some.inj hc ▸ trivial) nofun

def insertion : Command := .call (.insert (.int 7) .last)

theorem stepped_register : (init {}).stepped (some (.register .counter)) = attended :=
  stepped_eq execute_register rfl

/-- A batch, in one session with a guest. -/
theorem fits_after_guest {W : Session → Session → Prop} {ps : List Part}
    (h : fitsBatch (Fair W ⟨2⟩ ⟨1⟩) true false ps
      { attended with store := attended.store.reclaimPending }
      { init {} with store := (init {}).store.reclaimPending }) :
    fitsRun (Fair W ⟨2⟩ ⟨1⟩) [.guest, .compute ps false .succeed] (init {}) (init {}) := by
  refine ⟨.apart ?_ nofun, ?_, trivial⟩
  · intro c hc
    cases hc
    exact (by decide : ¬ 0 + 1 = 2)
  · change Part.Fits _ _ _ ((init {}).stepped (some (.register .counter))) (init {})
    rw [stepped_register]
    exact fun _ => h

/-- An observer that comes in a batch, before an insertion, and is not the first in one session. -/
def comingEarly : List Part := [.guest, .compute [.host, .single insertion rfl] false .succeed]

theorem comingEarly_fits : fitsRun (Fair Even ⟨2⟩ ⟨1⟩) comingEarly (init {}) (init {}) :=
  fits_after_guest ⟨.together (.register _ rfl rfl) rfl, fun _ => ⟨trivial, fun _ => trivial⟩⟩

/-- A batch in the company of a guest. -/
theorem outcome_batch_left (cs : List Command) (hp : (attended.doing cs).Passive) :
    (init {}).outcome [] [.register .counter, .compute cs false .succeed] =
      ({ (attended.doing cs).flush with heard := [] } : Session).outcome
        (attended.doing cs).flush.heard [] := by
  rw [outcome_cons execute_register (u := attended) rfl]
  exact outcome_cons (execute_succeeding rfl hp) rfl [] []

/-- The same batch without. -/
theorem outcome_batch_right (cs : List Command) (hp : ((init {}).doing cs).Passive) :
    (init {}).outcome [] [.compute cs false .succeed] =
      ({ ((init {}).doing cs).flush with heard := [] } : Session).outcome
        ((init {}).doing cs).flush.heard [] :=
  outcome_cons (execute_succeeding rfl hp) rfl [] []

theorem comingEarly_told :
    received ⟨2⟩ ((init {}).outcome [] (partsOn .left comingEarly)).heard =
        [.link ⟨2, 0⟩ .last .initial] ∧
      received ⟨1⟩ ((init {}).outcome [] (partsOn .right comingEarly)).heard =
        [.link ⟨2, 0⟩ .last .initial] := by
  have hl : (init {}).outcome [] (partsOn .left comingEarly) = _ :=
    outcome_batch_left [.register .counter, insertion] (passive_of_counters (n := 2) rfl)
  have hr : (init {}).outcome [] (partsOn .right comingEarly) = _ :=
    outcome_batch_right [.register .counter, insertion] (passive_of_counters (n := 1) rfl)
  have heard : received ⟨2⟩ ((init {}).outcome [] (partsOn .left comingEarly)).heard =
      [.link ⟨2, 0⟩ .last .initial] := by
    rw [hl, received_outcome_nil _ _ rfl]
    rfl
  refine ⟨heard, heard ▸ (neighbours_do_not_matter {} (init {}) comingEarly ⟨2⟩ ⟨1⟩ rfl
    comingEarly_fits fun _ => ?_).symm⟩
  rw [hl, hr]
  exact even_flush ..

/-! ## Where neighbours matter -/

/-- What `neighbours_do_not_matter` says, if `W` is asked for whenever the observer comes or goes
and `E` at the end unless it is gone. -/
def Unaffected (W : ObserverId → Session → Session → Prop) (E : Session → Session → Prop) : Prop :=
  ∀ (c : Config) (s : Session) (ps : List Part) (b d : ObserverId), start c = .ok s →
    fitsRun (Fair (W b) b d) ps s s →
    (b ∈ (s.outcome [] (partsOn .left ps)).registered →
      E (s.outcome [] (partsOn .left ps)) (s.outcome [] (partsOn .right ps))) →
    received b (s.outcome [] (partsOn .left ps)).heard =
      received d (s.outcome [] (partsOn .right ps)).heard

section

variable {W : Session → Session → Prop}

/-- A batch in which the observer comes after an insertion. -/
def comingLate : List Part := [.guest, .compute [.single insertion rfl, .host] false .succeed]

theorem comingLate_fits (hw : ∀ s t, ⟨2⟩ ∉ s.registered → W s t) :
    fitsRun (Fair W ⟨2⟩ ⟨1⟩) comingLate (init {}) (init {}) :=
  fits_after_guest ⟨trivial, fun _ =>
    ⟨.together (.register _ rfl rfl) (hw _ _ (by decide)), fun _ => trivial⟩⟩

/-- With a guest it hears of the insertion, and alone it does not. -/
theorem comingLate_told :
    received ⟨2⟩ ((init {}).outcome [] (partsOn .left comingLate)).heard =
        [.link ⟨2, 0⟩ .last .initial] ∧
      received ⟨1⟩ ((init {}).outcome [] (partsOn .right comingLate)).heard = [] ∧
        Even ((init {}).outcome [] (partsOn .left comingLate))
          ((init {}).outcome [] (partsOn .right comingLate)) := by
  have hl : (init {}).outcome [] (partsOn .left comingLate) = _ :=
    outcome_batch_left [insertion, .register .counter] (passive_of_counters (n := 2) rfl)
  have hr : (init {}).outcome [] (partsOn .right comingLate) = _ :=
    outcome_batch_right [insertion, .register .counter] (passive_of_counters (n := 1) rfl)
  rw [hl, hr]
  exact ⟨received_outcome_nil _ _ rfl, received_outcome_nil _ _ rfl, even_flush ..⟩

/-- A batch that panics with an insertion recorded, and a guest after it. -/
def leftWaiting : List Part := [.host, .compute [.single insertion rfl] false .panic, .guest]

/-- The session after the batch. -/
def owing : Session := { (attended.doing [insertion]).post with heard := [] }

/-- The session once the guest has come and everybody was told. -/
def quits : Session := { (owing.enrolled .counter).flush.knowing [⟨2⟩, ⟨1⟩] with heard := [] }

theorem passive_owing : owing.Passive := passive_of_counters (n := 1) rfl

theorem passive_quits : quits.Passive := (passive_owing.enrolled (o := .counter) trivial).flush

theorem execute_guest : (execute .outermost (.register .counter) owing).2 =
    (owing.enrolled .counter).flush.knowing [⟨2⟩, ⟨1⟩] :=
  obeying_register passive_owing (o := .counter) trivial false

theorem outcome_leftWaiting_left (ps : List Part) :
    (init {}).outcome [] (partsOn .left (leftWaiting ++ ps)) = quits.outcome
      [.call ⟨1⟩ (.link ⟨2, 0⟩ .last .initial) none, .call ⟨2⟩ (.link ⟨2, 0⟩ .last .initial) none]
      (partsOn .left ps) := by
  change (init {}).outcome [] (.register .counter :: .compute [insertion] false .panic ::
    .register .counter :: partsOn .left ps) = _
  rw [outcome_cons execute_register (u := attended) rfl,
    outcome_cons (execute_panicking rfl _) (u := owing) rfl]
  exact outcome_cons execute_guest rfl _ _

theorem outcome_leftWaiting_right (ps : List Part) :
    (init {}).outcome [] (partsOn .right (leftWaiting ++ ps)) =
      owing.outcome [] (partsOn .right ps) := by
  change (init {}).outcome [] (.register .counter :: .compute [insertion] false .panic ::
    partsOn .right ps) = _
  rw [outcome_cons execute_register (u := attended) rfl]
  exact outcome_cons (execute_panicking rfl _) rfl _ _

theorem leftWaiting_fits (ps : List Part) (hw : W (init {}) (init {}))
    (hps : fitsRun (Fair W ⟨1⟩ ⟨1⟩) ps quits owing) :
    fitsRun (Fair W ⟨1⟩ ⟨1⟩) (leftWaiting ++ ps) (init {}) (init {}) := by
  have ho : attended.stepped (some (.compute [insertion] false .panic)) = owing :=
    stepped_eq (execute_panicking rfl _) rfl
  have hq : owing.stepped (some (.register .counter)) = quits := stepped_eq execute_guest rfl
  refine ⟨.together (.register _ rfl rfl) hw, ?_⟩
  change fitsRun _ _ ((init {}).stepped (some (.register .counter)))
    ((init {}).stepped (some (.register .counter)))
  rw [stepped_register]
  refine ⟨fun _ => ⟨trivial, fun _ => trivial⟩, ?_⟩
  change fitsRun _ _ (attended.stepped (some (.compute [insertion] false .panic)))
    (attended.stepped (some (.compute [insertion] false .panic)))
  rw [ho]
  refine ⟨.apart ?_ nofun, ?_⟩
  · intro c hc
    cases hc
    exact (by decide : ¬ 1 + 1 = 1)
  · change fitsRun _ _ (owing.stepped (some (.register .counter))) owing
    rwa [hq]

/-- What was recorded before the panic is heard with a guest, and alone it is not. -/
theorem leftWaiting_told :
    received ⟨1⟩ ((init {}).outcome [] (partsOn .left leftWaiting)).heard =
        [.link ⟨2, 0⟩ .last .initial] ∧
      received ⟨1⟩ ((init {}).outcome [] (partsOn .right leftWaiting)).heard = [] := by
  have hl := outcome_leftWaiting_left []
  have hr := outcome_leftWaiting_right []
  rw [List.append_nil] at hl hr
  rw [hl, hr]
  exact ⟨received_outcome_nil _ _ rfl, received_outcome_nil _ _ rfl⟩

/-- The observer goes when only the session with the guest has told it. -/
def goingEarly : List Part := [.both (.call (.unregister 1)) rfl]

theorem execute_leave (hp : s.Passive) :
    (execute .outermost (.call (.unregister 1)) s).2 = (s.struck ⟨1⟩).flush :=
  unregister_eq hp false 1

theorem outcome_leave (hp : s.Passive) (h : List Heard) :
    s.outcome h (partsOn .left goingEarly) = ({ (s.struck ⟨1⟩).flush with heard := [] } :
      Session).outcome (h ++ (s.struck ⟨1⟩).flush.heard) [] :=
  outcome_cons (execute_leave hp) rfl [] h

/-- With a guest, what was recorded before the panic is heard, and then the observer is gone. -/
theorem goingEarly_left :
    received ⟨1⟩ ((init {}).outcome [] (partsOn .left (leftWaiting ++ goingEarly))).heard =
        [.link ⟨2, 0⟩ .last .initial] ∧
      ⟨1⟩ ∉ ((init {}).outcome [] (partsOn .left (leftWaiting ++ goingEarly))).registered := by
  rw [outcome_leftWaiting_left, outcome_leave passive_quits]
  exact ⟨received_outcome_nil _ _ rfl, by decide⟩

theorem goingEarly_right :
    received ⟨1⟩ ((init {}).outcome [] (partsOn .right (leftWaiting ++ goingEarly))).heard =
      [] := by
  rw [outcome_leftWaiting_right]
  change received ⟨1⟩ (owing.outcome [] (partsOn .left goingEarly)).heard = []
  rw [outcome_leave passive_owing]
  exact received_outcome_nil _ _ rfl

end

/-- In general neighbours do matter, and what `neighbours_do_not_matter` asks for cannot be left out
when the observer comes, nor when it goes, nor at the end. -/
theorem company_matters : ¬ Unaffected (fun _ _ _ => True) (fun _ _ => True) ∧
    ¬ Unaffected (fun b s t => b ∈ s.registered → Even s t) Even ∧
      ¬ Unaffected (fun b s t => b ∉ s.registered → Even s t) Even ∧
        ¬ Unaffected (fun _ => Even) fun _ _ => True := by
  obtain ⟨late_left, late_right, late_even⟩ := comingLate_told
  refine ⟨?_, ?_, ?_, ?_⟩
  · intro h
    have told := h {} (init {}) comingLate ⟨2⟩ ⟨1⟩ rfl (comingLate_fits fun _ _ _ => trivial)
      fun _ => trivial
    rw [late_left, late_right] at told
    cases told
  · intro h
    have told := h {} (init {}) comingLate ⟨2⟩ ⟨1⟩ rfl
      (comingLate_fits fun _ _ hb hb' => absurd hb' hb) fun _ => late_even
    rw [late_left, late_right] at told
    cases told
  · intro h
    have hgone := goingEarly_left.2
    have told := h {} (init {}) (leftWaiting ++ goingEarly) ⟨1⟩ ⟨1⟩ rfl
      (leftWaiting_fits goingEarly (fun _ => rfl)
        ⟨.together .unregister fun hb => absurd (by decide) hb, trivial⟩) fun hb => absurd hb hgone
    rw [goingEarly_left.1, goingEarly_right] at told
    cases told
  · intro h
    have told := h {} (init {}) leftWaiting ⟨1⟩ ⟨1⟩ rfl (leftWaiting_fits [] rfl trivial)
      fun _ => trivial
    rw [leftWaiting_told.1, leftWaiting_told.2] at told
    cases told

end SnapshotDeque.Session
