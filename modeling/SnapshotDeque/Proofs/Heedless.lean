import SnapshotDeque.Proofs.Anatomy

/-!
Changes pay no attention to whether events are recorded, nor to those that were recorded before
them. What a change answers and what it does to the deque is the same whatever the record holds; its
own events come behind, if events are recorded.
-/

namespace SnapshotDeque

namespace Store

variable {α : Type} {s : Store α} {es : List (Event α)}

/-- The store in which `es` was recorded before everything else. -/
def preceded (es : List (Event α)) (s : Store α) : Store α := { s with events := es ++ s.events }

theorem preceded_events (s : Store α) :
    ({ s with events := [] } : Store α).preceded s.events = s := by
  rw [preceded, List.append_nil]

/-- What comes to a record in two steps. -/
theorem recording_append (t : Store α) (on : Bool) (es fs gs : List (Event α)) :
    t.recording on (es ++ (if on then fs else []) ++ if on then gs else []) =
      t.recording on (es ++ if on then fs ++ gs else []) := by
  cases on <;> simp

/-! ## Giving links and nodes back -/

theorem emit_recording (e : Event α) (s : Store α) (on : Bool) (es : List (Event α)) :
    (s.recording on es).emit e = (s.emit e).recording on (es ++ if on then [e] else []) := by
  have hs : ∀ fs, (s.emit e).recording on fs = s.recording on fs := fun fs => by
    unfold emit
    split <;> rfl
  rw [hs]
  cases on with
  | true => rfl
  | false => exact congrArg (s.recording false) (List.append_nil es).symm

theorem disposeNode_recording (x : Handle) (s : Store α) (p : Pass) :
    ∃ news, ∀ on es, (s.recording on es).disposeNode x p =
      ((s.disposeNode x p).1.recording on (es ++ if on then news else []),
        (s.disposeNode x p).2) := by
  have still : ∀ on es, s.recording on es = s.recording on (es ++ if on then [] else []) :=
    fun on es => by rw [ite_self, List.append_nil]
  unfold disposeNode
  rcases hn : s.arena.get? x with _ | n
  · exact ⟨[], fun on es => by
      rw [show (s.recording on es).arena = s.arena from rfl, hn, ← still]⟩
  · dsimp only
    split
    · rcases hr : s.arena.remove x with _ | ⟨m, b⟩
      · exact ⟨[], fun on es => by
          rw [show (s.recording on es).arena = s.arena from rfl, hn, ← still]
          dsimp only
          rw [if_pos ‹_›, hr]⟩
      · refine ⟨[.dispose m.element], fun on es => ?_⟩
        rw [show (s.recording on es).arena = s.arena from rfl, hn]
        dsimp only
        rw [if_pos ‹_›, hr]
        exact congrArg (·, _) (emit_recording _ { s with arena := b } on es)
    · exact ⟨[], fun on es => by
        rw [show (s.recording on es).arena = s.arena from rfl, hn, ← still]
        dsimp only
        rw [if_neg ‹_›]⟩

theorem release_recording (s : Store α) (p : Pass) (i : Nat) :
    ∃ news, ∀ on es, (s.recording on es).release p i =
      ((s.release p i).1.recording on (es ++ if on then news else []), (s.release p i).2) :=
  disposeNode_recording (s.owner i)
    { s with links := s.links.release i
             arena := s.arena.modify (s.owner i) fun n => { n with liveLinks := n.liveLinks - 1 } }
    _

theorem releaseAll_recording (is : List Nat) (x : Store α × Pass) :
    ∃ news, ∀ on es, is.foldl (fun x i => x.1.release x.2 i) (x.1.recording on es, x.2) =
      ((is.foldl (fun x i => x.1.release x.2 i) x).1.recording on (es ++ if on then news else []),
        (is.foldl (fun x i => x.1.release x.2 i) x).2) := by
  induction is generalizing x with
  | nil => exact ⟨[], fun on es => by rw [ite_self, List.append_nil]; rfl⟩
  | cons i is ih =>
    obtain ⟨fs, hf⟩ := x.1.release_recording x.2 i
    obtain ⟨gs, hg⟩ := ih (x.1.release x.2 i)
    refine ⟨fs ++ gs, fun on es => ?_⟩
    rw [List.foldl_cons, List.foldl_cons, hf, hg, recording_append]

theorem reclaim_recording (s : Store α) (budget : Nat) :
    ∃ news, ∀ on es, (s.recording on es).reclaim budget =
      ((s.reclaim budget).1,
        (s.reclaim budget).2.recording on (es ++ if on then news else [])) := by
  by_cases he : s.obsolete.isEmpty = true
  · have hs : s.reclaim budget = ({}, s) := by rw [reclaim, if_pos he]
    refine ⟨[], fun on es => ?_⟩
    rw [hs, ite_self, List.append_nil]
    exact if_pos he
  · obtain ⟨news, h⟩ := releaseAll_recording (s.due budget)
      ({ s with obsolete := s.obsolete.drop (s.due budget).length }, {})
    refine ⟨news, fun on es => ?_⟩
    have h : (s.due budget).foldl (fun x i => x.1.release x.2 i)
        (({ s.recording on es with obsolete := s.obsolete.drop (s.due budget).length } : Store α),
          ({} : Pass)) = _ := h on es
    unfold reclaim
    rw [show (s.recording on es).obsolete = s.obsolete from rfl, if_neg he, if_neg he]
    dsimp only
    rw [show (s.recording on es).due budget = s.due budget from rfl, h]
    rfl

theorem reclaimPending_recording (s : Store α) :
    ∃ news, ∀ on es, (s.recording on es).reclaimPending =
      s.reclaimPending.recording on (es ++ if on then news else []) := by
  by_cases hr : s.obsolete.head?.any s.isReclaimable = true
  · obtain ⟨news, h⟩ := s.reclaim_recording s.config.reclaimBatch
    refine ⟨news, fun on es => ?_⟩
    rw [reclaimPending, reclaimPending, if_pos hr]
    exact (if_pos hr).trans (congrArg (·.2) (h on es))
  · refine ⟨[], fun on es => ?_⟩
    rw [ite_self, List.append_nil, reclaimPending, reclaimPending, if_neg hr]
    exact if_neg hr

theorem closeSnapshot_recording (s : Store α) (id : SnapshotId) (v : Version) :
    ∃ news, ∀ on es, (s.recording on es).closeSnapshot id v =
      ((s.closeSnapshot id v).1,
        (s.closeSnapshot id v).2.recording on (es ++ if on then news else [])) := by
  by_cases hl : (s.timeline.unpin v id).1 = true
  · obtain ⟨news, h⟩ :=
      ({ s with timeline := (s.timeline.unpin v id).2 } : Store α).reclaim_recording
        s.config.reclaimBatch
    refine ⟨news, fun on es => ?_⟩
    rw [closeSnapshot, closeSnapshot]
    dsimp only
    rw [if_pos hl]
    exact (if_pos hl).trans (h on es)
  · refine ⟨[], fun on es => ?_⟩
    rw [ite_self, List.append_nil, closeSnapshot, closeSnapshot]
    dsimp only
    rw [if_neg hl]
    exact if_neg hl

theorem dispose_recording (s : Store α) :
    ∃ news, ∀ on es, (s.recording on es).dispose =
      s.dispose.recording on (es ++ if on then news else []) :=
  ⟨s.arena.drain.1.map (.dispose ·.element), fun on es => by
    cases on <;> simp [dispose, recording]⟩

end Store

/-! ## Edits -/

namespace Edit

variable {α ρ σ : Type} {k : Traffic} {P : Version → Prop}

/-- Whether events are recorded, and which, makes no difference to an edit. -/
structure Heedless (x : Edit α ρ) : Prop where
  returns : ∀ {s a t}, Returns x s a t → ∃ news, ∀ on es,
    Returns x (s.recording on es) a (t.recording on (es ++ if on then news else []))
  fails : ∀ {s e t}, Fails x s e t → ∃ news, ∀ on es,
    Fails x (s.recording on es) e (t.recording on (es ++ if on then news else []))

theorem heedless_pure (a : ρ) : Heedless (pure a : Edit α ρ) where
  returns hr := by
    cases hr
    exact ⟨[], fun on es => by rw [ite_self, List.append_nil]; rfl⟩
  fails hr := by cases hr

theorem heedless_throw (e : Error) : Heedless (throw e : Edit α ρ) where
  returns hr := by cases hr
  fails hr := by
    cases hr
    exact ⟨[], fun on es => by rw [ite_self, List.append_nil]; rfl⟩

theorem heedless_ask {f : Store α → Except Error ρ}
    (h : ∀ s on es, f (s.recording on es) = f s) : Heedless (Edit.ask f) where
  returns {s a t} hr := by
    refine ⟨[], fun on es => ?_⟩
    rw [ite_self, List.append_nil]
    unfold Returns Edit.ask at hr ⊢
    rw [h]
    rcases hf : f s with e | b <;> rw [hf] at hr <;> cases hr
    rfl
  fails {s e t} hr := by
    refine ⟨[], fun on es => ?_⟩
    rw [ite_self, List.append_nil]
    unfold Fails Edit.ask at hr ⊢
    rw [h]
    rcases hf : f s with e | b <;> rw [hf] at hr <;> cases hr
    rfl

theorem heedless_step {g : Store α → ρ × Store α}
    (h : ∀ s, ∃ news, ∀ on es, g (s.recording on es) =
      ((g s).1, (g s).2.recording on (es ++ if on then news else []))) :
    Heedless (modifyGet g : Edit α ρ) where
  returns {s a t} hr := by
    cases hr
    obtain ⟨news, h⟩ := h s
    refine ⟨news, fun on es => ?_⟩
    have hg := returns_modifyGet g (s.recording on es)
    rw [h] at hg
    exact hg
  fails hr := by cases hr

/-- A step that records nothing. -/
theorem heedless_silent {g : Store α → ρ × Store α}
    (h : ∀ s on es, g (s.recording on es) = ((g s).1, (g s).2.recording on es)) :
    Heedless (modifyGet g : Edit α ρ) :=
  heedless_step fun s => ⟨[], fun on es => by rw [ite_self, List.append_nil, h]⟩

theorem Heedless.bind {x : Edit α ρ} {f : ρ → Edit α σ} (hx : Heedless x)
    (hf : ∀ a, Heedless (f a)) : Heedless (x >>= f) where
  returns hr := by
    obtain ⟨a, t, h1, h2⟩ := hr.exists_of_bind
    obtain ⟨fs, h1⟩ := hx.returns h1
    obtain ⟨gs, h2⟩ := (hf a).returns h2
    refine ⟨fs ++ gs, fun on es => ?_⟩
    rw [← Store.recording_append]
    exact (h1 on es).bind (h2 on _)
  fails {s e u} hr := by
    cases h : x s with
    | ok a t =>
      have hr : Fails (f a) t e u := (Returns.bind_apply h f).symm.trans hr
      obtain ⟨fs, h1⟩ := hx.returns h
      obtain ⟨gs, h2⟩ := (hf a).fails hr
      refine ⟨fs ++ gs, fun on es => ?_⟩
      rw [← Store.recording_append]
      exact (h1 on es).bind_fails (h2 on _)
    | error e' t =>
      cases (Fails.bind (f := f) h).symm.trans hr
      obtain ⟨fs, h1⟩ := hx.fails h
      exact ⟨fs, fun on es => (h1 on es).bind⟩

theorem heedless_look {f : Store α → Edit α ρ} (h : ∀ s on es, f (s.recording on es) = f s)
    (hf : ∀ s, Heedless (f s)) : Heedless (get >>= f) where
  returns {s a t} hr := by
    obtain ⟨news, hr⟩ := (hf s).returns (show Returns (f s) s a t from hr)
    refine ⟨news, fun on es => ?_⟩
    have hr := hr on es
    rw [← h s on es] at hr
    exact hr
  fails {s e t} hr := by
    obtain ⟨news, hr⟩ := (hf s).fails (show Fails (f s) s e t from hr)
    refine ⟨news, fun on es => ?_⟩
    have hr := hr on es
    rw [← h s on es] at hr
    exact hr

/-- Neither look nor step of an edit pays attention to events, so nor does the edit. -/
theorem Built.heedless {x : Edit α ρ} (hx : Built k P x) (hP : ∀ v, P v) : Heedless x := by
  induction hx with
  | pure a => exact heedless_pure a
  | fail e => exact heedless_throw e
  | ask blind => exact heedless_ask blind
  | look blind _ ih => exact heedless_look blind ih
  | bind _ _ ih ih' => exact ih.bind ih'
  | mint _ ih => exact Heedless.bind (heedless_silent fun _ _ _ => rfl) fun v => ih v (hP v)
  | step blind _ => exact heedless_silent blind
  | @askStep ρ σ f g next blind blind' _ _ ih =>
    refine (heedless_ask blind).bind fun a => Heedless.bind ?_ fun _ => ih a
    exact heedless_silent (g := fun s => ((), g a s)) fun s on es => by rw [blind']
  | emit e =>
    exact heedless_step (g := fun s => ((), s.emit e)) fun s =>
      ⟨[e], fun on es => by rw [Store.emit_recording]⟩
  | release _ i =>
    refine heedless_step (g := fun s => ((), { (s.release {} i).1 with
      totals := (s.release {} i).1.totals.recordReleased (s.release {} i).2 })) fun s => ?_
    obtain ⟨news, h⟩ := s.release_recording {} i
    exact ⟨news, fun on es => by rw [h]; rfl⟩

end Edit

namespace Mutation

open Store (preceded)

variable {α ρ : Type}

theorem heedless_effect {m : Mutation α ρ} (hm : m.needsDeque = true) :
    Edit.Heedless m.effect := by
  have built : ∀ {k : Traffic} {x : Edit α ρ}, Edit.Built k (fun _ => True) x →
      Edit.Heedless x := fun h => h.heedless fun _ => trivial
  cases m with
  | insert a side => exact built (.insert a side)
  | insertAll as side => exact built (.insertAll as side)
  | unlink x => exact built (.unlink x)
  | unlinkEach xs => exact built (.unlinkEach xs)
  | poll side => exact built (.poll side)
  | clear => exact built .clear
  | openSnapshot => exact built .openSnapshot
  | openPolled limit => exact built (.openPolled limit)
  | closeSnapshot id v => exact Edit.heedless_step fun s => s.closeSnapshot_recording id v
  | reclaim => exact Edit.heedless_step fun s => s.reclaim_recording s.config.reclaimBatch
  | settle => exact built (k := .coming) (.pure ())
  | dispose =>
    refine Edit.heedless_step (g := fun s => ((), s.dispose)) fun s => ?_
    obtain ⟨news, h⟩ := s.dispose_recording
    exact ⟨news, fun on es => by rw [h]⟩
  | observe on => cases hm

/-- The pass before a change. -/
theorem cleared_recording (m : Mutation α ρ) (s : Store α) :
    ∃ news, ∀ on es, (if m.reclaimsFirst then (s.recording on es).reclaimPending
        else s.recording on es) =
      (if m.reclaimsFirst then s.reclaimPending else s).recording on
        (es ++ if on then news else []) := by
  cases m.reclaimsFirst with
  | true => exact s.reclaimPending_recording
  | false => exact ⟨[], fun on es => by rw [ite_self, List.append_nil]; rfl⟩

/-- Whether events are recorded, and which, makes no difference to a change; its own come behind. -/
structure Regardless (m : Mutation α ρ) (s : Store α) (news : List (Event α)) : Prop where
  run : ∀ on es, m.run (s.recording on es) =
    ((m.run s).1, (m.run s).2.recording on (es ++ if on then news else []))
  emitting : (m.run s).2.emitting = s.emitting
  events : (m.run s).2.events = s.events ++ if s.emitting then news else []

theorem run_recording {m : Mutation α ρ} (hm : m.needsDeque = true) (s : Store α) :
    ∃ news, ∀ on es, m.run (s.recording on es) =
      ((m.run s).1, (m.run s).2.recording on (es ++ if on then news else [])) := by
  by_cases hd : (m.needsDeque && s.disposed) = true
  · have hs : m.run s = (.error .disposed, s) := by rw [run, if_pos hd]
    refine ⟨[], fun on es => ?_⟩
    rw [hs, ite_self, List.append_nil]
    exact if_pos hd
  · obtain ⟨fs, hf⟩ := m.cleared_recording s
    unfold run
    rw [if_neg hd]
    dsimp only
    cases he : m.effect (if m.reclaimsFirst then s.reclaimPending else s) with
    | ok a t =>
      obtain ⟨gs, hg⟩ := (heedless_effect hm).returns he
      refine ⟨fs ++ gs, fun on es => (if_neg hd).trans ?_⟩
      rw [hf, hg, Store.recording_append]
    | error e t =>
      obtain ⟨gs, hg⟩ := (heedless_effect hm).fails he
      refine ⟨fs ++ gs, fun on es => (if_neg hd).trans ?_⟩
      rw [hf, hg, Store.recording_append]

theorem regardless {m : Mutation α ρ} (hm : m.needsDeque = true) (s : Store α) :
    ∃ news, m.Regardless s news := by
  obtain ⟨news, h⟩ := run_recording hm s
  have hs : (m.run s).2 = (m.run s).2.recording s.emitting
      (s.events ++ if s.emitting then news else []) := congrArg Prod.snd (h s.emitting s.events)
  refine ⟨news, h, ?_, ?_⟩
  · rw [hs]
    rfl
  · rw [hs]
    rfl

theorem Regardless.recording {m : Mutation α ρ} {s : Store α} {news : List (Event α)}
    (h : m.Regardless s news) (on : Bool) (es : List (Event α)) :
    m.Regardless (s.recording on es) news where
  run on' es' := by
    rw [h.run on es]
    exact h.run on' es'
  emitting := by
    rw [h.run on es]
    rfl
  events := by
    rw [h.run on es]
    rfl

/-- What was recorded before a change makes no difference to it. -/
theorem run_preceded (m : Mutation α ρ) (s : Store α) (es : List (Event α)) :
    m.run (s.preceded es) = ((m.run s).1, (m.run s).2.preceded es) := by
  cases hm : m.needsDeque with
  | false =>
    cases m with
    | observe on => rfl
    | _ => cases hm
  | true =>
    obtain ⟨news, h⟩ := regardless hm s
    have hp : m.run (s.preceded es) = _ := h.run s.emitting (es ++ s.events)
    rw [hp, List.append_assoc, ← h.events, ← h.emitting]
    rfl

end Mutation

end SnapshotDeque
