import SnapshotDeque.Proofs.Faultless
import SnapshotDeque.Session.Run

/-!
A session's deque as the deque of a world. The held snapshots are those in the table of a session
that are not closed, each once, and those that a call has opened for itself. Main statement: a
change made by a session is a change of that world.
-/

namespace SnapshotDeque.Session

/-! ## Failures in answers -/

def BatchEnd.failures : BatchEnd → List Error
  | failed e => [e]
  | _ => []

mutual

/-- Every failure that an answer reports, those of the commands in a batch or a walk included. -/
def Answer.failures : Answer → List Error
  | .failed e => [e]
  | .batch answers ending => failuresAll answers ++ ending.failures
  | .walk answers => failuresWalk answers
  | _ => []

def WalkAnswer.failures : WalkAnswer → List Error
  | .answer a => a.failures
  | _ => []

def failuresAll : List Answer → List Error
  | [] => []
  | a :: answers => a.failures ++ failuresAll answers

def failuresWalk : List WalkAnswer → List Error
  | [] => []
  | a :: answers => a.failures ++ failuresWalk answers

end

def Heard.failures : Heard → List Error
  | call .. => []
  | reaction _ answers => failuresAll answers

/-- No failure in the list is unexpected. -/
def Fine (n : Nat) (es : List Error) : Prop := ∀ e ∈ es, e.Expected n

variable {n : Nat}

theorem fine_nil : Fine n [] := nofun

theorem Fine.append {es fs : List Error} (h : Fine n es) (h' : Fine n fs) : Fine n (es ++ fs) :=
  fun e he => (List.mem_append.1 he).elim (h e) (h' e)

theorem fine_failed {e : Error} (h : e.Expected n) : Fine n (Answer.failed e).failures := by
  rw [Answer.failures]
  intro f hf
  rw [List.mem_singleton.1 hf]
  exact h

/-! ## Sessions and worlds -/

def Entry.openView? (e : Entry) : Option View :=
  if e.snapshot.closed then none else some e.snapshot.view

/-- The snapshots in the table that are not closed. -/
def openViews (s : Session) : List View :=
  s.snapshots.toList.filterMap fun e => e.bind Entry.openView?

/-- The deque of a session is that of a world in which just the snapshots in the table and those in
`own` are held, each once, and observers noted no unexpected failure. -/
structure Backed (c : Config) (n : Nat) (own : List View) (s : Session) : Prop where
  reached : ∃ held, World.Reached c { store := s.store, held } ∧
    (s.store.disposed = false → ∀ v, v ∈ own ++ s.openViews ↔ ∃ h ∈ held, h.view = v)
  ids : ((own ++ s.openViews).map (·.id)).Nodup
  heard : ∀ h ∈ s.heard, Fine n h.failures

section Change

variable {c : Config} {own : List View} {s : Session} {ρ : Type}

theorem Backed.congr {own' : List View} {t : Session} (h : Backed c n own s)
    (hs : t.store = s.store) (hp : (own' ++ t.openViews).Perm (own ++ s.openViews))
    (hh : t.heard = s.heard) : Backed c n own' t := by
  obtain ⟨held, hr, hv⟩ := h.reached
  refine ⟨⟨held, ?_, fun ho v => ?_⟩, ?_, ?_⟩
  · rw [hs]
    exact hr
  · rw [hs] at ho
    exact hp.mem_iff.trans (hv ho v)
  · exact (hp.map _).nodup_iff.2 h.ids
  · rw [hh]
    exact h.heard

/-- A change that neither opens nor closes a snapshot. -/
def isPlain : Mutation Element ρ → Bool
  | .openSnapshot => false
  | .openPolled _ => false
  | .closeSnapshot _ _ => false
  | _ => true

theorem holdings_of_isPlain {m : Mutation Element ρ} (hm : isPlain m = true)
    {w : World Element} (ho : (w.after m).store.disposed = false) :
    w.holdings m (m.run w.store).1 = w.held := by
  have hd := World.disposes_eq_false ho
  cases m with
  | openSnapshot => cases hm
  | openPolled limit => cases hm
  | closeSnapshot id v => cases hm
  | dispose => cases hd
  | _ => rfl

theorem disposed_of_run (m : Mutation Element ρ) (s : Store Element)
    (h : (m.run s).2.disposed = false) : s.disposed = false := by
  cases hd : s.disposed with
  | false => rfl
  | true =>
    rw [show (m.run s).2.disposed = true from World.after_disposed (w := { store := s }) m hd] at h
    cases h

section Run

variable (h : Backed c n own s)

include h

/-- A change after which the same snapshots are held. -/
theorem Backed.run_kept {m : Mutation Element ρ}
    (hp : ∀ held, World.Permits { store := s.store, held } m)
    (hk : ∀ held, (m.run s.store).2.disposed = false →
      World.holdings { store := s.store, held } m (m.run s.store).1 = held)
    (hv : (m.run s.store).2.Within n) :
    Backed c n own { s with store := (m.run s.store).2 } ∧
      ∀ e, (m.run s.store).1 = .error e → e.Expected n := by
  obtain ⟨held, hr, hh⟩ := h.reached
  refine ⟨⟨⟨_, hr.change m (hp held) hv.modification, fun ho v => ?_⟩, h.ids, h.heard⟩,
    fun e he => ?_⟩
  · rw [hk held ho]
    exact hh (disposed_of_run m s.store ho) v
  · rcases hr.error_of_run (hp held) hv.modification he with he | ⟨he, _, hs⟩
    · exact Or.inl he
    · exact Or.inr ⟨he, hs.symm.trans_le hv.slots⟩

theorem Backed.run_plain {m : Mutation Element ρ} (hm : isPlain m = true)
    (hv : (m.run s.store).2.Within n) :
    Backed c n own { s with store := (m.run s.store).2 } ∧
      ∀ e, (m.run s.store).1 = .error e → e.Expected n := by
  refine h.run_kept (fun held => ?_) (fun held ho => ?_) hv
  · cases m with
    | closeSnapshot id v => cases hm
    | _ => trivial
  · exact holdings_of_isPlain (w := { store := s.store, held }) hm ho

/-- A snapshot that is opened belongs to the call that opened it. -/
theorem Backed.run_opened {m : Mutation Element View}
    (hm : m = .openSnapshot ∨ ∃ limit, m = .openPolled limit) {v : View}
    (hv : (m.run s.store).2.Within n) (hr : (m.run s.store).1 = .ok v) :
    Backed c n (v :: own) { s with store := (m.run s.store).2 } := by
  obtain ⟨held, hreach, hh⟩ := h.reached
  have hd : s.store.disposed = false := by
    cases hd : s.store.disposed with
    | false => rfl
    | true =>
      rcases hm with rfl | ⟨limit, rfl⟩
      · rw [Mutation.run_of_disposed hd rfl] at hr
        cases hr
      · rw [Mutation.run_of_disposed hd rfl] at hr
        cases hr
  obtain ⟨l, hw⟩ := hreach.coherent hd
  have hp : World.Permits { store := s.store, held } m := by
    rcases hm with rfl | ⟨limit, rfl⟩ <;> trivial
  have hmd : m.disposes = false := by
    rcases hm with rfl | ⟨limit, rfl⟩ <;> rfl
  have hout := hw.after_outcome hp hv.modification hmd
  have hopen : ∃ ps, World.holdings { store := s.store, held } m (m.run s.store).1 =
      ⟨v, ps⟩ :: held ∧ v.id = ⟨s.store.snapshotsOpened + 1⟩ := by
    rw [hr]
    rcases hm with rfl | ⟨limit, rfl⟩
    · exact ⟨_, rfl, (hout.pins v hr).id⟩
    · exact ⟨_, rfl, (hout.pins v hr).id⟩
  obtain ⟨ps, hhold, hid⟩ := hopen
  refine ⟨⟨_, hreach.change m hp hv.modification, fun _ u => ?_⟩, ?_, h.heard⟩
  · rw [hhold, List.exists_mem_cons_iff, ← hh hd u]
    exact List.mem_cons.trans (or_congr_left eq_comm)
  · change ((v :: (own ++ s.openViews)).map (·.id)).Nodup
    rw [List.map_cons, List.nodup_cons]
    refine ⟨fun hmem => ?_, h.ids⟩
    obtain ⟨u, hu, huv⟩ := List.mem_map.1 hmem
    obtain ⟨g, hg, rfl⟩ := (hh hd u).1 hu
    have hle := hw.opened g hg
    rw [huv, hid] at hle
    exact Nat.not_succ_le_self _ hle

/-- The call that opened a snapshot closes it. -/
theorem Backed.run_closed {v : View} {own' : List View} (hown : own = v :: own')
    (hv : ((Mutation.closeSnapshot v.id v.version).run s.store).2.Within n) :
    Backed c n own' { s with store := ((Mutation.closeSnapshot v.id v.version).run s.store).2 } := by
  subst hown
  obtain ⟨held, hr, hh⟩ := h.reached
  have hids := h.ids
  rw [List.cons_append, List.map_cons, List.nodup_cons] at hids
  cases hd : s.store.disposed with
  | true =>
    rw [Mutation.run_of_disposed hd rfl]
    exact ⟨⟨held, hr, fun ho => by rw [show s.store.disposed = true from hd] at ho; cases ho⟩,
      hids.2, h.heard⟩
  | false =>
    obtain ⟨g, hg, rfl⟩ := (hh hd v).1 (List.mem_cons_self ..)
    have hp : World.Permits { store := s.store, held }
        (.closeSnapshot g.view.id g.view.version : Mutation Element Pass) := ⟨g, hg, rfl, rfl⟩
    refine ⟨⟨_, hr.change _ hp hv.modification, fun _ u => ?_⟩, hids.2, h.heard⟩
    obtain ⟨l, hw⟩ := hr.coherent hd
    obtain ⟨_, _, ⟨p, hres⟩, _⟩ := hw.opens rfl (hw.after_outcome hp hv.modification rfl)
    rw [show ((Mutation.closeSnapshot g.view.id g.view.version).run s.store).1 = .ok p from hres]
    constructor
    · intro hu
      obtain ⟨f, hf, rfl⟩ := (hh hd u).1 (List.mem_cons_of_mem _ hu)
      refine ⟨f, List.mem_filter.2 ⟨hf, decide_eq_true fun e => hids.1 ?_⟩, rfl⟩
      rw [← e]
      exact List.mem_map_of_mem hu
    · rintro ⟨f, hf, rfl⟩
      obtain ⟨hf, hne⟩ := List.mem_filter.1 hf
      rcases List.mem_cons.1 ((hh hd f.view).2 ⟨f, hf, rfl⟩) with e | hu
      · exact absurd (congrArg View.id e) (of_decide_eq_true hne)
      · exact hu

end Run

end Change

end SnapshotDeque.Session
