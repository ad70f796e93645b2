import SnapshotDeque.Proofs.Calls

/-!
Removal through a snapshot. The snapshot picks nodes among those that it shows, by a test that may
remember what it was asked before, and these are unlinked from the live deque in one change. Handles
name nodes for good, so a node that is gone by then is passed over, and no other node is taken for
it. Main statement: removal takes out just the linked nodes among those picked, answers how many, and
is not noticed by any snapshot.
-/

namespace SnapshotDeque

namespace Test

variable {α β : Type}

/-- The state of a test once it was asked about each of `as`. -/
def after (p : Test α) (s : p.State) (as : List α) : p.State :=
  as.foldl (fun s a => (p.ask s a).2) s

/-- The answers if each of `as` is asked about once: each is given by a test that was asked about
those before it, in order, and about nothing else. -/
def answers (p : Test α) (s : p.State) (as : List α) : List Bool :=
  as.mapIdx fun i a => (p.ask (p.after s (as.take i)) a).1

/-- The nodes of `es` on whose elements the answer is `yes` if `p` is asked about each element of
`es` once, front to back. -/
def picks (p : Test α) (yes : Bool) (es : List (Handle × α)) : List Handle :=
  ((es.zip (p.answers p.start (es.map (·.2)))).filter (·.2 = yes)).map (·.1.1)

@[simp] theorem answers_cons (p : Test α) (s : p.State) (a : α) (as : List α) :
    p.answers s (a :: as) = (p.ask s a).1 :: p.answers (p.ask s a).2 as := by
  simp [answers, after, List.mapIdx_cons]

theorem select_eq (p : Test α) (value : β → α) (s : p.State) (bs : List β) :
    p.select value s bs =
      ((bs.zip (p.answers s (bs.map value))).filter (·.2 = true)).map (·.1) := by
  induction bs generalizing s with
  | nil => rfl
  | cons b bs ih =>
    rw [select, List.map_cons, answers_cons, List.zip_cons_cons]
    cases hb : (p.ask s (value b)).1 with
    | true => simp [hb, ih]
    | false => simp [hb, ih]

theorem answers_not (p : Test α) (s : p.State) (as : List α) :
    p.not.answers s as = (p.answers s as).map (!·) := by
  induction as generalizing s with
  | nil => rfl
  | cons a as ih =>
    rw [answers_cons, List.map_cons, ← ih]
    exact answers_cons p.not s a as

theorem picks_not (p : Test α) (es : List (Handle × α)) :
    p.not.picks true es = p.picks false es := by
  have hnot : p.not.answers p.not.start (es.map (·.2)) =
      (p.answers p.start (es.map (·.2))).map (!·) := answers_not p p.start _
  rw [picks, picks, hnot, List.zip_map_right, List.filter_map, List.map_map]
  congr 1
  refine List.filter_congr fun x _ => ?_
  cases x with
  | mk e yes => cases yes <;> rfl

theorem answers_ofPredicate (q : α → Bool) (s : Unit) (as : List α) :
    (ofPredicate q).answers s as = as.map q := by
  induction as with
  | nil => rfl
  | cons a as ih => exact (answers_cons _ s a as).trans (congrArg (q a :: ·) ih)

/-- A test without memory picks what it holds of. -/
theorem picks_ofPredicate (q : α → Bool) (es : List (Handle × α)) :
    (ofPredicate q).picks true es = (es.filter fun e => q e.2).map (·.1) := by
  have hanswers := answers_ofPredicate q () (es.map (·.2))
  rw [picks, show (ofPredicate q).start = () from rfl, hanswers]
  induction es with
  | nil => rfl
  | cons e es ih =>
    have ih := ih (answers_ofPredicate q () _)
    cases hq : q e.2 with
    | true => simpa [hq] using ih
    | false => simpa [hq] using ih

theorem first?_ofPredicate (q : α → Bool) (value : β → α) (s : Unit) (bs : List β) :
    (ofPredicate q).first? value s bs = bs.find? fun b => q (value b) := by
  induction bs with
  | nil => rfl
  | cons b bs ih =>
    change (if q (value b) then some b else (ofPredicate q).first? value () bs) = _
    rw [List.find?_cons]
    cases q (value b) with
    | true => rfl
    | false => exact ih

end Test

namespace World

variable {α : Type} {w : World α} {l : List (Handle × α)} {h : Holding α}

/-- No sentinel is shown. -/
theorem Coherent.payload (hw : w.Coherent l) (hh : h ∈ w.held) {e : Handle × α}
    (he : e ∈ h.contents) : e.1.isSentinel = false := by
  obtain ⟨ps, hd, hn⟩ := hw.displays h hh
  rw [← hn] at he
  obtain ⟨p, hp, rfl⟩ := List.mem_map.1 he
  exact (hd.row.shows_ p hp).payload

theorem Coherent.picked (hw : w.Coherent l) (hh : h ∈ w.held) (p : Test α) :
    ({ view := h.view } : Snapshot).picked w.store p = .ok (p.picks true h.contents) := by
  rw [Snapshot.picked, (hw.nodes hh).1]
  change Except.ok ((p.select (fun e => e.2) p.start h.contents).map fun e => e.1) = _
  rw [Test.select_eq, List.map_map]
  rfl

theorem Coherent.find? (hw : w.Coherent l) (hh : h ∈ w.held) (q : α → Bool) :
    ({ view := h.view } : Snapshot).find? w.store (.ofPredicate q) =
      .ok (h.contents.find? fun e => q e.2) := by
  rw [Snapshot.find?, (hw.nodes hh).1]
  exact congrArg Except.ok (Test.first?_ofPredicate q (fun e => e.2) () h.contents)

end World

namespace Session

variable {ρ : Type} {c : Config} {m : Mode} {s : Session} {held : List (Holding Element)}
  {h : Holding Element}

/-- The session once a change left the store `d`. The events of the change are delivered unless a
batch is under way. -/
def finish (s : Session) (m : Mode) (d : Store Element) : Session :=
  if m.batch then { s with store := d } else m.deliver ({ s with store := d } : Session).post

theorem change_eq (s : Session) (m : Mode) (x : Mutation Element ρ) :
    s.change m x = ((x.run s.store).1, s.finish m (x.run s.store).2) := by
  unfold change finish
  dsimp only
  split <;> rfl

/-- From `s` to `d` the nodes `xs` are unlinked as far as they were linked, and all others stay
linked in their order. The snapshots in `held` show what they showed. -/
structure Removes (s d : Store Element) (held : List (Holding Element)) (xs : List Handle) :
    Prop where
  entries : d.entries = s.entries.filter (·.1 ∉ xs)
  shown : ∀ g ∈ held, ({ view := g.view } : Snapshot).nodes s = .ok g.contents ∧
    ({ view := g.view } : Snapshot).nodes d = .ok g.contents

/-- Unless the versions run out, `r` is what comes of unlinking the nodes `xs` in one change, if
there are any: as far as they were linked they are unlinked, and the answer is the number of those. -/
def Takes (s : Session) (m : Mode) (held : List (Holding Element)) (xs : List Handle)
    (r : Answer × Session) : Prop :=
  let d := ((Mutation.unlinkEach xs : Mutation Element Nat).run s.store).2
  d.timeline.modification < .max →
    r.1 = .number (s.store.entries.countP (·.1 ∈ xs)) ∧
      (xs = [] ∧ r.2 = s ∨ r.2 = s.finish m d) ∧ Removes s.store d held xs

section Reached

variable (hr : World.Reached c { store := s.store, held }) (ho : s.store.disposed = false)

include hr ho

/-- A change that unlinks nodes is not noticed by any snapshot. -/
theorem removes_run {x : Mutation Element ρ} {xs : List Handle}
    (hp : World.Permits { store := s.store, held } x) (hx : x.disposes = false)
    (hheld : World.holdings { store := s.store, held } x (x.run s.store).1 = held)
    (hv : (x.run s.store).2.timeline.modification < .max)
    (he : (x.run s.store).2.entries = s.store.entries.filter (·.1 ∉ xs)) :
    Removes s.store (x.run s.store).2 held xs := by
  obtain ⟨l, hw⟩ := hr.coherent ho
  obtain ⟨l', hw'⟩ := hw.after hp hv hx
  refine ⟨he, fun g hg => ⟨(hw.nodes hg).1, (hw'.nodes ?_).1⟩⟩
  rw [World.after, hheld]
  exact hg

theorem takes_unlinkPicked {xs : List Handle} (hxs : ∀ x ∈ xs, x.isSentinel = false) :
    s.Takes m held xs (s.unlinkPicked m (.ok xs)) := by
  intro hv
  obtain ⟨l, hw⟩ := hr.coherent ho
  obtain rfl : s.store.entries = l := hw.live.entries
  have hnone : xs.find? (·.isSentinel) = none := List.find?_eq_none.2 fun x hx => by simp [hxs x hx]
  have hact := hw.acts (m := .unlinkEach xs) trivial hv rfl (hw.live.fits rfl)
  simp only [Mutation.Acts, hnone] at hact
  obtain ⟨hres, hentries⟩ := hact
  have hrem := removes_run hr ho (x := .unlinkEach xs) trivial rfl rfl hv hentries
  cases xs with
  | nil => exact ⟨by simp [unlinkPicked], Or.inl ⟨rfl, rfl⟩, hrem⟩
  | cons x xs =>
    have hchange := change_eq s m (.unlinkEach (x :: xs))
    rw [hres] at hchange
    have hpicked : s.unlinkPicked m (.ok (x :: xs)) =
        s.changing m (.unlinkEach (x :: xs)) fun n s => (.number n, s) := rfl
    rw [hpicked, changing_of_ok hchange]
    exact ⟨rfl, Or.inr rfl, hrem⟩

theorem removes_unlink {x : Handle} (hx : x.isSentinel = false)
    (hv : ((Mutation.unlink x : Mutation Element Bool).run s.store).2.timeline.modification < .max) :
    (s.changing m (.unlink x) fun b s => (.flag b, s)) =
        (.flag (decide (x ∈ s.store.entries.map (·.1))),
          s.finish m ((Mutation.unlink x : Mutation Element Bool).run s.store).2) ∧
      Removes s.store ((Mutation.unlink x : Mutation Element Bool).run s.store).2 held [x] := by
  obtain ⟨l, hw⟩ := hr.coherent ho
  obtain rfl : s.store.entries = l := hw.live.entries
  have hact := hw.acts (m := .unlink x) trivial hv rfl (hw.live.fits rfl)
  simp only [Mutation.Acts, hx, Bool.false_eq_true, if_false] at hact
  obtain ⟨hres, hentries⟩ := hact
  have hchange := change_eq s m (.unlink x)
  rw [hres] at hchange
  rw [changing_of_ok hchange]
  refine ⟨rfl, removes_run hr ho (x := .unlink x) trivial rfl rfl hv (hentries.trans ?_)⟩
  simp

/-- What the snapshot's removals come to. Each takes just what it picks among the nodes that the
snapshot shows and that are linked still, and no snapshot notices. -/
theorem removal_takes_matching {h : Holding Element} (hh : h ∈ held) (m : Mode) :
    (∀ p : Test Element,
      ({ view := h.view } : Snapshot).picked s.store p = .ok (p.picks true h.contents) ∧
      s.Takes m held (p.picks true h.contents)
        (s.unlinkPicked m (({ view := h.view } : Snapshot).picked s.store p)) ∧
      s.Takes m held (p.picks false h.contents)
        (s.unlinkPicked m (({ view := h.view } : Snapshot).picked s.store p.not))) ∧
    (∀ q : Predicate,
      s.Takes m held (q.test.picks true h.contents)
        (s.consult m { view := h.view } (.removeIf q)) ∧
      s.Takes m held (q.test.picks false h.contents)
        (s.consult m { view := h.view } (.retainOnly q))) ∧
    (∀ as, s.Takes m held ((h.contents.filter (·.2 ∈ as)).map (·.1))
      (s.consult m { view := h.view } (.removeAll as))) ∧
    ∀ a,
      (h.contents.find? (·.2 = a) = none →
        s.consult m { view := h.view } (.remove a) = (.flag false, s)) ∧
      ∀ e, h.contents.find? (·.2 = a) = some e →
        let d := ((Mutation.unlink e.1 : Mutation Element Bool).run s.store).2
        d.timeline.modification < .max →
          s.consult m { view := h.view } (.remove a) =
              (.flag (decide (e.1 ∈ s.store.entries.map (·.1))), s.finish m d) ∧
            Removes s.store d held [e.1] := by
  obtain ⟨l, hw⟩ := hr.coherent ho
  have htakes : ∀ p : Test Element, s.Takes m held (p.picks true h.contents)
      (s.unlinkPicked m (({ view := h.view } : Snapshot).picked s.store p)) := by
    intro p
    rw [show ({ view := h.view } : Snapshot).picked s.store p = _ from hw.picked hh p]
    refine takes_unlinkPicked hr ho fun x hx => ?_
    obtain ⟨y, hy, rfl⟩ := List.mem_map.1 hx
    exact hw.payload hh (List.of_mem_zip (List.mem_of_mem_filter hy)).1
  have hfalse := fun p : Test Element => p.picks_not h.contents ▸ htakes p.not
  refine ⟨fun p => ⟨hw.picked hh p, htakes p, hfalse p⟩,
    fun q => ⟨htakes q.test, hfalse q.test⟩, fun as => ?_, fun a => ?_⟩
  · have := htakes (.ofPredicate (· ∈ as))
    rw [Test.picks_ofPredicate] at this
    exact this
  · have hfind : ({ view := h.view } : Snapshot).find? s.store (.ofPredicate (· = a)) = _ :=
      hw.find? hh (· = a)
    refine ⟨fun hn => ?_, fun e he hv => ?_⟩
    · rw [consult, hfind, hn]
    · have hremove : s.consult m { view := h.view } (.remove a) =
          s.changing m (.unlink e.1) fun b s => (.flag b, s) := by
        rw [consult, hfind, he]
      rw [hremove]
      exact removes_unlink hr ho (hw.payload hh (List.mem_of_find?_eq_some he)) hv

end Reached

open World

/-- A deque with three equal elements, and a snapshot that shows the first two of them. -/
def sevens : World Element :=
  let two : World Element := (({ store := .init {} } : World Element).after
    (.insert (.int 7) .last)).after (.insert (.int 7) .last)
  (two.after .openSnapshot).after (.insert (.int 7) .last)

/-- The snapshot that is held in `sevens`. -/
def onSevens : Holding Element :=
  ⟨⟨⟨1⟩, .initial, 2, 3, 2⟩, [(⟨2, 0⟩, .int 7), (⟨3, 0⟩, .int 7)]⟩

theorem reached_sevens : Reached {} sevens := by
  have h0 : Reached {} ({ store := .init {} } : World Element) := .init rfl
  have h1 := h0.change (.insert (.int 7 : Element) .last) trivial (by decide)
  have h2 := h1.change (.insert (.int 7 : Element) .last) trivial (by decide)
  have h3 := h2.change .openSnapshot trivial (by decide)
  exact h3.change (.insert (.int 7 : Element) .last) trivial (by decide)

/-- Of the elements shown every second one is picked, and its equals stay. -/
theorem every_second_seven_goes :
    (({ store := sevens.store } : Session).consult .outermost { view := onSevens.view }
      (.removeIf (.every 2))).1 = .number 1 ∧
    ((Mutation.unlinkEach [⟨3, 0⟩] : Mutation Element Nat).run sevens.store).2.entries =
      [(⟨2, 0⟩, .int 7), (⟨4, 0⟩, .int 7)] := by
  have hheld : onSevens ∈ sevens.held := List.Mem.head _
  have hreached : ∀ {w : World Element}, Reached {} w →
      Reached {} { store := ({ store := w.store } : Session).store, held := w.held } := fun hw => hw
  obtain ⟨-, hpred, -, -⟩ :=
    removal_takes_matching (hreached reached_sevens) (by decide) hheld .outermost
  have hpicks : (Predicate.every 2).test.picks true onSevens.contents = [⟨3, 0⟩] := by decide
  have hlive : sevens.store.entries =
      [(⟨2, 0⟩, .int 7), (⟨3, 0⟩, .int 7), (⟨4, 0⟩, .int 7)] := by decide +kernel
  have htakes := (hpred (.every 2)).1
  rw [hpicks] at htakes
  obtain ⟨hans, -, hrem⟩ := htakes (by decide +kernel)
  have hentries := hrem.entries
  rw [hlive] at hans hentries
  exact ⟨hans, hentries⟩

end Session

end SnapshotDeque
