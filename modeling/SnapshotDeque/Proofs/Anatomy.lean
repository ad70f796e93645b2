import SnapshotDeque.Proofs.Edit
import SnapshotDeque.Proofs.Release

/-!
What edits are made of. Each edit is put together from looks at the store, from elementary steps
that change one part of it, and from events that are told; looks and steps pay no attention to the
events recorded so far. `Edit.Built` says how an edit is put together, and every edit of the deque
is shown to be built this way once and for all: what holds of the parts can then be concluded for
the whole. In one edit nodes only come or only go.
-/

namespace SnapshotDeque

namespace LinkTable

variable {α : Type} {t : LinkTable α}

/-- The links of `t` are in `u` with their stamps, and with the tags that they had. -/
structure Dates (t u : LinkTable α) : Prop where
  createdOn : ∀ i, i < t.size → (u.get i).createdOn = (t.get i).createdOn
  obsoleteOn : ∀ {i v}, (t.get i).obsoleteOn = some v → (u.get i).obsoleteOn = some v

theorem Dates.refl (t : LinkTable α) : Dates t t := ⟨fun _ _ => rfl, id⟩

theorem SameSpine.dates {u : LinkTable α} (h : SameSpine t u) : Dates t u :=
  ⟨fun i _ => h.createdOn i, fun {i _} hv => (h.obsoleteOn i).trans hv⟩

theorem dates_modify (t : LinkTable α) (i : Nat) {f : Link α → Link α}
    (hc : ∀ l, (f l).createdOn = l.createdOn)
    (ho : ∀ l v, l.obsoleteOn = some v → (f l).obsoleteOn = some v) : Dates t (t.modify i f) := by
  refine ⟨fun k _ => ?_, fun {k v} hv => ?_⟩
  · rw [get_modify]
    split
    · exact hc _
    · rfl
  · rw [get_modify]
    split
    · exact ho _ v hv
    · exact hv

/-- The first tag stays. -/
theorem dates_markObsolete (t : LinkTable α) (i : Nat) (v : Version) :
    Dates t (t.modify i (·.markObsolete v)) :=
  dates_modify t i (fun _ => rfl) fun l w hw => by rw [Link.markObsolete, hw]; rfl

theorem dates_push (t : LinkTable α) (l : Link α) : Dates t (t.push l) := by
  refine ⟨fun i hi => ?_, fun {i v} hv => ?_⟩
  · rw [get_push, if_neg (Nat.ne_of_lt hi)]
  · rw [get_push]
    split
    · -- outside the table there is no tag
      next hi =>
      rw [hi, get_of_size_le (Nat.le_refl _)] at hv
      cases hv
    · exact hv

theorem Dates.trans {u w : LinkTable α} (h : Dates t u) (hs : t.size ≤ u.size)
    (h' : Dates u w) : Dates t w :=
  ⟨fun i hi => (h'.createdOn i (Nat.lt_of_lt_of_le hi hs)).trans (h.createdOn i hi),
    fun hv => h'.obsoleteOn (h.obsoleteOn hv)⟩

theorem dates_forked (t : LinkTable α) (i : Nat) (v : Version) : Dates t (t.forked i v) := by
  refine Dates.trans (dates_push t _) (by simp) (dates_modify _ i (fun _ => rfl) ?_)
  intro l w hw
  rw [Link.markObsolete, hw]
  rfl

/-- A fork puts one link into the table, and the others keep their stamps and tags. -/
theorem dates_fork {u : LinkTable α} {i j : Nat} {v : Version} (h : t.fork i v = .ok (j, u)) :
    u.size = t.size + 1 ∧ (u.get t.size).createdOn = v ∧ Dates t u := by
  unfold fork at h
  dsimp only at h
  split at h
  · cases h
  split at h
  · cases h
  cases h
  refine ⟨by simp, ?_, dates_forked t i v⟩
  rw [get_modify, get_push, if_pos rfl]
  split <;> rfl

end LinkTable

/-- Which way nodes move between the arena and the deque's users. -/
inductive Traffic
  | coming
  | going

namespace Store

variable {α : Type}

/-- The store with another record of events. -/
def recording (s : Store α) (on : Bool) (events : List (Event α)) : Store α :=
  { s with emitting := on, events }

/-- An elementary step of an edit in which nodes only come or only go. Links are made only with
stamps of which `P` holds. -/
inductive Step (k : Traffic) (P : Version → Prop) : Store α → Store α → Prop
  | other {s t : Store α} (links : t.links = s.links) (timeline : t.timeline = s.timeline)
      (arena : t.arena = s.arena) (obsolete : s.obsolete <+: t.obsolete) : Step k P s t
  | links {s : Store α} {l : LinkTable α} (size : l.size = s.links.size)
      (dates : s.links.Dates l) : Step k P s { s with links := l }
  | grow {s : Store α} {l : LinkTable α} (size : l.size = s.links.size + 1)
      (stamp : P (l.get s.links.size).createdOn) (dates : s.links.Dates l) :
    Step k P s { s with links := l }
  | pin {s : Store α} (id : SnapshotId) : Step k P s { s with timeline := (s.timeline.pin id).2 }
  | node {s : Store α} (x : Handle) {f : Node α → Node α}
      (kept : ∀ n, (f n).id = n.id ∧ (f n).element = n.element) :
    Step k P s { s with arena := s.arena.modify x f }
  | enter {s : Store α} {a : α} {x : Handle} {b : Arena α} (coming : k = .coming)
      (entered : s.arena.insert a = .ok (x, b)) : Step k P s { s with arena := b }

end Store

namespace Edit

open Store (Step)

variable {α ρ β : Type} {k : Traffic} {P : Version → Prop}

/-- How an edit is put together in which nodes only come or only go. -/
inductive Built (k : Traffic) (P : Version → Prop) : {ρ : Type} → Edit α ρ → Prop
  | pure {ρ : Type} (a : ρ) : Built k P (pure a)
  | fail {ρ : Type} (e : Error) : Built k P (throw e : Edit α ρ)
  | ask {ρ : Type} {f : Store α → Except Error ρ} (blind : ∀ s on es, f (s.recording on es) = f s) :
    Built k P (Edit.ask f)
  | look {ρ : Type} {f : Store α → Edit α ρ} (blind : ∀ s on es, f (s.recording on es) = f s)
      (next : ∀ s, Built k P (f s)) : Built k P (get >>= f)
  | bind {ρ σ : Type} {x : Edit α ρ} {f : ρ → Edit α σ} (first : Built k P x)
      (next : ∀ a, Built k P (f a)) : Built k P (x >>= f)
  /-- Of the stamp that is minted, `P` may be taken to hold. -/
  | mint {ρ : Type} {f : Version → Edit α ρ} (next : ∀ v, P v → Built k P (f v)) :
    Built k P (Edit.mint >>= f)
  | step {ρ : Type} {g : Store α → ρ × Store α}
      (blind : ∀ s on es, g (s.recording on es) = ((g s).1, (g s).2.recording on es))
      (step : ∀ s, Step k P s (g s).2) : Built k P (modifyGet g : Edit α ρ)
  /-- What was found out goes into the next step. -/
  | askStep {ρ σ : Type} {f : Store α → Except Error ρ} {g : ρ → Store α → Store α}
      {next : ρ → Edit α σ} (blind : ∀ s on es, f (s.recording on es) = f s)
      (blind' : ∀ a s on es, g a (s.recording on es) = (g a s).recording on es)
      (step : ∀ s a, f s = .ok a → Step k P s (g a s)) (rest : ∀ a, Built k P (next a)) :
    Built k P (Edit.ask f >>= fun a => (modify (g a) : Edit α Unit) >>= fun _ => next a)
  | emit (e : Event α) : Built k P (modify (Store.emit e) : Edit α Unit)
  | release (going : k = .going) (i : Nat) :
    Built k P (modify (fun s => let (s, p) := s.release {} i
      { s with totals := s.totals.recordReleased p }) : Edit α Unit)

/-- What insertion goes on with once the new node is in the arena: a link for it is put between two
links whose nodes are neighbours. -/
def enlist (node : Handle) (element : α) (side : End) (v : Version) (previous next : Nat) :
    Edit α Handle := do
  let next ← writable next v
  let previous ← writable previous v
  let link ← newLink
    { owner := node, createdOn := v, element := some element
      previous := some previous, next := some next }
  join previous link
  join link next
  install link
  checkSplice previous link
  checkSplice link next
  recount (· + 1) v
  modify (Store.emit (.link node side v))
  return node

theorem spliceBetween_eq (a : α) (side : End) (v : Version) (p n : Nat) :
    Edit.spliceBetween a side v p n = Edit.ask (fun s => s.arena.insert a) >>= fun x =>
      (modify fun s => { s with arena := x.2 } : Edit α Unit) >>= fun _ =>
        enlist x.1 a side v p n := rfl

namespace Built

/-- A step that gives no answer. -/
theorem stepUnit {g : Store α → Store α}
    (blind : ∀ s on es, g (s.recording on es) = (g s).recording on es)
    (h : ∀ s, Step k P s (g s)) : Built k P (modify g : Edit α Unit) :=
  .step (g := fun s => ((), g s)) (fun s on es => by rw [blind]) h

theorem foldlM {f : ρ → β → Edit α ρ} (h : ∀ a b, Built k P (f a b)) :
    ∀ (bs : List β) (a : ρ), Built k P (bs.foldlM f a) := by
  intro bs
  induction bs with
  | nil => exact .pure
  | cons b bs ih => exact fun a => .bind (h a b) ih

theorem forM {f : β → Edit α PUnit} (h : ∀ b, Built k P (f b)) :
    ∀ bs : List β, Built k P (bs.forM f) := by
  intro bs
  induction bs with
  | nil => exact .pure _
  | cons b bs ih => exact .bind (h b) fun _ => ih

theorem mapM {f : β → Edit α ρ} (h : ∀ b, Built k P (f b)) :
    ∀ bs : List β, Built k P (bs.mapM f) := by
  intro bs
  induction bs with
  | nil =>
    rw [List.mapM_nil]
    exact .pure _
  | cons b bs ih =>
    rw [List.mapM_cons]
    exact .bind (h b) fun _ => .bind ih fun _ => .pure _

theorem editLinks {f : LinkTable α → LinkTable α} (hs : ∀ t, (f t).size = t.size)
    (hd : ∀ t, LinkTable.Dates t (f t)) : Built k P (Edit.editLinks f) :=
  stepUnit (fun _ _ _ => rfl) fun _ => .links (hs _) (hd _)

/-- The counts of two links are changed. -/
theorem editCounts (b e : Nat) (f g : Nat → Nat) :
    Built k P (Edit.editLinks fun t : LinkTable α =>
      (t.modify b fun l => { l with count := f l.count }).modify e
        fun l => { l with count := g l.count }) :=
  editLinks (fun t => by simp) fun t => by
    refine (LinkTable.SameSpine.trans (LinkTable.sameSpine_modify t b ?_)
      (LinkTable.sameSpine_modify _ e ?_)).dates
    all_goals exact fun _ => ⟨rfl, rfl, rfl, rfl, rfl, rfl⟩

theorem join (p n : Nat) : Built k P (Edit.join p n : Edit α Unit) :=
  editLinks (fun t => (LinkTable.sameSpine_join t p n).size)
    fun t => (LinkTable.sameSpine_join t p n).dates

theorem retire (i : Nat) : Built k P (Edit.retire i : Edit α Unit) :=
  stepUnit (fun _ _ _ => rfl) fun s => .other rfl rfl rfl (List.prefix_append s.obsolete [i])

theorem newLink {l : Link α} (hl : P l.createdOn) : Built k P (Edit.newLink l) := by
  refine .step (fun _ _ _ => rfl) fun s => .grow (LinkTable.size_push ..) ?_ ?_
  · rw [LinkTable.get_push, if_pos rfl]
    exact hl
  · exact LinkTable.dates_push s.links l

theorem install (i : Nat) : Built k P (Edit.install i : Edit α Unit) := by
  have other : ∀ g : Store α → Store α, (∀ s on es, g (s.recording on es) =
      (g s).recording on es) → (∀ s, (g s).links = s.links ∧ (g s).timeline = s.timeline ∧
      (g s).arena = s.arena ∧ (g s).obsolete = s.obsolete) → Built k P (modify g : Edit α Unit) :=
    fun g hb hg => stepUnit hb fun s =>
      .other (hg s).1 (hg s).2.1 (hg s).2.2.1 ((hg s).2.2.2 ▸ List.prefix_refl _)
  unfold Edit.install
  refine .look (fun _ _ _ => rfl) fun s => ?_
  dsimp only
  split
  · exact other _ (fun _ _ _ => rfl) fun _ => ⟨rfl, rfl, rfl, rfl⟩
  split
  · exact other _ (fun _ _ _ => rfl) fun _ => ⟨rfl, rfl, rfl, rfl⟩
  refine .look (fun _ _ _ => rfl) fun s => ?_
  split
  · exact stepUnit (fun _ _ _ => rfl) fun _ => .node _ fun _ => ⟨rfl, rfl⟩
  · exact .fail _

theorem checkSplice (p n : Nat) : Built k P (Edit.checkSplice p n : Edit α Unit) := by
  unfold Edit.checkSplice
  refine .look (fun _ _ _ => rfl) fun s => ?_
  dsimp only
  split
  · exact .pure _
  · exact .fail _

theorem checkCapacity (n : Nat) : Built k P (Edit.checkCapacity n : Edit α Unit) := by
  unfold Edit.checkCapacity
  refine .look (fun _ _ _ => rfl) fun s => ?_
  split
  · exact .fail _
  · exact .pure _

/-! ## Links that may be changed -/

theorem writable (i : Nat) {v : Version} (hv : P v) :
    Built k P (Edit.writable i v : Edit α Nat) := by
  unfold Edit.writable
  refine .look (fun _ _ _ => rfl) fun s => ?_
  dsimp only
  split
  · exact .pure _
  · refine .askStep (f := fun s => s.links.fork i v) (g := fun x s => { s with links := x.2 })
      (fun _ _ _ => rfl) (fun _ _ _ _ => rfl) (fun s x hx => ?_) fun x => ?_
    · obtain ⟨hs, hc, hd⟩ := LinkTable.dates_fork hx
      exact .grow hs (hc.symm ▸ hv) hd
    · exact .bind (install _) fun _ => .bind (retire _) fun _ => .pure _

theorem recount (f : Nat → Nat) {v : Version} (hv : P v) :
    Built k P (Edit.recount f v : Edit α Unit) := by
  unfold Edit.recount
  refine .look (fun _ _ _ => rfl) fun _ => .bind (writable _ hv) fun _ => ?_
  exact .look (fun _ _ _ => rfl) fun _ => .bind (writable _ hv) fun _ => editCounts _ _ _ _

/-! ## Insertion -/

theorem enlist (x : Handle) (a : α) (side : End) {v : Version} (hv : P v) (p n : Nat) :
    Built k P (Edit.enlist x a side v p n) := by
  refine .bind (writable _ hv) fun _ => .bind (writable _ hv) fun _ => ?_
  refine .bind (newLink hv) fun _ => .bind (join _ _) fun _ => .bind (join _ _) fun _ => ?_
  refine .bind (install _) fun _ => .bind (checkSplice _ _) fun _ => ?_
  refine .bind (checkSplice _ _) fun _ => .bind (recount _ hv) fun _ => ?_
  exact .bind (.emit _) fun _ => .pure _

theorem spliceBetween (a : α) (side : End) {v : Version} (hv : P v) (p n : Nat) :
    Built .coming P (Edit.spliceBetween a side v p n) := by
  rw [spliceBetween_eq]
  exact .askStep (fun _ _ _ => rfl) (fun _ _ _ _ => rfl) (fun s x hx => .enter rfl hx)
    fun x => enlist x.1 a side hv p n

theorem splice (a : α) (side : End) {v : Version} (hv : P v) :
    Built .coming P (Edit.splice a side v) := by
  cases side with
  | first =>
    refine .look (fun _ _ _ => rfl) fun _ => ?_
    exact .bind (.ask fun _ _ _ => rfl) fun _ => spliceBetween _ _ hv _ _
  | last =>
    refine .look (fun _ _ _ => rfl) fun _ => ?_
    exact .bind (.ask fun _ _ _ => rfl) fun _ => spliceBetween _ _ hv _ _

theorem insert (a : α) (side : End) : Built .coming P (Edit.insert a side) :=
  .bind (checkCapacity 1) fun _ => .mint fun _ hv => splice _ _ hv

theorem insertAll (as : List α) (side : End) : Built .coming P (Edit.insertAll as side) := by
  unfold Edit.insertAll
  refine .bind (checkCapacity _) fun _ => ?_
  split
  · exact .pure _
  · refine .mint fun v hv => ?_
    cases side with
    | first => exact .bind (mapM (fun _ => splice _ _ hv) _) fun _ => .pure _
    | last => exact mapM (fun _ => splice _ _ hv) _

/-! ## Removal -/

theorem detach (x : Handle) (v : Version) : Built .going P (Edit.detach x v : Edit α Unit) := by
  unfold Edit.detach
  refine .look (fun _ _ _ => rfl) fun s => ?_
  split
  · exact .fail _
  · rename_i i _
    refine .bind (stepUnit (fun _ _ _ => rfl) fun s => .node x fun _ => ⟨rfl, rfl⟩) fun _ => ?_
    refine .bind (.emit _) fun _ => .look (fun _ _ _ => rfl) fun s => ?_
    dsimp only
    split
    · exact .bind (editLinks (fun t => by simp) fun t => LinkTable.dates_markObsolete t i v)
        fun _ => retire _
    · exact .release rfl i

theorem unlinkAt (i : Nat) {v : Version} (hv : P v) :
    Built .going P (Edit.unlinkAt i v : Edit α Unit) := by
  unfold Edit.unlinkAt
  refine .bind (.ask fun _ _ _ => rfl) fun _ => .bind (.ask fun _ _ _ => rfl) fun _ => ?_
  refine .bind (writable _ hv) fun _ => .bind (writable _ hv) fun _ => ?_
  refine .bind (join _ _) fun _ => .bind (checkSplice _ _) fun _ => ?_
  exact .bind (recount _ hv) fun _ => .look (fun _ _ _ => rfl) fun _ => detach _ _

theorem unlink (x : Handle) : Built .going P (Edit.unlink x : Edit α Bool) := by
  unfold Edit.unlink
  split
  on_goal 1 => refine .bind (.fail _) fun _ => ?_
  all_goals
    refine .look (fun _ _ _ => rfl) fun s => ?_
    split
    · exact .pure _
    · exact .mint fun _ hv => .bind (unlinkAt _ hv) fun _ => .pure _

theorem unlinkEach (xs : List Handle) : Built .going P (Edit.unlinkEach xs : Edit α Nat) :=
  foldlM (fun _ x => .bind (unlink x) fun _ => by split <;> exact .pure _) xs 0

theorem poll (side : End) : Built .going P (Edit.poll side : Edit α (Option α)) := by
  unfold Edit.poll
  refine .bind (.ask fun _ _ _ => rfl) fun i => .look (fun _ _ _ => rfl) fun s => ?_
  split
  · exact .pure _
  · exact .mint fun _ hv => .bind (unlinkAt _ hv) fun _ => .pure _

theorem linksFrom_recording (s : Store α) (on : Bool) (es : List (Event α)) (n i : Nat) :
    (s.recording on es).linksFrom n i = s.linksFrom n i := by
  induction n generalizing i with
  | zero => rfl
  | succ n ih =>
    unfold Store.linksFrom
    simp only [ih]
    rfl

theorem liveLinks_recording (s : Store α) (on : Bool) (es : List (Event α)) :
    (s.recording on es).liveLinks = s.liveLinks := by
  unfold Store.liveLinks
  simp only [linksFrom_recording]
  rfl

theorem unlinkEverything {v : Version} (hv : P v) :
    Built .going P (Edit.unlinkEverything v : Edit α Nat) := by
  unfold Edit.unlinkEverything
  refine .bind (.ask liveLinks_recording) fun _ => .look (fun _ _ _ => rfl) fun s => ?_
  dsimp only
  split
  · exact .pure _
  · refine .bind (writable _ hv) fun _ => .look (fun _ _ _ => rfl) fun _ => ?_
    refine .bind (writable _ hv) fun _ => .bind (join _ _) fun _ => ?_
    refine .bind (editCounts _ _ (fun _ => 0) (fun _ => 0)) fun _ => ?_
    refine .bind (checkSplice _ _) fun _ => ?_
    exact .bind (forM (fun _ => detach _ _) _) fun _ => .pure _

theorem clear : Built .going P (Edit.clear : Edit α Nat) := .mint fun _ hv => unlinkEverything hv

/-! ## Snapshots -/

theorem openSnapshot : Built .going P (Edit.openSnapshot : Edit α View) := by
  unfold Edit.openSnapshot
  refine .look (fun _ _ _ => rfl) fun s => ?_
  refine .bind (stepUnit (fun _ _ _ => rfl) fun s => .other rfl rfl rfl (List.prefix_refl _))
    fun _ => ?_
  refine .bind (.step (fun _ _ _ => rfl) fun s => .pin _) fun _ => ?_
  refine .bind (.ask fun _ _ _ => rfl) fun _ => .bind (.ask fun _ _ _ => rfl) fun _ => ?_
  exact .look (fun _ _ _ => rfl) fun _ => .pure _

theorem unlinkSeen (seen : Version) {v : Version} (hv : P v) :
    ∀ n last, Built .going P (Edit.unlinkSeen seen v n last : Edit α Nat) := by
  intro n
  induction n with
  | zero => exact .pure
  | succ n ih =>
    intro last
    unfold Edit.unlinkSeen
    refine .bind (.ask fun _ _ _ => rfl) fun i => .look (fun _ _ _ => rfl) fun s => ?_
    split
    · exact .fail _
    · exact .bind (unlinkAt _ hv) fun _ => ih _

theorem openPolled (limit : Option Nat) : Built .going P (Edit.openPolled limit : Edit α View) := by
  unfold Edit.openPolled
  refine .bind openSnapshot fun view => ?_
  dsimp only
  split
  · exact .pure _
  · refine .mint fun v hv => ?_
    split
    · exact .bind (unlinkEverything hv) fun _ => .pure _
    · exact .bind (unlinkSeen _ hv _ _) fun _ => .pure _

end Built

end Edit

end SnapshotDeque
