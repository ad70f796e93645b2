import SnapshotDeque.Proofs.Anatomy

/-!
The history of a deque. Of all that a run of a deque does, only a few steps are told: a node gets
its first link, a node is unlinked, a node is disposed, and a link is given back. Main definition:
`Tale`, what was done from one store to another; main statement: what a tale says about the events
that it ends with.
-/

namespace SnapshotDeque

/-- What is done to a node. -/
inductive Act
  | link (side : End) (version : Version)
  | unlink (version : Version)
  | dispose

structure Deed (α : Type) where
  id : NodeId
  node : Handle
  element : α
  act : Act

/-- What is known of a node in the arena. -/
structure Record (α : Type) where
  id : NodeId
  element : α
  linked : Bool

namespace Deed

variable {α : Type}

def isLink (d : Deed α) : Bool := match d.act with | .link .. => true | _ => false

def isUnlink (d : Deed α) : Bool := match d.act with | .unlink _ => true | _ => false

def isDispose (d : Deed α) : Bool := match d.act with | .dispose => true | _ => false

/-- What observers are told of a deed. -/
def event (d : Deed α) : Event α :=
  match d.act with
  | .link side v => .link d.node side v
  | .unlink v => .unlink d.node v
  | .dispose => .dispose d.element

/-- The stamp that observers are told. -/
def version? (d : Deed α) : Option Version :=
  match d.act with
  | .link _ v => some v
  | .unlink v => some v
  | .dispose => none

/-- The node as the deed finds it. -/
def before (d : Deed α) : Option (Record α) :=
  match d.act with
  | .link .. => none
  | .unlink _ => some ⟨d.id, d.element, true⟩
  | .dispose => some ⟨d.id, d.element, false⟩

/-- The node as the deed leaves it. -/
def after (d : Deed α) : Option (Record α) :=
  match d.act with
  | .link .. => some ⟨d.id, d.element, true⟩
  | .unlink _ => some ⟨d.id, d.element, false⟩
  | .dispose => none

/-- To dispose of a node is nothing else, and it has no stamp. -/
theorem kinds_of_isDispose {d : Deed α} (h : d.isDispose = true) :
    d.isLink = false ∧ d.isUnlink = false ∧ d.version? = none := by
  unfold isDispose at h
  unfold isLink isUnlink version?
  cases ha : d.act with
  | dispose => exact ⟨rfl, rfl, rfl⟩
  | _ => rw [ha] at h; cases h

theorem isLink_of_isUnlink {d : Deed α} (h : d.isUnlink = true) : d.isLink = false := by
  unfold isUnlink at h
  unfold isLink
  cases ha : d.act with
  | link side v => simp [ha] at h
  | _ => rfl

theorem isDispose_of_kinds {d : Deed α} (hl : d.isLink = false) (hu : d.isUnlink = false) :
    d.isDispose = true := by
  unfold isLink at hl
  unfold isUnlink at hu
  unfold isDispose
  cases ha : d.act with
  | dispose => rfl
  | _ => simp [ha] at hl hu

end Deed

/-- What may be done while nodes only come or only go. Either way, nodes may be disposed. -/
def Traffic.Allows {α : Type} : Traffic → Deed α → Prop
  | coming, d => d.isUnlink = false
  | going, d => d.isLink = false

theorem Traffic.allows_of_isDispose {α : Type} (k : Traffic) {d : Deed α}
    (h : d.isDispose = true) : k.Allows d := by
  cases k with
  | coming => exact (Deed.kinds_of_isDispose h).2.1
  | going => exact (Deed.kinds_of_isDispose h).1

namespace Store

variable {α : Type} {s t u : Store α}

def record? (s : Store α) (x : Handle) : Option (Record α) :=
  (s.arena.get? x).map fun n => ⟨n.id, n.element, n.head.isSome⟩

theorem record?_of_get? {x : Handle} {n : Node α} (h : s.arena.get? x = some n) :
    s.record? x = some ⟨n.id, n.element, n.head.isSome⟩ := by
  rw [record?, h]
  rfl

theorem isSome_head?_eq (s : Store α) (x : Handle) :
    (s.arena.head? x).isSome = (s.record? x).any (·.linked) := by
  rw [Arena.head?, record?]
  cases s.arena.get? x <;> rfl

theorem map_element_eq (s : Store α) (x : Handle) :
    (s.arena.get? x).map (·.element) = (s.record? x).map (·.element) := by
  rw [record?]
  cases s.arena.get? x <;> rfl

/-- Nothing is done to any node from `s` to `t`, and no link is given back. -/
structure Still (s t : Store α) : Prop where
  record : ∀ x, t.record? x = s.record? x
  nextId : t.arena.nextId = s.arena.nextId
  size : t.arena.size = s.arena.size
  emitting : t.emitting = s.emitting
  events : t.events = s.events
  disposed : t.disposed = s.disposed
  modification : s.timeline.modification ≤ t.timeline.modification

/-- From `s` to `t`, deed `d` is done and nothing else, and no link is given back. -/
structure Does (s : Store α) (d : Deed α) (t : Store α) : Prop where
  before : s.record? d.node = d.before
  record : ∀ x, t.record? x = if x = d.node then d.after else s.record? x
  /-- What gets its first link is numbered on. -/
  fresh : d.before = none → d.id.val = s.arena.nextId
  nextId : t.arena.nextId = s.arena.nextId + [d].countP Deed.isLink
  size : t.arena.size + [d].countP Deed.isDispose = s.arena.size + [d].countP Deed.isLink
  emitting : t.emitting = s.emitting
  events : t.events = if s.emitting then s.events ++ [d.event] else s.events
  disposed : t.disposed = s.disposed
  modification : t.timeline.modification = s.timeline.modification
  version : ∀ v ∈ d.version?, v = s.timeline.modification

/-- From `s` to `t`, the deeds in the list are done, and so many links are given back. -/
inductive Tale : Store α → List (Deed α) → Nat → Store α → Prop
  | nil {s : Store α} : Tale s [] 0 s
  | still {s t u : Store α} {ds : List (Deed α)} {k : Nat} (h : Tale s ds k t) (still : Still t u) :
    Tale s ds k u
  | release {s t : Store α} {ds : List (Deed α)} {k i : Nat} (h : Tale s ds k t) :
    Tale s ds (k + 1) (t.withoutLink i)
  | does {s t u : Store α} {ds : List (Deed α)} {d : Deed α} {k : Nat} (h : Tale s ds k t)
    (does : Does t d u) : Tale s (ds ++ [d]) k u

variable {ds es : List (Deed α)} {d : Deed α} {k m : Nat}

theorem Still.refl (s : Store α) : Still s s where
  record _ := rfl
  nextId := rfl
  size := rfl
  emitting := rfl
  events := rfl
  disposed := rfl
  modification := le_refl _

/-- Where no node and no event is touched, nothing is done. -/
theorem Still.of_eq (ha : t.arena = s.arena) (he : t.emitting = s.emitting)
    (hv : t.events = s.events) (hd : t.disposed = s.disposed)
    (hm : s.timeline.modification ≤ t.timeline.modification) : Still s t where
  record x := by rw [record?, record?, ha]
  nextId := by rw [ha]
  size := by rw [ha]
  emitting := he
  events := hv
  disposed := hd
  modification := hm

theorem Still.trans (h : Still s t) (h' : Still t u) : Still s u where
  record x := (h'.record x).trans (h.record x)
  nextId := h'.nextId.trans h.nextId
  size := h'.size.trans h.size
  emitting := h'.emitting.trans h.emitting
  events := h'.events.trans h.events
  disposed := h'.disposed.trans h.disposed
  modification := le_trans h.modification h'.modification

theorem record?_withoutLink (i : Nat) (x : Handle) :
    (s.withoutLink i).record? x = s.record? x := by
  rw [record?, record?, get?_withoutLink]
  split
  · cases s.arena.get? x <;> rfl
  · rfl

namespace Tale

theorem of_still (h : Still s t) : Tale s [] 0 t := .still .nil h

theorem of_does (h : Does s d t) : Tale s [d] 0 t := .does .nil h

theorem trans (h : Tale s ds k t) (h' : Tale t es m u) : Tale s (ds ++ es) (k + m) u := by
  induction h' with
  | nil => rw [List.append_nil]; exact h
  | still _ hs ih => exact .still ih hs
  | release _ ih => exact .release ih
  | does _ hd ih => rw [← List.append_assoc]; exact .does ih hd

theorem emitting (h : Tale s ds k t) : t.emitting = s.emitting := by
  induction h with
  | nil => rfl
  | still _ hs ih => exact hs.emitting.trans ih
  | release _ ih => exact ih
  | does _ hd ih => exact hd.emitting.trans ih

theorem events (h : Tale s ds k t) :
    t.events = if s.emitting then s.events ++ ds.map Deed.event else s.events := by
  induction h with
  | nil => simp
  | still _ hs ih => rw [hs.events, ih]
  | release _ ih => exact ih
  | does h hd ih =>
    rw [hd.events, h.emitting, ih]
    split <;> simp

theorem disposed (h : Tale s ds k t) : t.disposed = s.disposed := by
  induction h with
  | nil => rfl
  | still _ hs ih => exact hs.disposed.trans ih
  | release _ ih => exact ih
  | does _ hd ih => exact hd.disposed.trans ih

end Tale

/-! ## The ledger of links -/

/-- A tale of a run that kept account of the links: those made since are current, obsolete or given
back, and the totals go on by what was given back and disposed. -/
structure Course (s : Store α) (ds : List (Deed α)) (k : Nat) (t : Store α) : Prop where
  tale : Tale s ds k t
  links : t.links.size + s.obsolete.length + ds.countP Deed.isUnlink =
    s.links.size + t.obsolete.length + ds.countP Deed.isLink + k
  given : t.totals.links = s.totals.links + UInt64.ofNat k
  gone : t.totals.nodes = s.totals.nodes + UInt64.ofNat (ds.countP Deed.isDispose)

/-- Whether what happened from `s` to `t`, where nodes only came or only went, can be told. -/
def Told (w : Traffic) (s t : Store α) : Prop := ∃ ds k, Course s ds k t ∧ ∀ d ∈ ds, w.Allows d

theorem Course.trans (h : Course s ds k t) (h' : Course t es m u) :
    Course s (ds ++ es) (k + m) u where
  tale := h.tale.trans h'.tale
  links := by
    have := h.links
    have := h'.links
    rw [List.countP_append, List.countP_append]
    omega
  given := by rw [h'.given, h.given, UInt64.ofNat_add, UInt64.add_assoc]
  gone := by rw [h'.gone, h.gone, List.countP_append, UInt64.ofNat_add, UInt64.add_assoc]

theorem Course.of_still (h : Still s t) (hl : t.links.size + s.obsolete.length =
    s.links.size + t.obsolete.length) (ht : t.totals = s.totals) : Course s [] 0 t where
  tale := .of_still h
  links := hl
  given := by rw [ht]; exact (UInt64.add_zero _).symm
  gone := by rw [ht]; exact (UInt64.add_zero _).symm

theorem Course.refl (s : Store α) : Course s [] 0 s := .of_still (.refl s) rfl rfl

variable {w : Traffic}

theorem Told.refl (s : Store α) : Told w s s := ⟨[], 0, .refl s, nofun⟩

theorem Told.trans (h : Told w s t) (h' : Told w t u) : Told w s u := by
  obtain ⟨_, _, h, hw⟩ := h
  obtain ⟨_, _, h', hw'⟩ := h'
  exact ⟨_, _, h.trans h', fun d hd => (List.mem_append.1 hd).elim (hw d) (hw' d)⟩

theorem Told.disposed (h : Told w s t) : t.disposed = s.disposed := by
  obtain ⟨_, _, h, _⟩ := h
  exact h.tale.disposed

end Store

end SnapshotDeque
