import SnapshotDeque.Proofs.Retelling

/-!
The two counts that are lowered one by one: the sentinels count the linked nodes, and each node
counts the links of it that are not given back. Neither is at zero when it is lowered. A change
whose predecessors are replaced by other functions comes to the same as long as these agree with
them above zero. Main definition: `Mutation.runBy`, which is `Mutation.run` if the predecessors stay
(`Mutation.runBy_pred`); main statement: `Mutation.runBy_eq`.
-/

namespace SnapshotDeque

variable {α ρ σ : Type}

/-! ## Changes that lower counts in another way -/

namespace Store

/-- `Store.release` with `g` in place of the predecessor. -/
def releaseBy (g : Nat → Nat) (s : Store α) (p : Pass) (i : Nat) : Store α × Pass :=
  let node := s.owner i
  let s := { s with
    links := s.links.release i
    arena := s.arena.modify node fun n => { n with liveLinks := g n.liveLinks } }
  s.disposeNode node { p with links := p.links + 1 }

def reclaimBy (g : Nat → Nat) (s : Store α) (budget : Nat) : Pass × Store α :=
  if s.obsolete.isEmpty then ({}, s)
  else
    let due := s.due budget
    let rest := s.obsolete.drop due.length
    let start : Store α × Pass := ({ s with obsolete := rest }, {})
    let (s, p) := due.foldl (fun (s, p) i => s.releaseBy g p i) start
    let p := { p with remaining := rest.length }
    (p, { s with totals := s.totals.recordRun p })

def reclaimPendingBy (g : Nat → Nat) (s : Store α) : Store α :=
  if s.obsolete.head?.any s.isReclaimable then (s.reclaimBy g s.config.reclaimBatch).2 else s

def closeSnapshotBy (g : Nat → Nat) (s : Store α) (id : SnapshotId) (v : Version) :
    Pass × Store α :=
  let (wasLast, timeline) := s.timeline.unpin v id
  let s := { s with timeline }
  if wasLast then s.reclaimBy g s.config.reclaimBatch
  else ({ remaining := s.obsolete.length }, s)

end Store

namespace Edit

def detachBy (g : Nat → Nat) (node : Handle) (v : Version) : Edit α Unit := do
  match (← get).arena.head? node with
  | none => fault ("node " ++ node.text ++ " has no link to detach")
  | some i =>
    modify fun s =>
      { s with arena := s.arena.modify node fun n => { n with head := none } }
    modify (Store.emit (.unlink node v))
    let s ← get
    if s.timeline.isObserved (s.links.get i).createdOn then
      editLinks fun t => t.modify i (·.markObsolete v)
      retire i
    else
      modify fun s =>
        let (s, p) := s.releaseBy g {} i
        { s with totals := s.totals.recordReleased p }

/-- `Edit.unlinkAt` with `f` in place of the predecessor where the sentinels count the nodes, and
`g` where a node counts its links. -/
def unlinkAtBy (f g : Nat → Nat) (i : Nat) (v : Version) : Edit α Unit := do
  let next ← ask fun s => s.nextOf i
  let previous ← ask fun s => s.previousOf i
  let next ← writable next v
  let previous ← writable previous v
  join previous next
  checkSplice previous next
  recount f v
  detachBy g ((← get).owner i) v

def unlinkBy (f g : Nat → Nat) (node : Handle) : Edit α Bool := do
  if node.isSentinel then throw (.nodeNotPayload node)
  match (← get).arena.head? node with
  | none => return false
  | some i =>
    unlinkAtBy f g i (← mint)
    return true

def unlinkEachBy (f g : Nat → Nat) (nodes : List Handle) : Edit α Nat :=
  nodes.foldlM (fun n node => return if ← unlinkBy f g node then n + 1 else n) 0

def pollBy (f g : Nat → Nat) (side : End) : Edit α (Option α) := do
  let i ← ask fun s => s.outermost side
  let s ← get
  if (s.links.get i).isSentinel then return none
  let element := (s.arena.get? (s.owner i)).map (·.element)
  unlinkAtBy f g i (← mint)
  return element

def unlinkEverythingBy (g : Nat → Nat) (v : Version) : Edit α Nat := do
  let links ← ask Store.liveLinks
  let s ← get
  let nodes := links.map s.owner
  if nodes.isEmpty then return 0
  let e ← writable s.endLink v
  let b ← writable (← get).beginLink v
  join b e
  editLinks fun t =>
    (t.modify b fun l => { l with count := 0 }).modify e fun l => { l with count := 0 }
  checkSplice b e
  nodes.forM (detachBy g · v)
  return nodes.length

def clearBy (g : Nat → Nat) : Edit α Nat := do
  unlinkEverythingBy g (← mint)

def unlinkSeenBy (f g : Nat → Nat) (seen v : Version) : (n last : Nat) → Edit α Nat
  | 0, last => pure last
  | n + 1, _ => do
    let i ← ask fun s => s.outermost .first
    match (← get).links.resolve seen i with
    | none => fault "polled link is not visible to its snapshot"
    | some j =>
      unlinkAtBy f g i v
      unlinkSeenBy f g seen v n j

def openPolledBy (f g : Nat → Nat) (limit : Option Nat) : Edit α View := do
  let view ← openSnapshot
  let taken := (limit.map (min · view.size)).getD view.size
  if taken = 0 then return { view with size := 0 }
  let v ← mint
  if taken = view.size then
    let _ ← unlinkEverythingBy g v
    return view
  let last ← unlinkSeenBy f g view.version v taken view.last
  return { view with last, size := taken }

theorem unlinkEverythingBy_pred (v : Version) :
    (unlinkEverythingBy (· - 1) v : Edit α Nat) = unlinkEverything v := rfl

theorem unlinkSeenBy_pred (seen v : Version) (n last : Nat) :
    (unlinkSeenBy (· - 1) (· - 1) seen v n last : Edit α Nat) = unlinkSeen seen v n last := by
  induction n generalizing last with
  | zero => rfl
  | succ n ih =>
    unfold unlinkSeenBy unlinkSeen
    refine congrArg (ask _ >>= ·) (funext fun i => congrArg (get >>= ·) (funext fun s => ?_))
    cases s.links.resolve seen i with
    | none => rfl
    | some j => exact congrArg (unlinkAt i v >>= ·) (funext fun _ => ih j)

end Edit

namespace Mutation

/-- `Mutation.effect` with `f` in place of the predecessor wherever a node less is counted, and `g`
wherever a link of a node less is. -/
def effectBy (f g : Nat → Nat) : Mutation α ρ → Edit α ρ
  | unlink node => Edit.unlinkBy f g node
  | unlinkEach nodes => Edit.unlinkEachBy f g nodes
  | poll side => Edit.pollBy f g side
  | clear => Edit.clearBy g
  | openPolled limit => Edit.openPolledBy f g limit
  | closeSnapshot id v => modifyGet fun s => s.closeSnapshotBy g id v
  | reclaim => modifyGet fun s => s.reclaimBy g s.config.reclaimBatch
  | m => m.effect

def runBy (f g : Nat → Nat) (m : Mutation α ρ) (s : Store α) : Except Error ρ × Store α :=
  if m.needsDeque && s.disposed then (.error .disposed, s)
  else
    let s := if m.reclaimsFirst then s.reclaimPendingBy g else s
    match m.effectBy f g s with
    | .ok a s => (.ok a, s)
    | .error e s => (.error e, s)

theorem effectBy_pred (m : Mutation α ρ) : m.effectBy (· - 1) (· - 1) = m.effect := by
  cases m with
  | openPolled limit =>
    change Edit.openPolledBy _ _ limit = Edit.openPolled limit
    unfold Edit.openPolledBy Edit.openPolled
    simp only [Edit.unlinkEverythingBy_pred, Edit.unlinkSeenBy_pred]
  | _ => rfl

theorem runBy_pred (m : Mutation α ρ) (s : Store α) :
    m.runBy (· - 1) (· - 1) s = m.run s := by
  rw [runBy, effectBy_pred]
  rfl

end Mutation

/-! ## Places that are modified -/

theorem array_modify_congr {β : Type} {xs : Array β} {i : Nat} {f g : β → β}
    (h : ∀ x, xs[i]? = some x → f x = g x) : xs.modify i f = xs.modify i g := by
  refine Array.ext (by simp) fun j hj _ => ?_
  rw [Array.size_modify] at hj
  rw [Array.getElem_modify, Array.getElem_modify]
  split
  next hij =>
    subst hij
    exact h _ (Array.getElem?_eq_getElem hj)
  next => rfl

theorem LinkTable.modify_congr {t : LinkTable α} {i : Nat} {f g : Link α → Link α}
    (h : f (t.get i) = g (t.get i)) : t.modify i f = t.modify i g := by
  unfold LinkTable.modify
  refine congrArg _ (array_modify_congr fun l hl => ?_)
  rw [LinkTable.get, hl] at h
  exact h

theorem Arena.modify_congr {a : Arena α} {x : Handle} {f g : Node α → Node α}
    (h : ∀ n, a.get? x = some n → f n = g n) : a.modify x f = a.modify x g := by
  unfold Arena.modify
  split
  next hs =>
    obtain ⟨n, hn⟩ := Option.isSome_iff_exists.1 hs
    obtain ⟨_, _, hslot⟩ := Arena.get?_eq_some.1 hn
    refine congrArg (fun slots : Array (Slot α) => ({ a with slots } : Arena α))
      (array_modify_congr fun s hs => ?_)
    rw [Arena.slot, hs] at hslot
    rw [show s.node = some n from hslot, Option.map_some, Option.map_some, h n hn]
  next => rfl

/-! ## The links of a node -/

namespace Store

section Links

variable {s : Store α} {g : Nat → Nat} {r : List Nat} (hg : ∀ n, g (n + 1) = n)

include hg

/-- A link that waits to be given back is counted by its node. -/
theorem releaseBy_eq {i : Nat} (h : s.Sound (i :: r) []) (p : Pass) :
    s.releaseBy g p i = s.release p i := by
  unfold releaseBy release
  dsimp only
  rw [Arena.modify_congr (a := s.arena) (x := s.owner i)
    (f := fun n => { n with liveLinks := g n.liveLinks })
    (g := fun n => { n with liveLinks := n.liveLinks - 1 }) fun n hn => ?_]
  have hl := h.liveLinks hn
  rw [List.countP_cons_of_pos (by simp), ← Nat.add_assoc] at hl
  rw [hl, hg, Nat.add_sub_cancel]

theorem releaseAllBy_eq {due : List Nat} (h : s.Sound (due ++ r) []) (p : Pass) :
    due.foldl (fun (s, p) i => s.releaseBy g p i) (s, p) =
      due.foldl (fun (s, p) i => s.release p i) (s, p) := by
  induction due generalizing s p with
  | nil => rw [List.foldl_nil, List.foldl_nil]
  | cons i due ih =>
    obtain ⟨t, ds, he, ht, _⟩ := release_yields h p
    rw [List.foldl_cons, List.foldl_cons]
    change due.foldl _ (s.releaseBy g p i) = due.foldl _ (s.release p i)
    rw [releaseBy_eq hg h, he]
    exact ih ht _

theorem reclaimBy_eq (h : s.Sound s.obsolete []) (budget : Nat) :
    s.reclaimBy g budget = s.reclaim budget := by
  unfold reclaimBy reclaim
  dsimp only
  rw [releaseAllBy_eq hg (h.shorten budget)]

theorem reclaimPendingBy_eq (h : s.Sound s.obsolete []) :
    s.reclaimPendingBy g = s.reclaimPending := by
  unfold reclaimPendingBy reclaimPending
  rw [reclaimBy_eq hg h]

theorem closeSnapshotBy_eq (h : s.Sound s.obsolete []) (id : SnapshotId) (v : Version) :
    s.closeSnapshotBy g id v = s.closeSnapshot id v := by
  have hs : (s.letGo v id).Sound s.obsolete [] := h.congr rfl rfl rfl rfl
  unfold closeSnapshotBy closeSnapshot
  dsimp only
  split
  · exact reclaimBy_eq hg hs s.config.reclaimBatch
  · rfl

end Links

/-! ## The nodes between the ends -/

theorem recounted_congr {s : Store α} {n : Nat} {f g : Nat → Nat} (h : s.Sound s.obsolete [])
    (hn : s.Counted n) (hfg : f n = g n) :
    s.recounted s.beginLink s.endLink f = s.recounted s.beginLink s.endLink g := by
  have hlast : ∀ k : Nat → Nat, ((s.links.modify s.beginLink fun l =>
      { l with count := k l.count }).get s.endLink).count = n := fun k => by
    rw [LinkTable.get_modify, if_neg fun e => ?_]
    · exact hn.last
    · have := h.eq_of_owner (current?_atBegin s) (e.1 ▸ current?_atEnd s)
      cases this
  unfold recounted
  dsimp only
  rw [LinkTable.modify_congr (f := fun l => { l with count := f l.count })
      (g := fun l => { l with count := g l.count }) (i := s.beginLink) (by rw [hn.first, hfg]),
    LinkTable.modify_congr (f := fun l => { l with count := f l.count })
      (g := fun l => { l with count := g l.count }) (i := s.endLink) (by rw [hlast, hfg])]

end Store

/-! ## Changes -/

namespace Edit

open Store

variable {s : Store α} {v : Version} {l : List (Handle × α)} {f g : Nat → Nat}

theorem recount_eq (hf : ∀ n, f (n + 1) = n) (h : (Regime.told α v).Holds s []) {n : Nat}
    (hn : s.Counted (n + 1)) : recount f v s = recount (· - 1) v s := by
  obtain ⟨u, hu, hfu, hcu, _⟩ := Regime.exists_ends h
  refine (hu f).trans (Eq.trans ?_ (hu (· - 1)).symm)
  rw [recounted_congr (g := (· - 1)) hcu.1 (hfu.counted hn) (hf n)]

section Detaching

variable (hg : ∀ n, g (n + 1) = n)

include hg

theorem detachBy_eq (h : s.Sound s.obsolete []) {x : Handle} (hx : x.isSentinel = false) {i : Nat}
    (hi : s.current? x = some i) : detachBy g x v s = detach x v s := by
  unfold detachBy detach
  refine (returns_get s).bind_congr ?_
  dsimp only
  rw [show s.arena.head? x = some i from (current?_of_payload hx).symm.trans hi]
  refine (returns_modify _ s).bind_congr ((returns_modify _ _).bind_congr ?_)
  refine (returns_get _).bind_congr ?_
  split
  · rfl
  · have hr := releaseBy_eq hg (h.unlinking (v := v) hx hi s.obsolete) {}
    exact congrArg (fun x : Store α × Pass => EStateM.Result.ok ()
      { x.1 with totals := x.1.totals.recordReleased x.2 }) hr

theorem detachAllBy_eq {xs : List Handle} (h : (Regime.told α v).Holds s []) (hnd : xs.Nodup)
    (hh : s.Heads xs) : xs.forM (detachBy g · v) s = xs.forM (detach · v) s := by
  induction xs generalizing s with
  | nil => simp only [List.forM_eq_forM, List.forM_nil]
  | cons x xs ih =>
    have hx : x ∈ x :: xs := List.mem_cons_self ..
    obtain ⟨i, hi⟩ := hh.exists_current? hx
    obtain ⟨t, ht, hc, hu, _⟩ := (Regime.told α v).detach h (hh.isSentinel hx) hi
    rw [List.nodup_cons] at hnd
    have hht : t.Heads xs := hu.heads hh fun y => by
      rw [List.mem_cons]
      exact ⟨fun hy => ⟨Or.inr hy, fun e => hnd.1 (e ▸ hy)⟩, fun hy => hy.1.resolve_left hy.2⟩
    have hhead := detachBy_eq (v := v) hg h.1 (hh.isSentinel hx) hi
    exact (bind_congr_apply hhead _).trans (ht.bind_congr (ih hc hnd.2 hht))

theorem unlinkEverythingBy_eq (h : s.Shaped l) (hv : s.timeline.modification = v) :
    unlinkEverythingBy g v s = unlinkEverything v s := by
  have hown := h.map_owner_current
  unfold unlinkEverythingBy unlinkEverything
  refine (returns_ask h.liveLinks).bind_congr ((returns_get s).bind_congr ?_)
  rw [hown]
  split
  · rfl
  · obtain ⟨e, b, s1, s2, t, h1, h2, ht, h3, hw, hc, _⟩ :=
      Regime.returns_bypassAll (R := .told α v) h (h.holds hv)
    refine h1.bind_congr ((returns_get s1).bind_congr (h2.bind_congr ?_))
    refine (returns_join s2 b e).bind_congr ?_
    have h4 : (editLinks fun t => (t.modify b fun l => { l with count := 0 }).modify e
        fun l => { l with count := 0 }).Returns (s2.joined b e) () t := by
      rw [ht]
      exact returns_editLinks _ _
    refine h4.bind_congr (h3.bind_congr (bind_congr_apply ?_ _))
    exact detachAllBy_eq hg hc h.nodup (Regime.heads_iff hw h.heads)

end Detaching

section Lowering

variable (hf : ∀ n, f (n + 1) = n) (hg : ∀ n, g (n + 1) = n)

include hf hg

/-- When a node is unlinked, both ends count it, and it counts its current link. -/
theorem unlinkAtBy_eq {k m : List (Handle × α)} {x : Handle} {a : α}
    (h : s.Shaped (k ++ (x, a) :: m)) (hv : s.timeline.modification = v) {i : Nat}
    (hi : s.current? x = some i) : unlinkAtBy f g i v s = unlinkAt i v s := by
  have hxl : x ∈ (k ++ (x, a) :: m).map (·.1) := by simp
  have hr := h.ring
  rw [List.map_append, List.map_cons] at hr
  obtain ⟨p, n, p', n', s1, s2, t, hn, hp, h1, h2, h3, h4, _, hc, _, hcnt, hx, _⟩ :=
    Regime.returns_bypass (R := .told α v) (h.holds hv) hr hi
  have hcount : t.Counted ((k ++ m).length + 1) := by
    have := hcnt h.counted
    rwa [show (k ++ (x, a) :: m).length = (k ++ m).length + 1 by simp; omega] at this
  obtain ⟨u, h5, _, hcu, _, _, hcur⟩ := Regime.returns_recount hc hcount (· - 1)
  have hne := h.ring.ne_sentinel hxl
  have hxu : u.current? x = some i := (hcur x hne.1 hne.2).trans hx
  unfold unlinkAtBy unlinkAt
  refine (returns_ask hn).bind_congr ((returns_ask hp).bind_congr ?_)
  refine h1.bind_congr (h2.bind_congr (h3.bind_congr (h4.bind_congr ?_)))
  refine (bind_congr_apply (recount_eq hf hc hcount) _).trans (h5.bind_congr ?_)
  refine (returns_get u).bind_congr ?_
  rw [hcu.1.owner hxu]
  exact detachBy_eq hg hcu.1 (h.isSentinel hxl) hxu

theorem unlinkAtBy_of_mem (h : s.Shaped l) (hv : s.timeline.modification = v) {x : Handle}
    (hx : x ∈ l.map (·.1)) {i : Nat} (hi : s.current? x = some i) :
    unlinkAtBy f g i v s = unlinkAt i v s := by
  obtain ⟨e, he, rfl⟩ := List.mem_map.1 hx
  obtain ⟨k, m, rfl⟩ := List.append_of_mem he
  exact unlinkAtBy_eq (x := e.1) (a := e.2) hf hg h hv hi

/-- As a change of its own. -/
theorem unlinkAtBy_minted (h : s.Shaped l) {x : Handle} (hx : x ∈ l.map (·.1)) {i : Nat}
    (hi : s.current? x = some i) (a : ρ) :
    (mint >>= fun v => do unlinkAtBy f g i v; return a) s =
      (mint >>= fun v => do unlinkAt i v; return a) s := by
  refine (returns_mint s).bind_congr (bind_congr_apply ?_ _)
  exact unlinkAtBy_of_mem hf hg (h.retimed _ s.snapshotsOpened) s.timeline.advance_fst.symm hx hi

theorem unlinkBy_eq (hs : s.Formed) (x : Handle) : unlinkBy f g x s = unlink x s := by
  obtain ⟨l, h⟩ := hs
  unfold unlinkBy unlink
  cases hx : x.isSentinel with
  | true => exact (fails_throw _ s).bind.trans (fails_throw _ s).bind.symm
  | false =>
    refine (returns_get s).bind_congr ?_
    rcases hh : s.arena.head? x with _ | i
    · rfl
    · have hl : x ∈ l.map (·.1) := (h.heads x).1 (by rw [hh]; rfl)
      exact unlinkAtBy_minted hf hg h hl ((current?_of_payload hx).trans hh) true

theorem unlinkEachBy_eq (hs : s.Formed) (xs : List Handle) :
    unlinkEachBy f g xs s = unlinkEach xs s := by
  unfold unlinkEachBy unlinkEach
  generalize 0 = n
  induction xs generalizing s n with
  | nil => rw [List.foldlM_nil, List.foldlM_nil]
  | cons x xs ih =>
    obtain ⟨hu, _⟩ := carries_unlink along_true x s hs
    rw [List.foldlM_cons, List.foldlM_cons]
    have hhead : (do return if ← unlinkBy f g x then n + 1 else n : Edit α Nat) s =
        (do return if ← unlink x then n + 1 else n : Edit α Nat) s :=
      bind_congr_apply (unlinkBy_eq hf hg hs x) _
    refine (bind_congr_apply hhead _).trans ?_
    cases hr : unlink x s with
    | error e t => exact (Fails.bind (Fails.bind hr)).trans (Fails.bind (Fails.bind hr)).symm
    | ok b t =>
      rw [Returns.after hr] at hu
      have hret : Returns (do return if ← unlink x then n + 1 else n : Edit α Nat) s
          (if b then n + 1 else n) t := Returns.bind hr (returns_pure _ t)
      exact hret.bind_congr (ih hu _)

theorem pollBy_eq (hs : s.Formed) (side : End) : pollBy f g side s = poll side s := by
  obtain ⟨l, h⟩ := hs
  unfold pollBy poll
  cases he : side.outermost? l with
  | none =>
    obtain ⟨i, hi, hsen⟩ := h.outermost_nil side (End.outermost?_eq_none he)
    refine (returns_ask hi).bind_congr ((returns_get s).bind_congr ?_)
    rw [if_pos hsen, if_pos hsen]
  | some e =>
    have hl := List.mem_map_of_mem (f := (·.1)) (rest_eq_filter h.nodup he).1
    obtain ⟨i, hi, ho⟩ := h.outermost side he
    refine (returns_ask ho).bind_congr ((returns_get s).bind_congr ?_)
    dsimp only
    rw [h.isSentinel_current hl hi]
    exact unlinkAtBy_minted hf hg h hl hi _

theorem unlinkSeenBy_eq (seen : Version) {n : Nat} (last : Nat) (h : s.Shaped l)
    (hn : n ≤ l.length) (hv : s.timeline.modification = v) :
    unlinkSeenBy f g seen v n last s = unlinkSeen seen v n last s := by
  induction n generalizing s l last with
  | zero => rfl
  | succ n ih =>
    obtain ⟨e, m, rfl⟩ := List.exists_cons_of_ne_nil (l := l) (by rintro rfl; simp at hn)
    obtain ⟨i, hi, ho⟩ := h.outermost (e := e) .first rfl
    unfold unlinkSeenBy unlinkSeen
    refine (returns_ask ho).bind_congr ((returns_get s).bind_congr ?_)
    rcases hr : s.links.resolve seen i with _ | j
    · rfl
    · obtain ⟨t, ht, hl, hh, _⟩ :=
        Regime.returns_unlinkAt (R := .told α v) (k := []) h (h.holds hv) hi
      have heq := unlinkAtBy_of_mem hf hg h hv (List.mem_cons_self ..) hi
      exact (bind_congr_apply heq _).trans (ht.bind_congr (ih j hl (by simpa using hn) hh.2))

theorem openPolledBy_eq (hs : s.Formed) (limit : Option Nat) :
    openPolledBy f g limit s = openPolled limit s := by
  obtain ⟨l, h⟩ := hs
  obtain ⟨w, hw, hsize⟩ := exists_opened h
  have ho : s.opened.minted.Shaped l := Shaped.retimed (s := s.opened) (h.retimed _ _) _ _
  have hv : s.opened.minted.timeline.modification = s.opened.timeline.advance.1 :=
    s.opened.timeline.advance_fst.symm
  unfold openPolledBy openPolled
  refine hw.bind_congr ?_
  change (if taken limit w.size = 0 then _ else _ : Edit α View) s.opened =
    (if taken limit w.size = 0 then _ else _ : Edit α View) s.opened
  split
  · rfl
  · refine (returns_mint s.opened).bind_congr ?_
    split
    · exact bind_congr_apply (unlinkEverythingBy_eq hg ho hv) _
    · refine bind_congr_apply (unlinkSeenBy_eq hf hg _ _ ho ?_ hv) _
      rw [← hsize]
      exact taken_le limit w.size

end Lowering

end Edit

namespace Mutation

variable {f g : Nat → Nat} (hf : ∀ n, f (n + 1) = n) (hg : ∀ n, g (n + 1) = n) {s : Store α}
  (hs : s.Formed)

include hf hg hs

theorem effectBy_eq (m : Mutation α ρ) : m.effectBy f g s = m.effect s := by
  obtain ⟨l, h⟩ := hs
  cases m with
  | unlink x => exact Edit.unlinkBy_eq hf hg ⟨l, h⟩ x
  | unlinkEach xs => exact Edit.unlinkEachBy_eq hf hg ⟨l, h⟩ xs
  | poll side => exact Edit.pollBy_eq hf hg ⟨l, h⟩ side
  | clear =>
    refine (Edit.returns_mint s).bind_congr ?_
    exact Edit.unlinkEverythingBy_eq hg (h.retimed _ s.snapshotsOpened)
      s.timeline.advance_fst.symm
  | openPolled limit => exact Edit.openPolledBy_eq hf hg ⟨l, h⟩ limit
  | closeSnapshot id v =>
    exact congrArg (fun x : Pass × Store α => EStateM.Result.ok x.1 x.2)
      (Store.closeSnapshotBy_eq hg h.sound id v)
  | reclaim =>
    exact congrArg (fun x : Pass × Store α => EStateM.Result.ok x.1 x.2)
      (Store.reclaimBy_eq hg h.sound s.config.reclaimBatch)
  | _ => rfl

/-- No change takes a count below zero. -/
theorem runBy_eq (m : Mutation α ρ) : m.runBy f g s = m.run s := by
  obtain ⟨l, h⟩ := hs
  have hbase : Store.Formed (if m.reclaimsFirst then s.reclaimPending else s) := by
    split
    · exact (Store.carries_reclaimPending Store.along_true .going s ⟨l, h⟩).1
    · exact ⟨l, h⟩
  unfold runBy run
  rw [Store.reclaimPendingBy_eq hg h.sound]
  dsimp only
  exact effectBy_eq hf hg hbase m ▸ rfl

end Mutation

end SnapshotDeque
