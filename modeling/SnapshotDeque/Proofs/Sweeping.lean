import SnapshotDeque.Proofs.Retelling
import SnapshotDeque.Proofs.Stamping
import SnapshotDeque.Proofs.Staying

/-!
Unlinking all nodes at once and one by one. The one way leads the sentinels past all nodes and then
detaches the nodes, the other gives a writable link to each next node and gives it back at once, so
the two retire links in different orders, and make different ones. Main statement: they retire the
same links, dispose of the same nodes at the same places, and tell the same of it.
-/

namespace SnapshotDeque

namespace Edit

variable {α : Type}

/-- Polls so many times. -/
def pollEach (side : End) : Nat → Edit α (List (Option α))
  | 0 => pure []
  | n + 1 => do
    let a ← poll side
    return a :: (← pollEach side n)

/-- Opens a snapshot, and then polls so many times. -/
def openThenPoll (side : End) (n : Nat) : Edit α (View × List (Option α)) := do
  let w ← openSnapshot
  return (w, ← pollEach side n)

end Edit

namespace Store

variable {α : Type} {s t u : Store α} {v : Version} {sp : List Handle} {x y : Handle} {i : Nat}

/-! ## Pointers stay in the table -/

theorem pointed_reclaim (h : s.links.Pointed) (budget : Nat) :
    (s.reclaim budget).2.links.Pointed := by
  rw [links_reclaim]
  generalize s.links = t at h
  induction s.due budget generalizing t with
  | nil => exact h
  | cons i due ih => exact ih _ (h.release i)

/-- However a change goes about it, links name links of the table only. -/
theorem along_pointed : Along fun s t : Store α => s.links.Pointed → t.links.Pointed where
  refl _ h := h
  trans h h' hs := h' (h hs)
  retimed _ _ _ h := h
  reclaim _ budget h := pointed_reclaim h budget
  supersede hs hi _ h := by
    rw [links_supersede]
    exact h.forked (hs.current_lt hi) (hs.obsoleteOn hi)
  links _ hp _ h := hp h
  detach hs hx hi ht h := by
    rcases detach_cases hs hx hi ht with ⟨_, rfl⟩ | ⟨_, hl, _⟩
    · exact h.marked
    · rw [hl]
      exact h.release _
  withArena _ h := h
  enlisted _ _ _ _ hp _ h := by
    rw [links_enlisted]
    exact hp h
  emit s e h := by
    rw [links_emit]
    exact h

theorem pointed_init (c : Config) : (.init c : Store α).links.Pointed := by
  intro i j hij
  change _ < 2
  rw [get_init] at hij
  split_ifs at hij <;> rcases hij with hij | hij <;> cases hij <;> decide

end Store

namespace World

variable {α : Type} {c : Config} {w : World α}

/-- What holds at the start and along all the steps of changes holds as long as there is a deque. -/
theorem Reached.carried {P : Store α → Prop} (hP : Store.Along fun s t => P s → P t)
    (hinit : P (.init c)) (hclose : ∀ s v id, P s → P (s.letGo v id))
    (hrec : ∀ s on es, P s → P (s.recording on es)) (h : Reached c w)
    (ho : w.store.disposed = false) : P w.store := by
  induction h with
  | init _ => exact hinit
  | @change ρ w m hr hp hv ih =>
    have hd := disposed_of_after m ho
    obtain ⟨l, hw⟩ := hr.coherent hd
    cases hm : m.reclaimsFirst with
    | true =>
      have hf : w.store.Formed := ⟨l, hw.live.toShaped⟩
      exact (Store.carries_run hP hm (fun _ => hclose) _ hf).2.2 (ih hd)
    | false =>
      cases m with
      | dispose => cases disposes_eq_false ho
      | observe on => exact hrec _ on _ (ih hd)
      | _ => cases hm
  | @deliver w _ ih => exact hrec _ _ [] (ih ho)

theorem Reached.pointed (h : Reached c w) (ho : w.store.disposed = false) :
    w.store.links.Pointed :=
  h.carried Store.along_pointed (Store.pointed_init c) (fun _ _ _ h => h) (fun _ _ _ h => h) ho

end World

namespace Store

variable {α : Type} {s t u : Store α} {v : Version} {sp : List Handle} {x y : Handle} {i : Nat}

/-! ## What is left -/

/-- All that there is to know of a retired link. -/
structure Entry (α : Type) where
  owner : Handle
  createdOn : Version
  obsoleteOn : Option Version
  element : Option α
  /-- The nodes of the neighbours. -/
  previous : Option Handle
  next : Option Handle

def entry (s : Store α) (i : Nat) : Entry α where
  owner := s.owner i
  createdOn := (s.links.get i).createdOn
  obsoleteOn := (s.links.get i).obsoleteOn
  element := (s.links.get i).element
  previous := (s.links.get i).previous.map s.owner
  next := (s.links.get i).next.map s.owner

/-- No node is linked: the sentinels are neighbours, and both count nothing. -/
structure Vacant (s : Store α) : Prop where
  next : s.nextOf s.beginLink = .ok s.endLink
  previous : s.previousOf s.endLink = .ok s.beginLink
  counted : s.Counted 0
  entries : s.entries = []

/-- `t` and `u` came of `s` by unlinking all nodes in two ways, and they are the same but for the
order in which links were retired, and for links that are given back. -/
structure Concur (s t u : Store α) : Prop where
  vacant : t.Vacant ∧ u.Vacant
  timeline : u.timeline = t.timeline
  arena : u.arena = t.arena
  events : u.events = t.events
  nodesDisposed : u.totals.nodes = t.totals.nodes
  /-- The links retired last carry one tag, and may be in another order. -/
  obsolete : ∃ v q q', t.obsolete = s.obsolete ++ q ∧ u.obsolete = s.obsolete ++ q' ∧ q'.Perm q ∧
    ∀ i ∈ q, (t.entry i).obsoleteOn = some v
  entry : ∀ i ∈ t.obsolete, u.entry i = t.entry i

theorem Shaped.vacant (h : s.Shaped []) : s.Vacant := by
  have ha : s.Adjacent .atBegin .atEnd := (List.isChain_cons_cons.1 h.ring.chain).1
  exact ⟨h.sound.nextOf ha (current?_atBegin s) (current?_atEnd s),
    h.sound.previousOf ha (current?_atBegin s) (current?_atEnd s), h.counted, h.entries⟩

theorem lt_of_leads {l : LinkTable α} (hl : l.Chained) {i j : Nat} (h : l.Leads i j)
    (hj : j < l.size) : i < l.size := by
  induction h with
  | refl => exact hj
  | tail _ hjk ih => exact ih (Nat.lt_trans (hl.lt hjk) hj)

section Neighbours

variable (h : s.Sound s.obsolete sp) (hxy : s.Adjacent x y)

include h hxy

theorem Sound.next_of_adjacent (hi : s.current? x = some i) :
    ∃ j, (s.links.get i).next = some j ∧ j < s.links.size ∧ s.owner j = y := by
  obtain ⟨p, n, hp, hn, ⟨j, hj, hjn⟩, _⟩ := hxy
  rw [hi] at hp
  cases hp
  exact ⟨j, hj, lt_of_leads h.chained hjn (h.current_lt hn), h.owner_of_leads hn hjn⟩

theorem Sound.previous_of_adjacent (hi : s.current? y = some i) :
    ∃ j, (s.links.get i).previous = some j ∧ j < s.links.size ∧ s.owner j = x := by
  obtain ⟨p, n, hp, hn, _, j, hj, hjp⟩ := hxy
  rw [hi] at hn
  cases hn
  exact ⟨j, hj, lt_of_leads h.chained hjp (h.current_lt hp), h.owner_of_leads hp hjp⟩

end Neighbours

theorem Shaped.exists_beside {l : List (Handle × α)} (h : s.Shaped l) (hl : l ≠ []) :
    (∃ x, x.isSentinel = false ∧ s.Adjacent .atBegin x) ∧
      ∃ x, x.isSentinel = false ∧ s.Adjacent x .atEnd := by
  have hc := h.ring.chain
  constructor
  · obtain ⟨e, m, rfl⟩ := List.exists_cons_of_ne_nil hl
    exact ⟨e.1, h.isSentinel (by simp), (List.isChain_cons_cons.1 hc).1⟩
  · obtain ⟨m, e, rfl⟩ := (List.eq_nil_or_concat l).resolve_left hl
    rw [List.concat_eq_append, List.map_append] at hc
    have hr : ringOf (m.map (·.1) ++ [e.1]) =
        (.atBegin :: m.map (·.1)) ++ e.1 :: [.atEnd] := by simp [ringOf]
    rw [show [e].map (·.1) = [e.1] from rfl, hr, List.isChain_append_cons_cons] at hc
    exact ⟨e.1, h.isSentinel (by simp), hc.2.1⟩

section Swept

variable {l : List (Handle × α)} (h : s.Shaped l) (hl : l ≠ []) (hg : s.links.Grows t.links)
  (hk : Keeps v s t) (ht : t.Shaped [])

include h hl hg hk ht

/-- Once all nodes are unlinked, all links that stay are retired: the sentinels lead to each other
then, which they did not before. -/
theorem mem_obsolete_of_stays (hi : s.Stays i) : i ∈ t.obsolete := by
  by_contra hn
  have hct := (((hk.stays i).2 hi).resolve_left hn).1
  have hcs : s.current? (s.owner i) = some i := by
    refine (hi.resolve_left fun hm => hn ?_).1
    obtain ⟨q, ho, _⟩ := hk.retired
    rw [ho]
    exact List.mem_append_left _ hm
  rw [hk.owner hi] at hct
  have hat : t.Adjacent .atBegin .atEnd := (List.isChain_cons_cons.1 ht.ring.chain).1
  obtain ⟨⟨x, hx, hbx⟩, y, hy, hye⟩ := h.exists_beside hl
  by_cases hb : s.owner i = .atBegin
  · rw [hb] at hct hcs
    obtain ⟨j, hj, hlt, hjo⟩ := h.sound.next_of_adjacent hbx hcs
    obtain ⟨j', hj', _, hjo'⟩ := ht.sound.next_of_adjacent hat hct
    rw [hk.next hi, hj] at hj'
    cases hj'
    rw [show t.owner j = s.owner j from hg.owner hlt, hjo] at hjo'
    rw [hjo'] at hx
    cases hx
  by_cases he : s.owner i = .atEnd
  · rw [he] at hct hcs
    obtain ⟨j, hj, hlt, hjo⟩ := h.sound.previous_of_adjacent hye hcs
    obtain ⟨j', hj', _, hjo'⟩ := ht.sound.previous_of_adjacent hat hct
    rw [hk.previous hi, hj] at hj'
    cases hj'
    rw [show t.owner j = s.owner j from hg.owner hlt, hjo] at hjo'
    rw [hjo'] at hy
    cases hy
  -- other links are current for a linked node only
  rw [current?, if_neg hb, if_neg he] at hct
  exact absurd ((ht.heads (s.owner i)).1 (by rw [hct]; rfl)) List.not_mem_nil

theorem mem_obsolete_iff : i ∈ t.obsolete ↔ s.Stays i :=
  ⟨fun hi => (hk.stays i).1 (Or.inl hi), mem_obsolete_of_stays h hl hg hk ht⟩

end Swept

/-! ## What both ways come to -/

theorem Keeps.obsoleteOn (hk : Keeps v s t) (hi : i ∈ t.obsolete) :
    (t.links.get i).obsoleteOn = if i ∈ s.obsolete then (s.links.get i).obsoleteOn else some v := by
  split
  next hs => exact hk.tag i hs
  next hs =>
    obtain ⟨q, ho, hq⟩ := hk.retired
    rw [ho] at hi
    exact hq i ((List.mem_append.1 hi).resolve_left hs)

theorem Keeps.entry (hk : Keeps v s t) (hg : s.links.Grows t.links) (hp : s.links.Pointed)
    (hi : s.Stays i) :
    t.entry i = { s.entry i with obsoleteOn := (t.links.get i).obsoleteOn } := by
  have hmap : ∀ {o : Option Nat}, (∀ j, o = some j → j < s.links.size) →
      o.map t.owner = o.map s.owner := fun ho => Option.map_congr fun j hj => hg.owner (ho j hj)
  unfold Store.entry
  rw [hk.owner hi, hk.createdOn hi, hk.element hi, hk.previous hi, hk.next hi,
    hmap fun j hj => hp i j (Or.inl hj), hmap fun j hj => hp i j (Or.inr hj)]

section Concur

variable {l : List (Handle × α)} (h : s.Shaped l) (hl : l ≠ []) (hp : s.links.Pointed)
  (hgt : s.links.Grows t.links) (hkt : Keeps v s t) (ht : t.Shaped [])
  (hgu : s.links.Grows u.links) (hku : Keeps v s u) (hu : u.Shaped [])

include h hl hgt hkt ht hgu hku hu

theorem perm_obsolete : t.obsolete.Perm u.obsolete :=
  (List.perm_ext_iff_of_nodup ht.sound.nodup hu.sound.nodup).2 fun _ =>
    (mem_obsolete_iff h hl hgt hkt ht).trans (mem_obsolete_iff h hl hgu hku hu).symm

/-- A node has no current link after either way, and the same retired ones. -/
theorem arena_eq (hb : u.arena.bare = t.arena.bare) : u.arena = t.arena := by
  have hperm := perm_obsolete h hl hgt hkt ht hgu hku hu
  have hhead : ∀ {r : Store α} {x n}, r.Shaped [] → r.arena.get? x = some n → n.head = none := by
    intro r x n hr hn
    have hx := (hr.heads x).not.2 List.not_mem_nil
    rw [Arena.head?, hn] at hx
    exact Option.not_isSome_iff_eq_none.1 hx
  refine Arena.eq_of_bare hu.sound.arena ht.sound.arena hb fun x => ?_
  have hx := congrArg (·.get? x) hb
  simp only [Arena.get?_bare] at hx
  cases hn : t.arena.get? x with
  | none =>
    rw [hn] at hx
    exact Option.map_eq_none_iff.1 hx
  | some n =>
    rw [hn] at hx
    obtain ⟨m, hm, hmn⟩ := Option.map_eq_some_iff.1 hx
    rw [hm]
    have hcount : m.liveLinks = n.liveLinks := by
      rw [hu.sound.liveLinks hm, ht.sound.liveLinks hn, hhead hu hm, hhead ht hn, hperm.countP_eq]
      congr 1
      refine List.countP_congr fun i hi => ?_
      have hi := (mem_obsolete_iff h hl hgu hku hu).1 hi
      rw [hku.owner hi, hkt.owner hi]
    have hhead : m.head = n.head := (hhead hu hm).trans (hhead ht hn).symm
    simp only [Node.bare, Node.mk.injEq, true_and] at hmn
    obtain ⟨hid, hel, hseq⟩ := hmn
    cases m
    cases n
    cases hid
    cases hel
    cases hseq
    cases hcount
    cases hhead
    rfl

include hp in
theorem entry_eq (hi : i ∈ t.obsolete) : u.entry i = t.entry i := by
  have hs := (mem_obsolete_iff h hl hgt hkt ht).1 hi
  have hiu := (mem_obsolete_iff h hl hgu hku hu).2 hs
  rw [hku.entry hgu hp hs, hkt.entry hgt hp hs, hku.obsoleteOn hiu, hkt.obsoleteOn hi]

end Concur

/-- Whichever way the nodes are unlinked, they are so in the same order. -/
theorem Live.concur {l : List (Handle × α)} (h : s.Live l) (hl : l ≠ []) (hp : s.links.Pointed)
    (ht : (Regime.keeping α v).UnlinksAll s (l.map (·.1)) t) (hts : t.Shaped [])
    (hu : (Regime.keeping α v).UnlinksAll s (l.map (·.1)) u) (hus : u.Shaped []) :
    s.Concur t u := by
  classical
  obtain ⟨⟨_, hat⟩, hkt⟩ := ht.clears
  obtain ⟨⟨_, hau⟩, hku⟩ := hu.clears
  have hgt := hat.spares.grows
  have hgu := hau.spares.grows
  have ho : u.outline = t.outline := by
    have hs : ∀ x, decide (s.StaysAt x) = true ↔ s.StaysAt x := fun x => decide_eq_true_iff
    rw [ht.outline hs, hu.outline hs]
  have hperm := perm_obsolete h.toShaped hl hgt hkt hts hgu hku hus
  obtain ⟨q, hq, hqv⟩ := hkt.retired
  obtain ⟨q', hq', _⟩ := hku.retired
  rw [hq, hq'] at hperm
  exact {
    vacant := ⟨hts.vacant, hus.vacant⟩
    timeline := hau.timeline.trans hat.timeline.symm
    arena := arena_eq h.toShaped hl hgt hkt hts hgu hku hus (congrArg Outline.arena ho)
    events := congrArg Outline.events ho
    nodesDisposed := congrArg Outline.nodesDisposed ho
    obsolete := ⟨v, q, q', hq, hq', ((List.perm_append_left_iff _).1 hperm).symm, hqv⟩
    entry := fun i hi => entry_eq h.toShaped hl hp hgt hkt hts hgu hku hus hi }

/-! ## One by one -/

/-- Whether the next change is stamped `v`, and nothing is left to do about that. -/
def Drawn (s : Store α) (v : Version) : Prop := s.timeline.advance = (v, s.timeline)

theorem drawn_minted (s : Store α) : s.minted.Drawn s.timeline.advance.1 :=
  s.timeline.advance_advance

theorem Drawn.congr (h : s.Drawn v) (ht : t.timeline = s.timeline) : t.Drawn v := by
  unfold Drawn
  rw [ht]
  exact h

section Poll

variable {e : Handle × α} {l : List (Handle × α)} (h : s.Shaped (e :: l))

include h

theorem poll_of_drawn (hv : s.Drawn v) (hi : s.current? e.1 = some i) :
    Edit.poll .first s = (do Edit.unlinkAt i v; return some e.2 : Edit α (Option α)) s := by
  obtain ⟨j, hj, heq⟩ := poll_of_outermost h (show End.first.outermost? (e :: l) = some e from rfl)
  rw [hi] at hj
  cases hj
  rw [heq, (Edit.returns_mint s).bind_apply, hv]

/-- A stamp that is drawn ahead of time changes nothing. -/
theorem poll_minted : Edit.poll .first s.minted = Edit.poll .first s := by
  obtain ⟨i, hi, heq⟩ := poll_of_outermost h (show End.first.outermost? (e :: l) = some e from rfl)
  rw [heq, (Edit.returns_mint s).bind_apply]
  exact poll_of_drawn (s := s.minted) (h.retimed _ _) (drawn_minted s) hi

theorem pollEach_minted (n : Nat) :
    Edit.pollEach .first (n + 1) s.minted = Edit.pollEach .first (n + 1) s := by
  change EStateM.bind _ _ _ = EStateM.bind _ _ _
  unfold EStateM.bind
  rw [poll_minted h]

end Poll

theorem returns_pollEach : ∀ {k m : List (Handle × α)} {s : Store α}, s.Shaped (k ++ m) →
    s.Changing v [] → s.Drawn v →
    ∃ t, (Edit.pollEach .first k.length).Returns s (k.map fun e => some e.2) t ∧ t.Shaped m ∧
      t.Changing v [] ∧ (Regime.keeping α v).UnlinksAll s (k.map (·.1)) t := by
  intro k m
  induction k with
  | nil =>
    exact fun {s} h hc _ => ⟨s, Edit.returns_pure _ s, h, hc, .done ((Regime.keeping α v).refl s)⟩
  | cons e k ih =>
    intro s h hc hv
    obtain ⟨i, hi⟩ := h.exists_current? (x := e.1) (by simp)
    obtain ⟨t, ht, hst, hct, hu⟩ :=
      Regime.returns_unlinkAt (R := .keeping α v) (k := []) h hc hi
    have ⟨⟨_, ha⟩, _⟩ := hu
    obtain ⟨r, hr, hsr, hcr, hur⟩ := ih hst hct (hv.congr ha.timeline)
    refine ⟨r, ?_, hsr, hcr, .next hu hur⟩
    have hpoll : (Edit.poll .first).Returns s (some e.2) t :=
      (poll_of_drawn h hv hi).trans (ht.bind (Edit.returns_pure _ t))
    exact hpoll.bind (hr.bind (Edit.returns_pure _ r))

/-- Nodes that are looked up for a snapshot before they are unlinked are unlinked like others. -/
theorem returns_pollEach_of_seen {seen : Version} {r : Nat} : ∀ {n last : Nat}
    {l : List (Handle × α)} {s : Store α}, s.Shaped l → s.Changing v [] → s.Drawn v →
    n ≤ l.length → (Edit.unlinkSeen seen v n last).Returns s r t →
    (Edit.pollEach .first n).Returns s ((l.take n).map fun e => some e.2) t := by
  intro n
  induction n with
  | zero =>
    intro last l s _ _ _ _ hs
    cases hs
    exact Edit.returns_pure _ t
  | succ n ih =>
    intro last l s h hc hv hn hs
    obtain ⟨e, l, rfl⟩ := List.exists_cons_of_ne_nil (l := l) (by rintro rfl; simp at hn)
    obtain ⟨i, hi, ho⟩ := h.outermost .first (e := e) rfl
    obtain ⟨s1, hs1, hl1, hc1, _, ha⟩ :=
      Regime.returns_unlinkAt (R := .stamped α v) (k := []) h hc hi
    unfold Edit.unlinkSeen Edit.Returns at hs
    rw [(Edit.returns_ask ho).bind_apply, (Edit.returns_get s).bind_apply] at hs
    cases hres : s.links.resolve seen i with
    | none =>
      rw [hres] at hs
      cases hs
    | some j =>
      rw [hres] at hs
      replace hs := (hs1.bind_apply fun _ => Edit.unlinkSeen seen v n j).symm.trans hs
      have hrest := ih hl1 hc1 (hv.congr ha.timeline) (by simpa using hn) hs
      have hpoll : (Edit.poll .first).Returns s (some e.2) s1 :=
        (poll_of_drawn h hv hi).trans (hs1.bind (Edit.returns_pure _ s1))
      exact hpoll.bind (hrest.bind (Edit.returns_pure _ t))

/-! ## Both ways -/

section Sweep

variable {l : List (Handle × α)} (h : s.Live l) (hl : l ≠ []) (hp : s.links.Pointed)
  (hm : s.timeline.modification < .max)

include h hl hp hm

theorem Live.sweep :
    ∃ t u, Edit.clear.Returns s l.length t ∧
      (Edit.pollEach .first l.length).Returns s (l.map fun e => some e.2) u ∧
      s.Concur t u ∧ t.Shaped [] ∧ u.Shaped [] ∧ Spares s t ∧ Spares s u := by
  obtain ⟨hsm, hst, hch⟩ := h.minted_of_lt hm
  obtain ⟨t, ht, hts, _, hta⟩ :=
    Regime.returns_unlinkEverything (R := .keeping α _) hsm.toShaped (hsm.changing hst)
  obtain ⟨u, hu, hus, _, hua⟩ := returns_pollEach (m := [])
    (by rw [List.append_nil]; exact hsm.toShaped) (hsm.changing hst) (drawn_minted s)
  have ⟨⟨_, hat⟩, _⟩ := hta.clears
  have ⟨⟨_, hau⟩, _⟩ := hua.clears
  have hc := hsm.concur hl hp hta hts hua hus
  refine ⟨t, u, (Edit.returns_mint s).bind ht, ?_, { hc with }, hts, hus,
    hch.spares.trans hat.spares, hch.spares.trans hau.spares⟩
  obtain ⟨e, m, rfl⟩ := List.exists_cons_of_ne_nil hl
  exact (pollEach_minted h.toShaped m.length).symm.trans hu

end Sweep

/-- Whether each snapshot shows what it is held for, from the front and from the back. -/
def Shown (s : Store α) (held : List (Holding α)) : Prop :=
  ∀ h ∈ held, ({ view := h.view } : Snapshot).nodes s = .ok h.contents ∧
    ({ view := h.view } : Snapshot).nodesReversed s = .ok h.contents.reverse

/-- A snapshot for whose version a change saves all that it sees shows the same after it. -/
theorem Shaped.shown {l : List (Handle × α)} (h : t.Shaped l) {held : List (Holding α)}
    (hd : ∀ g ∈ held, Saves s t g.view.version ∧
      ∃ ps, s.Displays g.view ps ∧ s.named ps = g.contents) : t.Shown held := by
  intro g hg
  obtain ⟨hs, ps, hdg, hn⟩ := hd g hg
  rw [← hn, ← hs.named hdg.row]
  exact (hdg.saves hs).nodes h.sound.chained h.open_

end Store

namespace Edit

variable {α : Type}

theorem take_all {w : View} (hw : w.size ≠ 0) :
    take w.size w = (do let _ ← clear; return w : Edit α View) := by
  unfold take takeAt clear
  rw [if_neg hw, bind_assoc]
  simp only [if_true]

end Edit

namespace World

variable {α : Type} {c : Config} {w : World α} {l : List (Handle × α)}

/-- Whether unlinking all nodes of a deque that holds `l` comes to the same as polling them one
after the other, be it for a snapshot or not. -/
structure SweepsAlike (w : World α) (l : List (Handle × α)) : Prop where
  clear : ∃ t u, Edit.clear.Returns w.store l.length t ∧
    (Edit.pollEach .first l.length).Returns w.store (l.map fun e => some e.2) u ∧
    w.store.Concur t u ∧ t.Shown w.held ∧ u.Shown w.held
  openPolled : ∀ limit, Store.taken limit l.length = l.length →
    ∃ v t u, (Edit.openPolled limit).Returns w.store v t ∧
      (Edit.openThenPoll .first l.length).Returns w.store (v, l.map fun e => some e.2) u ∧
      w.store.Concur t u ∧ t.Shown (⟨v, l⟩ :: w.held) ∧ u.Shown (⟨v, l⟩ :: w.held)
  /-- If some nodes are left, there is no difference at all. -/
  openPolledSome : ∀ limit, 0 < Store.taken limit l.length →
    Store.taken limit l.length < l.length →
    ∃ v last t, (Edit.openPolled limit).Returns w.store
        { v with last, size := Store.taken limit l.length } t ∧
      (Edit.openThenPoll .first (Store.taken limit l.length)).Returns w.store
        (v, (l.take (Store.taken limit l.length)).map fun e => some e.2) t

section Sweeps

variable (hw : w.Coherent l) (hl : l ≠ []) (hp : w.store.links.Pointed)
  (hm : w.store.timeline.modification < .max)

include hw hl hp hm

theorem Coherent.sweep_clear :
    ∃ t u, Edit.clear.Returns w.store l.length t ∧
      (Edit.pollEach .first l.length).Returns w.store (l.map fun e => some e.2) u ∧
      w.store.Concur t u ∧ t.Shown w.held ∧ u.Shown w.held := by
  obtain ⟨t, u, ht, hu, hc, hts, hus, hst, hsu⟩ := hw.live.sweep hl hp hm
  exact ⟨t, u, ht, hu, hc,
    hts.shown fun g hg => ⟨hst.saves (hw.pinned hg), hw.displays g hg⟩,
    hus.shown fun g hg => ⟨hsu.saves (hw.pinned hg), hw.displays g hg⟩⟩

theorem Coherent.sweep_openPolled {limit : Option Nat}
    (hn : Store.taken limit l.length = l.length) :
    ∃ v t u, (Edit.openPolled limit).Returns w.store v t ∧
      (Edit.openThenPoll .first l.length).Returns w.store (v, l.map fun e => some e.2) u ∧
      w.store.Concur t u ∧ t.Shown (⟨v, l⟩ :: w.held) ∧ u.Shown (⟨v, l⟩ :: w.held) := by
  obtain ⟨v, hv, _, hver, hd⟩ := Store.returns_openSnapshot hw.live
  obtain ⟨t, u, ht, hu, hc, hts, hus, hst, hsu⟩ := hw.live.opened.sweep hl hp hm
  have hsize : v.size = l.length := by rw [hd.size, Store.rowOf, List.length_map]
  have hpin := fun r => (Store.mem_pinned_opened hw.live (w := r)).2
  have hheld : ∀ g ∈ (⟨v, l⟩ :: w.held : List (Holding α)),
      g.view.version ∈ w.store.opened.timeline.pinned ∧
        ∃ ps, w.store.opened.Displays g.view ps ∧ w.store.opened.named ps = g.contents := by
    intro g hg
    rcases List.mem_cons.1 hg with rfl | hg
    · exact ⟨hpin _ (Or.inr hver), _, hd, hw.live.named_current⟩
    · exact ⟨hpin _ (Or.inl (hw.pinned hg)), hw.displays_of_saves hg (Store.saves_retimed ..)⟩
  refine ⟨v, t, u, ?_, hv.bind (hu.bind (Edit.returns_pure _ u)), { hc with },
    hts.shown fun g hg => ⟨hst.saves (hheld g hg).1, (hheld g hg).2⟩,
    hus.shown fun g hg => ⟨hsu.saves (hheld g hg).1, (hheld g hg).2⟩⟩
  have htake := Store.openPolled_apply hv limit
  rw [hsize, hn, ← hsize,
    Edit.take_all (by rw [hsize]; exact List.length_pos_iff.2 hl |>.ne')] at htake
  exact htake.trans (ht.bind (Edit.returns_pure v t))

omit hl hp in
theorem Coherent.sweep_openPolled_some {limit : Option Nat}
    (h0 : 0 < Store.taken limit l.length) (hn : Store.taken limit l.length < l.length) :
    ∃ v last t, (Edit.openPolled limit).Returns w.store
        { v with last, size := Store.taken limit l.length } t ∧
      (Edit.openThenPoll .first (Store.taken limit l.length)).Returns w.store
        (v, (l.take (Store.taken limit l.length)).map fun e => some e.2) t := by
  obtain ⟨v, hv, _, hver, hd⟩ := Store.returns_openSnapshot hw.live
  obtain ⟨hlm, hst, hch⟩ := hw.live.opened.minted_of_lt hm
  have hpin := (Store.mem_pinned_opened hw.live (w := v.version)).2 (Or.inr hver)
  have hsize : v.size = l.length := by rw [hd.size, Store.rowOf, List.length_map]
  obtain ⟨last, t, _, ht, _⟩ := Store.returns_takeSome hw.live hlm hst hver
    (hd.saves (hch.spares.saves hpin)) hn
  have htake := Store.openPolled_apply hv limit
  rw [hsize] at htake
  unfold Edit.take at htake
  rw [if_neg (Nat.ne_of_gt h0)] at htake
  refine ⟨v, last, t, htake.trans ((Edit.returns_mint _).bind ht), hv.bind ?_⟩
  unfold Edit.takeAt at ht
  rw [hsize, if_neg (Nat.ne_of_lt hn)] at ht
  obtain ⟨_, _, hs, hpure⟩ := ht.exists_of_bind
  cases hpure
  have hpolls := Store.returns_pollEach_of_seen hlm.toShaped (hlm.changing hst)
    (Store.drawn_minted _) (Nat.le_of_lt hn) hs
  refine Edit.Returns.bind (s := w.store.opened) ?_ (Edit.returns_pure _ t)
  obtain ⟨e, m, rfl⟩ := List.exists_cons_of_ne_nil (l := l) (by rintro rfl; cases hn)
  obtain ⟨k, hk⟩ := Nat.exists_eq_add_of_lt h0
  rw [Nat.zero_add] at hk
  rw [hk] at hpolls ⊢
  exact (Store.pollEach_minted hw.live.opened.toShaped k).symm.trans hpolls

end Sweeps

/-- Whether all nodes go at once or one by one, and whether or not a snapshot takes them out, comes
to the same but for the order in which links are retired. -/
theorem bulk_removal_matches_polls (h : Reached c w) (ho : w.store.disposed = false)
    (hn : w.store.entries ≠ []) : w.SweepsAlike w.store.entries := by
  obtain ⟨l, hw⟩ := h.coherent ho
  have hp := h.pointed ho
  have hm := h.modification_lt
  rw [hw.live.entries] at hn ⊢
  exact ⟨hw.sweep_clear hn hp hm, fun _ => hw.sweep_openPolled hn hp hm,
    fun _ => hw.sweep_openPolled_some hm⟩

/-- Of the two nodes, the snapshot that is open holds on to the first. -/
theorem double_sweeps_alike :
    double.store.disposed = false ∧ double.store.entries = [(⟨2, 0⟩, 7), (⟨3, 0⟩, 8)] ∧
      double.SweepsAlike [(⟨2, 0⟩, 7), (⟨3, 0⟩, 8)] := by
  have he : double.store.entries = [(⟨2, 0⟩, 7), (⟨3, 0⟩, 8)] := by decide +kernel
  have h := bulk_removal_matches_polls reached_double (by decide) (by rw [he]; simp)
  rw [he] at h
  exact ⟨by decide, he, h⟩

end World

end SnapshotDeque
