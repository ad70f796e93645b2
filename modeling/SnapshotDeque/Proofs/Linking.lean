import SnapshotDeque.Proofs.Regime
import SnapshotDeque.Proofs.Shape

/-!
Linking a new node, under any regime. The node comes into the arena first; its link is put between
two links that may be changed; and the arena may have no room for it.
-/

namespace SnapshotDeque.Store

variable {α : Type} {s t : Store α} {v : Version}

/-! ## The list with a new node -/

theorem Shaped.not_mem_of_fresh {l : List (Handle × α)} (h : s.Shaped l) {x : Handle}
    (hx : s.arena.get? x = none) : x ∉ l.map (·.1) := by
  intro hm
  have := (h.heads x).2 hm
  rw [Arena.head?, hx] at this
  cases this

theorem not_mem_ringOf {l : List Handle} {x : Handle} (hp : x.isSentinel = false) (hx : x ∉ l) :
    x ∉ ringOf l := by
  rw [mem_ringOf]
  rintro (rfl | hxl | rfl)
  · cases hp
  · exact hx hxl
  · cases hp

/-- The nodes that get other links when a new node is put at one end. -/
def seam (side : End) (l : List Handle) : List Handle :=
  .atBegin :: .atEnd :: (side.outermost? l).toList

theorem length_seam_le (side : End) (l : List Handle) : (seam side l).length ≤ 3 := by
  unfold seam
  cases side.outermost? l <;> simp

theorem atBegin_mem_seam (side : End) (l : List Handle) : Handle.atBegin ∈ seam side l :=
  List.mem_cons_self ..

theorem atEnd_mem_seam (side : End) (l : List Handle) : Handle.atEnd ∈ seam side l :=
  List.mem_cons_of_mem _ (List.mem_cons_self ..)

theorem mem_seam {side : End} {l : List Handle} {x : Handle} (h : side.outermost? l = some x) :
    x ∈ seam side l := by
  rw [seam, h]
  exact List.mem_cons_of_mem _ (List.mem_cons_of_mem _ (List.mem_cons_self ..))

/-- Where a new node goes at either end. -/
theorem exists_gap (l : List Handle) (side : End) :
    ∃ b w y z, ringOf l = b ++ w :: y :: z ∧ w ∈ seam side l ∧ y ∈ seam side l ∧
      (match side with
        | .first => w = .atBegin ∧ ∀ x, ringOf (x :: l) = b ++ w :: x :: y :: z
        | .last => y = .atEnd ∧ ∀ x, ringOf (l ++ [x]) = b ++ w :: x :: y :: z) := by
  cases side with
  | first =>
    cases l with
    | nil =>
      exact ⟨[], .atBegin, .atEnd, [], rfl, atBegin_mem_seam .., atEnd_mem_seam .., rfl,
        fun _ => rfl⟩
    | cons y l =>
      exact ⟨[], .atBegin, y, l ++ [.atEnd], rfl, atBegin_mem_seam .., mem_seam rfl, rfl,
        fun _ => rfl⟩
  | last =>
    rcases List.eq_nil_or_concat l with rfl | ⟨l, w, rfl⟩
    · exact ⟨[], .atBegin, .atEnd, [], rfl, atBegin_mem_seam .., atEnd_mem_seam .., rfl,
        fun _ => rfl⟩
    · exact ⟨.atBegin :: l, w, .atEnd, [], by simp [ringOf],
        mem_seam (by simp [End.outermost?]), atEnd_mem_seam .., rfl, fun x => by simp [ringOf]⟩

/-- A node that came into the arena is linked between two neighbours. -/
theorem Shaped.inserted {k m : List (Handle × α)} (h : s.Shaped (k ++ m)) {a : α}
    {w x y : Handle} {b z : List Handle} {ar : Arena α} (hg : Arena.Gains s.arena ar x a)
    (hr : ringOf ((k ++ m).map (·.1)) = b ++ w :: y :: z)
    (hr' : ringOf ((k ++ (x, a) :: m).map (·.1)) = b ++ w :: x :: y :: z)
    (ho : t.disposed = s.disposed) (hs : t.Sound t.obsolete [])
    (hcnt : t.Counted ((k ++ m).length + 1))
    (hwx : t.Adjacent w x) (hxy : t.Adjacent x y)
    (hadj : ∀ {c d}, c ≠ w → d ≠ y → s.Adjacent c d → t.Adjacent c d)
    (hheads : ∀ c, (t.arena.head? c).isSome = true ↔ c = x ∨ (s.arena.head? c).isSome = true)
    (helem : ∀ c, (t.arena.get? c).map (·.element) = (ar.get? c).map (·.element)) :
    t.Shaped (k ++ (x, a) :: m) := by
  have hfresh := h.not_mem_of_fresh hg.fresh
  have hnd := h.ring.nodup
  have hch := h.ring.chain
  rw [hr] at hnd hch
  refine ⟨ho.trans h.open_, hs, ⟨?_, ?_⟩, fun c => ?_, ?_, fun e he => ?_⟩
  · have hxr := not_mem_ringOf hg.payload hfresh
    rw [hr] at hxr
    have hperm : ((b ++ [w]) ++ x :: y :: z).Perm (x :: ((b ++ [w]) ++ y :: z)) := List.perm_middle
    rw [List.append_assoc, List.append_assoc] at hperm
    rw [hr']
    exact hperm.nodup_iff.2 (List.nodup_cons.2 ⟨hxr, hnd⟩)
  · rw [hr']
    exact isChain_insert hch hnd hwx hxy fun c d hcw hdy hcd => hadj hcw hdy hcd
  · rw [hheads, h.heads]
    simp only [List.map_append, List.map_cons, List.mem_append, List.mem_cons]
    exact or_left_comm
  · have hlen : (k ++ (x, a) :: m).length = (k ++ m).length + 1 := by
      simp only [List.length_append, List.length_cons]
      omega
    rw [hlen]
    exact hcnt
  · have hold : e ∈ k ++ m → (ar.get? e.1).map (·.element) = some e.2 := by
      intro hm
      rw [hg.get, if_neg fun e' : e.1 = x => hfresh (e' ▸ List.mem_map_of_mem hm)]
      exact h.element e hm
    rw [helem]
    simp only [List.mem_append, List.mem_cons] at he
    rcases he with he | rfl | he
    · exact hold (List.mem_append_left _ he)
    · rw [hg.get, if_pos rfl]
      rfl
    · exact hold (List.mem_append_right _ he)

theorem Shaped.emit {l : List (Handle × α)} (h : s.Shaped l) (e : Event α) :
    (Store.emit e s).Shaped l := by
  refine h.frees (frees_emit e s) (disposed_emit ..) ?_
  rw [obsolete_emit]
  exact h.sound.congr (links_emit _ _) (arena_emit _ _) (beginLink_emit _ _) (endLink_emit _ _)

namespace Regime

variable {R : Regime α v}

/-- The node of an element that came into the arena, after steps that link no node. -/
theorem get?_of_comes {x : Handle} {m : Node α} (h : R.Comes s t) (hx : s.arena.get? x = some m)
    (hh : m.head = none) : ∃ m', t.arena.get? x = some m' ∧ m'.head = none ∧
      m'.element = m.element := by
  obtain ⟨m', hm', hme⟩ : ∃ m', t.arena.get? x = some m' ∧ m'.element = m.element := by
    have := R.element h x
    rw [hx, Option.map_some] at this
    exact Option.map_eq_some_iff.1 this
  refine ⟨m', hm', ?_, hme⟩
  have := R.heads h x
  rw [Arena.head?, Arena.head?, hx, hm', Option.bind_some, Option.bind_some, hh] at this
  exact Option.isNone_iff_eq_none.1 (Option.isSome_eq_false_iff.1 this)

/-- A new link may be joined to two links that may be changed. -/
theorem between {x : Handle} {p n : Nat} {a : α} {m : Node α} {l : Link α}
    (hx : s.arena.get? x = some m) (hh : m.head = none) (he : m.element = a)
    (hl : FirstLink l x v a) (h : R.Holds s [x]) (hp : p < s.links.size) (hn : n < s.links.size)
    (hpf : R.Free s p) (hnf : R.Free s n) :
    R.Comes (s.enlisted x l) (s.between x l p n) ∧ R.Holds (s.between x l p n) [] := by
  obtain ⟨hc, hkf, hf⟩ := R.enlisted h hx hh he hl
  have hsize : (s.enlisted x l).links.size = s.links.size + 1 := by
    rw [links_enlisted, LinkTable.size_push]
  have hk : s.links.size < (s.enlisted x l).links.size := hsize ▸ Nat.lt_succ_self _
  have hlt : ∀ {i}, i < s.links.size → i < (s.enlisted x l).links.size := fun hi =>
    Nat.lt_trans hi hk
  have hsize' := (LinkTable.sameSpine_join (s.enlisted x l).links p s.links.size).size
  obtain ⟨hj, hcj⟩ := joined hc (hlt hp) hk (hf p hp hpf) hkf
  obtain ⟨hj', hcj'⟩ :=
    joined hcj (Nat.lt_of_lt_of_eq hk hsize'.symm) (Nat.lt_of_lt_of_eq (hlt hn) hsize'.symm)
      (R.free hj hk hkf) (R.free hj (hlt hn) (hf n hn hnf))
  exact ⟨R.trans hj hj', hcj'⟩

/-- A new node is put between two neighbours, once it is in the arena. -/
theorem returns_between {w x y : Handle} {p n : Nat} {a : α} {b : Arena α} {c : Nat}
    (h : R.Holds s []) (hg : Arena.Gains s.arena b x a) (hp : s.current? w = some p)
    (hn : s.current? y = some n) (hwy : w ≠ y) (hc : s.Counted c) (side : End) :
    ∃ p' n' s1 s2 s3 t, (Edit.writable n v).Returns (s.withArena b) n' s1 ∧
      (Edit.writable p v).Returns s1 p' s2 ∧
      (do
        let link ← Edit.newLink
          { owner := x, createdOn := v, element := some a, previous := some p', next := some n' }
        Edit.join p' link
        Edit.join link n'
        Edit.install link
        Edit.checkSplice p' link
        Edit.checkSplice link n' : Edit α Unit).Returns s2 () s3 ∧
      (Edit.recount (· + 1) v).Returns s3 () t ∧
      R.Inserts s (Store.emit (.link x side v) t) x a side ∧
      R.Holds (Store.emit (.link x side v) t) [] ∧ R.Holds t [] ∧ t.disposed = s.disposed ∧
      t.Counted (c + 1) ∧ t.Adjacent w x ∧ t.Adjacent x y ∧
      (∀ {b d}, b ≠ w → d ≠ y → s.Adjacent b d → t.Adjacent b d) ∧
      (∀ z, (t.arena.head? z).isSome = true ↔ z = x ∨ (s.arena.head? z).isSome = true) ∧
      (∀ z, (t.arena.get? z).map (·.element) = (b.get? z).map (·.element)) ∧
      Touches s t [w, y, .atBegin, .atEnd] := by
  have hx : (s.withArena b).arena.get? x = some (s.arena.newNode a) := by
    rw [withArena, hg.get, if_pos rfl]
  obtain ⟨p', n', s1, s2, h1, _, h2, hf, hc2, hp2, hn2, hpf, hnf, hne2⟩ :=
    returns_writables (R.gained h hg) hwy ((current?_gained hg w).trans hp)
      ((current?_gained hg y).trans hn)
  -- the node is as it was, and still unlinked
  obtain ⟨m, hm, hmh, hme⟩ := get?_of_comes hf.comes hx rfl
  let l : Link α :=
    { owner := x, createdOn := v, element := some a, previous := some p', next := some n' }
  have hl : FirstLink l x v a := ⟨rfl, rfl, rfl, rfl, rfl, rfl⟩
  have hs2 := R.sound hc2
  obtain ⟨hwx, hxy, hadj⟩ := adjacent_between hm hmh hme hl hs2 hp2 hn2
  obtain ⟨hwb, hcb⟩ :=
    between hm hmh hme hl hc2 (hs2.current_lt hp2) (hs2.current_lt hn2) hpf hnf
  have hcnt : (s2.between x l p' n').Counted c := counted_joined (counted_joined
    (counted_enlisted hm hs2 (hf.counted ⟨hc.first, hc.last⟩)))
  obtain ⟨t, h4, hw4, hc4, hcnt4, hadj4, hne4⟩ := returns_recount hcb hcnt (· + 1)
  have hw := R.trans hwb hw4
  have hpt : s2.links.Pointed → (s2.links.push l).Pointed := fun hs => hs.push fun j hj => by
    rcases hj with hj | hj <;> cases hj
    · exact hs2.current_lt hp2
    · exact hs2.current_lt hn2
  obtain ⟨hi, hce⟩ := R.inserts side h hg hf.comes hc2 hm hmh hl hpt rfl hw hc4
  refine ⟨p', n', s1, s2, s2.between x l p' n', t, h1, h2,
    returns_linkBetween hm hmh hme hl hs2 hp2 hn2, h4, hi, hce, hc4, ?_, hcnt4, hadj4 hwx,
    hadj4 hxy, fun hb hd hbd => hadj4 (hadj hb hd (hf.adjacent (adjacent_gained hg hbd))),
    fun z => ?_, fun z => ?_, fun z hz hs => ?_⟩
  · rw [R.disposed hw, show (s2.enlisted x l).disposed = s2.disposed by simp [Store.enlisted],
      R.disposed hf.comes]
    rfl
  · rw [R.heads hw, heads_enlisted hm z, R.heads hf.comes, show (s.withArena b).arena.head? z =
      s.arena.head? z from head?_eq_of_current? (current?_gained hg z)]
  · rw [R.element hw, element_enlisted z, R.element hf.comes]
    rfl
  · simp only [List.mem_cons, List.not_mem_nil, or_false, not_or] at hz
    have hzx : z ≠ x := by
      rintro rfl
      rw [current?_of_payload hg.payload, Arena.head?, hg.fresh] at hs
      cases hs
    rw [hne4 z hz.2.2.1 hz.2.2.2, current?_between hm, if_neg hzx, hne2 z hz.1 hz.2.1,
      current?_gained hg]

section Splice

variable {k m : List (Handle × α)} (h : s.Shaped (k ++ m)) (hs : R.Holds s []) (a : α) (side : End)

include h hs

/-- A node is put between two neighbours, or the arena has no room for it. -/
theorem spliceBetween_spec {b z : List Handle} {w y : Handle} {p n : Nat}
    (hr : ringOf ((k ++ m).map (·.1)) = b ++ w :: y :: z)
    (hr' : ∀ x, ringOf ((k ++ (x, a) :: m).map (·.1)) = b ++ w :: x :: y :: z)
    (hp : s.current? w = some p) (hn : s.current? y = some n) :
    (∃ x t, (Edit.spliceBetween a side v p n).Returns s x t ∧ t.Shaped (k ++ (x, a) :: m) ∧
        R.Holds t [] ∧ R.Inserts s t x a side ∧ Touches s t [w, y, .atBegin, .atEnd]) ∨
      (Edit.spliceBetween a side v p n).Fails s Arena.exhausted s ∧
        s.arena.size + 2 = Arena.slotLimit := by
  rcases h.sound.arena.insert a with ⟨x, b', hins, hg⟩ | ⟨hins, hfull⟩
  · left
    have hwy : w ≠ y := by
      have hnd := h.ring.nodup
      rw [hr] at hnd
      have := (List.nodup_append.1 hnd).2.1
      rw [List.nodup_cons] at this
      exact fun e => this.1 (by simp [e])
    obtain ⟨p', n', s1, s2, s3, t, h1, h2, h3, h4, hi, hce, hc, hd, hcnt, hwx, hxy, hadj, hheads,
        helem, htouch⟩ := returns_between hs hg hp hn hwy h.counted side
    have hlt : t.Shaped (k ++ (x, a) :: m) :=
      h.inserted hg hr (hr' x) hd (R.sound hc) hcnt hwx hxy hadj hheads helem
    refine ⟨x, Store.emit (.link x side v) t, ?_, hlt.emit _, hce, hi,
      fun z hz hs => ((frees_emit _ t).current? z).trans (htouch z hz hs)⟩
    unfold Edit.spliceBetween
    refine (Edit.returns_ask hins).bind ?_
    refine Edit.Returns.bind (Edit.returns_modify _ s) (h1.bind (h2.bind ?_))
    have hrest : (do
        Edit.recount (· + 1) v
        modify (Store.emit (.link x side v))
        return x : Edit α Handle).Returns s3 x (Store.emit (.link x side v) t) :=
      h4.bind ((Edit.returns_modify _ t).bind (Edit.returns_pure x _))
    have hall := h3.seq hrest
    simp only [bind_assoc] at hall
    exact hall
  · right
    refine ⟨?_, hfull⟩
    unfold Edit.spliceBetween
    exact (Edit.fails_ask hins).bind

end Splice

theorem splice_spec {l : List (Handle × α)} (h : s.Shaped l) (hs : R.Holds s []) (a : α)
    (side : End) :
    (∃ x t, (Edit.splice a side v).Returns s x t ∧ t.Shaped (side.add [(x, a)] l) ∧
        R.Holds t [] ∧ R.Inserts s t x a side ∧ Touches s t (seam side (l.map (·.1)))) ∨
      (Edit.splice a side v).Fails s Arena.exhausted s ∧
        s.arena.size + 2 = Arena.slotLimit := by
  obtain ⟨b, w, y, z, hr, hws, hys, hside⟩ := exists_gap (l.map (·.1)) side
  have hseam : ∀ c ∈ [w, y, .atBegin, .atEnd], c ∈ seam side (l.map (·.1)) := by
    simp [hws, hys, atBegin_mem_seam, atEnd_mem_seam]
  have hch := h.ring.chain
  rw [hr, List.isChain_append_cons_cons] at hch
  have hwy := hch.2.1
  have ⟨p, n, hp, hn, _⟩ := hwy
  cases side with
  | first =>
    obtain ⟨rfl, hr'⟩ := hside
    obtain rfl := Option.some.inj ((current?_atBegin s).symm.trans hp)
    have hnext := h.sound.nextOf hwy hp hn
    rcases spliceBetween_spec (k := []) h hs a .first hr (fun x => hr' x) hp hn with
      ⟨x, t, ht, hl, hc, hi, hz⟩ | ⟨hf, hfull⟩
    · exact Or.inl ⟨x, t, (Edit.returns_get s).bind ((Edit.returns_ask hnext).bind ht), hl, hc, hi,
        hz.mono hseam⟩
    · exact Or.inr ⟨(Edit.returns_get s).bind_fails ((Edit.returns_ask hnext).bind_fails hf), hfull⟩
  | last =>
    obtain ⟨rfl, hr'⟩ := hside
    obtain rfl := Option.some.inj ((current?_atEnd s).symm.trans hn)
    have hprev := h.sound.previousOf hwy hp hn
    rw [← List.append_nil l] at h
    rcases spliceBetween_spec (m := []) h hs a .last (by simpa using hr) (by simpa using hr') hp hn
      with
      ⟨x, t, ht, hl, hc, hi, hz⟩ | ⟨hf, hfull⟩
    · exact Or.inl ⟨x, t, (Edit.returns_get s).bind ((Edit.returns_ask hprev).bind ht), hl, hc, hi,
        hz.mono hseam⟩
    · exact Or.inr ⟨(Edit.returns_get s).bind_fails ((Edit.returns_ask hprev).bind_fails hf), hfull⟩

end Regime

end SnapshotDeque.Store
