import Mathlib.Data.List.Chain
import SnapshotDeque.Proofs.Release

/-!
Where a walk to the link of a version may start. The links of one node come from the first by
superseding, each time the last of them, and are given back from the old end on, while the table
changes elsewhere as it likes. A link that is given back keeps its successor but not its
predecessor. Main statement: both walks of `resolve` come to an end from every link of the chain,
and for a version that the links still held cover, all of them end at one link, the given back ones
included.

`resolve` looks at the places of the links and so ends in any table. The walks here (`BacksTo`,
`ForwardsTo`) only follow the pointers.
-/

namespace SnapshotDeque.LinkTable

variable {α : Type}

/-! ## The two walks -/

/-- From link `i` back to the first that is no younger than `v`, none if the way is cut before. -/
inductive BacksTo (t : LinkTable α) (v : Version) : Nat → Option Nat → Prop
  | here {i} : (t.get i).createdOn ≤ v → BacksTo t v i (some i)
  | cut {i} : v < (t.get i).createdOn → (t.get i).older = none → BacksTo t v i none
  | back {i j r} : v < (t.get i).createdOn → (t.get i).older = some j → BacksTo t v j r →
      BacksTo t v i r

/-- From link `i` forward to the last that is no younger than `v`. -/
inductive ForwardsTo (t : LinkTable α) (v : Version) : Nat → Nat → Prop
  | last {i} : (t.get i).newer = none → ForwardsTo t v i i
  | young {i j} : (t.get i).newer = some j → v < (t.get j).createdOn → ForwardsTo t v i i
  | forward {i j k} : (t.get i).newer = some j → (t.get j).createdOn ≤ v → ForwardsTo t v j k →
      ForwardsTo t v i k

/-- The walk back, then the walk forward from where it ended. -/
inductive Resolves (t : LinkTable α) (v : Version) : Nat → Option Nat → Prop
  | found {i j k} : BacksTo t v i (some j) → ForwardsTo t v j k → Resolves t v i (some k)
  | lost {i} : BacksTo t v i none → Resolves t v i none

section Unique

variable {t : LinkTable α} {v : Version} {i : Nat}

theorem BacksTo.unique {r r' : Option Nat} (h : t.BacksTo v i r) (h' : t.BacksTo v i r') :
    r = r' := by
  induction h with
  | here hi =>
    cases h' with
    | here => rfl
    | cut hlt => exact absurd hi (not_le_of_gt hlt)
    | back hlt => exact absurd hi (not_le_of_gt hlt)
  | cut hlt ho =>
    cases h' with
    | here hi => exact absurd hi (not_le_of_gt hlt)
    | cut => rfl
    | back _ ho' => simp [ho] at ho'
  | back hlt ho _ ih =>
    cases h' with
    | here hi => exact absurd hi (not_le_of_gt hlt)
    | cut _ ho' => simp [ho] at ho'
    | back _ ho' hj =>
      rw [ho, Option.some.injEq] at ho'
      exact ih (ho' ▸ hj)

theorem ForwardsTo.unique {k k' : Nat} (h : t.ForwardsTo v i k) (h' : t.ForwardsTo v i k') :
    k = k' := by
  induction h with
  | last hn => cases h' <;> simp_all
  | young hn hlt =>
    cases h' with
    | last => rfl
    | young => rfl
    | forward hn' hle =>
      rw [hn, Option.some.injEq] at hn'
      exact absurd (hn' ▸ hle) (not_le_of_gt hlt)
  | forward hn hle _ ih =>
    cases h' with
    | last hn' => simp [hn] at hn'
    | young hn' hlt =>
      rw [hn, Option.some.injEq] at hn'
      exact absurd (hn' ▸ hle) (not_le_of_gt hlt)
    | forward hn' _ hj =>
      rw [hn, Option.some.injEq] at hn'
      exact ih (hn' ▸ hj)

theorem Resolves.unique {r r' : Option Nat} (h : t.Resolves v i r) (h' : t.Resolves v i r') :
    r = r' := by
  cases h with
  | found hb hf =>
    cases h' with
    | found hb' hf' =>
      have hj := hb.unique hb'
      rw [Option.some.injEq] at hj
      rw [hf.unique (hj ▸ hf')]
    | lost hb' => simpa using hb.unique hb'
  | lost hb =>
    cases h' with
    | found hb' => simpa using hb.unique hb'
    | lost => rfl

end Unique

/-! ## How a chain comes about -/

/-- `u` is `t` with no change to the chain of the links in `is`. -/
structure Aside (t u : LinkTable α) (is : List Nat) : Prop where
  size_le : t.size ≤ u.size
  createdOn : ∀ i ∈ is, (u.get i).createdOn = (t.get i).createdOn
  older : ∀ i ∈ is, (u.get i).older = (t.get i).older
  newer : ∀ i ∈ is, (u.get i).newer = (t.get i).newer

/-- The table holds the links `gone ++ rest` of one node, oldest first, of which those in `gone`
have been given back. -/
inductive Chain : LinkTable α → List Nat → List Nat → Prop
  | first (t : LinkTable α) (l : Link α) : l.older = none → l.newer = none →
      Chain (t.push l) [] [t.size]
  | fork {t u : LinkTable α} {gone rest i j v} : Chain t gone (rest ++ [i]) →
      t.fork i v = .ok (j, u) → Chain u gone (rest ++ [i, j])
  | reclaim {t : LinkTable α} {gone rest i j} : Chain t gone (i :: j :: rest) →
      Chain (t.release i) (gone ++ [i]) (j :: rest)
  | aside {t u : LinkTable α} {gone rest} : Chain t gone rest → Aside t u (gone ++ rest) →
      Chain u gone rest

/-- Link `j` is the one that superseded link `i`. -/
structure Succeeds (t : LinkTable α) (i j : Nat) : Prop where
  lt : i < j
  createdOn : (t.get i).createdOn < (t.get j).createdOn
  newer : (t.get i).newer = some j

/-- A chain as its pointers have it: unbroken in the forward direction, and in the other one as far
as its links are held. -/
structure Spine (t : LinkTable α) (gone rest : List Nat) : Prop where
  lt_size : ∀ i ∈ gone ++ rest, i < t.size
  forward : (gone ++ rest).IsChain t.Succeeds
  last : ∀ i ∈ (gone ++ rest).getLast?, (t.get i).newer = none
  backward : rest.IsChain fun i j => (t.get j).older = some i
  head : ∀ i ∈ rest.head?, (t.get i).older = none
  cut : ∀ i ∈ gone, (t.get i).older = none

variable {t u : LinkTable α} {v : Version} {gone rest : List Nat} {i j : Nat}

theorem Spine.places (h : Spine t gone rest) : (gone ++ rest).Pairwise (· < ·) :=
  List.isChain_iff_pairwise.1 (h.forward.imp fun _ _ hij => hij.lt)

theorem Spine.versions (h : Spine t gone rest) :
    (gone ++ rest).Pairwise fun i j => (t.get i).createdOn < (t.get j).createdOn := by
  have hm : ((gone ++ rest).map fun i => (t.get i).createdOn).IsChain (· < ·) :=
    List.isChain_map _ |>.2 (h.forward.imp fun _ _ hij => hij.createdOn)
  exact List.pairwise_map.1 (List.isChain_iff_pairwise.1 hm)

theorem Spine.first (t : LinkTable α) {l : Link α} (ho : l.older = none) (hn : l.newer = none) :
    Spine (t.push l) [] [t.size] := by
  refine ⟨?_, ?_, ?_, ?_, ?_, ?_⟩ <;> simp [get_push, ho, hn]

theorem Spine.aside (h : Spine t gone rest) (ha : Aside t u (gone ++ rest)) :
    Spine u gone rest where
  lt_size i hi := Nat.lt_of_lt_of_le (h.lt_size i hi) ha.size_le
  forward := h.forward.imp_of_mem_imp fun i j hi hj hij =>
    ⟨hij.lt, by rw [ha.createdOn i hi, ha.createdOn j hj]; exact hij.createdOn,
      (ha.newer i hi).trans hij.newer⟩
  last i hi := (ha.newer i (List.mem_of_getLast? hi)).trans (h.last i hi)
  backward := h.backward.imp_of_mem_imp fun i j _ hj hij =>
    (ha.older j (List.mem_append_right _ hj)).trans hij
  head i hi :=
    (ha.older i (List.mem_append_right _ (List.mem_of_head? hi))).trans (h.head i hi)
  cut i hi := (ha.older i (List.mem_append_left _ hi)).trans (h.cut i hi)

/-- What a fork comes to if it succeeds, whether or not the link has a tag already. -/
theorem forked_of_fork (h : t.fork i v = .ok (j, u)) :
    (t.get i).createdOn < v ∧ (t.get i).newer = none ∧ j = t.size ∧ u = t.forked i v := by
  unfold fork at h
  dsimp only at h
  split at h
  · cases h
  next hv =>
    split at h
    · cases h
    next hn =>
      obtain ⟨rfl, rfl⟩ := Prod.mk.inj (Except.ok.inj h)
      exact ⟨lt_of_not_ge hv, by simpa using hn, rfl, rfl⟩

theorem get_forked_of_lt (hi : i < t.size) (k : Nat) :
    (t.forked i v).get k =
      if k = t.size then t.successor i v
      else if k = i then ({ t.get i with newer := some t.size }).markObsolete v
      else t.get k := by
  simp only [forked, get_modify, get_push, size_push]
  by_cases hk : k = i
  · subst hk
    simp [Nat.ne_of_lt hi, Nat.lt_succ_of_lt hi]
  · have hne : i ≠ k := fun e => hk e.symm
    simp [hne, hk]

/-- The chain grows by one link at its end. -/
theorem Spine.fork (h : Spine t gone (rest ++ [i])) (hf : t.fork i v = .ok (j, u)) :
    Spine u gone (rest ++ [i, j]) := by
  obtain ⟨hv, hn, rfl, rfl⟩ := forked_of_fork hf
  have hlt : ∀ k ∈ gone ++ rest ++ [i], k < t.size := by simpa using h.lt_size
  have hi : i < t.size := hlt i (by simp)
  have hnew : (t.forked i v).get t.size = t.successor i v := by
    rw [get_forked_of_lt hi, if_pos rfl]
  have hold : ∀ k < t.size, ((t.forked i v).get k).createdOn = (t.get k).createdOn ∧
      ((t.forked i v).get k).older = (t.get k).older := by
    intro k hk
    rw [get_forked_of_lt hi, if_neg (Nat.ne_of_lt hk)]
    split
    next e => simp [e, Link.markObsolete]
    next => simp
  have hnewer : ∀ k < t.size, k ≠ i → ((t.forked i v).get k).newer = (t.get k).newer := by
    intro k hk hne
    rw [get_forked_of_lt hi, if_neg (Nat.ne_of_lt hk), if_neg hne]
  have hself : ((t.forked i v).get i).newer = some t.size := by
    rw [get_forked_of_lt hi, if_neg (Nat.ne_of_lt hi), if_pos rfl]
    rfl
  have hstep : (t.forked i v).Succeeds i t.size :=
    ⟨hi, by rw [(hold i hi).1, hnew]; exact hv, hself⟩
  refine ⟨?_, ?_, ?_, ?_, ?_, ?_⟩
  · intro k hk
    rw [size_forked]
    have hk : k ∈ (gone ++ rest ++ [i]) ++ [t.size] := by simpa using hk
    rcases List.mem_append.1 hk with hk | hk
    · exact Nat.lt_succ_of_lt (hlt k hk)
    · rw [List.mem_singleton.1 hk]
      exact Nat.lt_succ_self _
  · have hch : (gone ++ rest ++ [i]).IsChain t.Succeeds := by simpa using h.forward
    rw [show gone ++ (rest ++ [i, t.size]) = (gone ++ rest) ++ i :: t.size :: [] by simp,
      List.isChain_append_cons_cons]
    refine ⟨hch.imp_of_mem_imp fun a b ha hb hab => ?_, hstep, List.isChain_singleton _⟩
    -- no link of the chain but the last lacks a successor
    have hai : a ≠ i := fun e => by simp [← e, hab.newer] at hn
    refine ⟨hab.lt, ?_, (hnewer a (hlt a ha) hai).trans hab.newer⟩
    rw [(hold a (hlt a ha)).1, (hold b (hlt b hb)).1]
    exact hab.createdOn
  · simp [hnew, successor]
  · rw [List.isChain_append_cons_cons]
    refine ⟨h.backward.imp_of_mem_imp fun a b _ hb hab => ?_, by rw [hnew]; rfl,
      List.isChain_singleton _⟩
    exact ((hold b (h.lt_size b (List.mem_append_right _ hb))).2).trans hab
  · intro k hk
    have hk' : k ∈ (rest ++ [i]).head? := by cases rest <;> simpa using hk
    have hmem := List.mem_append_right gone (List.mem_of_head? hk')
    exact ((hold k (h.lt_size k hmem)).2).trans (h.head k hk')
  · intro k hk
    exact ((hold k (h.lt_size k (List.mem_append_left _ hk))).2).trans (h.cut k hk)

/-- The oldest link that is held lets go of its successor's way back, and of its own. -/
theorem Spine.reclaim (h : Spine t gone (i :: j :: rest)) :
    Spine (t.release i) (gone ++ [i]) (j :: rest) := by
  have hfwd := h.forward
  rw [List.isChain_append_cons_cons] at hfwd
  have hij := hfwd.2.1
  have hlt : ∀ k ∈ j :: rest, i < k :=
    (List.pairwise_cons.1 (List.pairwise_append.1 h.places).2.1).1
  have hcut : ∀ k, (t.get k).older = none → ((t.release i).get k).older = none := by
    intro k hk
    cases ho : ((t.release i).get k).older with
    | none => rfl
    | some m => simp [older_of_release ho] at hk
  refine ⟨?_, ?_, ?_, ?_, ?_, ?_⟩
  · simpa using h.lt_size
  · have hsame : (gone ++ [i] ++ j :: rest) = gone ++ i :: j :: rest := by simp
    rw [hsame]
    exact h.forward.imp fun a b hab =>
      ⟨hab.lt, by simpa [createdOn_release] using hab.createdOn,
        (newer_release t i a).trans hab.newer⟩
  · intro k hk
    exact (newer_release t i k).trans (h.last k (by simpa using hk))
  · have hback := (List.isChain_cons_cons.1 h.backward).2
    refine hback.imp_of_mem_imp fun a b ha hb hab => ?_
    have hia : i < a := hlt a ha
    have hbj : j ≠ b := fun e => by
      rw [← e, (List.isChain_cons_cons.1 h.backward).1, Option.some.injEq] at hab
      exact Nat.ne_of_lt hia hab
    rw [older_release (Nat.ne_of_gt (hlt b hb)) (by simpa [hij.newer] using hbj)]
    exact hab
  · intro k hk
    obtain rfl : j = k := by simpa using hk
    rw [get_release, if_neg fun e => Nat.ne_of_lt hij.lt e.1,
      if_pos ⟨hij.newer, h.lt_size j (by simp)⟩]
    simp [Link.forgetOlder, (List.isChain_cons_cons.1 h.backward).1]
  · intro k hk
    rcases List.mem_append.1 hk with hk | hk
    · exact hcut k (h.cut k hk)
    · obtain rfl := List.mem_singleton.1 hk
      exact hcut k (h.head k rfl)

/-- However a chain came about, its pointers are in order. -/
theorem Chain.spine (h : Chain t gone rest) : Spine t gone rest := by
  induction h with
  | first t l ho hn => exact Spine.first t ho hn
  | fork _ hf ih => exact ih.fork hf
  | reclaim _ ih => exact ih.reclaim
  | aside _ ha ih => exact ih.aside ha

theorem Chain.push (h : Chain t gone rest) (l : Link α) : Chain (t.push l) gone rest := by
  have hget : ∀ k ∈ gone ++ rest, (t.push l).get k = t.get k := fun k hk => by
    rw [get_push, if_neg (Nat.ne_of_lt (h.spine.lt_size k hk))]
  refine h.aside ⟨by simp, ?_, ?_, ?_⟩ <;> intro k hk <;> rw [hget k hk]

/-- A predecessor in the chain is a link of the chain that is held, and an earlier one. -/
theorem Spine.of_older (h : Spine t gone rest) (hi : i ∈ gone ++ rest)
    (ho : (t.get i).older = some j) : j ∈ rest ∧ j < i := by
  rcases List.mem_append.1 hi with hg | hr
  · simp [h.cut i hg] at ho
  · obtain ⟨as, bs, rfl⟩ := List.append_of_mem hr
    rcases List.eq_nil_or_concat' as with rfl | ⟨as, a, rfl⟩
    · simp [h.head i rfl] at ho
    · have hback := h.backward
      rw [List.append_assoc, List.singleton_append, List.isChain_append_cons_cons] at hback
      obtain rfl : a = j := Option.some.inj (hback.2.1.symm.trans ho)
      have hle := (List.pairwise_append.1 (List.pairwise_append.1 h.places).2.1).2.2
      exact ⟨by simp, hle a (by simp) i (by simp)⟩

/-- A successor in the chain is a link of the chain, and a later one. -/
theorem Spine.of_newer (h : Spine t gone rest) (hi : i ∈ gone ++ rest)
    (hn : (t.get i).newer = some j) : j ∈ gone ++ rest ∧ i < j := by
  obtain ⟨as, bs, hsplit⟩ := List.append_of_mem hi
  cases bs with
  | nil => simp [h.last i (by simp [hsplit])] at hn
  | cons b bs =>
    have hfwd := h.forward
    rw [hsplit, List.isChain_append_cons_cons] at hfwd
    obtain rfl : b = j := Option.some.inj (hfwd.2.1.newer.symm.trans hn)
    exact ⟨by simp [hsplit], hfwd.2.1.lt⟩

/-! ## The walks along a chain -/

theorem Spine.backsTo (h : Spine t gone rest) (v : Version) (hi : i ∈ gone ++ rest) :
    t.BacksTo v i (t.resolveBack v i) := by
  induction i using Nat.strong_induction_on with
  | _ i ih =>
    rw [resolveBack]
    by_cases hle : (t.get i).createdOn ≤ v
    · rw [if_pos hle]
      exact .here hle
    · rw [if_neg hle]
      have hlt := lt_of_not_ge hle
      cases ho : (t.get i).older with
      | none => exact .cut hlt ho
      | some j =>
        obtain ⟨hj, hji⟩ := h.of_older hi ho
        simp only [if_pos hji]
        exact .back hlt ho (ih j hji (List.mem_append_right _ hj))

theorem Spine.forwardsTo (h : Spine t gone rest) (v : Version) (hi : i ∈ gone ++ rest) :
    t.ForwardsTo v i (t.resolveForward v i) := by
  induction hm : t.size - i using Nat.strong_induction_on generalizing i with
  | _ m ih =>
    rw [resolveForward]
    cases hn : (t.get i).newer with
    | none => exact .last hn
    | some j =>
      obtain ⟨hj, hij⟩ := h.of_newer hi hn
      have hjs := h.lt_size j hj
      by_cases hle : (t.get j).createdOn ≤ v
      · simp only [if_pos (And.intro hij (And.intro hjs hle))]
        exact .forward hn hle (ih (t.size - j) (by omega) hj rfl)
      · simp only [if_neg fun hc : i < j ∧ j < t.size ∧ _ => hle hc.2.2]
        exact .young hn (lt_of_not_ge hle)

/-- A walk back stays in the chain. -/
theorem Spine.mem_of_backsTo (h : Spine t gone rest) {r : Option Nat} (hb : t.BacksTo v i r) :
    i ∈ gone ++ rest → ∀ j ∈ r, j ∈ gone ++ rest := by
  induction hb with
  | here => simp_all
  | cut => simp
  | back _ ho _ ih => exact fun hi => ih (List.mem_append_right _ (h.of_older hi ho).1)

/-- Both walks end, and `resolve` answers where. -/
theorem Spine.resolves (h : Spine t gone rest) (v : Version) (hi : i ∈ gone ++ rest) :
    t.Resolves v i (t.resolve v i) := by
  have hb := h.backsTo v hi
  unfold resolve
  cases hr : t.resolveBack v i with
  | none => exact .lost (hr ▸ hb)
  | some j =>
    have hj := h.mem_of_backsTo hb hi j (by simp [hr])
    exact .found (hr ▸ hb) (h.forwardsTo v hj)

/-- From a link before `j`, or `j` itself, the walk forward gets to where it gets to from `j`. -/
theorem forwardsTo_of_isChain {is : List Nat} {k : Nat} (hc : (is ++ [j]).IsChain t.Succeeds)
    (hj : (t.get j).createdOn ≤ v) (hk : t.ForwardsTo v j k) :
    ∀ i ∈ is ++ [j], (t.get i).createdOn ≤ v ∧ t.ForwardsTo v i k := by
  induction is with
  | nil => simpa using And.intro hj hk
  | cons a is ih =>
    obtain ⟨hab, htail⟩ := List.isChain_cons.1 hc
    intro i hi
    rcases List.mem_cons.1 hi with rfl | hi
    · obtain ⟨b, hb⟩ : ∃ b, (is ++ [j]).head? = some b := by cases is <;> simp
      have hs := hab b hb
      obtain ⟨hbv, hbk⟩ := ih htail b (List.mem_of_head? hb)
      exact ⟨le_trans (le_of_lt hs.createdOn) hbv, .forward hs.newer hbv hbk⟩
    · exact ih htail i hi

/-- From a link behind `j`, if all of those are too young, the walk back gets to where it gets to
from `j`. -/
theorem backsTo_of_isChain {is : List Nat} {r : Option Nat}
    (hc : (j :: is).IsChain fun i j => (t.get j).older = some i)
    (hv : ∀ i ∈ is, v < (t.get i).createdOn) (hr : t.BacksTo v j r) :
    ∀ i ∈ j :: is, t.BacksTo v i r := by
  induction is generalizing j with
  | nil => simpa using hr
  | cons b is ih =>
    obtain ⟨ho, hc⟩ := List.isChain_cons_cons.1 hc
    intro i hi
    rcases List.mem_cons.1 hi with rfl | hi
    · exact hr
    · exact ih hc (fun k hk => hv k (by simp [hk])) (.back (hv b (by simp)) ho hr) i hi

/-- The last link of those held that is no younger than `v`. -/
theorem exists_last_le
    (hs : (i :: rest).Pairwise fun i j => (t.get i).createdOn < (t.get j).createdOn)
    (hi : (t.get i).createdOn ≤ v) : ∃ before j after, i :: rest = before ++ j :: after ∧
      (t.get j).createdOn ≤ v ∧ ∀ k ∈ after, v < (t.get k).createdOn := by
  induction rest generalizing i with
  | nil => exact ⟨[], i, [], rfl, hi, by simp⟩
  | cons b rest ih =>
    obtain ⟨_, hs⟩ := List.pairwise_cons.1 hs
    by_cases hb : (t.get b).createdOn ≤ v
    · obtain ⟨before, j, after, he, hj, hafter⟩ := ih hs hb
      exact ⟨i :: before, j, after, by rw [he]; rfl, hj, hafter⟩
    · have hlt := lt_of_not_ge hb
      refine ⟨[], i, b :: rest, rfl, hi, fun k hk => ?_⟩
      rcases List.mem_cons.1 hk with rfl | hk
      · exact hlt
      · exact lt_trans hlt ((List.pairwise_cons.1 hs).1 k hk)

/-- The walk forward stops at a link whose successors are all too young. -/
theorem Spine.stops (h : Spine t gone rest) {before after : List Nat}
    (he : gone ++ rest = before ++ j :: after) (hv : ∀ k ∈ after, v < (t.get k).createdOn) :
    t.ForwardsTo v j j := by
  cases after with
  | nil => exact .last (h.last j (by simp [he]))
  | cons b after =>
    have hfwd := h.forward
    rw [he, List.isChain_append_cons_cons] at hfwd
    exact .young hfwd.2.1.newer (hv b (by simp))

/-- From any link of a chain both walks of `resolve` come to an end. If the oldest link that is held
is no younger than `v`, they end at the same link from wherever they start, the links given back
included: at the last that is no younger than `v`, which is held. If it is younger, no link that is
held leads anywhere. -/
theorem resolve_regardless_of_start (h : Chain t gone (i :: rest)) (v : Version) :
    (∀ k ∈ gone ++ i :: rest, t.Resolves v k (t.resolve v k)) ∧
    ((t.get i).createdOn ≤ v → ∃ before j after, i :: rest = before ++ j :: after ∧
      (t.get j).createdOn ≤ v ∧ (∀ k ∈ after, v < (t.get k).createdOn) ∧ j ∉ gone ∧
      ∀ k ∈ gone ++ i :: rest, t.resolve v k = some j) ∧
    (v < (t.get i).createdOn → ∀ k ∈ i :: rest, t.resolve v k = none) := by
  have hsp := h.spine
  have hres : ∀ k ∈ gone ++ i :: rest, t.Resolves v k (t.resolve v k) :=
    fun k hk => hsp.resolves v hk
  have hver := (List.pairwise_append.1 hsp.versions).2.1
  refine ⟨hres, fun hi => ?_, fun hi k hk => ?_⟩
  · obtain ⟨before, j, after, he, hj, hafter⟩ := exists_last_le hver hi
    have hall : gone ++ i :: rest = (gone ++ before) ++ j :: after := by simp [he]
    have hstop := hsp.stops hall hafter
    have hnot : j ∉ gone := fun hg =>
      Nat.lt_irrefl j ((List.pairwise_append.1 hsp.places).2.2 j hg j (by simp [he]))
    refine ⟨before, j, after, he, hj, hafter, hnot, fun k hk => ?_⟩
    refine (hres k hk).unique ?_
    have hfwd := hsp.forward
    rw [hall, List.isChain_split] at hfwd
    have hback := hsp.backward
    rw [he, List.isChain_split] at hback
    rcases List.mem_append.1 (hall ▸ hk) with hb | ha
    · -- forward from a link before `j`
      obtain ⟨hle, hgo⟩ := forwardsTo_of_isChain hfwd.1 hj hstop k (List.mem_append_left _ hb)
      exact .found (.here hle) hgo
    · -- back from a link behind it
      exact .found (backsTo_of_isChain hback.2 hafter (.here hj) k ha) hstop
  · have hyoung : ∀ m ∈ rest, v < (t.get m).createdOn := fun m hm =>
      lt_trans hi ((List.pairwise_cons.1 hver).1 m hm)
    have hb := backsTo_of_isChain hsp.backward hyoung (.cut hi (hsp.head i rfl)) k hk
    exact (hres k (List.mem_append_right _ hk)).unique (.lost hb)

/-- A link of version 1, superseded on versions 3 and 6 and given back after that. In between
another node was linked. -/
def twiceSuperseded : LinkTable Nat :=
  let t := ({} : LinkTable Nat).push { owner := ⟨2, 0⟩, createdOn := .initial, element := some 7 }
  let t := (t.forked 0 ⟨3, by decide⟩).push
    { owner := ⟨3, 0⟩, createdOn := ⟨4, by decide⟩, element := some 8 }
  (t.forked 1 ⟨6, by decide⟩).release 0

theorem chain_twiceSuperseded : twiceSuperseded.Chain [0] [1, 3] := by
  have hfirst := Chain.first ({} : LinkTable Nat)
    { owner := ⟨2, 0⟩, createdOn := .initial, element := some 7 } rfl rfl
  have honce := @Chain.fork _ _ _ _ [] 0 1 _ hfirst (fork_eq (v := ⟨3, by decide⟩) rfl (by decide))
  have hpush := honce.push { owner := ⟨3, 0⟩, createdOn := ⟨4, by decide⟩, element := some 8 }
  have htwice :=
    @Chain.fork _ _ _ _ [0] 1 3 _ hpush (fork_eq (v := ⟨6, by decide⟩) rfl (by decide))
  exact htwice.reclaim

/-- Version 5 is found from all three links, version 2 is gone. -/
theorem twiceSuperseded_resolves :
    twiceSuperseded.Chain [0] [1, 3] ∧
    (∃ j ∉ [0], ∀ k ∈ [0, 1, 3], twiceSuperseded.resolve ⟨5, by decide⟩ k = some j) ∧
    ∀ k ∈ [1, 3], twiceSuperseded.resolve ⟨2, by decide⟩ k = none := by
  have h := chain_twiceSuperseded
  obtain ⟨_, hfive, _⟩ := resolve_regardless_of_start h ⟨5, by decide⟩
  obtain ⟨_, _, htwo⟩ := resolve_regardless_of_start h ⟨2, by decide⟩
  obtain ⟨_, j, _, _, _, _, hj, hall⟩ := hfive (by decide)
  exact ⟨h, ⟨j, hj, hall⟩, htwo (by decide)⟩

end SnapshotDeque.LinkTable
