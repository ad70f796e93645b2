import SnapshotDeque.Mutation

/-!
Running edits. An edit begun in some store returns an answer and leaves a store, or it fails and
leaves one; a sequence of edits returns if each of them does in turn.
-/

namespace SnapshotDeque.Edit

variable {α ρ σ : Type}

/-- `x`, begun in `s`, gives `a` and leaves `t`. -/
def Returns (x : Edit α ρ) (s : Store α) (a : ρ) (t : Store α) : Prop := x s = .ok a t

/-- `x`, begun in `s`, fails with `e` and leaves `t`. -/
def Fails (x : Edit α ρ) (s : Store α) (e : Error) (t : Store α) : Prop := x s = .error e t

theorem returns_pure (a : ρ) (s : Store α) : Returns (pure a) s a s := rfl

/-- After an edit that returns, a sequence goes on with what follows. -/
theorem Returns.bind_apply {x : Edit α ρ} {s t : Store α} {a : ρ} (hx : Returns x s a t)
    (f : ρ → Edit α σ) : (x >>= f) s = f a t := by
  unfold Returns at hx
  change EStateM.bind x f s = _
  simp only [EStateM.bind, hx]

theorem Returns.bind {x : Edit α ρ} {f : ρ → Edit α σ} {s t u : Store α} {a : ρ} {b : σ}
    (hx : Returns x s a t) (hf : Returns (f a) t b u) : Returns (x >>= f) s b u :=
  (hx.bind_apply f).trans hf

theorem Returns.seq {x : Edit α ρ} {y : Edit α σ} {s t u : Store α} {a : ρ} {b : σ}
    (hx : Returns x s a t) (hy : Returns y t b u) : Returns (x >>= fun _ => y) s b u :=
  hx.bind hy

theorem Fails.bind {x : Edit α ρ} {f : ρ → Edit α σ} {s t : Store α} {e : Error}
    (hx : Fails x s e t) : Fails (x >>= f) s e t := by
  unfold Fails at hx ⊢
  change EStateM.bind x f s = _
  simp only [EStateM.bind, hx]

theorem Returns.bind_fails {x : Edit α ρ} {f : ρ → Edit α σ} {s t u : Store α} {a : ρ} {e : Error}
    (hx : Returns x s a t) (hf : Fails (f a) t e u) : Fails (x >>= f) s e u :=
  (hx.bind_apply f).trans hf

/-- What follows edits that come to the same comes to the same. -/
theorem bind_congr_apply {x y : Edit α ρ} {s t : Store α} (h : x s = y t) (f : ρ → Edit α σ) :
    (x >>= f) s = (y >>= f) t := by
  change EStateM.bind x f s = EStateM.bind y f t
  unfold EStateM.bind
  rw [h]

/-- After an edit that returns, two sequences go on alike. -/
theorem Returns.bind_congr {x : Edit α ρ} {s t : Store α} {a : ρ} (hx : Returns x s a t)
    {f g : ρ → Edit α σ} (h : f a t = g a t) : (x >>= f) s = (x >>= g) s :=
  (hx.bind_apply f).trans (h.trans (hx.bind_apply g).symm)

/-- If a sequence returns, so did what it began with. -/
theorem Returns.exists_of_bind {x : Edit α ρ} {f : ρ → Edit α σ} {s u : Store α} {b : σ}
    (h : Returns (x >>= f) s b u) : ∃ a t, Returns x s a t ∧ Returns (f a) t b u := by
  cases hx : x s with
  | ok a t => exact ⟨a, t, hx, (Returns.bind_apply hx f).symm.trans h⟩
  | error e t => cases (Fails.bind (f := f) hx).symm.trans h

theorem returns_get (s : Store α) : Returns get s s s := rfl

theorem returns_modify (f : Store α → Store α) (s : Store α) :
    Returns (modify f) s () (f s) := rfl

theorem returns_modifyGet (f : Store α → ρ × Store α) (s : Store α) :
    Returns (modifyGet f) s (f s).1 (f s).2 := rfl

theorem returns_ask {f : Store α → Except Error ρ} {s : Store α} {a : ρ} (h : f s = .ok a) :
    Returns (Edit.ask f) s a s := by
  unfold Returns Edit.ask; rw [h]

theorem fails_ask {f : Store α → Except Error ρ} {s : Store α} {e : Error} (h : f s = .error e) :
    Fails (Edit.ask f) s e s := by
  unfold Fails Edit.ask; rw [h]

theorem fails_throw (e : Error) (s : Store α) : Fails (throw e : Edit α ρ) s e s := rfl

theorem returns_editLinks (f : LinkTable α → LinkTable α) (s : Store α) :
    Returns (Edit.editLinks f) s () { s with links := f s.links } := rfl

theorem returns_newLink (l : Link α) (s : Store α) :
    Returns (Edit.newLink l) s s.links.size { s with links := s.links.push l } := rfl

theorem returns_mint (s : Store α) :
    Returns Edit.mint s s.timeline.advance.1 { s with timeline := s.timeline.advance.2 } := rfl

theorem returns_retire (i : Nat) (s : Store α) :
    Returns (Edit.retire i) s () { s with obsolete := s.obsolete ++ [i] } := rfl

end SnapshotDeque.Edit
