/-!
Points of a deque's modification timeline. Every link is stamped with the version that created it,
and a snapshot observes exactly one. Versions are 64-bit numbers, and the last one has itself as
its successor.
-/

namespace SnapshotDeque

/-- The largest number that fits in 64 bits. -/
def wordLimit : Nat := 18446744073709551615

structure Version where
  val : Nat
  val_le : val ≤ wordLimit := by decide
deriving DecidableEq

namespace Version

def ofNat? (n : Nat) : Option Version :=
  if h : n ≤ wordLimit then some ⟨n, h⟩ else none

/-- Before any modification; never stamped on a link. -/
def zero : Version := ⟨0, by decide⟩

/-- The modification version of a fresh deque. -/
def initial : Version := ⟨1, by decide⟩

/-- Stands for "no version is pinned" as a lower bound. -/
def max : Version := ⟨wordLimit, Nat.le_refl _⟩

instance : LE Version := ⟨fun v w => v.val ≤ w.val⟩
instance : LT Version := ⟨fun v w => v.val < w.val⟩
instance (v w : Version) : Decidable (v ≤ w) := inferInstanceAs (Decidable (v.val ≤ w.val))
instance (v w : Version) : Decidable (v < w) := inferInstanceAs (Decidable (v.val < w.val))
instance : Ord Version := ⟨fun v w => compare v.val w.val⟩
instance : Inhabited Version := ⟨zero⟩

theorem le_iff {v w : Version} : v ≤ w ↔ v.val ≤ w.val := Iff.rfl
theorem lt_iff {v w : Version} : v < w ↔ v.val < w.val := Iff.rfl

theorem ext {v w : Version} (h : v.val = w.val) : v = w := by
  cases v; cases w; cases h; rfl

/-- The following version; `max` is its own successor. -/
def next (v : Version) : Version :=
  ⟨min (v.val + 1) wordLimit, Nat.min_le_right _ _⟩

theorem lt_next {v : Version} (h : v < max) : v < v.next := by
  have hv : v.val < wordLimit := h
  simp only [lt_iff, next]
  omega

/-- As in `v7`. -/
def text (v : Version) : String := "v" ++ toString v.val

def debug (v : Version) : String :=
  if v = max then "Version(MAX)" else "Version(" ++ toString v.val ++ ")"

end Version

end SnapshotDeque
