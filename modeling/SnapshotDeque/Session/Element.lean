import SnapshotDeque.Snapshot
import SnapshotDeque.Text.JsonString

/-!
The elements that a session puts into its deque, and the tests by which it picks among them.
-/

namespace SnapshotDeque.Session

inductive Element
  | int (n : Int)
  | str (s : String)
deriving DecidableEq

def Element.json : Element → String
  | .int n => toString n
  | .str s => Text.jsonString s

inductive Predicate
  | all
  | none
  | equal (e : Element)
  | less (n : Int)
  | greater (n : Int)
  /-- The remainder lies between zero and the modulus. -/
  | congruent (modulus remainder : Int)
  | isString
  /-- True of every `n`-th element that is asked about. -/
  | every (n : Nat)

namespace Predicate

/-- The answer to the `i`-th question, counted from one. -/
def holds (i : Nat) : Predicate → Element → Bool
  | all, _ => true
  | none, _ => false
  | equal a, e => a = e
  | less n, .int m => m < n
  | greater n, .int m => m > n
  | congruent k r, .int m => m % k = r
  | isString, .str _ => true
  | every n, _ => i % n = 0
  | _, _ => false

def test (p : Predicate) : Test Element :=
  ⟨Nat, 1, fun i e => (p.holds i e, i + 1)⟩

end Predicate

end SnapshotDeque.Session
