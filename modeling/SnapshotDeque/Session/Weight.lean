import SnapshotDeque.Session.Execute

/-!
How often observers can still react. An observer gives commands only so many times, and an observer
that is registered by such a command is written out in it; so the number of reactions that can still
come is known in advance. Main statement: running commands without delivery adds to it no more than
the observers that these commands register.
-/

namespace SnapshotDeque.Session

mutual

/-- The reactions that a command may bring about. -/
def Command.weight : Command → Nat
  | .register o => o.weight
  | .compute cs _ _ => weightAll cs
  | .walk _ _ steps => weightSteps steps
  | _ => 0

def WalkStep.weight : WalkStep → Nat
  | .command c => c.weight
  | _ => 0

def Behaviour.weight : Behaviour → Nat
  | .react times cs after => times * (1 + weightAll cs) + after.weight
  | _ => 0

def Observer.weight : Observer → Nat
  | .scripted _ onLink onUnlink onDispose =>
    onLink.weight + onUnlink.weight + onDispose.weight
  | _ => 0

def weightAll : List Command → Nat
  | [] => 0
  | c :: cs => c.weight + weightAll cs

def weightSteps : List WalkStep → Nat
  | [] => 0
  | w :: ws => w.weight + weightSteps ws

end

/-- The reactions that the observers of a session may still come to. -/
def weight (s : Session) : Nat := s.observers.toList.foldr (fun o n => o.weight + n) 0

/-- Delivery under `m` makes no observer react. -/
def Mode.Quiet (m : Mode) : Prop := ∀ s, (m.deliver s).observers = s.observers

@[simp] theorem observers_post (s : Session) : s.post.observers = s.observers := by
  unfold post; split <;> rfl

theorem observers_change {ρ : Type} {m : Mode} (hm : m.Quiet) (s : Session)
    (c : Mutation Element ρ) : (s.change m c).2.observers = s.observers := by
  unfold change
  dsimp only
  split
  · rfl
  · simp [hm _]

theorem observers_changing {ρ : Type} {m : Mode} (hm : m.Quiet) (s : Session)
    (c : Mutation Element ρ) {f : ρ → Session → Answer × Session}
    (hf : ∀ a t, (f a t).2.observers = t.observers) :
    (s.changing m c f).2.observers = s.observers := by
  have hc := observers_change hm s c
  unfold changing
  split <;> rename_i h <;> rw [h] at hc
  · exact (hf _ _).trans hc
  · exact hc

theorem observers_onNode {s : Session} {node : NodeRef} {f : Handle → Answer × Session}
    (h : ∀ x, (f x).2.observers = s.observers) : (s.onNode node f).2.observers = s.observers := by
  unfold onNode
  split
  · exact h _
  · rfl

theorem observers_unregister {m : Mode} (hm : m.Quiet) (s : Session) (id : ObserverId) :
    (s.unregister m id).2.observers = s.observers :=
  observers_change hm _ _

theorem observers_live {m : Mode} (hm : m.Quiet) (s : Session) :
    (s.live m).2.observers = s.observers := by
  unfold live
  split
  · rfl
  · exact observers_changing hm s _ fun v t => observers_change hm t _

theorem observers_perform {m : Mode} (hm : m.Quiet) (s : Session) (c : Call) :
    (s.perform m c).2.observers = s.observers := by
  cases c with
  | offer e side =>
    have hc := observers_change hm s (.insert e side)
    simp only [perform]
    split <;> rename_i h <;> rw [h] at hc <;> exact hc
  | unlink node =>
    exact observers_onNode fun h => observers_changing hm s _ fun _ _ => rfl
  | isLinked node => exact observers_onNode fun _ => rfl
  | element node => exact observers_onNode fun _ => rfl
  | nodeInfo node => exact observers_onNode fun _ => rfl
  | live => exact observers_live hm s
  | unregister id => exact observers_unregister hm s ⟨id⟩
  | counts id => simp only [perform]; split <;> rfl
  | insert e side => exact observers_changing hm s _ fun _ _ => rfl
  | insertAll es side => exact observers_changing hm s _ fun _ _ => rfl
  | poll side => exact observers_changing hm s _ fun _ _ => rfl
  | remove side => exact observers_changing hm s _ fun _ _ => rfl
  | clear => exact observers_changing hm s _ fun _ _ => rfl
  | reclaim => exact observers_changing hm s _ fun _ _ => rfl
  | dispose => exact observers_changing hm s _ fun _ _ => rfl
  | openSnapshot => exact observers_changing hm s _ fun _ _ => rfl
  | openPolled limit => exact observers_changing hm s _ fun _ _ => rfl
  | _ => rfl

theorem observers_unlinkPicked {m : Mode} (hm : m.Quiet) (s : Session)
    (picked : Except Error (List Handle)) :
    (s.unlinkPicked m picked).2.observers = s.observers := by
  unfold unlinkPicked
  split
  · rfl
  · rfl
  · exact observers_changing hm s _ fun _ _ => rfl

theorem observers_consult {m : Mode} (hm : m.Quiet) (s : Session) (snapshot : Snapshot)
    (c : SnapshotCall) : (s.consult m snapshot c).2.observers = s.observers := by
  cases c with
  | unlink node =>
    refine observers_onNode fun h => ?_
    split
    · rfl
    · exact observers_changing hm s _ fun _ _ => rfl
  | remove a =>
    simp only [consult]
    split
    · rfl
    · rfl
    · exact observers_changing hm s _ fun _ _ => rfl
  | removeAll as => exact observers_unlinkPicked hm s _
  | removeIf p => exact observers_unlinkPicked hm s _
  | retainOnly p => exact observers_unlinkPicked hm s _
  | _ => rfl

theorem observers_onSnapshot {m : Mode} (hm : m.Quiet) (s : Session) (k : Nat)
    (c : SnapshotCall) : (s.onSnapshot m k c).2.observers = s.observers := by
  unfold onSnapshot
  split
  · rfl
  · exact observers_consult hm (s.addUse k) _ c

theorem observers_close {m : Mode} (hm : m.Quiet) (s : Session) (k : Nat) :
    (s.close m k).2.observers = s.observers := by
  unfold close
  split
  · rfl
  · split
    · rfl
    · exact observers_change hm _ _

theorem observers_drop {m : Mode} (hm : m.Quiet) (s : Session) (k : Nat) :
    (s.drop m k).2.observers = s.observers := by
  unfold drop
  split
  · rfl
  · dsimp only
    split
    · rfl
    · exact observers_change hm _ _

theorem weight_congr {s t : Session} (h : t.observers = s.observers) : t.weight = s.weight := by
  simp [weight, h]

theorem foldr_weight_start (os : List Observer) (n : Nat) :
    os.foldr (fun o n => o.weight + n) n = os.foldr (fun o n => o.weight + n) 0 + n := by
  induction os with
  | nil => simp
  | cons o os ih => simp only [List.foldr_cons, ih, Nat.add_assoc]

theorem weight_register {m : Mode} (hm : m.Quiet) (s : Session) (o : Observer) :
    (s.register m o).2.weight = s.weight + o.weight := by
  have h : (s.register m o).2.observers = s.observers.push o := by
    unfold register
    exact observers_change hm { s with observers := _, registered := _ } (.observe true)
  rw [weight, h, Array.toList_push, List.foldr_append, foldr_weight_start]
  rfl

mutual

theorem weight_execute {m : Mode} (hm : m.Quiet) (c : Command) (s : Session) :
    (execute m c s).2.weight ≤ s.weight + c.weight := by
  cases c with
  | call c => exact Nat.le_of_eq (weight_congr (observers_perform hm s c))
  | txn c =>
    simp only [execute]
    split
    · exact Nat.le_of_eq (weight_congr (observers_perform hm s c))
    · exact Nat.le_refl _
  | snapshot k c => exact Nat.le_of_eq (weight_congr (observers_onSnapshot hm s k c))
  | close k => exact Nat.le_of_eq (weight_congr (observers_close hm s k))
  | drop k => exact Nat.le_of_eq (weight_congr (observers_drop hm s k))
  | register o => exact Nat.le_of_eq (weight_register hm s o)
  | compute cs stop ending =>
    simp only [execute, Command.weight]
    split
    · exact weight_executeBatch hm stop cs s
    · split
      · exact Nat.le_add_right _ _
      · rename_i store _
        have hq : Mode.Quiet { m with batch := true } := hm
        have h := weight_executeBatch hq stop cs { s with store }
        have hw (b : Bool) (t : Session) :
            (if b then t.post else m.deliver t.post).weight = t.weight := by
          cases b
          · exact weight_congr ((hm _).trans (observers_post t))
          · exact weight_congr (observers_post t)
        simp only [hw]
        exact h
  | walk k form steps =>
    simp only [execute, Command.weight]
    split
    · exact Nat.le_add_right _ _
    · split
      · exact Nat.le_add_right _ _
      · rename_i c _
        exact weight_executeWalk hm form steps c _

theorem weight_executeBatch {m : Mode} (hm : m.Quiet) (stop : Bool) (cs : List Command)
    (s : Session) : (executeBatch m stop cs s).2.2.weight ≤ s.weight + weightAll cs := by
  cases cs with
  | nil => exact Nat.le_refl _
  | cons c cs =>
    have h := weight_execute hm c s
    have := weight_executeBatch hm stop cs (execute m c s).2
    simp only [executeBatch, weightAll]
    split
    · exact Nat.le_trans h (by omega)
    · exact Nat.le_trans this (by omega)

theorem weight_executeWalk {m : Mode} (hm : m.Quiet) (form : WalkForm) (steps : List WalkStep)
    (c : Cursor) (s : Session) :
    (executeWalk m form steps c s).2.weight ≤ s.weight + weightSteps steps := by
  cases steps with
  | nil => exact Nat.le_refl _
  | cons w steps =>
    cases w with
    | front =>
      have := weight_executeWalk hm form steps (c.nextFront s.store.links).2 s
      simp only [executeWalk, weightSteps, WalkStep.weight]
      omega
    | back =>
      have := weight_executeWalk hm form steps (c.nextBack s.store.links).2 s
      simp only [executeWalk, weightSteps, WalkStep.weight]
      omega
    | hint =>
      have := weight_executeWalk hm form steps c s
      simp only [executeWalk, weightSteps, WalkStep.weight]
      omega
    | command d =>
      have h := weight_execute hm d s
      simp only [executeWalk, weightSteps, WalkStep.weight]
      split <;> rename_i hx <;> rw [hx] at h
      · exact Nat.le_trans h (by omega)
      · rename_i t _
        have := weight_executeWalk hm form steps c t
        rw [← Nat.add_assoc]
        exact Nat.le_trans this (Nat.add_le_add_right h _)

end

theorem weight_executeAll {m : Mode} (hm : m.Quiet) (cs : List Command) (s : Session) :
    (executeAll m cs s).2.weight ≤ s.weight + weightAll cs := by
  induction cs generalizing s with
  | nil => exact Nat.le_refl _
  | cons c cs ih =>
    have h := weight_execute hm c s
    have := ih (execute m c s).2
    simp only [executeAll, weightAll]
    omega

end SnapshotDeque.Session
