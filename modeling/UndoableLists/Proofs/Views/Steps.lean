import UndoableLists.Proofs.Views.Fetching

/-!
Steps that change one view. Lists may move on in such a step, and one filtered view or one merged
list is made, changed or removed. Main statement: what was right with every view of a kind is right
with every one again, if it lasts while lists move on and the step leaves it right where it works.
-/
namespace UndoableLists.World
variable {V U α κ δ : Type}

structure ViewStep (these : World α κ δ → Table ViewId V) (those : World α κ δ → Table ViewId U)
    (Right : V → World α κ δ → Prop) (id : ViewId) (w u : World α κ δ) : Prop where
  onward : Onward w u
  apart : those u = those w
  others : ∀ other, other ≠ id → (these u).get? other = (these w).get? other
  right : (∀ v, (these w).get? id = some v → Right v w) →
    ∀ v, (these u).get? id = some v → Right v u

variable {these : World α κ δ → Table ViewId V} {those : World α κ δ → Table ViewId U}
  {Right : V → World α κ δ → Prop} {id : ViewId} {u w x : World α κ δ}

theorem viewStep_same (onward : Onward w u) (same : these u = these w) (apart : those u = those w)
    (lasts : ∀ v, Right v w → Right v u) : ViewStep these those Right id w u where
  onward := onward
  apart := apart
  others _ _ := by rw [same]
  right before v there := lasts v (before v (same ▸ there))

theorem viewStep_trans (first : ViewStep these those Right id w u)
    (second : ViewStep these those Right id u x) : ViewStep these those Right id w x where
  onward := onward_trans first.onward second.onward
  apart := second.apart.trans first.apart
  others other differs := (second.others other differs).trans (first.others other differs)
  right before := second.right (first.right before)

theorem viewStep_modify (onward : Onward w u) (f : V → V)
    (changed : these u = (these w).modify id f) (apart : those u = those w)
    (right : ∀ v, (these w).get? id = some v → Right v w → Right (f v) u) :
    ViewStep these those Right id w u where
  onward := onward
  apart := apart
  others other differs := by rw [changed, Table.get?_modify, if_neg differs]
  right before g there := by
    rw [changed, Table.get?_modify, if_pos rfl] at there
    obtain ⟨v, here, rfl⟩ := Option.map_eq_some_iff.mp there
    exact right v here (before v here)

theorem viewStep_inserted {v : V} (onward : Onward w u) (changed : these u = (these w).insert id v)
    (apart : those u = those w) (right : Right v u) : ViewStep these those Right id w u where
  onward := onward
  apart := apart
  others other differs := by rw [changed, Table.get?_insert_of_ne _ differs]
  right _ g there := by
    rw [changed, Table.get?_insert_self] at there
    exact Option.some.inj there ▸ right

theorem viewStep_erased (onward : Onward w u) (changed : these u = (these w).erase id)
    (apart : those u = those w) : ViewStep these those Right id w u where
  onward := onward
  apart := apart
  others other differs := by rw [changed, Table.get?_erase, if_neg differs]
  right _ g there := by
    rw [changed, Table.get?_erase, if_pos rfl] at there
    cases there

theorem all_right (step : ViewStep these those Right id w u) (lasts : ∀ v, Right v w → Right v u)
    (before : ∀ id v, (these w).get? id = some v → Right v w) (other : ViewId) (v : V)
    (there : (these u).get? other = some v) : Right v u := by
  by_cases same : other = id
  · subst same
    exact step.right (before other) v there
  · rw [step.others other same] at there
    exact lasts v (before other v there)

end UndoableLists.World
