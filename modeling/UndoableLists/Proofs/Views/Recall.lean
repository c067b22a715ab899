import Mathlib.Algebra.Group.Nat.Defs
import UndoableLists.Proofs.Views.Onward
import UndoableLists.World.View

/-!
What a view's cache may hold. A view is built by a recipe from the contents of some lists, and kept
under a key of two parts: a generation, which moves when the recipe does, and what the recipe makes
of the lists' versions. Main statements: an entry stays true to its key however the lists move on,
and an entry whose key is the present one holds what the recipe makes of the present contents, as
long as no counter has come round.
-/
namespace UndoableLists

theorem World.word_injective {m n : Nat} (same : World.word m = World.word n) (first : m < 2 ^ 64)
    (second : n < 2 ^ 64) : m = n := by
  have numbers := congrArg UInt64.toNat same
  simp only [World.word, UInt64.toNat_ofNat'] at numbers
  omega

theorem World.word_add (m n : Nat) : World.word (m + n) = World.word m + World.word n :=
  UInt64.ofNat_add m n

/-- How a view is built, and how it is noticed that it has to be built anew: the key keeps some
counts in words, and while no count has come round, versions that have only grown are the same if
their keys are. -/
structure Recipe (V α : Type) where
  generation : Nat
  places : List ListId
  counts : (ListId → Nat) → List Nat
  key : (ListId → Nat) → V
  makes : (ListId → List α) → List α → Prop
  distinguishes : ∀ old new, (∀ c ∈ places, old c ≤ new c) → (∀ n ∈ counts new, n < 2 ^ 64) →
    key old = key new → ∀ c ∈ places, old c = new c
  confined : ∀ before after items, (∀ c ∈ places, before c = after c) →
    makes before items → makes after items

namespace World
variable {V α κ δ : Type}

def listAt (w : World α κ δ) (c : ListId) : UndoableList α :=
  (w.lists.get? c).getD { context := 0, lock := 0, history := { maxDepth := 0 } }

def counters (w : World α κ δ) (r : Recipe V α) : List Nat := r.generation :: r.counts w.version

/-- What an entry of a view's cache holds: something of an earlier generation, or what the recipe
made of the lists as they once were. -/
inductive Recalls (w : World α κ δ) (r : Recipe V α) : UInt64 × V → List α → Prop
  | outdated {g versions items} (early : g < r.generation) :
    Recalls w r (word g, versions) items
  | remembered {items} (old : ListId → UndoableList α)
    (made : r.makes (fun c => (old c).contents) items)
    (enrolled : ∀ c ∈ r.places, c < w.nextContext)
    (later : ∀ c ∈ r.places, ∀ l, w.lists.get? c = some l → (old c).Later l) :
    Recalls w r (word r.generation, r.key fun c => (old c).version) items

/-- What is kept of a view whose own lock is `lock`: the cache's lock is nobody else's, and its
entry is true to its key. -/
structure Kept (w : World α κ δ) (lock : LockId) (r : Recipe V α)
    (c : CachedView (UInt64 × V) (Built α)) : Prop where
  made : lock < w.locks.next
  own : ∀ own, c.lock = some own →
    own < w.locks.next ∧ own ≠ lock ∧ ∀ id l, w.lists.get? id = some l → l.lock ≠ own
  entry : c.disposed = false → ∀ key b, c.entry = some (key, b) → Recalls w r key b.items

section
variable {v w : World α κ δ} {r s : Recipe V α} {key : UInt64 × V} {items : List α}
  {lock : LockId} {c : CachedView (UInt64 × V) (Built α)}

theorem version_present {id : ListId} {l : UndoableList α} (here : w.lists.get? id = some l) :
    w.version id = l.version := by
  rw [version, here]
  rfl

theorem recalls_onward (recalls : Recalls w r key items) (onward : Onward w v) :
    Recalls v r key items := by
  cases recalls with
  | outdated early => exact .outdated early
  | remembered old made enrolled later =>
    refine .remembered old made (fun c place => ?_) fun c place m there => ?_
    · exact Nat.lt_of_lt_of_le (enrolled c place) onward.contexts
    · obtain ⟨l, here, moved⟩ | come := onward.lists c m there
      · exact UndoableList.later_trans (later c place l here) moved
      · exact absurd (enrolled c place) (Nat.not_lt.mpr come.late)

theorem recalls_outdated (recalls : Recalls w r key items)
    (moved : s.generation = r.generation + 1) : Recalls w s key items := by
  cases recalls with
  | outdated early => exact .outdated (by omega)
  | remembered old made enrolled later => exact .outdated (by omega)

theorem recalls_made (grounded : Grounded w)
    (present : ∀ c ∈ r.places, ∃ l, w.lists.get? c = some l) (made : r.makes w.contentsOf items) :
    Recalls w r (word r.generation, r.key w.version) items := by
  have versions : w.version = fun c => (w.listAt c).version := by
    funext c
    unfold version listAt
    cases w.lists.get? c <;> rfl
  have contents : w.contentsOf = fun c => (w.listAt c).contents := by
    funext c
    unfold contentsOf listAt
    cases w.lists.get? c <;> rfl
  rw [versions]
  refine .remembered w.listAt (contents ▸ made) (fun c place => ?_) fun c _ l here => ?_
  · obtain ⟨l, here⟩ := present c place
    exact (grounded.enrolled c l here).1
  · rw [listAt, here]
    exact UndoableList.later_refl l

theorem remembered_of_recalls {k : V} (recalls : Recalls w r (word r.generation, k) items)
    (few : r.generation < 2 ^ 64) :
    ∃ old : ListId → UndoableList α, r.key (fun c => (old c).version) = k ∧
      r.makes (fun c => (old c).contents) items ∧ (∀ c ∈ r.places, c < w.nextContext) ∧
      ∀ c ∈ r.places, ∀ l, w.lists.get? c = some l → (old c).Later l := by
  generalize composed : (word r.generation, k) = key at recalls
  cases recalls with
  | outdated early =>
    have same := word_injective (Prod.ext_iff.mp composed).1 few (by omega)
    omega
  | remembered old made enrolled later =>
    exact ⟨old, (Prod.ext_iff.mp composed).2.symm, made, enrolled, later⟩

/-- An entry under the present key holds what the recipe makes of the present contents. -/
theorem makes_of_recalls (recalls : Recalls w r (word r.generation, r.key w.version) items)
    (few : ∀ n ∈ w.counters r, n < 2 ^ 64)
    (present : ∀ c ∈ r.places, ∃ l, w.lists.get? c = some l) :
    r.makes w.contentsOf items := by
  obtain ⟨old, key, made, -, later⟩ :=
    remembered_of_recalls recalls (few r.generation List.mem_cons_self)
  have grown : ∀ c ∈ r.places, (old c).version ≤ w.version c := by
    intro c place
    obtain ⟨l, here⟩ := present c place
    rw [version_present here]
    exact (later c place l here).version
  have counted : ∀ n ∈ r.counts w.version, n < 2 ^ 64 :=
    fun n member => few n (List.mem_cons_of_mem _ member)
  have same := r.distinguishes _ _ grown counted key
  refine r.confined _ _ items (fun c place => ?_) made
  obtain ⟨l, here⟩ := present c place
  have still := same c place
  rw [version_present here] at still
  rw [contentsOf, here]
  exact ((later c place l here).contents still.symm).symm

theorem missed_of_recalls (recalls : Recalls w r key items) {new : ListId → Nat}
    (few : ∀ n ∈ r.generation :: r.counts new, n < 2 ^ 64)
    (present : ∀ c ∈ r.places, ∃ l, w.lists.get? c = some l)
    (grown : ∀ c ∈ r.places, w.version c ≤ new c) {c : ListId} (place : c ∈ r.places)
    (moved : w.version c < new c) : key ≠ (word r.generation, r.key new) := by
  rintro rfl
  obtain ⟨old, key, -, -, later⟩ :=
    remembered_of_recalls recalls (few r.generation List.mem_cons_self)
  have older : ∀ d ∈ r.places, (old d).version ≤ w.version d := by
    intro d place
    obtain ⟨l, here⟩ := present d place
    rw [version_present here]
    exact (later d place l here).version
  have counted : ∀ n ∈ r.counts new, n < 2 ^ 64 :=
    fun n member => few n (List.mem_cons_of_mem _ member)
  have still := r.distinguishes _ _ (fun d place => (older d place).trans (grown d place))
    counted key c place
  have before := older c place
  omega

theorem kept_onward (kept : Kept w lock r c) (onward : Onward w v) : Kept v lock r c where
  made := Nat.lt_of_lt_of_le kept.made onward.locks
  own own has := by
    obtain ⟨made, apart, others⟩ := kept.own own has
    refine ⟨Nat.lt_of_lt_of_le made onward.locks, apart, ?_⟩
    intro id m there
    obtain ⟨l, here, moved⟩ | come := onward.lists id m there
    · rw [moved.lock]
      exact others id l here
    · exact Nat.ne_of_gt (Nat.lt_of_lt_of_le made come.fresh)
  entry usable key b holds := recalls_onward (kept.entry usable key b holds) onward

theorem kept_fresh (settings : Patience) (r : Recipe V α) (made : lock < w.locks.next) :
    Kept w lock r ({ settings } : CachedView (UInt64 × V) (Built α)) where
  made := made
  own _ has := by cases has
  entry _ _ _ holds := by cases holds

theorem kept_dropped (kept : Kept w lock r c) : Kept w lock r { c with entry := none } where
  made := kept.made
  own := kept.own
  entry _ _ _ holds := by cases holds

theorem kept_entered (kept : Kept w lock r c) {b : Built α} (recalls : Recalls w r key b.items) :
    Kept w lock r { c with entry := some (key, b) } where
  made := kept.made
  own := kept.own
  entry _ _ _ holds := by
    cases holds
    exact recalls

theorem kept_renewed (kept : Kept w lock r c) (moved : s.generation = r.generation + 1) :
    Kept w lock s c where
  made := kept.made
  own := kept.own
  entry usable key b holds := recalls_outdated (kept.entry usable key b holds) moved

theorem kept_closed (kept : Kept w lock r c) (closed : c.disposed = true) (s : Recipe V α) :
    Kept w lock s c where
  made := kept.made
  own := kept.own
  entry usable := by
    rw [closed] at usable
    cases usable

end

end World

end UndoableLists
