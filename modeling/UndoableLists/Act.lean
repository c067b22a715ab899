/-!
Computations on a state that can fail: what was done to the state before the failure stays done.
A failure is either an error of the domain, or a panic that unwinds through everything around it,
or a wait that nothing ends. A place says where a part of a state sits, so that operations on the
part are written once and work on every state that has such a part.
-/
namespace UndoableLists

inductive Fault (ε : Type) where
  | refused (cause : ε)
  | panicked (label : Option String)
  | stalled
  deriving DecidableEq

def Fault.map {ε δ : Type} (f : ε → δ) : Fault ε → Fault δ
  | .refused cause => .refused (f cause)
  | .panicked label => .panicked label
  | .stalled => .stalled

/-- Whether the failure is an error of the domain; any other one breaks off what was under way. -/
def Fault.isRefusal {ε : Type} : Fault ε → Bool
  | .refused _ => true
  | _ => false

abbrev Outcome (ε α : Type) := Except (Fault ε) α

def Act (σ ε α : Type) := σ → Outcome ε α × σ

namespace Act
variable {σ ε δ α β : Type}

def pure (a : α) : Act σ ε α := fun s => (.ok a, s)

def bind (m : Act σ ε α) (f : α → Act σ ε β) : Act σ ε β := fun s =>
  match m s with
  | (.ok a, s) => f a s
  | (.error e, s) => (.error e, s)

instance : Monad (Act σ ε) where
  pure := pure
  bind := bind

def fail (fault : Fault ε) : Act σ ε α := fun s => (.error fault, s)

def refuse (cause : ε) : Act σ ε α := fail (.refused cause)

def read (f : σ → α) : Act σ ε α := fun s => (.ok (f s), s)

def modify (f : σ → σ) : Act σ ε Unit := fun s => (.ok (), f s)

def ofExcept (r : Except ε α) : Act σ ε α := fun s => (r.mapError Fault.refused, s)

def mapError (f : ε → δ) (m : Act σ ε α) : Act σ δ α := fun s =>
  let (r, s) := m s
  (r.mapError (Fault.map f), s)

def ensuring (body : Act σ ε α) (cleanup : σ → σ) : Act σ ε α := fun s =>
  let (r, s) := body s
  (r, cleanup s)

def attempt (m : Act σ ε α) : Act σ δ Unit := fun s => (.ok (), (m s).2)

def outcome (m : Act σ ε α) : Act σ δ (Outcome ε α) := fun s =>
  let (r, s) := m s
  (.ok r, s)

def succeeds (m : Act σ ε α) (s : σ) : Bool :=
  match m s with
  | (.ok _, _) => true
  | (.error _, _) => false

@[simp] theorem pure_apply (a : α) (s : σ) : (Pure.pure a : Act σ ε α) s = (.ok a, s) := rfl

theorem bind_apply (m : Act σ ε α) (f : α → Act σ ε β) (s : σ) :
    (m >>= f) s = match m s with
      | (.ok a, s) => f a s
      | (.error e, s) => (.error e, s) := rfl

theorem bind_of_ok {m : Act σ ε α} {s t : σ} {a : α} (h : m s = (.ok a, t))
    (f : α → Act σ ε β) : (m >>= f) s = f a t := by
  rw [bind_apply, h]

theorem bind_of_error {m : Act σ ε α} {s t : σ} {fault : Fault ε} (h : m s = (.error fault, t))
    (f : α → Act σ ε β) : (m >>= f) s = (.error fault, t) := by
  rw [bind_apply, h]

theorem keeps_bind {P : σ → Prop} {m : Act σ ε α} {f : α → Act σ ε β} {s : σ} (first : P (m s).2)
    (second : ∀ a t, m s = (.ok a, t) → P t → P (f a t).2) : P ((m >>= f) s).2 := by
  rcases outcome : m s with ⟨fault | a, t⟩
  all_goals rw [outcome] at first
  · rw [bind_of_error outcome]
    exact first
  · rw [bind_of_ok outcome]
    exact second a t outcome first

theorem succeeds_of_ok {m : Act σ ε α} {s t : σ} {a : α} (done : m s = (.ok a, t)) :
    m.succeeds s = true := by
  simp only [succeeds, done]

theorem succeeds_of_error {m : Act σ ε α} {s t : σ} {fault : Fault ε}
    (failed : m s = (.error fault, t)) : m.succeeds s = false := by
  simp only [succeeds, failed]

theorem ok_of_succeeds {m : Act σ ε α} {s : σ} (done : m.succeeds s = true) :
    ∃ a t, m s = (.ok a, t) := by
  unfold succeeds at done
  split at done
  · exact ⟨_, _, ‹_›⟩
  · cases done

instance : LawfulMonad (Act σ ε) :=
  LawfulMonad.mk' (Act σ ε)
    (fun m => by
      funext s
      simp only [Functor.map, Act.bind, Act.pure, Function.comp, id]
      rcases m s with ⟨_ | _, _⟩ <;> rfl)
    (fun _ _ => rfl)
    (fun m f g => by
      funext s
      simp only [Bind.bind, Act.bind]
      rcases m s with ⟨_ | a, t⟩
      · rfl
      · rcases f a t with ⟨_ | _, _⟩ <;> rfl)

end Act

structure Place (σ τ : Type) where
  get : σ → τ
  set : τ → σ → σ

namespace Place
variable {σ τ : Type}

def modify (p : Place σ τ) (f : τ → τ) (s : σ) : σ := p.set (f (p.get s)) s

end Place

/-- What is written is read back, writing twice is writing last, and writing what is there
changes nothing. -/
structure Place.Lawful {σ τ : Type} (p : Place σ τ) : Prop where
  get_set : ∀ t s, p.get (p.set t s) = t
  set_set : ∀ t u s, p.set t (p.set u s) = p.set t s
  set_get : ∀ s, p.set (p.get s) s = s

end UndoableLists
