import UndoableLists.Proofs.List.Sequence
import UndoableLists.Proofs.List.Tracking
import UndoableLists.Proofs.World.Mutating

/-!
Mutations of a list that does not capture its items. Main statement: they answer, change the
contents and are refused as the operations on bare sequences, whether the store has signalled or
not and however it puts in several items; only a lock that cannot be had keeps them from it.
-/
namespace UndoableLists.World
variable {α κ δ : Type} [Element α]

/-- The outcome of a mutation of `l` and the contents it leaves are those of the operation on the
bare sequence; if that is refused, the contents stay. -/
def Refines (w : World α κ δ) (l : UndoableList α) (op : Operation α)
    (r : Outcome ListRefusal (Reply α)) (v : World α κ δ) : Prop :=
  match op.onSequence (Element.current w.objects) l.contents with
  | .ok (next, reply) =>
    r = .ok reply ∧ (v.lists.get? l.context).map UndoableList.contents = some next
  | .error cause =>
    r = .error (.refused cause) ∧
      (v.lists.get? l.context).map UndoableList.contents = some l.contents

structure KeptOut (w : World α κ δ) (l : UndoableList α) (lacking : Prop)
    (r : Outcome ListRefusal (Reply α)) (v : World α κ δ) : Prop where
  lacking : lacking
  answer : ∃ fault, r = .error fault ∧ OfLock fault
  contents : (v.lists.get? l.context).map UndoableList.contents = some l.contents

variable {v w : World α κ δ} {l : UndoableList α} {op : Operation α} {b : Bulletin α}
  {r : Outcome ListRefusal (Reply α)} {lacking : Prop}

/-- What a plain list plans and cannot do is what a bare sequence refuses. -/
theorem onSequence_of_unfit (plain : l.access = none) {record : Record α Edit} {reply : Reply α}
    {fault : Fault ListRefusal} (planned : w.planFor l op = .ok (some record, reply))
    (failed : Site.append ⟨l, w.cells⟩ record = .error fault) :
    ∃ cause, fault = .refused cause ∧
      op.onSequence (Element.current w.objects) l.contents = .error cause := by
  cases checks : record.check none .forward l.store.length with
  | error other =>
    rw [Site.append_of_check_error (s := ⟨l, w.cells⟩) checks] at failed
    cases failed
    exact Operation.onSequence_of_check planned checks
  | ok after =>
    obtain ⟨ours, t, leads⟩ := Operation.plan_leads planned checks
    obtain ⟨d, done⟩ : ∃ d, Site.commit ⟨l, w.cells⟩ record .forward = .ok d :=
      Site.commit_of_plain plain ours leads
    rw [Site.append, done] at failed
    cases failed

theorem refines_ended (plain : l.access = none) (here : w.lists.get? l.context = some l)
    (ended : Ended [] lacking l op w b r v) :
    Refines w l op r v ∨ KeptOut w l lacking r v := by
  have same (aside : Aside [] w v) :
      (v.lists.get? l.context).map UndoableList.contents = some l.contents := by
    rw [aside.lists, here]
    rfl
  cases ended with
  | refused aside why =>
    cases why with
    | @unplanned cause planned =>
      left
      rw [Refines, Operation.onSequence_of_error planned]
      exact ⟨rfl, same aside⟩
    | unfit planned failed =>
      left
      obtain ⟨cause, rfl, refused⟩ := onSequence_of_unfit plain planned failed
      rw [Refines, refused]
      exact ⟨rfl, same aside⟩
    | barred barred ofLock => exact .inr ⟨barred, ⟨_, rfl, ofLock⟩, same aside⟩
  | idle planned aside =>
    left
    rw [Refines, Operation.onSequence_of_idle planned]
    exact ⟨rfl, same aside⟩
  | carried planned done aside =>
    left
    obtain ⟨next, turns, list, -⟩ := UndoableList.append_planned planned done
    rw [Refines, Operation.onSequence_of_leads planned turns.2]
    have there : v.lists.get? l.context = some _ := after_list list rfl aside
    exact ⟨rfl, congrArg (Option.map UndoableList.contents) there⟩

/-- A plain list's mutation is the operation on its contents. -/
theorem mutations_refine_sequences [Diary δ] (here : w.lists.get? l.context = some l)
    (plain : l.access = none) (op : Operation α) : ∃ b r v,
    (∀ call aloud, mutate call l.context aloud op w =
      (r, if aloud then announce call l.context b v else v)) ∧
    (Refines w l op r v ∨ KeptOut w l ((acquireInSteps l.lock).succeeds w = false) r v) ∧
    ∀ source target reply, op = .move source target → r = .ok reply →
      ∃ m, v.lists.get? l.context = some m ∧ m.contents[target]? = l.contents[source]? ∧
        m.contents.eraseIdx target = l.contents.eraseIdx source := by
  obtain ⟨b, r, v, mutated, -, outcome⟩ := mutate_ends here op
  have whole : Refines w l op r v ∨
      KeptOut w l ((acquireInSteps l.lock).succeeds w = false) r v := by
    cases mutated with
    | fresh fresh ended => exact refines_ended plain here ended
    | barred stale barred aside ofLock =>
      exact .inr ⟨inSteps_of_acquire_false barred, ⟨_, rfl, ofLock⟩, by rw [aside.lists, here]; rfl⟩
    | lost stale taken barred aside ofLock =>
      refine .inr ⟨barred, ⟨_, rfl, ofLock⟩, ?_⟩
      rw [aside.lists, Table.get?_insert_self]
      rfl
    | heard stale obtained ended =>
      have reset := refines_ended (w := w.afterReset l) (l := l.reset) plain
        (afterReset_list w l) ended
      exact reset.imp (fun refined => refined) fun kept => kept.lacking.elim
  refine ⟨b, r, v, outcome, whole, ?_⟩
  rintro source target reply rfl rfl
  obtain refined | ⟨-, ⟨fault, failed, -⟩, -⟩ := whole
  · unfold Refines at refined
    cases comes : (Operation.move source target).onSequence (Element.current w.objects)
        l.contents with
    | error cause =>
      rw [comes] at refined
      cases refined.1
    | ok result =>
      obtain ⟨next, answer⟩ := result
      rw [comes] at refined
      obtain ⟨m, there, rfl⟩ := Option.map_eq_some_iff.mp refined.2
      exact ⟨m, there, Operation.moved_onSequence comes⟩
  · cases failed

def signalledWorld : World Value Unit Unit :=
  let w := (createList { items := [.int 1, .int 2], bulk := .oneByOne } { client := () }).2
  { w with lists := w.lists.modify 1 fun l => { l with store := { l.store with stale := true } } }

theorem inserted_range_refines : ∃ l : UndoableList Value,
    signalledWorld.lists.get? l.context = some l ∧ l.access = none ∧ l.store.stale = true ∧
    ∃ b r v, (∀ call aloud,
      mutate call l.context aloud (.insertRange 1 [.int 7, .int 8]) signalledWorld =
        (r, if aloud then announce call l.context b v else v)) ∧
      (Refines signalledWorld l (.insertRange 1 [.int 7, .int 8]) r v ∨
        KeptOut signalledWorld l ((acquireInSteps l.lock).succeeds signalledWorld = false) r v) ∧
      r = .ok .done := by
  let l : UndoableList Value := {
    context := 1
    lock := 1
    store := { items := [.int 1, .int 2], stale := true, bulk := .oneByOne }
    history := { maxDepth := History.unlimited } }
  have here : signalledWorld.lists.get? l.context = some l := rfl
  obtain ⟨b, r, v, outcome, refined, -⟩ :=
    mutations_refine_sequences here rfl (.insertRange 1 [.int 7, .int 8])
  have answer : (mutate (fun _ _ _ => pure ()) l.context false
      (.insertRange 1 [.int 7, .int 8]) signalledWorld).1 = .ok .done := rfl
  rw [outcome] at answer
  exact ⟨l, here, rfl, rfl, b, r, v, outcome, refined, answer⟩

end UndoableLists.World
