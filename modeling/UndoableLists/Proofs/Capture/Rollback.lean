import UndoableLists.Proofs.Capture.Cells
import UndoableLists.Proofs.Capture.Faults
import UndoableLists.Session.Capture

/-!
Batches taken and freed in one transaction. A batch that is refused touches nothing and names the
first cell in its way. Every step of a batch that went through puts one part of one cell back, and
the steps overlap where batches do; taken from the newest to the oldest they put back everything.
Main statement: whatever batches a transaction saw, ending it without success gives every cell the
owner and the handlers that it had before the first of them, and ending it after success leaves
every cell as the batches left it.
-/
namespace UndoableLists

/-- The same owner, and for each context the same handler; in which order they were registered is
not compared. -/
def Cell.Alike {η : Type} (c d : Cell η) : Prop :=
  c.owner = d.owner ∧ ∀ key, c.handlers.get? key = d.handlers.get? key

def Cell.reverted {η : Type} (c : Cell η) (u : CellUndo η) : Cell η :=
  let kept := if u.unsubscribe then c.handlers.erase u.parent else c.handlers
  ⟨u.owner, match u.handler with
    | none => kept
    | some h => kept.insert u.parent h⟩

namespace Cells
variable {η : Type} {cs ds : Cells η} {parent : Context} {handler : Option η}

def Alike (cs ds : Cells η) : Prop := ∀ x, (cs.cell x).Alike (ds.cell x)

theorem alike_refl (cs : Cells η) : Alike cs cs := fun _ => ⟨rfl, fun _ => rfl⟩

theorem alike_trans {es : Cells η} (first : Alike cs ds) (second : Alike ds es) : Alike cs es :=
  fun x => ⟨(first x).1.trans (second x).1, fun key => ((first x).2 key).trans ((second x).2 key)⟩

theorem cell_revert (u : CellUndo η) (cs : Cells η) (x : CellId) :
    (revert u cs).cell x = if x = u.cell then (cs.cell x).reverted u else cs.cell x := by
  obtain ⟨id, parent, owner, unsubscribes, handler⟩ := u
  cases unsubscribes <;> cases handler <;> by_cases same : x = id <;>
    simp [revert, Cell.reverted, subscribe, unsubscribe, setOwner, cell_set, same]

theorem reverted_alike {c d : Cell η} (same : c.Alike d) (u : CellUndo η) :
    (c.reverted u).Alike (d.reverted u) := by
  refine ⟨rfl, fun key => ?_⟩
  have kept (key : Context) : (if u.unsubscribe then c.handlers.erase u.parent
      else c.handlers).get? key = (if u.unsubscribe then d.handlers.erase u.parent
      else d.handlers).get? key := by
    split
    · rw [Table.get?_erase, Table.get?_erase, same.2]
    · exact same.2 key
  unfold Cell.reverted
  cases u.handler with
  | none => exact kept key
  | some h => simp only [Table.get?_insert, kept]

theorem revert_alike (same : Alike cs ds) (u : CellUndo η) : Alike (revert u cs) (revert u ds) := by
  intro x
  rw [cell_revert, cell_revert]
  split
  · exact reverted_alike (same x) u
  · exact same x

theorem revertAll_alike (same : Alike cs ds) (undos : List (CellUndo η)) :
    Alike (revertAll undos cs) (revertAll undos ds) := by
  induction undos with
  | nil => exact same
  | cons u rest ih => exact revert_alike ih u

theorem revert_captureOne (cs : Cells η) (parent : Context) (handler : Option η) (id : CellId) :
    Alike (revert (captureOne cs parent handler id).1 (captureOne cs parent handler id).2) cs := by
  intro x
  have place : (captureOne cs parent handler id).1.cell = id := by cases handler <;> rfl
  rw [cell_revert, cell_captureOne, place]
  by_cases same : x = id
  · subst same
    simp only [↓reduceIte]
    cases handler with
    | none => exact ⟨rfl, fun key => rfl⟩
    | some h =>
      refine ⟨rfl, fun key => ?_⟩
      simp only [captureOne, Cell.reverted, Cell.takenBy, ↓reduceIte, handler?]
      cases held : (cs.cell x).handlers.get? parent <;> by_cases mine : key = parent <;>
        simp [Table.get?_insert, Table.get?_erase, mine, held]
  · simp only [if_neg same]
    exact ⟨rfl, fun key => rfl⟩

theorem revert_release {id : CellId} (owned : cs.owner id = some parent) :
    Alike (revert ⟨id, parent, some parent, false, cs.handler? id parent⟩
      ((cs.setOwner id none).unsubscribe id parent)) cs := by
  intro x
  rw [cell_revert, cell_freed]
  by_cases same : x = id
  · subst same
    simp only [↓reduceIte]
    refine ⟨owned.symm, fun key => ?_⟩
    simp only [Cell.reverted, Cell.freedBy, handler?]
    cases held : (cs.cell x).handlers.get? parent <;> by_cases mine : key = parent <;>
      simp [Table.get?_insert, Table.get?_erase, mine, held]
  · simp only [if_neg same]
    exact ⟨rfl, fun key => rfl⟩

theorem revertAll_captureEach (parent : Context) (handler : Option η) (ids : List CellId)
    (cs : Cells η) :
    Alike (revertAll (captureEach parent handler ids cs).1 (captureEach parent handler ids cs).2)
      cs := by
  induction ids generalizing cs with
  | nil => exact alike_refl cs
  | cons id rest ih =>
    exact alike_trans (revert_alike (ih (captureOne cs parent handler id).2) _)
      (revert_captureOne cs parent handler id)

theorem revertAll_releaseEach (parent : Context) (ids : List CellId) (cs : Cells η) :
    Alike (revertAll (releaseEach parent ids cs).1 (releaseEach parent ids cs).2) cs := by
  induction ids generalizing cs with
  | nil => exact alike_refl cs
  | cons id rest ih =>
    rw [releaseEach]
    split
    · rename_i owned
      exact alike_trans (revert_alike (ih ((cs.setOwner id none).unsubscribe id parent)) _)
        (revert_release owned)
    · exact ih cs

theorem revertAll_append (older newer : List (CellUndo η)) (cs : Cells η) :
    revertAll (older ++ newer) cs = revertAll older (revertAll newer cs) :=
  List.foldr_append

/-- What a capture that went through has made of the cells. Without a handler whatever was
registered under the context stays. -/
structure Taken (parent : Context) (handler : Option η) (ids : List CellId)
    (before after : Cells η) : Prop where
  fit : ∀ x ∈ ids, before.owner x = none ∨ before.owner x = some parent
  owner : ∀ x ∈ ids, after.owner x = some parent
  handler : ∀ x ∈ ids, after.handler? x parent = handler.or (before.handler? x parent)
  others : ∀ x ∈ ids, ∀ key ≠ parent, after.handler? x key = before.handler? x key
  rest : ∀ x ∉ ids, after.cell x = before.cell x

structure Freed (parent : Context) (ids : List CellId) (before after : Cells η) : Prop where
  fit : ∀ x ∈ ids, before.owner x = some parent
  owner : ∀ x ∈ ids, after.owner x = none
  handler : ∀ x ∈ ids, after.handler? x parent = none
  others : ∀ x ∈ ids, ∀ key ≠ parent, after.handler? x key = before.handler? x key
  rest : ∀ x ∉ ids, after.cell x = before.cell x

theorem takeBatch_ends (cs : Cells η) (parent : Context) (handler : Option η) (ids : List CellId) :
    (∃ fault, cs.FirstForeign parent ids fault ∧
      cs.takeBatch parent handler ids = .error fault) ∨
    ∃ undos taken, Taken parent handler ids cs taken ∧ Alike (revertAll undos taken) cs ∧
      cs.takeBatch parent handler ids = .ok (undos, taken) := by
  cases found : cs.captureFault? parent 0 ids with
  | some fault =>
    exact .inl ⟨fault, captureFault?_eq_some.mp found, by rw [takeBatch, found]⟩
  | none =>
    refine .inr ⟨_, _, ⟨captureFault?_eq_none.mp found, ?_, ?_, ?_, ?_⟩,
      revertAll_captureEach parent handler ids cs, by rw [takeBatch, found]⟩
    · intro x here
      rw [owner, cell_captureEach, if_pos here]
      rfl
    · intro x here
      rw [handler?, cell_captureEach, if_pos here]
      cases handler <;> simp [Cell.takenBy, handler?]
    · intro x here key other
      rw [handler?, cell_captureEach, if_pos here]
      cases handler <;> simp [Cell.takenBy, handler?, Table.get?_insert, Table.get?_erase, other]
    · intro x absent
      rw [cell_captureEach, if_neg absent]

theorem freeBatch_ends (cs : Cells η) (parent : Context) (ids : List CellId) :
    (∃ fault, cs.FirstMissing parent ids fault ∧ cs.freeBatch parent ids = .error fault) ∨
    ∃ undos freed, Freed parent ids cs freed ∧ Alike (revertAll undos freed) cs ∧
      cs.freeBatch parent ids = .ok (undos, freed) := by
  cases found : cs.releaseFault? parent 0 ids with
  | some fault =>
    exact .inl ⟨fault, releaseFault?_eq_some.mp found, by rw [freeBatch, found]⟩
  | none =>
    have owned := releaseFault?_eq_none.mp found
    have freed {x : CellId} (here : x ∈ ids) : (releaseEach parent ids cs).2.cell x =
        (cs.cell x).freedBy parent := by
      rw [cell_releaseEach, if_pos ⟨here, owned x here⟩]
    refine .inr ⟨_, _, ⟨owned, ?_, ?_, ?_, ?_⟩, revertAll_releaseEach parent ids cs,
      by rw [freeBatch, found]⟩
    · intro x here
      rw [owner, freed here]
      rfl
    · intro x here
      rw [handler?, freed here, Cell.freedBy, Table.get?_erase, if_pos rfl]
    · intro x here key other
      rw [handler?, freed here, Cell.freedBy, Table.get?_erase, if_neg other, handler?]
    · intro x absent
      rw [cell_releaseEach, if_neg fun both => absurd both.1 absent]

end Cells

namespace Session

inductive BatchCall where
  | take (cells : List String) (context : String) (handler : Option String)
  | free (cells : List String) (context : String)

def BatchCall.step (tx : String) : BatchCall → CaptureStep
  | .take cells context handler => .takeBatch tx cells context handler
  | .free cells context => .freeBatch tx cells context

namespace CaptureSession

def call (tx : String) (p : CaptureSession) (c : BatchCall) : CaptureSession :=
  (perform (c.step tx) p).2

def Refuses (p : CaptureSession) : BatchCall → CaptureRefusal → Prop
  | .take cells context _, fault =>
    p.cells.FirstForeign (p.contextOf context) (p.cellsOf cells) fault
  | .free cells context, fault =>
    p.cells.FirstMissing (p.contextOf context) (p.cellsOf cells) fault

def Grants (p q : CaptureSession) : BatchCall → Prop
  | .take cells context handler =>
    Cells.Taken (p.contextOf context) (handler.bind p.handlers.get?) (p.cellsOf cells)
      p.cells q.cells
  | .free cells context => Cells.Freed (p.contextOf context) (p.cellsOf cells) p.cells q.cells

theorem noteAll_eq (notices : List Notice) (p : CaptureSession) :
    Journal.noteAll notices p = { p with entries := p.entries ++ notices.map .notice } := by
  induction notices generalizing p with
  | nil => simp [Journal.noteAll]
  | cons n rest ih =>
    rw [show Journal.noteAll (n :: rest) p = Journal.noteAll rest (log (.notice n) p) from rfl, ih]
    simp [log]

theorem txOf_setTx (tx : String) (t : Transaction TxStep) (p : CaptureSession) :
    (setTx tx t p).txOf tx = t := by
  simp [txOf, setTx]

/-- A call is refused and leaves everything as it was, or it leaves its batch as it says and adds to
the transaction what puts the cells back. -/
theorem call_ends (tx : String) (c : BatchCall) (p : CaptureSession) :
    (∃ fault, p.Refuses c fault ∧ perform (c.step tx) p = (.error (.refused fault), p)) ∨
    ∃ q undos, p.Grants q c ∧ perform (c.step tx) p = (.ok .done, q) ∧
      q.txOf tx = (p.txOf tx).addReverts (undos.map .cell) ∧
      Cells.Alike (Cells.revertAll undos q.cells) p.cells := by
  cases c with
  | take cells context handler =>
    rcases Cells.takeBatch_ends p.cells (p.contextOf context) (handler.bind p.handlers.get?)
      (p.cellsOf cells) with ⟨fault, refused, ended⟩ | ⟨undos, taken, granted, back, ended⟩
    · refine .inl ⟨fault, refused, ?_⟩
      simp only [BatchCall.step, perform, captureIn, Act.bind_apply, Act.read, Act.ofExcept, id,
        ended, Except.mapError]
    · refine .inr ⟨_, undos, ?_, by
        simp only [BatchCall.step, perform, captureIn, Act.bind_apply, Act.read, Act.ofExcept, id,
          ended, Except.mapError, Act.modify, noteAll_eq]
        rfl, txOf_setTx .., ?_⟩
      · exact granted
      · exact back
  | free cells context =>
    rcases Cells.freeBatch_ends p.cells (p.contextOf context) (p.cellsOf cells) with
      ⟨fault, refused, ended⟩ | ⟨undos, freed, granted, back, ended⟩
    · refine .inl ⟨fault, refused, ?_⟩
      simp only [BatchCall.step, perform, releaseIn, Act.bind_apply, Act.read, Act.ofExcept, id,
        ended, Except.mapError]
    · refine .inr ⟨_, undos, ?_, by
        simp only [BatchCall.step, perform, releaseIn, Act.bind_apply, Act.read, Act.ofExcept, id,
          ended, Except.mapError, Act.modify]
        rfl, txOf_setTx .., ?_⟩
      · exact granted
      · exact back

/-- The transaction holds steps that make of the cells as they are now what they were before. -/
def Recoups (tx : String) (p q : CaptureSession) : Prop :=
  ∃ undos, q.txOf tx = { reverts := undos.map .cell } ∧
    Cells.Alike (Cells.revertAll undos q.cells) p.cells

theorem recoups_call {tx : String} {p q : CaptureSession} (before : Recoups tx p q)
    (c : BatchCall) : Recoups tx p (q.call tx c) := by
  obtain ⟨undos, holds, back⟩ := before
  rcases call_ends tx c q with ⟨fault, -, ended⟩ | ⟨r, more, -, ended, added, again⟩
  · rw [call, ended]
    exact ⟨undos, holds, back⟩
  · rw [call, ended]
    refine ⟨undos ++ more, ?_, ?_⟩
    · rw [added, holds, List.map_append]
      rfl
    · rw [Cells.revertAll_append]
      exact Cells.alike_trans (Cells.revertAll_alike again undos) back

theorem recoups_calls {tx : String} {p : CaptureSession} (fresh : p.txOf tx = {})
    (calls : List BatchCall) :
    Recoups tx p (calls.foldl (call tx) p) := by
  have run (q : CaptureSession) (before : Recoups tx p q) :
      Recoups tx p (calls.foldl (call tx) q) := by
    induction calls generalizing q with
    | nil => exact before
    | cons c rest ih => exact ih (q.call tx c) (recoups_call before c)
  exact run p ⟨[], fresh, Cells.alike_refl p.cells⟩

theorem runEach_cells (undos : List (CellUndo NamedHandler)) (p : CaptureSession) :
    Transaction.runEach runStep (undos.map TxStep.cell) p =
      (none, setCells (undos.foldl (fun cs u => cs.revert u) p.cells) p) := by
  induction undos generalizing p with
  | nil => rfl
  | cons u rest ih =>
    have step : runStep (.cell u) p = (.ok (), setCells (p.cells.revert u) p) := rfl
    rw [List.map_cons, Transaction.runEach, step]
    dsimp only
    rw [ih]
    rfl

theorem finish_reverts (unwinding : Bool) (undos : List (CellUndo NamedHandler))
    (p : CaptureSession) :
    ∃ q, Transaction.finish runStep unwinding { reverts := undos.map TxStep.cell } p =
        (.ok (), q) ∧ q.cells = Cells.revertAll undos p.cells := by
  have backward (p : CaptureSession) :
      Transaction.runEach runStep (undos.map TxStep.cell).reverse p =
      (none, setCells (Cells.revertAll undos p.cells) p) := by
    rw [← List.map_reverse, runEach_cells, List.foldl_reverse]
    rfl
  simp only [Transaction.finish, Transaction.ending, Bool.false_eq_true, ↓reduceIte, backward]
  refine ⟨_, rfl, ?_⟩
  split <;> rfl

theorem rolled_back {tx : String} {q : CaptureSession} {undos : List (CellUndo NamedHandler)}
    (holds : q.txOf tx = { reverts := undos.map .cell }) {drop : CaptureStep}
    (ends : drop ∈ [.rollback tx, .unwind tx]) :
    (perform drop q).2.cells = Cells.revertAll undos q.cells := by
  simp only [List.mem_cons, List.not_mem_nil, or_false] at ends
  rcases ends with rfl | rfl
  · obtain ⟨r, ended, cells⟩ := finish_reverts false undos
      { q with transactions := q.transactions.erase tx }
    simp only [perform, conclude, Act.bind_apply, Act.read, Act.modify, id, holds, finish, ended]
    exact cells
  · obtain ⟨r, ended, cells⟩ := finish_reverts true undos
      { q with transactions := q.transactions.erase tx }
    simp only [perform, Act.bind_apply, Act.read, Act.modify, holds, ended]
    exact cells

theorem finish_succeeded {unwinding : Bool} {t : Transaction TxStep} (done : t.succeeded = true)
    (bare : t.hooks = []) (p : CaptureSession) :
    Transaction.finish runStep unwinding t p = (.ok (), p) := by
  simp [Transaction.finish, Transaction.rollsBack, Transaction.ending, done, bare,
    Transaction.runEach]

theorem concluded {tx : String} {q : CaptureSession} {f : Transaction TxStep → Transaction TxStep}
    (done : (f (q.txOf tx)).succeeded = true) (bare : (f (q.txOf tx)).hooks = []) :
    (conclude tx f q).2.cells = q.cells := by
  simp only [conclude, Act.bind_apply, Act.read, Act.modify, finish, finish_succeeded done bare]
  rfl

theorem kept {tx : String} {q : CaptureSession} (done : (q.txOf tx).succeeded = true)
    (bare : (q.txOf tx).hooks = []) {drop : CaptureStep}
    (ends : drop ∈ [.commit tx, .rollback tx, .unwind tx]) :
    (perform drop q).2.cells = q.cells := by
  simp only [List.mem_cons, List.not_mem_nil, or_false] at ends
  rcases ends with rfl | rfl | rfl
  · exact concluded (f := (·.success)) rfl bare
  · exact concluded (f := id) done bare
  · simp only [perform, Act.bind_apply, Act.read, Act.modify, finish_succeeded done bare]
    rfl

/-- Batches taken and freed in one transaction. Each call is refused, for the first cell in its way,
and then neither the cells nor the transaction are touched; or it leaves its batch as it says. A
transaction that ends without success gives every cell the owner and the handlers that it had before
the first call; one that ends after success leaves them as the calls left them. -/
theorem batches_go_through_or_are_undone {p : CaptureSession} {tx : String} (fresh : p.txOf tx = {})
    (calls : List BatchCall) :
    let q := calls.foldl (call tx) p
    (∀ c : BatchCall,
      (∃ fault, q.Refuses c fault ∧ perform (c.step tx) q = (.error (.refused fault), q)) ∨
      ∃ r, q.Grants r c ∧ perform (c.step tx) q = (.ok .done, r)) ∧
    (∀ drop ∈ [.rollback tx, .unwind tx], Cells.Alike (perform drop q).2.cells p.cells) ∧
    (perform (.commit tx) q).2.cells = q.cells ∧
    ∀ drop ∈ [.commit tx, .rollback tx, .unwind tx],
      (perform drop (perform (.success tx) q).2).2.cells = q.cells := by
  intro q
  obtain ⟨undos, holds, back⟩ := recoups_calls fresh calls
  have holds : q.txOf tx = { reverts := undos.map .cell } := holds
  refine ⟨fun c => ?_, fun drop ends => ?_, ?_, fun drop ends => ?_⟩
  · rcases call_ends tx c q with refused | ⟨r, -, granted, ended, -⟩
    · exact .inl refused
    · exact .inr ⟨r, granted, ended⟩
  · rw [rolled_back holds ends]
    exact back
  · exact concluded (f := (·.success)) rfl (by rw [holds]; rfl)
  · have succeeded : (perform (.success tx) q).2.txOf tx = (q.txOf tx).success := txOf_setTx ..
    exact kept (by rw [succeeded]; rfl) (by rw [succeeded, holds]; rfl) ends

/-- An item passes from one context to the other and comes up twice in the batch; a third call wants
to release it from the context that has given it up. Then everything is taken back. -/
theorem passed_item_comes_back :
    let h : NamedHandler := ⟨2, "h", none, none⟩
    let g : NamedHandler := ⟨3, "g", none, none⟩
    let p : CaptureSession := {
      cells := (({} : Cells NamedHandler).setOwner 0 (some 1)).subscribe 0 1 h
      cellNames := (Table.empty.insert "x" 0).insert "y" 1
      contexts := (Table.empty.insert "a" 1).insert "b" 2
      handlers := Table.empty.insert "g" g }
    let q := [.free ["x"] "a", .take ["x", "y", "x"] "b" (some "g")].foldl (call "t") p
    let r := (perform (.rollback "t") q).2
    p.txOf "t" = {} ∧
    (q.cells.owner 0, q.cells.owner 1) = (some 2, some 2) ∧
    (q.cells.handler? 0 1).isNone ∧ (q.cells.handler? 0 2).map (·.name) = some "g" ∧
    perform (.freeBatch "t" ["y", "x"] "a") q =
      (.error (.refused (.capturedByOther 0 2 1)), q) ∧
    (r.cells.owner 0, r.cells.owner 1) = (some 1, none) ∧
    (r.cells.handler? 0 1).map (·.name) = some "h" ∧ (r.cells.handler? 0 2).isNone := by
  intro h g p q r
  have fresh : p.txOf "t" = {} := rfl
  obtain ⟨each, undone, -, -⟩ := batches_go_through_or_are_undone fresh
    [.free ["x"] "a", .take ["x", "y", "x"] "b" (some "g")]
  have back := undone (.rollback "t") (by simp)
  have named : q.cells.releaseFault? (q.contextOf "a") 0 (q.cellsOf ["y", "x"]) =
      some (.capturedByOther 0 2 1) := by decide +kernel
  refine ⟨fresh, ?_, ?_, ?_, ?_, ?_, ?_, ?_⟩
  · decide +kernel
  · decide +kernel
  · decide +kernel
  · rcases each (.free ["y", "x"] "a") with ⟨fault, refused, ended⟩ | ⟨_, granted, -⟩
    · cases named.symm.trans (Cells.releaseFault?_eq_some.mpr refused)
      exact ended
    · cases named.symm.trans (Cells.releaseFault?_eq_none.mpr granted.fit)
  · rw [Cells.owner, Cells.owner, (back 0).1, (back 1).1]
    rfl
  · rw [Cells.handler?, (back 0).2 1]
    rfl
  · rw [Cells.handler?, (back 0).2 2]
    rfl

end CaptureSession

end Session

end UndoableLists
