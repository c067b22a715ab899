import UndoableLists.Proofs.Ownership.Possession
import UndoableLists.Proofs.Ownership.Sound
import UndoableLists.Proofs.World.Steady

/-!
What other threads do with their lists, as it bears on the ownership of items. Whatever is done with
a list takes only cells that are free, gives up only the list's own, and takes none but those of
items that the deed brings to the list. Main statement: a visit to other lists leaves a list as it
is, takes no cell for it or from it, and claims only what the visit brings.
-/
namespace UndoableLists
variable {α : Type}

def Operation.items : Operation α → List α
  | .push item => [item]
  | .insert _ item => [item]
  | .addRange items => items
  | .insertRange _ items => items
  | .set _ item => [item]
  | _ => []

theorem Operation.brought_of_plan {ε β : Type} [DecidableEq β] {worth : α → β} {contents : List α}
    {op : Operation α} {record : Record α ε} {reply : Reply α}
    (planned : op.plan worth contents = .ok (some record, reply)) :
    ∀ a ∈ (record.handover .forward).entering,
      a ∈ op.items ∨ a ∈ (record.handover .forward).leaving := by
  intro a enters
  cases plans_of_plan planned with
  | move present inside differ =>
    right
    simpa [Record.moved, Record.handover, Record.handoverAll, Record.exchange, Handover.append]
      using enters
  | _ => simp_all [Operation.items, Record.handover, Record.exchange]

/-- What work at a list's site does with the owner of a cell: nothing, or the list gives the cell
up, or takes it, which was free, if the cell is among those that were `brought`. -/
inductive Passed (c : Context) (brought : Prop) : Option Context → Option Context → Prop
  | kept (owner : Option Context) : Passed c brought owner owner
  | freed : Passed c brought (some c) none
  | taken (among : brought) : Passed c brought none (some c)

def Cells.Turnover (c : Context) (brought : List CellId) (cells cells' : Cells ListId) : Prop :=
  ∀ x, Passed c (x ∈ brought) (cells.owner x) (cells'.owner x)

namespace Cells
variable {c : Context} {brought : List CellId} {cells cells' : Cells ListId}

theorem turnover_refl (c : Context) (brought : List CellId) (cells : Cells ListId) :
    Turnover c brought cells cells := fun _ => .kept _

theorem turnover_giveUp (c : Context) (brought ids : List CellId) (cells : Cells ListId) :
    Turnover c brought cells (ids.foldl (Site.giveUp c) cells) := by
  intro x
  have cell := cell_giveUp c ids cells x
  split at cell
  · rename_i mine
    rw [mine.2, owner, cell]
    exact .freed
  · rw [owner, owner, cell]
    exact .kept _

theorem turnover_adoptEach (l : UndoableList α) (ids : List CellId) (cells : Cells ListId) :
    Turnover l.context ids cells (Site.adoptEach l ids cells).1 := by
  intro x
  have cell := cell_adoptEach l ids cells x
  split at cell
  · rename_i adopted
    rw [show (Site.adoptEach l ids cells).1.owner x = some l.context by rw [owner, cell]; rfl]
    have admitted := adopted.2
    unfold Cell.admits at admitted
    split at admitted <;> rename_i owned
    · rw [show cells.owner x = none from owned]
      exact .taken adopted.1
    · rw [show cells.owner x = some _ from owned, eq_of_beq admitted]
      exact .kept _
  · rw [owner, owner, cell]
    exact .kept _

theorem turnover_exchanged {s : Site α} {leaving entering : List CellId}
    (exchanged : Site.Exchanged s leaving entering cells')
    (new : ∀ x ∈ entering, x ∈ brought ∨ x ∈ leaving) :
    Turnover s.list.context brought s.cells cells' := by
  intro x
  rw [Site.owner_exchanged exchanged]
  split
  · rename_i enters
    obtain free | ⟨mine, -⟩ := exchanged.entrants x enters
    · rw [free]
      refine .taken ((new x enters).resolve_right fun leaves => ?_)
      rw [exchanged.leavers x leaves] at free
      cases free
    · exact mine ▸ .kept _
  · split
    · rename_i leaves
      rw [exchanged.leavers x leaves]
      exact .freed
    · exact .kept _

end Cells

/-- Whatever the record, a commit takes what enters and gives up what leaves. -/
theorem Site.turnover_of_commit {s : Site α} {record : Record α Edit} {direction : Direction}
    {d : Done α} (done : s.commit record direction = .ok d) {brought : List α}
    (new : ∀ a ∈ (record.handover direction).entering,
      a ∈ brought ∨ a ∈ (record.handover direction).leaving) :
    d.site.list.context = s.list.context ∧
      Cells.Turnover s.list.context (s.list.cellsOf brought) s.cells d.site.cells := by
  obtain ⟨after, cells, notices, store, applied, -, given, -, rfl⟩ := stages_of_commit done
  refine ⟨rfl, Cells.turnover_exchanged (exchanged_of_transfer given) fun x enters => ?_⟩
  unfold UndoableList.cellsOf at enters ⊢
  cases access : s.list.access with
  | none => simp [access] at enters
  | some cell =>
    simp only [access, List.mem_map] at enters ⊢
    obtain ⟨a, entrant, rfl⟩ := enters
    exact (new a entrant).imp (⟨a, ·, rfl⟩) (⟨a, ·, rfl⟩)

namespace World
variable {κ δ : Type}

/-- What a thread does with a list of its own. Work on the list's store is there in its parts, in
between of which others may be at work. -/
inductive Deed (α : Type) where
  | mutate (aloud : Bool) (op : Operation α)
  | replay (aloud : Bool) (direction : Direction)
  | clearHistory
  | enterEdit (e : Edit)
  | release
  | access (e : StoreEdit α)
  | resynchronize
  | announce (b : Bulletin α)
  | dispose
  | letGo

def Deed.items (l : UndoableList α) : Deed α → List α
  | .mutate _ op => (if l.store.stale then l.contents else []) ++ op.items
  | .replay _ direction =>
    if l.store.stale then l.contents
    else (l.history.side direction).head?.elim [] fun record => (record.handover direction).entering
  | .resynchronize => l.contents
  | _ => []

def Deed.on [Diary δ] [Element α] (call : Call α κ δ) (c : ListId) (w : World α κ δ) :
    Deed α → World α κ δ
  | .mutate aloud op => (World.mutate call c aloud op w).2
  | .replay aloud direction => (World.replay call c aloud direction w).2
  | .clearHistory => (World.clearHistory c w).2
  | .enterEdit e => (World.enterEdit e c w).2
  | .release => (releaseMembers c w).2
  | .access e => (editStore c e w).2
  | .resynchronize => (World.resynchronize c w).2
  | .announce b => World.announce call c b w
  | .dispose => (World.dispose c w).2
  | .letGo => World.letGo (.list c) w

structure Present (id : ListId) (w : World α κ δ) : Prop where
  held : .list id ∈ w.held
  keyed : Keyed w
  known : id < w.nextContext

/-- What was done had nothing to do with a list: it is as it was, nobody has taken a cell for it or
from it, and the cells that anybody has taken are among the `brought`. -/
structure Elsewhere (id : ListId) (brought : List CellId) (w v : World α κ δ) : Prop where
  present : Present id v
  list : v.lists.get? id = w.lists.get? id
  mine : ∀ x, v.cells.owner x = some id ↔ w.cells.owner x = some id
  others : ∀ x ∉ brought, v.cells.owner x = none ∨ v.cells.owner x = w.cells.owner x

def Aloof (call : Call α κ δ) (id : ListId) : Prop :=
  ∀ s k e w, Present id w → Elsewhere id [] w (call s k e w).2

section
variable {id c : ListId} {brought more : List CellId} {u v w : World α κ δ} {l m : UndoableList α}

theorem elsewhere_refl (present : Present id w) : Elsewhere id [] w w :=
  ⟨present, rfl, fun _ => .rfl, fun _ _ => .inr rfl⟩

theorem elsewhere_trans (first : Elsewhere id brought w u) (second : Elsewhere id more u v) :
    Elsewhere id (brought ++ more) w v where
  present := second.present
  list := second.list.trans first.list
  mine x := (second.mine x).trans (first.mine x)
  others x stranger := by
    rw [List.mem_append, not_or] at stranger
    obtain free | same := second.others x stranger.2
    · exact .inl free
    · exact same ▸ first.others x stranger.1

theorem present_aside {taken : List LockId} (present : Present id w) (aside : Aside taken w v) :
    Present id v :=
  ⟨(held_aside aside).mpr present.held, keyed_congr present.keyed aside.lists,
    aside.nextContext ▸ present.known⟩

theorem elsewhere_aside (elsewhere : Elsewhere id brought w u) (aside : Aside [] u v) :
    Elsewhere id brought w v where
  present := present_aside elsewhere.present aside
  list := by rw [aside.lists, elsewhere.list]
  mine x := by rw [aside.cells, elsewhere.mine]
  others x stranger := by
    rw [aside.cells]
    exact elsewhere.others x stranger

theorem elsewhere_site (present : Present id v) (differs : c ≠ id)
    (list : v.lists.get? id = w.lists.get? id)
    (turnover : Cells.Turnover c brought w.cells v.cells) : Elsewhere id brought w v where
  present := present
  list := list
  mine x := by
    have passed := turnover x
    generalize w.cells.owner x = o at passed ⊢
    generalize v.cells.owner x = o' at passed ⊢
    cases passed <;> simp [differs]
  others x stranger := by
    have passed := turnover x
    generalize w.cells.owner x = o at passed ⊢
    generalize v.cells.owner x = o' at passed ⊢
    cases passed with
    | kept => exact .inr rfl
    | freed => exact .inl rfl
    | taken among => exact absurd among stranger

theorem elsewhere_put (present : Present id w) (differs : c ≠ id) (named : m.context = c)
    (turnover : Cells.Turnover c brought w.cells v.cells)
    (lists : ∀ d, v.lists.get? d = if d = c then some m else w.lists.get? d)
    (held : .list id ∈ v.held) (known : id < v.nextContext) : Elsewhere id brought w v := by
  exact elsewhere_site ⟨held, named_of_put present.keyed lists named, known⟩ differs
    ((lists id).trans (if_neg differs.symm)) turnover

theorem elsewhere_relisted (present : Present id w) (differs : c ≠ id) (named : m.context = c) :
    Elsewhere id brought w { w with lists := w.lists.insert c m } :=
  elsewhere_put present differs named (Cells.turnover_refl c brought w.cells)
    (fun _ => Table.get?_insert ..) present.held present.known

theorem elsewhere_after {direction : Direction} {d : Done α} (present : Present id w)
    (differs : c ≠ id) (named : d.site.list.context = c)
    (turnover : Cells.Turnover c brought w.cells d.site.cells) :
    Elsewhere id brought w (w.after direction d) :=
  elsewhere_put present differs named turnover
    (fun _ => named ▸ Table.get?_insert ..) present.held present.known

theorem elsewhere_removed (elsewhere : Elsewhere id brought w u)
    (here : u.lists.get? c = some m) (loose : .list c ∉ u.held) :
    Elsewhere id brought w (u.removeList c m) := by
  obtain rfl := elsewhere.present.keyed c m here
  have differs : m.context ≠ id := fun same => loose (same ▸ elsewhere.present.held)
  have after : Elsewhere id [] u (u.removeList m.context m) :=
    elsewhere_site ⟨elsewhere.present.held, keyed_removed elsewhere.present.keyed _,
      elsewhere.present.known⟩ differs ((Table.get?_erase ..).trans (if_neg differs.symm))
      (Cells.turnover_giveUp m.context [] (m.cellsOf m.contents) u.cells)
  exact List.append_nil brought ▸ elsewhere_trans elsewhere after

theorem elsewhere_mono (elsewhere : Elsewhere id brought w v) (fewer : brought ⊆ more) :
    Elsewhere id more w v :=
  { elsewhere with
    others := fun x stranger => elsewhere.others x fun among => stranger (fewer among) }

theorem elsewhere_locks (elsewhere : Elsewhere id brought w v) (locks : Locks) :
    Elsewhere id brought w { v with locks } :=
  { elsewhere with present := { elsewhere.present with } }

theorem elsewhere_still (present : Present id w) (aside : Aside [] w v) :
    Elsewhere id brought w v :=
  elsewhere_mono (elsewhere_aside (elsewhere_refl present) aside) (List.nil_subset _)

variable [Diary δ] {call : Call α κ δ}

omit [Diary δ] in
theorem keeps_elsewhere (aloof : Aloof call id) (brought : List CellId) (w : World α κ δ) :
    Keeps call (Elsewhere id brought w) where
  aside aside elsewhere := elsewhere_aside elsewhere aside
  removed here loose elsewhere := elsewhere_removed elsewhere here loose
  called s k e _ elsewhere :=
    List.append_nil brought ▸ elsewhere_trans elsewhere (aloof s k e _ elsewhere.present)

theorem elsewhere_announced (aloof : Aloof call id) (present : Present id w) (c : ListId)
    (b : Bulletin α) : Elsewhere id [] w (announce call c b w) :=
  announce_keeps (keeps_elsewhere aloof [] w) c b (elsewhere_refl present)

omit [Diary δ] in
theorem elsewhere_letGo (present : Present id w) (differs : c ≠ id) :
    Elsewhere id [] w (letGo (.list c) w) := by
  have held : .list id ∈ w.held.erase (.list c) :=
    (List.mem_erase_of_ne (by simpa using differs.symm)).mpr present.held
  exact sweep_keeps (fun aside elsewhere => elsewhere_aside elsewhere aside)
    (fun here loose elsewhere => elsewhere_removed elsewhere here loose)
    ⟨⟨held, present.keyed, present.known⟩, rfl, fun _ => .rfl, fun _ _ => .inr rfl⟩

section
variable {direction : Direction} {b : Bulletin α}

omit [Diary δ] in
theorem elsewhere_reset (present : Present id w) (differs : l.context ≠ id) :
    Elsewhere id (l.cellsOf l.contents) w (w.afterReset l) :=
  elsewhere_after present differs rfl
    (Cells.turnover_adoptEach l.quieted.forgetful (l.cellsOf l.contents) w.cells)

omit [Diary δ] in
theorem elsewhere_ended [Element α] {lacking : Prop} {op : Operation α}
    {r : Outcome ListRefusal (Reply α)} (present : Present id w) (differs : l.context ≠ id)
    (ended : Ended [] lacking l op w b r v) : Elsewhere id (l.cellsOf op.items) w v := by
  cases ended with
  | refused aside why => exact elsewhere_still present aside
  | idle planned aside => exact elsewhere_still present aside
  | carried planned done aside =>
    obtain ⟨e, committed, -, cells, list, -, -⟩ := Site.of_append_ok done
    obtain ⟨context, turnover⟩ :=
      Site.turnover_of_commit committed (Operation.brought_of_plan planned)
    refine elsewhere_aside (elsewhere_after present differs ?_ (cells ▸ turnover)) aside
    rw [list]
    exact context

theorem elsewhere_mutated [Element α] {op : Operation α} {r : Outcome ListRefusal (Reply α)}
    (present : Present id w) (differs : l.context ≠ id) (mutated : Mutated l op w b r v)
    (aloud : Bool) : Elsewhere id (l.cellsOf ((Deed.mutate aloud op).items l)) w v := by
  rw [Deed.items]
  cases mutated with
  | fresh fresh ended =>
    rw [fresh]
    exact elsewhere_ended present differs ended
  | barred stale barred aside => exact elsewhere_still present aside
  | lost stale taken barred aside =>
    exact elsewhere_aside (elsewhere_relisted (m := l.quieted) present differs rfl) aside
  | heard stale obtained ended =>
    have reset := elsewhere_reset present differs
    rw [stale, if_pos rfl, UndoableList.cellsOf_append]
    exact elsewhere_trans reset (elsewhere_ended (l := l.reset) reset.present differs ended)

theorem elsewhere_replayed {r : Outcome ListRefusal Bool} (present : Present id w)
    (differs : l.context ≠ id) (replayed : Replayed l direction w b r v) (aloud : Bool) :
    Elsewhere id (l.cellsOf ((Deed.replay aloud direction).items l)) w v := by
  rw [Deed.items]
  cases replayed with
  | barred barred aside => exact elsewhere_still present aside
  | fresh fresh obtained turned freed =>
    cases turned with
    | nothing none aside => exact elsewhere_still present aside
    | rejected near failed aside => exact elsewhere_still present aside
    | carried near done aside =>
      obtain ⟨context, turnover⟩ := Site.turnover_of_commit done fun a enters => .inl enters
      rw [fresh, near]
      have after : Elsewhere id _ w (w.after direction _) :=
        elsewhere_after (d := Done.withHistory _ (l.history.turned direction)) present differs
          context turnover
      exact elsewhere_aside after aside
  | heard stale obtained aside freed =>
    rw [stale, if_pos rfl]
    exact elsewhere_aside (elsewhere_reset present differs) aside

theorem elsewhere_modifying {f : UndoableList α → UndoableList α} (present : Present id w)
    (differs : c ≠ id) (named : ∀ l, (f l).context = l.context) :
    Elsewhere id brought w (modifying c f w).2 := by
  obtain aside | ⟨m, here, aside⟩ := modifying_leaves c f w
  · exact elsewhere_still present aside
  · exact elsewhere_aside (elsewhere_put (v := { w with lists := w.lists.modify c f })
      present differs ((named m).trans (present.keyed c m here)) (Cells.turnover_refl _ _ _)
      (fun d => Table.get?_modify_present here d f) present.held present.known) aside

theorem elsewhere_disposed (present : Present id w) (differs : c ≠ id) :
    Elsewhere id [] w (dispose c w).2 := by
  cases here : w.lists.get? c with
  | none =>
    rw [show dispose c w = _ from withList_absent here _]
    exact elsewhere_refl present
  | some m =>
    obtain rfl := present.keyed c m here
    obtain ⟨-, same⟩ | ⟨-, x, ends, outcome⟩ := dispose_ends here
    · rw [same]
      exact elsewhere_refl present
    · have before : Elsewhere id [] w x := by
        obtain freed | aside := ends
        · have given := Cells.turnover_giveUp m.context [] (m.cellsOf m.contents) w.cells
          exact elsewhere_aside (elsewhere_put (v := w.freed m) (m := m.forgetful) present differs
            rfl given (freed_lists w m) present.held present.known) freed
        · exact elsewhere_still present aside
      rw [outcome]
      exact elsewhere_aside (elsewhere_locks before _) (aside_note ..)

end

def brings (w : World α κ δ) (c : ListId) (deed : Deed α) : List CellId :=
  (w.lists.get? c).elim [] fun l => l.cellsOf (deed.items l)

theorem elsewhere_deed_absent [Element α] (aloof : Aloof call id) (present : Present id w)
    (differs : c ≠ id) (absent : w.lists.get? c = none) (deed : Deed α) :
    Elsewhere id [] w (deed.on call c w) := by
  have idle := elsewhere_refl present
  cases deed with
  | mutate aloud op => rwa [Deed.on, World.mutate, telling, withList_absent absent]
  | replay aloud direction => rwa [Deed.on, World.replay, telling, withList_absent absent]
  | clearHistory => rwa [Deed.on, World.clearHistory, withList_absent absent]
  | enterEdit e => rwa [Deed.on, World.enterEdit, withList_absent absent]
  | release => rwa [Deed.on, releaseMembers, atSite_absent absent]
  | access e => rwa [Deed.on, editStore, withList_absent absent]
  | resynchronize => rwa [Deed.on, World.resynchronize, atSite_absent absent]
  | announce b => exact elsewhere_announced aloof present c b
  | dispose => exact elsewhere_disposed present differs
  | letGo => exact elsewhere_letGo present differs

theorem elsewhere_deed [Element α] (aloof : Aloof call id) (present : Present id w)
    (differs : c ≠ id) (deed : Deed α) : Elsewhere id (w.brings c deed) w (deed.on call c w) := by
  rw [brings]
  cases here : w.lists.get? c with
  | none => exact elsewhere_deed_absent aloof present differs here deed
  | some l =>
    obtain rfl := present.keyed c l here
    rw [Option.elim_some]
    cases deed with
    | mutate aloud op =>
      obtain ⟨b, r, v, mutated, -, outcome⟩ := mutate_ends here op
      rw [Deed.on, outcome call aloud]
      exact told_keeps (keeps_elsewhere aloof _ w) _ b aloud
        (elsewhere_mutated present differs mutated aloud)
    | replay aloud direction =>
      obtain ⟨b, r, v, replayed, -, outcome⟩ := replay_ends here direction
      rw [Deed.on, outcome call aloud]
      exact told_keeps (keeps_elsewhere aloof _ w) _ b aloud
        (elsewhere_replayed present differs replayed aloud)
    | clearHistory => exact elsewhere_modifying present differs fun _ => rfl
    | enterEdit e => exact elsewhere_modifying present differs fun _ => rfl
    | release =>
      have freed : releaseMembers l.context w = (.ok (), w.putSite (Site.released ⟨l, w.cells⟩)) :=
        atSite_present here
      rw [Deed.on, freed]
      exact elsewhere_put (m := l) present differs rfl
        (Cells.turnover_giveUp l.context _ (l.cellsOf l.contents) w.cells)
        (fun _ => Table.get?_insert ..) present.held present.known
    | access e =>
      rw [Deed.on, editStore_eq here]
      split
      · exact elsewhere_still present (aside_refl w)
      · exact elsewhere_relisted present differs rfl
    | resynchronize =>
      have done : World.resynchronize l.context w =
          (.ok (), settle .forward (Site.resynchronized ⟨l, w.cells⟩) w) := atSite_present here
      have after : Elsewhere id _ w (w.after .forward (Site.resynchronized ⟨l, w.cells⟩)) :=
        elsewhere_after present differs rfl
          (Cells.turnover_adoptEach l (l.cellsOf l.contents) w.cells)
      rw [Deed.on, done]
      exact elsewhere_aside after (aside_settle w)
    | announce b =>
      exact elsewhere_mono (elsewhere_announced aloof present _ b) (List.nil_subset _)
    | dispose => exact elsewhere_mono (elsewhere_disposed present differs) (List.nil_subset _)
    | letGo => exact elsewhere_mono (elsewhere_letGo present differs) (List.nil_subset _)

/-- What another thread does while a list is worked on: it makes a list, or does something with a
list that is not the one worked on. -/
inductive Visit (id : ListId) (α : Type) where
  | create (b : Blueprint α)
  | act (c : ListId) (other : c ≠ id) (deed : Deed α)

namespace Visit

def brings (w : World α κ δ) : Visit id α → List CellId
  | .create b => b.access.elim [] b.items.map
  | .act c _ deed => w.brings c deed

def on [Element α] (call : Call α κ δ) (thread : Thread) (visit : Visit id α) (w : World α κ δ) :
    World α κ δ :=
  let u := { w with thread }
  let v := match visit with
    | .create b => (createList b u).2
    | .act c _ deed => deed.on call c u
  { v with thread := w.thread }

end Visit

theorem elsewhere_created (present : Present id w) (b : Blueprint α) :
    Elsewhere id (b.access.elim [] b.items.map) w (createList b w).2 := by
  have differs : w.nextContext ≠ id := (Nat.ne_of_lt present.known).symm
  have turnover := Cells.turnover_adoptEach (b.listAt w.nextContext w.locks.next)
    ((b.listAt w.nextContext w.locks.next).cellsOf b.items) w.cells
  have same : (b.listAt w.nextContext w.locks.next).cellsOf b.items =
      b.access.elim [] b.items.map := by
    rw [UndoableList.cellsOf, Blueprint.listAt]
    cases b.access <;> rfl
  refine elsewhere_aside (elsewhere_put present differs rfl (same ▸ turnover)
    (fun c => enrolled_lists b w c) ?_ ?_) (aside_createList b w)
  · exact List.mem_cons_of_mem _ present.held
  · exact Nat.lt_succ_of_lt present.known

/-- A visit leaves a list alone and claims only what it brings. -/
theorem elsewhere_visit [Element α] (aloof : Aloof call id) (present : Present id w)
    (thread : Thread) (visit : Visit id α) :
    Elsewhere id (visit.brings w) w (visit.on call thread w) := by
  have same : Present id { w with thread } := { present with }
  cases visit with
  | create b =>
    have created := elsewhere_created same b
    exact { created with present := { created.present with } }
  | act c other deed =>
    have done := elsewhere_deed aloof same other deed
    exact { done with present := { done.present with } }

end

end World

end UndoableLists
