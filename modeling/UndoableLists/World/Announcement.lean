import UndoableLists.World.View

/-!
Telling the subscribers. Clients hear of a list's changes and then of its properties; a view hears
of both on behalf of its own subscribers, drops what it has cached and tells them what became of
it.
-/
namespace UndoableLists.World
variable {α κ δ : Type} [Diary δ]

abbrev Call (α κ δ : Type) := Audience.Call (World α κ δ) κ (Event α) ListRefusal

def callClient (call : Call α κ δ) :
    Audience.Call (World α κ δ) (Listener κ) (Event α) ListRefusal :=
  fun id listener event =>
    match listener with
    | .client k => call id k event
    | _ => return ()

def tell (call : Call α κ δ) (h : Handle) (topic : Topic) (events : List (Event α))
    (w : World α κ δ) : World α κ δ :=
  (Audience.raise (channel h topic) (callClient call) events w).2

def tellChange (call : Call α κ δ) (h : Handle) (change : Change α) : World α κ δ → World α κ δ :=
  tell call h .changes [.collection change]

def tellProperties (call : Call α κ δ) (h : Handle) (ps : List Property) :
    World α κ δ → World α κ δ :=
  tell call h .properties (ps.map .property)

def tellReset (call : Call α κ δ) (h : Handle) (w : World α κ δ) : World α κ δ :=
  tellProperties call h [.count, .items] (tellChange call h .reset w)

def afterInvalidating {K V : Type} (cache : Place (World α κ δ) (CachedView K V))
    (next : World α κ δ → World α κ δ) (w : World α κ δ) : World α κ δ :=
  match CachedView.invalidate cache w with
  | (.ok (), w) => next w
  | (.error _, w) => w

/-- What a filtered view makes of an event of its base. Under a filter, positions in the base mean
nothing to the view's subscribers. -/
def hearAsFilter (call : Call α κ δ) (id : ViewId) (event : Event α) (w : World α κ δ) :
    World α κ δ :=
  match event with
  | .collection change =>
    w |> afterInvalidating (filterCache id) fun w =>
      let (filtered, w) := w.isFiltered id
      tellChange call (.filter id) (if filtered then .reset else change) w
  | .property property =>
    if ((filterCache id).get w).disposed then w
    else
      let (filtered, w) := w.isFiltered id
      if !filtered then tellProperties call (.filter id) [property] w
      else if property = .items then tellProperties call (.filter id) [.count, .items] w
      else w

def hearFromMaster (call : Call α κ δ) (id : ViewId) (event : Event α) :
    World α κ δ → World α κ δ :=
  afterInvalidating (mergeCache id) fun w =>
    match event with
    | .collection change => tellChange call (.merge id) change w
    | .property property => tellProperties call (.merge id) [property] w

def hearFromSlave (call : Call α κ δ) (id : ViewId) (event : Event α) : World α κ δ → World α κ δ :=
  afterInvalidating (mergeCache id) fun w =>
    match event with
    | .collection _ => tellChange call (.merge id) .reset w
    | .property .items => tellProperties call (.merge id) [.count, .items] w
    | .property .count => w

def hear (h : Handle) (alive : World α κ δ → Bool) (reaction : World α κ δ → World α κ δ) :
    Work α κ δ Unit := fun w =>
  if alive w then
    let ((), w) := keeping h (fun w => ((), reaction w)) w
    (.ok (), w)
  else (.ok (), w)

def callListener (call : Call α κ δ) :
    Audience.Call (World α κ δ) (Listener κ) (Event α) ListRefusal :=
  fun subscriber listener event =>
    match listener with
    | .client k => call subscriber k event
    | .filter id =>
      hear (.filter id) (fun w => (w.filters.get? id).isSome) (hearAsFilter call id event)
    | .master id =>
      hear (.merge id) (fun w => (w.merges.get? id).isSome) (hearFromMaster call id event)
    | .slave id =>
      hear (.merge id) (fun w => (w.merges.get? id).isSome) (hearFromSlave call id event)

/-- Tells the subscribers of a list: the changes in order, then the properties. -/
def announce (call : Call α κ δ) (id : ListId) (b : Bulletin α) (w : World α κ δ) : World α κ δ :=
  let (_, w) := Audience.raise (channel (.list id) .changes) (callListener call)
    (b.changes.map .collection) w
  (Audience.raise (channel (.list id) .properties) (callListener call)
    (b.properties.map .property) w).2

end UndoableLists.World
