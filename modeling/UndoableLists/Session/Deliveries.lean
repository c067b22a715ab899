import UndoableLists.Audience
import UndoableLists.Text.Shown

/-!
Sessions with one notifier whose subscribers follow small scripts of their own. A script may
subscribe, drop subscriptions and raise events while a delivery is under way; the number of times
a subscriber runs its script is limited, which also limits how deep deliveries nest.
-/
namespace UndoableLists.Session

inductive DeliveryStep where
  | subscribe (name : String) (script : List DeliveryStep) (limit : Nat) (panicOn : Option Value)
  | unsubscribe (name : String)
  | raise (events : List Value)
  | count
  | text
  deriving Inhabited

inductive DeliveryAnswer where
  | done
  | flag (b : Bool)
  | count (n : Nat)
  | text (t : String)
  | exhausted
  deriving Inhabited

inductive DeliveryEntry where
  | notice (n : Notice)
  | event (name : String) (event : Value)
  | answer (name : String) (a : DeliveryAnswer)

structure ScriptedListener where
  name : String
  script : List DeliveryStep
  limit : Nat
  panicOn : Option Value

structure DeliverySession where
  notifier : Audience ScriptedListener := {}
  guards : List (String × SubscriberId) := []
  runs : List (SubscriberId × Nat) := []
  next : SubscriberId := 0
  entries : List DeliveryEntry := []

namespace DeliverySession

def log (entry : DeliveryEntry) (p : DeliverySession) : DeliverySession :=
  { p with entries := p.entries ++ [entry] }

instance : Journal DeliverySession where
  note n := log (.notice n)

def place : Place DeliverySession (Audience ScriptedListener) :=
  ⟨DeliverySession.notifier, fun n p => { p with notifier := n }⟩

def runsOf (p : DeliverySession) (id : SubscriberId) : Nat := (p.runs.lookup id).getD 0

def countRun (id : SubscriberId) (p : DeliverySession) : DeliverySession :=
  { p with runs := (id, p.runsOf id + 1) :: p.runs }

def unsubscribe (name : String) (p : DeliverySession) : Bool × DeliverySession :=
  match p.guards.lookup name with
  | none => (false, p)
  | some id =>
    (true, { p with
      notifier := p.notifier.unguarded [id]
      guards := p.guards.filter (·.1 ≠ name) })

def subscribe (listener : ScriptedListener) (p : DeliverySession) : DeliverySession :=
  let p := { p with notifier := p.notifier.subscribe p.next listener }
  let p := (unsubscribe listener.name p).2
  { p with guards := (listener.name, p.next) :: p.guards, next := p.next + 1 }

def runScript (exec : DeliveryStep → DeliverySession → DeliveryAnswer × DeliverySession)
    (name : String) : List DeliveryStep → DeliverySession → DeliverySession
  | [], p => p
  | s :: rest, p =>
    let (a, p) := exec s p
    runScript exec name rest (p.log (.answer name a))

def call (exec : DeliveryStep → DeliverySession → DeliveryAnswer × DeliverySession) :
    Audience.Call DeliverySession ScriptedListener Value Unit := fun id l event p =>
  let p := p.log (.event l.name event)
  let p := if p.runsOf id < l.limit then runScript exec l.name l.script (p.countRun id) else p
  if l.panicOn = some event then (.error (.panicked none), p) else (.ok (), p)

def step (exec : DeliveryStep → DeliverySession → DeliveryAnswer × DeliverySession) :
    DeliveryStep → DeliverySession → DeliveryAnswer × DeliverySession
  | .subscribe name script limit panicOn, p => (.done, p.subscribe ⟨name, script, limit, panicOn⟩)
  | .unsubscribe name, p =>
    let (found, p) := p.unsubscribe name
    (.flag found, p)
  | .raise events, p =>
    let (n, p) := Audience.raise place (call exec) events p
    (.count n, p)
  | .count, p => (.count p.notifier.count, p)
  | .text, p =>
    (.text (Text.fields "Notifier"
      [("kind", Text.quoted "probe"), ("subscriber_count", toString p.notifier.count)]), p)

def exec : Nat → DeliveryStep → DeliverySession → DeliveryAnswer × DeliverySession
  | 0, _, p => (.exhausted, p)
  | fuel + 1, s, p => step (exec fuel) s p

mutual

/-- A bound on how many steps a step can set off, itself included. -/
def cost : DeliveryStep → Nat
  | .subscribe _ script limit _ => 1 + limit * costs script
  | _ => 1

def costs : List DeliveryStep → Nat
  | [] => 0
  | s :: rest => cost s + costs rest

end

def run (steps : List DeliveryStep) : List (DeliveryAnswer × List DeliveryEntry) :=
  let fuel := costs steps + 1
  (steps.foldl (fun (out, p) s =>
    let (a, p) := exec fuel s { p with entries := [] }
    (out ++ [(a, p.entries)], p))
    (([] : List (DeliveryAnswer × List DeliveryEntry)), ({} : DeliverySession))).1

end DeliverySession

end UndoableLists.Session
