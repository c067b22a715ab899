import UndoableLists.Proofs.Record.Leads

/-!
How an application uses the store. It makes a number of accesses, one after the other, which are
fixed by the record and the direction; only a move puts in what it has just taken out. Main
statements: an application leaves what its accesses leave, and it breaks off only where the store
refuses one of them, or where a record has too few items; and accesses that stay inside a store of
some length are possible in every store of that length.
-/
namespace UndoableLists
variable {α ε : Type}

namespace StoreEdit

def Inside (length : Nat) : StoreEdit α → Prop
  | .insert index _ => index ≤ length
  | .insertMany index _ => index ≤ length
  | .remove index => index < length
  | .replace index _ => index < length
  | _ => True

def lengthAfter (length : Nat) : StoreEdit α → Nat
  | .insert _ _ => length + 1
  | .insertMany _ items => length + items.length
  | .remove _ => length - 1
  | .clear => 0
  | _ => length

/-- Accesses that stay inside, each at the length that those before it leave; from the length `n`
they lead to `m`. -/
def Fits : List (StoreEdit α) → Nat → Nat → Prop
  | [], n, m => n = m
  | access :: rest, n, m => access.Inside n ∧ Fits rest (access.lengthAfter n) m

theorem fits_append {first second : List (StoreEdit α)} {n k m : Nat} (begun : Fits first n k)
    (ended : Fits second k m) : Fits (first ++ second) n m := by
  induction first generalizing n with
  | nil =>
    obtain rfl : n = k := begun
    exact ended
  | cons access rest ih => exact ⟨begun.1, ih begun.2⟩

end StoreEdit

namespace Store
open StoreEdit

def perform : List (StoreEdit α) → Store α → Record.Edited α
  | [], s => .ok s
  | access :: rest, s =>
    match s.edit? access with
    | none => .error s
    | some (_, s) => perform rest s

/-- The accesses stay inside the store, each of them as it is at that moment, and leave `t`. -/
def Takes : List (StoreEdit α) → Store α → Store α → Prop
  | [], s, t => s = t
  | access :: rest, s, t =>
    access.Inside s.length ∧ ∃ reply u, s.edit? access = some (reply, u) ∧ Takes rest u t

theorem perform_append (first second : List (StoreEdit α)) (s : Store α) :
    perform (first ++ second) s = (perform first s).bind (perform second) := by
  induction first generalizing s with
  | nil => rfl
  | cons access rest ih =>
    simp only [List.cons_append, perform]
    cases s.edit? access with
    | none => rfl
    | some done => exact ih done.2

theorem perform_of_takes {accesses : List (StoreEdit α)} {s t : Store α}
    (takes : Takes accesses s t) : perform accesses s = .ok t := by
  induction accesses generalizing s with
  | nil => exact congrArg Except.ok takes
  | cons access rest ih =>
    obtain ⟨-, reply, u, done, others⟩ := takes
    simp only [perform, done]
    exact ih others

theorem edit?_of_inside {access : StoreEdit α} {s : Store α} (inside : access.Inside s.length) :
    ∃ reply u, s.edit? access = some (reply, u) ∧ u.length = access.lengthAfter s.length := by
  cases access with
  | insert index item =>
    have put : s.insert? index item = some (s.withItems (s.items.insertIdx index item)) :=
      Record.insert?_of_inserts ⟨inside, rfl⟩
    exact ⟨_, _, congrArg (Option.map _) put, List.length_insertIdx_of_le_length inside item⟩
  | insertMany index items =>
    have front : (s.items.take index).length = index := List.length_take_of_le inside
    have put := Record.insertMany?_between s (s.items.take index) (s.items.drop index) items
      (List.take_append_drop index s.items).symm
    rw [front] at put
    refine ⟨_, _, congrArg (Option.map _) put, ?_⟩
    have whole := congrArg List.length (List.take_append_drop index s.items)
    simp only [length, Store.withItems, lengthAfter, List.length_append] at whole ⊢
    omega
  | remove index =>
    obtain ⟨old, present⟩ : ∃ old, s.items[index]? = some old :=
      ⟨_, List.getElem?_eq_getElem inside⟩
    refine ⟨.item (some old), { s with items := s.items.eraseIdx index }, ?_,
      List.length_eraseIdx_of_lt inside⟩
    simp only [edit?, remove?, present, Option.map_some]
  | replace index item =>
    obtain ⟨old, present⟩ : ∃ old, s.items[index]? = some old :=
      ⟨_, List.getElem?_eq_getElem inside⟩
    refine ⟨.item (some old), { s with items := s.items.set index item }, ?_,
      List.length_set⟩
    simp only [edit?, replace?, present, Option.map_some]
  | _ => exact ⟨_, _, rfl, rfl⟩

theorem takes_of_fits {accesses : List (StoreEdit α)} {s : Store α} {m : Nat}
    (fits : Fits accesses s.length m) : ∃ t, Takes accesses s t ∧ t.length = m := by
  induction accesses generalizing s with
  | nil => exact ⟨s, rfl, fits⟩
  | cons access rest ih =>
    obtain ⟨inside, others⟩ := fits
    obtain ⟨reply, u, done, length⟩ := edit?_of_inside inside
    obtain ⟨t, takes, left⟩ := ih (length ▸ others)
    exact ⟨t, ⟨inside, reply, u, done, takes⟩, left⟩

end Store

namespace Record
open Store

mutual

def accesses : Record α ε → Direction → List (StoreEdit α)
  | .add index item, .forward => [.insert index item]
  | .add index _, .backward => [.remove index]
  | .remove index _, .forward => [.remove index]
  | .remove index item, .backward => [.insert index item]
  | .addMany index items, .forward => [.insertMany index items]
  | .addMany index items, .backward =>
    ((List.range items.length).map fun offset => .remove (index + offset)).reverse
  | .removeMany indices _, .forward => (indices.map .remove).reverse
  | .removeMany indices items, .backward => (indices.zip items).map fun p => .insert p.1 p.2
  | .clear _, .forward => [.clear]
  | .clear items, .backward => [.insertMany 0 items]
  | .changeAt index _ new, .forward => [.replace index new]
  | .changeAt index old _, .backward => [.replace index old]
  | .composite children, direction => accessesOfAll children direction
  | .itemEdit _, _ => []

def accessesOfAll : List (Record α ε) → Direction → List (StoreEdit α)
  | [], _ => []
  | child :: rest, .forward => accesses child .forward ++ accessesOfAll rest .forward
  | child :: rest, .backward => accessesOfAll rest .backward ++ accesses child .backward

end

def shifting (s : Store α) (source target : Nat) : List (StoreEdit α) :=
  .remove source :: s.items[source]?.toList.map (.insert target)

def calls (record : Record α ε) (direction : Direction) (s : Store α) : List (StoreEdit α) :=
  match record.move?, direction with
  | some (_, source, target), .forward => shifting s source target
  | some (_, source, target), .backward => shifting s target source
  | none, direction => record.accesses direction

mutual

def Itemized : Record α ε → Prop
  | .removeMany indices items => indices.length ≤ items.length
  | .composite children => ItemizedAll children
  | _ => True

def ItemizedAll : List (Record α ε) → Prop
  | [] => True
  | child :: rest => Itemized child ∧ ItemizedAll rest

end

/-- What the accesses leave is left by the application, which breaks off only where the store
refuses one of them, or where items are missing. -/
def Carries (accesses : List (StoreEdit α)) (itemized : Prop) (s : Store α) :
    Application α ε → Prop
  | .ok (t, _) => perform accesses s = .ok t
  | .error (t, _) => perform accesses s = .error t ∨
    ¬ itemized ∧ ∃ front, front <+: accesses ∧ perform front s = .ok t

theorem carries_telling {accesses : List (StoreEdit α)} {s : Store α} {edited : Edited α}
    (same : edited = perform accesses s) (changes : List (Change α)) (told : Bool) :
    Carries accesses (told = true) s (telling edited changes told : Application α ε) := by
  subst same
  unfold telling
  cases outcome : perform accesses s with
  | error t => exact .inl outcome
  | ok t =>
    cases told with
    | true => exact outcome
    | false => exact .inr ⟨by simp, accesses, List.prefix_refl _, outcome⟩

theorem carries_mono {accesses : List (StoreEdit α)} {some all : Prop} {s : Store α}
    {application : Application α ε} (carries : Carries accesses some s application)
    (needs : all → some) : Carries accesses all s application := by
  unfold Carries at carries ⊢
  split <;> simp only at carries
  · exact carries
  · exact carries.imp_right fun broken => ⟨fun itemized => broken.1 (needs itemized), broken.2⟩

theorem carries_then {first second : List (StoreEdit α)} {some others : Prop} {s : Store α}
    {application : Application α ε} {next : Store α → Application α ε}
    (begun : Carries first some s application) (goes : ∀ u, Carries second others u (next u)) :
    Carries (first ++ second) (some ∧ others) s (thenApply application next) := by
  unfold thenApply
  match application with
  | .error (t, _) =>
    refine begun.imp (fun refused => ?_) fun ⟨missing, front, before, done⟩ => ?_
    · rw [perform_append, refused]
      rfl
    · exact ⟨fun both => missing both.1, front, before.trans (List.prefix_append ..), done⟩
  | .ok (u, _) =>
    have begun : perform first s = .ok u := begun
    have onward (more : List (StoreEdit α)) :
        perform (first ++ more) s = perform more u := by
      rw [perform_append, begun]
      rfl
    have goes := goes u
    dsimp only
    cases outcome : next u with
    | error broken =>
      rw [outcome] at goes
      refine goes.imp (fun refused => (onward _).trans refused) ?_
      rintro ⟨missing, front, before, done⟩
      exact ⟨fun both => missing both.2, first ++ front,
        (List.prefix_append_right_inj _).mpr before, (onward _).trans done⟩
    | ok carried =>
      rw [outcome] at goes
      exact (onward _).trans goes

theorem once_eq_perform {s : Store α} {access : StoreEdit α} {edited : Option (Store α)}
    (same : (s.edit? access).map (·.2) = edited) : once s edited = perform [access] s := by
  subst same
  simp only [once, perform]
  cases s.edit? access <;> rfl

theorem removeEach_eq_perform (indices : List Nat) (s : Store α) :
    removeEach s indices = perform (indices.map .remove) s := by
  induction indices generalizing s with
  | nil => rfl
  | cons index rest ih =>
    simp only [removeEach, List.map_cons, perform, edit?]
    cases s.remove? index with
    | none => rfl
    | some taken => exact ih taken.2

theorem insertPairs_eq_perform (ps : List (Nat × α)) (s : Store α) :
    insertPairs s ps = perform (ps.map fun p => .insert p.1 p.2) s := by
  induction ps generalizing s with
  | nil => rfl
  | cons p rest ih =>
    simp only [insertPairs, List.map_cons, perform, edit?]
    cases s.insert? p.1 p.2 with
    | none => rfl
    | some put => exact ih put

theorem map_edited {β : Type} (f : β → Reply α × Store α) (g : β → Store α)
    (same : ∀ b, (f b).2 = g b) (edited : Option β) :
    (edited.map f).map (·.2) = edited.map g := by
  cases edited <;> simp [same]

theorem map_unanswered (reply : Reply α) (edited : Option (Store α)) :
    (edited.map fun s => (reply, s)).map (·.2) = edited := by
  cases edited <;> rfl

theorem carries_putAt (s : Store α) (index : Nat) (item : α) :
    Carries [.insert index item] True s (putAt s index item : Application α ε) :=
  carries_mono (carries_telling (once_eq_perform (map_unanswered _ _)) _ true) fun _ => rfl

theorem carries_dropAt (s : Store α) (index : Nat) (item : α) :
    Carries [.remove index] True s (dropAt s index item : Application α ε) :=
  carries_mono (carries_telling (once_eq_perform (map_edited _ _ (fun _ => rfl) _)) _ true)
    fun _ => rfl

theorem carries_swapAt (s : Store α) (index : Nat) (old new : α) :
    Carries [.replace index new] True s (swapAt s index old new : Application α ε) :=
  carries_mono (carries_telling (once_eq_perform (map_edited _ _ (fun _ => rfl) _)) _ true)
    fun _ => rfl

theorem once_insertMany (s : Store α) (index : Nat) (items : List α) :
    once s (s.insertMany? index items) = perform [.insertMany index items] s :=
  once_eq_perform (map_unanswered _ _)

mutual

theorem applyEach_carries (record : Record α ε) (direction : Direction) (s : Store α) :
    Carries (record.accesses direction) record.Itemized s (record.applyEach direction s) := by
  match record, direction with
  | .add index item, .forward => exact carries_putAt s index item
  | .add index item, .backward => exact carries_dropAt s index item
  | .remove index item, .forward => exact carries_dropAt s index item
  | .remove index item, .backward => exact carries_putAt s index item
  | .addMany index items, .forward =>
    exact carries_mono (carries_telling (once_insertMany s index items) _ true) fun _ => rfl
  | .addMany index items, .backward =>
    refine carries_mono (carries_telling ?_ _ true) fun _ => rfl
    rw [removeEach_eq_perform, List.map_reverse, List.map_map]
    rfl
  | .removeMany indices items, .forward =>
    refine carries_mono (carries_telling ?_ _ _) fun enough : _ ≤ _ => decide_eq_true enough
    rw [removeEach_eq_perform, List.map_reverse]
    rfl
  | .removeMany indices items, .backward =>
    exact carries_mono (carries_telling (insertPairs_eq_perform _ s) _ _)
      fun enough : _ ≤ _ => decide_eq_true enough
  | .clear items, .forward =>
    exact carries_mono (carries_telling rfl _ true) fun _ => rfl
  | .clear items, .backward =>
    exact carries_mono (carries_telling (once_insertMany s 0 items) _ true) fun _ => rfl
  | .changeAt index old new, .forward => exact carries_swapAt s index old new
  | .changeAt index old new, .backward => exact carries_swapAt s index new old
  | .composite children, direction => exact applyAll_carries children direction s
  | .itemEdit edit, _ => exact rfl

theorem applyAll_carries (records : List (Record α ε)) (direction : Direction) (s : Store α) :
    Carries (accessesOfAll records direction) (ItemizedAll records) s
      (applyAll records direction s) := by
  match records, direction with
  | [], _ => exact rfl
  | child :: rest, .forward =>
    exact carries_then (applyEach_carries child .forward s) fun u =>
      applyAll_carries rest .forward u
  | child :: rest, .backward =>
    exact carries_mono (carries_then (applyAll_carries rest .backward s) fun u =>
      applyEach_carries child .backward u) And.symm

end

theorem shift_eq_perform (s : Store α) (source target : Nat) :
    shift s source target = perform (shifting s source target) s := by
  simp only [shift, shifting, perform, edit?, remove?]
  cases s.items[source]? with
  | none => rfl
  | some item => exact once_eq_perform (map_unanswered _ _)

/-- An application leaves what its accesses leave, and it breaks off only where the store refuses
one of them, or where a record has too few items. -/
theorem apply_carries (record : Record α ε) (direction : Direction) (s : Store α) :
    Carries (record.calls direction s) record.Itemized s (record.apply direction s) := by
  unfold calls apply
  cases record.move? with
  | none => exact applyEach_carries record direction s
  | some move =>
    cases direction <;>
      exact carries_mono (carries_telling (shift_eq_perform s _ _) _ true) fun _ => rfl

theorem apply_of_takes {record : Record α ε} {direction : Direction} {s t : Store α}
    (itemized : record.Itemized) (takes : Takes (record.calls direction s) s t) :
    ∃ effects, record.apply direction s = .ok (t, effects) := by
  have carries := apply_carries record direction s
  have performed := perform_of_takes takes
  match outcome : record.apply direction s with
  | .ok (u, effects) =>
    rw [outcome] at carries
    obtain rfl : t = u := Except.ok.inj (performed.symm.trans carries)
    exact ⟨effects, rfl⟩
  | .error (u, effects) =>
    rw [outcome] at carries
    obtain refused | ⟨missing, -⟩ := carries
    · cases performed.symm.trans refused
    · exact absurd itemized missing

end Record

end UndoableLists
