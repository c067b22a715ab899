import UndoableLists.Proofs.Following.Beginnings

/-!
A whole course of calls. A subscriber takes a copy of a view, and from then on lists are mutated,
their changes are undone and redone, and the view gets other filters or other slaves. Main
statement: after each of these calls the copy is what the view shows, and if the view's length
differs, all who asked for its properties were told so.
-/
namespace UndoableLists.World
variable {α κ : Type}

/-- A call that may change what is to be seen at `h`, and raises all it has to tell. No list is
shown twice, so a list that becomes a slave is not among those shown. -/
inductive ViewCall [Element α] (call : Call α κ (ViewCopies α)) (h : Handle)
    (w : World α κ (ViewCopies α)) : World α κ (ViewCopies α) → Prop
  | mutates (c : ListId) (op : Operation α) : ViewCall call h w (mutate call c true op w).2
  | replays (c : ListId) (direction : Direction) :
    ViewCall call h w (replay call c true direction w).2
  | writes (id : ViewId) (op : Operation α) : ViewCall call h w (mutateMaster call id op w).2
  | sifts {id : ViewId} (view : h = .filter id) (filter : Option Filter) :
    ViewCall call h w (setFilter call id filter w).2
  | adds {id : ViewId} (view : h = .merge id) {c : ListId}
    (present : ∃ l, w.lists.get? c = some l) (apart : c ∉ w.sources h) :
    ViewCall call h w (addSlave call id c w).2
  | removes {id : ViewId} (view : h = .merge id) (index : Nat) :
    ViewCall call h w (removeSlave call id index w).2
  | clears {id : ViewId} (view : h = .merge id) : ViewCall call h w (clearSlaves call id w).2

/-- How `x` came to follow the view: it subscribed and copied what it saw. Since then there were
calls, other clients subscribed, and things happened that are nothing to it. -/
inductive Followed [Element α] (call : Call α κ (ViewCopies α)) (value : α → Value) (h : Handle)
    (x : SubscriberId) : World α κ (ViewCopies α) → Prop
  | begun {w : World α κ (ViewCopies α)} {items : List α} (furnished : Furnished h w)
    (truthful : Truthful value h w) (seen : (look h w).1 = .ok items) (i : κ)
    (named : w.nextSubscriber = x) : Followed call value h x (w.begin h i items)
  | called {w v : World α κ (ViewCopies α)} (followed : Followed call value h x w)
    (called : ViewCall call h w v) : Followed call value h x v
  | joined {w : World α κ (ViewCopies α)} (followed : Followed call value h x w) (k : Handle)
    (t : Topic) (i : κ) : Followed call value h x (w.subscribe k t (.client i)).2
  | elsewhere {w v : World α κ (ViewCopies α)} (followed : Followed call value h x w)
    (unmoved : Unmoved value h x w v) : Followed call value h x v

section
variable [Element α] {value : α → Value} {h : Handle} {x : SubscriberId}
  {call : Call α κ (ViewCopies α)} {v w : World α κ (ViewCopies α)}

theorem call_abreast (immutable : ∀ id, h = .filter id → Fixed value)
    (attends : Attends call value h x) (abreast : Abreast value h x w)
    (called : ViewCall call h w v) : Abreast value h x v ∧ Counted value h w v := by
  cases called with
  | mutates c op => exact mutate_abreast immutable attends abreast c op
  | replays c direction => exact replay_abreast immutable attends abreast c direction
  | writes id op => exact mutateMaster_abreast immutable attends abreast id op
  | sifts view filter =>
    subst view
    exact setFilter_abreast immutable attends abreast filter
  | adds view present apart =>
    subst view
    exact addSlave_abreast immutable attends abreast present apart
  | removes view index =>
    subst view
    exact removeSlave_abreast immutable attends abreast index
  | clears view =>
    subst view
    exact clearSlaves_abreast immutable attends abreast

theorem look_iff_shown (immutable : ∀ id, h = .filter id → Fixed value) (run : Run w)
    (readable : w.Open h) (truthful : Truthful value h w) (items : List α) :
    (look h w).1 = .ok items ↔ w.shown value h = .ok items := by
  rw [look_answers immutable run readable truthful]
  cases w.shown value h <;> simp [Except.mapError]

theorem abreast_of_followed (immutable : ∀ id, h = .filter id → Fixed value)
    (attends : Attends call value h x) (followed : Followed call value h x w) :
    Abreast value h x w := by
  induction followed with
  | begun furnished truthful seen i named =>
    subst named
    exact abreast_begin furnished truthful
      ((look_iff_shown immutable furnished.run furnished.readable truthful _).mp seen) i
  | called _ called ih => exact (call_abreast immutable attends ih called).1
  | joined _ k t i ih => exact abreast_subscribe ih k t i
  | elsewhere _ unmoved ih => exact abreast_unmoved ih unmoved

/-- Where all came from nothing both kinds of views can be followed as soon as they are made. -/
theorem followed_of_made (made : Made w) {c : ListId} {l : UndoableList α}
    (here : w.lists.get? c = some l) (settings : Patience) (i : κ) :
    (∀ predicate, Fixed value →
      Followed call value (.filter w.nextView) (w.nextSubscriber + 2)
        ((createFilter c predicate settings w).begin (.filter w.nextView) i l.contents)) ∧
    Followed call value (.merge w.nextView) (w.nextSubscriber + 2)
      ((createMerge c settings w).begin (.merge w.nextView) i l.contents) := by
  have grounds := grounds_of_made made
  constructor
  · intro predicate fixed
    obtain ⟨furnished, truthful, shows⟩ := furnished_createFilter grounds here predicate settings
    have seen := (look_iff_shown (fun _ _ => fixed) furnished.run furnished.readable truthful _).mpr
      shows
    exact .begun furnished truthful seen i rfl
  · obtain ⟨furnished, truthful, shows⟩ := furnished_createMerge grounds here settings
    have seen := (look_iff_shown (by simp) furnished.run furnished.readable truthful _).mpr shows
    exact .begun furnished truthful seen i rfl

theorem look_of_abreast (immutable : ∀ id, h = .filter id → Fixed value)
    (abreast : Abreast value h x w) :
    (∃ items, (look h w).1 = .ok items ∧ w.client.copies x = some items) ∨
      ∃ id label, h = .filter id ∧ (look h w).1 = .error (.panicked label) ∧
        w.shown value h = .error label := by
  have reads := look_answers immutable abreast.run abreast.readable abreast.truthful
  cases shows : w.shown value h with
  | ok items =>
    refine .inl ⟨items, ?_, abreast.current.right items shows⟩
    rw [reads, shows]
    rfl
  | error label =>
    rw [shows] at reads
    cases h with
    | list id => cases shows
    | filter id => exact .inr ⟨id, label, rfl, reads, rfl⟩
    | merge id =>
      obtain ⟨m, readable⟩ := abreast.readable
      simp [shown, readable.view] at shows

/-- A subscriber that reads the view anew at a reset and makes all other changes on its copy has the
view's contents after every call; and whenever the view's length has changed, all who asked for
properties were told that the count did. -/
theorem copy_is_the_view_after_every_call (immutable : ∀ id, h = .filter id → Fixed value)
    (attends : Attends call value h x) (followed : Followed call value h x w)
    (called : ViewCall call h w v) :
    ((∃ items, (look h v).1 = .ok items ∧ v.client.copies x = some items) ∨
      ∃ id label, h = .filter id ∧ (look h v).1 = .error (.panicked label) ∧
        v.shown value h = .error label) ∧
    ∀ before after, (look h w).1 = .ok before → (look h v).1 = .ok after →
      before.length ≠ after.length →
      ∀ y i, (y, .client i) ∈ w.roster h .properties → Informed y (.property .count) w v := by
  have then' := abreast_of_followed immutable attends followed
  obtain ⟨now, counted⟩ := call_abreast immutable attends then' called
  refine ⟨look_of_abreast immutable now, fun before after was is => ?_⟩
  exact counted before after
    ((look_iff_shown immutable then'.run then'.readable then'.truthful _).mp was)
    ((look_iff_shown immutable now.run now.readable now.truthful _).mp is)

end

def viewedWorld : World Value Bool (ViewCopies Value) :=
  createFilter 1 Filter.judge {} (createList { items := [.int 1, .int 2] } { client := {} }).2

def accompaniedWorld : World Value Bool (ViewCopies Value) :=
  ((viewedWorld.begin (.filter 0) true [.int 1, .int 2]).subscribe (.filter 0) .properties
    (.client false)).2

def narrowedWorld : World Value Bool (ViewCopies Value) :=
  (setFilter (copying (.filter 0)) 0 (some (.above 1))
    (mutate (copying (.filter 0)) 1 true (.push (.int 3)) accompaniedWorld).2).2

theorem narrowed_followed : Followed (copying (.filter 0)) id (.filter 0) 2 narrowedWorld := by
  have made : Made (createList { items := [.int 1, .int 2] }
      ({ client := {} } : World Value Bool (ViewCopies Value))).2 := (Made.nothing {}).list _
  obtain ⟨l, here, contents⟩ : ∃ l, (createList { items := [.int 1, .int 2] }
      ({ client := {} } : World Value Bool (ViewCopies Value))).2.lists.get? 1 = some l ∧
        l.contents = [.int 1, .int 2] := ⟨_, rfl, rfl⟩
  have begun : Followed (copying (.filter 0)) id (.filter 0) 2
      (viewedWorld.begin (.filter 0) true [.int 1, .int 2]) :=
    contents ▸ (followed_of_made made here {} true).1 Filter.judge fun _ _ => rfl
  exact ((begun.joined _ _ _).called (.mutates ..)).called (.sifts rfl _)

def extendedWorld : World Value Bool (ViewCopies Value) :=
  (mutate (copying (.filter 0)) 1 true (.push (.int 5)) narrowedWorld).2

/-- A push under a filter is told as a reset, and the copy is read anew. -/
theorem pushed_item_is_copied :
    (look (.filter 0) extendedWorld).1 = .ok [.int 2, .int 3, .int 5] ∧
      extendedWorld.client.copies 2 = some [.int 2, .int 3, .int 5] ∧
      Informed 3 (.property .count) narrowedWorld extendedWorld := by
  have before : (look (.filter 0) narrowedWorld).1 = .ok [.int 2, .int 3] := by cbv
  have after : (look (.filter 0) extendedWorld).1 = .ok [.int 2, .int 3, .int 5] := by cbv
  have asks : narrowedWorld.roster (.filter 0) .properties = [(3, .client false)] := by cbv
  have immutable : ∀ k, Handle.filter 0 = .filter k → Fixed (id : Value → Value) :=
    fun _ _ _ _ => rfl
  have pushed : ViewCall (copying (.filter 0)) (.filter 0) narrowedWorld extendedWorld := by
    rw [extendedWorld]
    exact .mutates ..
  obtain ⟨copied, counted⟩ := copy_is_the_view_after_every_call immutable
    (attends_copying immutable 2) narrowed_followed pushed
  refine ⟨after, ?_, counted _ _ before after (by decide) 3 false ?_⟩
  · rcases copied with ⟨items, seen, copy⟩ | ⟨_, _, _, fails, _⟩
    · rw [after] at seen
      exact Except.ok.inj seen ▸ copy
    · rw [after] at fails
      cases fails
  · rw [asks]
    exact List.mem_singleton_self _

end UndoableLists.World
