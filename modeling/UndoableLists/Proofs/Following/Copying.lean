import UndoableLists.Proofs.Following.Looking
import UndoableLists.Proofs.Following.Audiences

/-!
The copy that a subscriber keeps of a view. Main statements: a subscriber that hears of a change
that it is behind by has a right copy then, if the view has cached nothing wrong; and what it does
is nothing to other subscribers.
-/
namespace UndoableLists.World
variable {α κ δ : Type}

def relook [Element α] [Diary δ] (h : Handle) : Change α → Work α κ δ (List α)
  | .reset => look h
  | _ => return []

def copying [Element α] (h : Handle) : Call α κ (ViewCopies α) := fun s _ event => do
  Act.modify fun w => { w with client := { w.client with told := w.client.told ++ [(s, event)] } }
  match event with
  | .property _ => return ()
  | .collection change => do
    let fresh ← relook h change
    Act.modify fun w => { w with client := { w.client with
      copies := Function.update w.client.copies s
        ((w.client.copies s).bind (change.replay? fresh)) } }

def Informed (s : SubscriberId) (event : Event α) (w v : World α κ (ViewCopies α)) : Prop :=
  ∃ more, v.client.told = w.client.told ++ more ∧ (s, event) ∈ more

/-- `x` has a copy, and it is the right one if there is anything to be seen. -/
structure Current (value : α → Value) (h : Handle) (x : SubscriberId)
    (w : World α κ (ViewCopies α)) :
    Prop where
  copied : (w.client.copies x).isSome
  right : ∀ items, w.shown value h = .ok items → w.client.copies x = some items

/-- `x` has a copy, and the right one as soon as it has heard of the change. -/
structure Behind (value : α → Value) (h : Handle) (x : SubscriberId) (change : Change α)
    (w : World α κ (ViewCopies α)) : Prop where
  copied : (w.client.copies x).isSome
  right : change = .reset ∨ ∃ items, w.shown value h = .ok items ∧
    (w.client.copies x).bind (change.replay? items) = some items

/-- `x` only keeps its copy, and the others touch neither it nor what it depends on. Whoever is
called has been told. -/
structure Attends [Element α] (call : Call α κ (ViewCopies α)) (value : α → Value) (h : Handle)
    (x : SubscriberId) : Prop where
  copies : ∀ k event, call x k event = copying h x k event
  tells : ∀ s k event w, Informed s event w (call s k event w).2
  others : ∀ s k event w, s ≠ x → Unmoved value h x w (call s k event w).2

section
variable {s : SubscriberId} {event : Event α} {u v w : World α κ (ViewCopies α)}

theorem told_after (before : w.client.told <+: u.client.told) (told : Informed s event u v) :
    Informed s event w v := by
  obtain ⟨early, first⟩ := before
  obtain ⟨more, second, member⟩ := told
  exact ⟨early ++ more, by rw [second, ← first, List.append_assoc],
    List.mem_append_right _ member⟩

theorem told_before (told : Informed s event w u) (after : u.client.told <+: v.client.told) :
    Informed s event w v := by
  obtain ⟨more, first, member⟩ := told
  obtain ⟨late, second⟩ := after
  exact ⟨more ++ late, by rw [← second, first, List.append_assoc], List.mem_append_left _ member⟩

end

section
variable [Element α] {value : α → Value} {h k : Handle} {x s : SubscriberId}
  {change : Change α} {u v w : World α κ (ViewCopies α)}

theorem current_unmoved (current : Current value h x w) (unmoved : Unmoved value h x w v) :
    Current value h x v where
  copied := unmoved.copy ▸ current.copied
  right items shows := by
    rw [unmoved.copy]
    exact current.right items (shown_alike unmoved.toAlike h ▸ shows)

theorem behind_unmoved (behind : Behind value h x change w) (unmoved : Unmoved value h x w v) :
    Behind value h x change v where
  copied := unmoved.copy ▸ behind.copied
  right := by
    rw [unmoved.copy, shown_alike unmoved.toAlike h]
    exact behind.right

omit [Element α] in
theorem behind_reset (copied : (w.client.copies x).isSome) : Behind value h x .reset w :=
  ⟨copied, .inl rfl⟩

def logged (s : SubscriberId) (event : Event α) (w : World α κ (ViewCopies α)) :
    World α κ (ViewCopies α) :=
  { w with client := { w.client with told := w.client.told ++ [(s, event)] } }

def recopied (s : SubscriberId) (copy : Option (List α)) (w : World α κ (ViewCopies α)) :
    World α κ (ViewCopies α) :=
  { w with client := { w.client with copies := Function.update w.client.copies s copy } }

theorem unmoved_logged (s : SubscriberId) (event : Event α) (w : World α κ (ViewCopies α)) :
    Unmoved value h x w (logged s event w) :=
  ⟨alike_client (List.prefix_append _ _), rfl⟩

theorem alike_recopied (s : SubscriberId) (copy : Option (List α)) (w : World α κ (ViewCopies α)) :
    Alike value h w (recopied s copy w) := alike_client (List.prefix_refl _)

theorem unmoved_recopied (differs : s ≠ x) (copy : Option (List α)) (w : World α κ (ViewCopies α)) :
    Unmoved value h x w (recopied s copy w) :=
  ⟨alike_recopied s copy w, Function.update_of_ne (Ne.symm differs) ..⟩

omit [Element α] in
theorem told_logged (s : SubscriberId) (event : Event α) (w : World α κ (ViewCopies α)) :
    Informed s event w (logged s event w) := ⟨[(s, event)], rfl, List.mem_singleton_self _⟩

theorem copying_property (h : Handle) (s : SubscriberId) (i : κ) (p : Property)
    (w : World α κ (ViewCopies α)) :
    copying h s i (.property p) w = (.ok (), logged s (.property p) w) := rfl

theorem copying_change (h : Handle) (s : SubscriberId) (i : κ) (change : Change α)
    (w : World α κ (ViewCopies α)) : copying h s i (.collection change) w =
      match relook h change (logged s (.collection change) w) with
      | (.ok fresh, v) =>
        (.ok (), recopied s ((v.client.copies s).bind (change.replay? fresh)) v)
      | (.error fault, v) => (.error fault, v) := by
  have told : (Act.modify (logged s (.collection change)) : Work α κ (ViewCopies α) Unit) w =
      (.ok (), logged s (.collection change) w) := rfl
  refine (Act.bind_of_ok told _).trans ?_
  dsimp only
  rw [Act.bind_apply]
  rcases relook h change (logged s (.collection change) w) with ⟨_ | _, v⟩ <;> rfl

theorem unmoved_relook (immutable : ∀ id, h = .filter id → Fixed value) (change : Change α)
    (w : World α κ (ViewCopies α)) : Unmoved value h x w (relook h change w).2 := by
  cases change with
  | reset => exact unmoved_look immutable h w
  | _ => exact unmoved_refl w

theorem unmoved_copying (immutable : ∀ id, h = .filter id → Fixed value) (differs : s ≠ x) (i : κ)
    (event : Event α) (w : World α κ (ViewCopies α)) :
    Unmoved value h x w (copying h s i event w).2 := by
  cases event with
  | property p => exact unmoved_logged s _ w
  | collection change =>
    have read : Unmoved value h x w (relook h change (logged s (.collection change) w)).2 :=
      unmoved_trans (unmoved_logged s _ w) (unmoved_relook immutable change _)
    rw [copying_change]
    split <;> rename_i outcome <;> rw [outcome] at read
    · exact unmoved_trans read (unmoved_recopied differs _ _)
    · exact read

theorem told_relook (h : Handle) (change : Change α) (w : World α κ (ViewCopies α)) :
    w.client.told <+: (relook h change w).2.client.told := by
  have immutable (id : ViewId) (list : Handle.list 0 = .filter id) :
      Fixed (Element.current w.objects : α → Value) := by cases list
  cases change with
  | reset => exact (unmoved_look (x := 0) immutable h w).told
  | _ => exact List.prefix_refl _

theorem copying_tells (h : Handle) (s : SubscriberId) (i : κ) (event : Event α)
    (w : World α κ (ViewCopies α)) : Informed s event w (copying h s i event w).2 := by
  cases event with
  | property p => exact told_logged s _ w
  | collection change =>
    have read := told_relook h change (logged s (.collection change) w)
    rw [copying_change]
    split <;> rename_i outcome <;> rw [outcome] at read
    all_goals exact told_before (told_logged s _ w) read

theorem attends_copying (immutable : ∀ id, h = .filter id → Fixed value) (x : SubscriberId) :
    Attends (copying h : Call α κ (ViewCopies α)) value h x where
  copies _ _ := rfl
  tells := copying_tells h
  others _ i event w differs := unmoved_copying immutable differs i event w

theorem relook_suits (immutable : ∀ id, h = .filter id → Fixed value) (run : Run w)
    (readable : w.Open h) (truthful : Truthful value h w) (behind : Behind value h x change w) :
    (∃ fresh items, (relook h change w).1 = .ok fresh ∧ w.shown value h = .ok items ∧
      (w.client.copies x).bind (change.replay? fresh) = some items) ∨
    ∃ fault label, (relook h change w).1 = .error fault ∧ w.shown value h = .error label := by
  obtain ⟨copy, copied⟩ := Option.isSome_iff_exists.mp behind.copied
  have reads := look_answers immutable run readable truthful
  obtain rfl | ⟨items, shows, right⟩ := behind.right
  · cases shows : w.shown value h with
    | error label => exact .inr ⟨_, label, reads.trans (by rw [shows]; rfl), rfl⟩
    | ok items =>
      exact .inl ⟨items, items, reads.trans (by rw [shows]; rfl), rfl, by rw [copied]; rfl⟩
  · left
    cases change with
    | reset =>
      refine ⟨items, items, reads.trans (by rw [shows]; rfl), shows, right⟩
    | _ => exact ⟨[], items, rfl, shows, right⟩

theorem copying_hears (immutable : ∀ id, h = .filter id → Fixed value) (run : Run w)
    (readable : w.Open h) (tended : Tended h w) (truthful : Truthful value h w)
    (behind : Behind value h x change w) (i : κ) :
    Alike value h w (copying h x i (.collection change) w).2 ∧
      Current value h x (copying h x i (.collection change) w).2 := by
  have begun : Unmoved value h x w (logged x (.collection change) w) := unmoved_logged x _ w
  have read := unmoved_trans begun (unmoved_relook immutable change _)
  have suits := relook_suits immutable (begun.run run)
    (open_alike begun.toAlike (begun.tended run tended) readable) (begun.truthful truthful)
    (behind_unmoved behind begun)
  rw [shown_alike begun.toAlike, begun.copy] at suits
  rw [copying_change]
  rcases outcome : relook h change (logged x (.collection change) w) with ⟨fault | fresh, v⟩
  all_goals rw [outcome] at read suits
  · obtain ⟨_, _, answered, -, -⟩ | ⟨_, label, -, fails⟩ := suits
    · cases answered
    · refine ⟨read.toAlike, read.copy ▸ behind.copied, fun items shows => ?_⟩
      rw [shown_alike read.toAlike, fails] at shows
      cases shows
  · obtain ⟨_, items, answered, shows, right⟩ | ⟨_, _, answered, -⟩ := suits
    · obtain rfl := Except.ok.inj answered
      have also := alike_trans read.toAlike
        (alike_recopied x ((v.client.copies x).bind (change.replay? fresh)) v)
      have copy : (recopied x ((v.client.copies x).bind (change.replay? fresh)) v).client.copies x =
          some items := by
        rw [← right, ← read.copy]
        exact Function.update_self ..
      refine ⟨also, Option.isSome_iff_exists.mpr ⟨items, copy⟩, fun others shown => ?_⟩
      rw [shown_alike also, shows] at shown
      exact copy.trans (congrArg some (Except.ok.inj shown))
    · cases answered

end

end UndoableLists.World
