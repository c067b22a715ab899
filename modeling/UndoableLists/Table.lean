/-!
Finite tables in insertion order, with one entry for a key. Writing under a present key replaces
the entry where it stands, so the order of the keys is the order in which they first appeared.
Main statements: what `get?` answers after `insert`, `erase` and `modify`, and that it answers
exactly what the entries say.
-/
namespace UndoableLists

structure Table (κ ν : Type) where
  entries : List (κ × ν) := []
  distinct : (entries.map (·.1)).Nodup := by simp

def Table.empty {κ ν : Type} : Table κ ν := {}

namespace Table
variable {κ ν : Type} [DecidableEq κ]

def lookup (key : κ) : List (κ × ν) → Option ν
  | [] => none
  | (k, v) :: rest => if k = key then some v else lookup key rest

def put (key : κ) (value : ν) : List (κ × ν) → List (κ × ν)
  | [] => [(key, value)]
  | (k, v) :: rest => if k = key then (k, value) :: rest else (k, v) :: put key value rest

theorem keys_put (key : κ) (value : ν) (es : List (κ × ν)) :
    (put key value es).map (·.1) =
      if key ∈ es.map (·.1) then es.map (·.1) else es.map (·.1) ++ [key] := by
  induction es with
  | nil => simp [put]
  | cons e rest ih =>
    obtain ⟨k, v⟩ := e
    by_cases same : k = key
    · simp [put, same]
    · simp only [put, same, ↓reduceIte, List.map_cons, ih, List.mem_cons, Ne.symm same, false_or]
      split <;> simp

theorem distinct_put (key : κ) (value : ν) {es : List (κ × ν)} (distinct : (es.map (·.1)).Nodup) :
    ((put key value es).map (·.1)).Nodup := by
  rw [keys_put]
  split
  · exact distinct
  · rename_i absent
    rw [List.nodup_append]
    refine ⟨distinct, by simp, ?_⟩
    intro a ha b hb same
    exact absent (List.mem_singleton.mp hb ▸ same ▸ ha)

theorem keys_modified (key : κ) (f : ν → ν) (es : List (κ × ν)) :
    (es.map fun (k, v) => if k = key then (k, f v) else (k, v)).map (·.1) = es.map (·.1) := by
  rw [List.map_map]
  apply List.map_congr_left
  rintro ⟨k, v⟩ _
  by_cases same : k = key <;> simp [same]

def get? (t : Table κ ν) (key : κ) : Option ν := lookup key t.entries

def insert (t : Table κ ν) (key : κ) (value : ν) : Table κ ν :=
  ⟨put key value t.entries, distinct_put key value t.distinct⟩

def erase (t : Table κ ν) (key : κ) : Table κ ν :=
  ⟨t.entries.filter (·.1 ≠ key), (List.filter_sublist.map _).nodup t.distinct⟩

def modify (t : Table κ ν) (key : κ) (f : ν → ν) : Table κ ν :=
  ⟨t.entries.map fun (k, v) => if k = key then (k, f v) else (k, v),
    keys_modified key f t.entries ▸ t.distinct⟩

def size (t : Table κ ν) : Nat := t.entries.length

theorem lookup_put_self (key : κ) (value : ν) (es : List (κ × ν)) :
    lookup key (put key value es) = some value := by
  induction es with
  | nil => simp [put, lookup]
  | cons e rest ih =>
    obtain ⟨k, v⟩ := e
    by_cases h : k = key <;> simp [put, lookup, h, ih]

theorem lookup_put_of_ne {key other : κ} (h : other ≠ key) (value : ν) (es : List (κ × ν)) :
    lookup other (put key value es) = lookup other es := by
  induction es with
  | nil => simp [put, lookup, Ne.symm h]
  | cons e rest ih =>
    obtain ⟨k, v⟩ := e
    by_cases hk : k = key
    · subst hk
      simp [put, lookup, Ne.symm h]
    · by_cases ho : k = other
      · subst ho
        simp [put, lookup, hk]
      · simp [put, lookup, hk, ho, ih]

@[simp] theorem get?_insert_self (t : Table κ ν) (key : κ) (value : ν) :
    (t.insert key value).get? key = some value :=
  lookup_put_self key value t.entries

theorem get?_insert_of_ne (t : Table κ ν) {key other : κ} (h : other ≠ key) (value : ν) :
    (t.insert key value).get? other = t.get? other :=
  lookup_put_of_ne h value t.entries

theorem lookup_filter_ne (key other : κ) (es : List (κ × ν)) :
    lookup other (es.filter (·.1 ≠ key)) = if other = key then none else lookup other es := by
  induction es with
  | nil => simp [lookup]
  | cons e rest ih =>
    obtain ⟨k, v⟩ := e
    by_cases hk : k = key
    · subst hk
      by_cases ho : other = k
      · simp_all
      · simp_all [lookup, Ne.symm ho]
    · by_cases ho : k = other
      · subst ho
        simp_all [lookup]
      · simp_all [lookup]

theorem get?_erase (t : Table κ ν) (key other : κ) :
    (t.erase key).get? other = if other = key then none else t.get? other :=
  lookup_filter_ne key other t.entries

theorem lookup_map_modify (key other : κ) (f : ν → ν) (es : List (κ × ν)) :
    lookup other (es.map fun (k, v) => if k = key then (k, f v) else (k, v)) =
      if other = key then (lookup other es).map f else lookup other es := by
  induction es with
  | nil => simp [lookup]
  | cons e rest ih =>
    obtain ⟨k, v⟩ := e
    by_cases hk : k = key <;> by_cases ho : k = other <;> simp_all [lookup]

theorem get?_modify (t : Table κ ν) (key other : κ) (f : ν → ν) :
    (t.modify key f).get? other =
      if other = key then (t.get? other).map f else t.get? other :=
  lookup_map_modify key other f t.entries

theorem get?_modify_present {t : Table κ ν} {key : κ} {value : ν} (here : t.get? key = some value)
    (other : κ) (f : ν → ν) :
    (t.modify key f).get? other = if other = key then some (f value) else t.get? other := by
  rw [get?_modify]
  split
  · rename_i same
    rw [same, here, Option.map_some]
  · rfl

theorem map_get?_modify {β : Type} (t : Table κ ν) (key other : κ) {f : ν → ν} {g : ν → β}
    (same : ∀ v, g (f v) = g v) : ((t.modify key f).get? other).map g = (t.get? other).map g := by
  rw [get?_modify]
  split
  · rw [Option.map_map]
    exact congrArg (Option.map · _) (funext same)
  · rfl

theorem get?_insert (t : Table κ ν) (key other : κ) (value : ν) :
    (t.insert key value).get? other = if other = key then some value else t.get? other := by
  split
  · rename_i same
    rw [same, get?_insert_self]
  · rename_i differ
    exact get?_insert_of_ne t differ value

omit [DecidableEq κ] in
theorem ext_entries {t u : Table κ ν} (same : t.entries = u.entries) : t = u := by
  cases t; cases u
  simp_all

theorem put_present {key : κ} {value : ν} {es : List (κ × ν)} (h : lookup key es = some value) :
    put key value es = es := by
  induction es with
  | nil => simp [lookup] at h
  | cons e rest ih =>
    obtain ⟨k, v⟩ := e
    by_cases same : k = key
    · simp_all [put, lookup]
    · simp only [lookup, same, ↓reduceIte] at h
      simp [put, same, ih h]

theorem insert_present {t : Table κ ν} {key : κ} {value : ν} (h : t.get? key = some value) :
    t.insert key value = t :=
  ext_entries (put_present h)

theorem put_put (key : κ) (first second : ν) (es : List (κ × ν)) :
    put key second (put key first es) = put key second es := by
  induction es with
  | nil => simp [put]
  | cons e rest ih =>
    obtain ⟨k, v⟩ := e
    by_cases same : k = key <;> simp [put, same, ih]

@[simp] theorem insert_insert (t : Table κ ν) (key : κ) (first second : ν) :
    (t.insert key first).insert key second = t.insert key second :=
  ext_entries (put_put key first second t.entries)

theorem filter_put (key : κ) (value : ν) (es : List (κ × ν)) :
    (put key value es).filter (·.1 ≠ key) = es.filter (·.1 ≠ key) := by
  induction es with
  | nil => simp [put]
  | cons e rest ih =>
    obtain ⟨k, v⟩ := e
    by_cases same : k = key
    · simp [put, same]
    · simpa [put, same] using ih

@[simp] theorem erase_insert (t : Table κ ν) (key : κ) (value : ν) :
    (t.insert key value).erase key = t.erase key :=
  ext_entries (filter_put key value t.entries)

@[simp] theorem erase_erase (t : Table κ ν) (key : κ) : (t.erase key).erase key = t.erase key :=
  ext_entries (by simp [erase])

theorem lookup_eq_some_iff {key : κ} {value : ν} {es : List (κ × ν)}
    (distinct : (es.map (·.1)).Nodup) : lookup key es = some value ↔ (key, value) ∈ es := by
  induction es with
  | nil => simp [lookup]
  | cons e rest ih =>
    obtain ⟨k, v⟩ := e
    rw [List.map_cons, List.nodup_cons] at distinct
    by_cases same : k = key
    · subst same
      have absent : (k, value) ∉ rest := fun member =>
        distinct.1 (List.mem_map.mpr ⟨(k, value), member, rfl⟩)
      simp [lookup, absent, eq_comm]
    · simp [lookup, same, Ne.symm same, ih distinct.2]

theorem get?_eq_some_iff {t : Table κ ν} {key : κ} {value : ν} :
    t.get? key = some value ↔ (key, value) ∈ t.entries :=
  lookup_eq_some_iff t.distinct

theorem modify_same {t : Table κ ν} {key : κ} {f : ν → ν}
    (same : ∀ value, t.get? key = some value → f value = value) : t.modify key f = t := by
  refine ext_entries ((List.map_congr_left ?_).trans (List.map_id _))
  rintro ⟨k, v⟩ member
  dsimp only
  split
  · rename_i here
    rw [same v (here ▸ get?_eq_some_iff.mpr member), id]
  · rfl

theorem modify_absent {t : Table κ ν} {key : κ} (absent : t.get? key = none) (f : ν → ν) :
    t.modify key f = t := by
  refine modify_same fun value here => ?_
  rw [absent] at here
  cases here

theorem erase_absent {t : Table κ ν} {key : κ} (absent : t.get? key = none) : t.erase key = t := by
  refine ext_entries (List.filter_eq_self.mpr ?_)
  rintro ⟨k, v⟩ member
  have there := get?_eq_some_iff.mpr member
  refine decide_eq_true fun same => ?_
  rw [← same, there] at absent
  cases absent

theorem modify_modify (t : Table κ ν) (key : κ) (f g : ν → ν) :
    (t.modify key f).modify key g = t.modify key fun v => g (f v) := by
  refine ext_entries ((List.map_map ..).trans (List.map_congr_left ?_))
  rintro ⟨k, v⟩ _
  by_cases same : k = key <;> simp [same]

theorem entries_eq_nil {t : Table κ ν} (empty : ∀ key, t.get? key = none) :
    t.entries = [] := by
  refine List.eq_nil_iff_forall_not_mem.mpr ?_
  rintro ⟨k, v⟩ member
  cases (empty k).symm.trans (get?_eq_some_iff.mpr member)

theorem entries_eq_singleton {t : Table κ ν} {key : κ} {value : ν}
    (only : ∀ k, t.get? k = if k = key then some value else none) :
    t.entries = [(key, value)] := by
  have same : ∀ e ∈ t.entries, e = (key, value) := by
    rintro ⟨k, v⟩ member
    have found := (only k).symm.trans (get?_eq_some_iff.mpr member)
    split at found
    · simp_all
    · cases found
  have present : (key, value) ∈ t.entries := get?_eq_some_iff.mp ((only key).trans (if_pos rfl))
  have distinct := t.distinct
  cases entries : t.entries with
  | nil => simp [entries] at present
  | cons e rest =>
    rw [entries] at same distinct
    obtain ⟨rfl, others⟩ := List.forall_mem_cons.mp same
    have none_left : rest = [] := by
      refine List.eq_nil_iff_forall_not_mem.mpr fun f member => ?_
      refine (List.nodup_cons.mp distinct).1 (List.mem_map.mpr ⟨f, member, ?_⟩)
      rw [others f member]
    rw [none_left]

end Table

end UndoableLists
