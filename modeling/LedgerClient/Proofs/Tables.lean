import LedgerClient.Dictionary

/-! What is found in a table. Putting an entry in changes what is found under its key
and nothing else, and the entries of a table are exactly what can be found in it. Where
steps replace a part of a state, the last of them counts. -/

namespace LedgerClient
variable {step : σ → ι → σ} {given : ι → Option β}

/-- Where steps replace a part of a state or leave it, the last one that replaces it counts. -/
theorem foldl_last? {part : σ → Option β}
    (replaces : ∀ state item, part (step state item) = (given item).or (part state)) (items : List ι) (state : σ) :
    part (items.foldl step state) = (items.filterMap given).getLast?.or (part state) := by
  induction items generalizing state with
  | nil => rfl
  | cons item items ih =>
    rw [List.foldl_cons, ih, replaces, List.filterMap_cons]
    cases given item with
    | none => rfl
    | some value => rw [List.getLast?_cons, Option.some_or, Option.some_or, Option.or_some]

theorem foldl_last {part : σ → β} (replaces : ∀ state item, part (step state item) = (given item).getD (part state))
    (items : List ι) (state : σ) :
    part (items.foldl step state) = (items.filterMap given).getLast?.getD (part state) := by
  have replaced : ∀ state item, some (part (step state item)) = (given item).or (some (part state)) := by
    intro state item
    rw [replaces, Option.or_some]
  have last := @foldl_last? _ _ _ step given (fun state => some (part state)) replaced items state
  rw [Option.or_some] at last
  exact Option.some.inj last

end LedgerClient

namespace LedgerClient.Entries

theorem find?_cons (key : String) (head : String × α) (rest : List (String × α)) :
    find? key (head :: rest) = if head.1 = key then some head.2 else find? key rest := by
  rw [find?, List.find?_cons]
  split
  next same => rw [if_pos (of_decide_eq_true same), Option.map_some]
  next other =>
    rw [if_neg (of_decide_eq_false other)]
    rfl

private theorem find?_insert (key other : String) (value : α) (entries : List (String × α)) :
    find? other (insert key value entries) = if key = other then some value else find? other entries := by
  induction entries with
  | nil => exact find?_cons other (key, value) []
  | cons head rest ih =>
    obtain ⟨k, v⟩ := head
    unfold insert
    split
    next less => rw [find?_cons]
    next not_less =>
      split
      next same =>
        cases same
        simp only [find?_cons]
        split <;> rfl
      next different =>
        simp only [find?_cons, ih]
        by_cases here : k = other
        · rw [if_pos here, if_neg fun same => different (same.trans here.symm), if_pos here]
        · rw [if_neg here, if_neg here]

private theorem mem_iff_find? {entries : List (String × α)} (sorted : Ascending entries) {key : String} {value : α} :
    (key, value) ∈ entries ↔ find? key entries = some value := by
  induction entries with
  | nil => exact iff_of_false List.not_mem_nil (Option.some_ne_none value).symm
  | cons head rest ih =>
    obtain ⟨k, v⟩ := head
    obtain ⟨above, sorted⟩ := List.pairwise_cons.mp sorted
    rw [find?_cons, List.mem_cons]
    split
    next same =>
      constructor
      · rintro (same' | inside)
        · cases same'
          rfl
        · have less : k < key := above (key, value) inside
          exact absurd (same ▸ less) (String.lt_irrefl key)
      · intro found
        cases found
        exact .inl (Prod.ext same.symm rfl)
    next other =>
      rw [← ih sorted]
      exact ⟨fun inside => inside.resolve_left fun same => other (congrArg Prod.fst same).symm, .inr⟩

/-- What is given last under a key. -/
def last? (key : String) (entries : List (String × α)) : Option α :=
  ((entries.filter (·.1 = key)).getLast?).map (·.2)

private theorem last?_cons (key : String) (head : String × α) (rest : List (String × α)) :
    last? key (head :: rest) = if head.1 = key then some ((last? key rest).getD head.2) else last? key rest := by
  rw [last?, List.filter_cons]
  by_cases same : head.1 = key
  · rw [if_pos same, if_pos (decide_eq_true same), List.getLast?_cons, last?]
    cases (rest.filter (·.1 = key)).getLast? <;> rfl
  · rw [if_neg same, if_neg fun equal => same (of_decide_eq_true equal)]
    rfl

/-- Of the entries that are put in under a key the last one stays. -/
theorem find?_foldl_insert (key : String) (entries table : List (String × α)) :
    find? key (entries.foldl (fun table entry => insert entry.1 entry.2 table) table) =
      (last? key entries).or (find? key table) := by
  induction entries generalizing table with
  | nil => rfl
  | cons entry entries ih =>
    rw [List.foldl_cons, ih, find?_insert, last?_cons]
    split
    next => cases last? key entries <;> rfl
    next => rfl

private theorem find?_ascending (key : String) (entries : List (String × α)) :
    find? key (ascending entries) = last? key entries := by
  rw [ascending, find?_foldl_insert]
  exact Option.or_none

theorem mem_ascending_iff_last? {key : String} {value : α} {entries : List (String × α)} :
    (key, value) ∈ ascending entries ↔ last? key entries = some value := by
  rw [mem_iff_find? (ascending_ascending entries), find?_ascending]

private theorem mem_of_last? {key : String} {value : α} {entries : List (String × α)}
    (last : last? key entries = some value) : (key, value) ∈ entries := by
  obtain ⟨⟨k, v⟩, found, same⟩ := Option.map_eq_some_iff.mp last
  obtain ⟨inside, named⟩ := List.mem_filter.mp (List.mem_of_getLast? found)
  cases of_decide_eq_true named
  cases same
  exact inside

private theorem exists_last? {key : String} {value : α} {entries : List (String × α)} (among : (key, value) ∈ entries) :
    ∃ kept, last? key entries = some kept := by
  have filled : entries.filter (·.1 = key) ≠ [] :=
    List.ne_nil_of_mem (List.mem_filter.mpr ⟨among, decide_eq_true rfl⟩)
  refine ⟨((entries.filter (·.1 = key)).getLast filled).2, ?_⟩
  rw [last?, List.getLast?_eq_some_getLast filled, Option.map_some]

theorem mem_of_mem_ascending {entries : List (String × α)} {entry : String × α} (among : entry ∈ ascending entries) :
    entry ∈ entries :=
  mem_of_last? (mem_ascending_iff_last?.mp among)

/-- Every key keeps one of its entries. -/
theorem exists_mem_ascending {key : String} {entries : List (String × α)} {value : α} (among : (key, value) ∈ entries) :
    ∃ kept, (key, kept) ∈ ascending entries := by
  obtain ⟨kept, last⟩ := exists_last? among
  exact ⟨kept, mem_ascending_iff_last?.mpr last⟩

theorem mem_ascending {key : String} {entries : List (String × α)}
    (single : ∀ value other, (key, value) ∈ entries → (key, other) ∈ entries → value = other) {value : α} :
    (key, value) ∈ ascending entries ↔ (key, value) ∈ entries := by
  refine ⟨mem_of_mem_ascending, fun among => ?_⟩
  obtain ⟨kept, stays⟩ := exists_mem_ascending among
  cases single value kept among (mem_of_mem_ascending stays)
  exact stays

theorem nodup_ascending (entries : List (String × α)) : ((ascending entries).map Prod.fst).Nodup := by
  refine List.pairwise_map.mpr ((ascending_ascending entries).imp fun {first second} less same => ?_)
  exact String.lt_irrefl _ (same ▸ less)

end LedgerClient.Entries

namespace LedgerClient.Dictionary

theorem find?_insert (table : Dictionary α) (key other : String) (value : α) :
    (table.insert key value).find? other = if key = other then some value else table.find? other :=
  Entries.find?_insert key other value table.entries

theorem mem_entries {table : Dictionary α} {key : String} {value : α} :
    (key, value) ∈ table.entries ↔ table.find? key = some value := Entries.mem_iff_find? table.ascending

/-- The table with the entries put in one after the other. -/
def insertAll (table : Dictionary α) (entries : List (String × α)) : Dictionary α :=
  entries.foldl (fun table entry => table.insert entry.1 entry.2) table

private theorem entries_insertAll (table : Dictionary α) (entries : List (String × α)) :
    (table.insertAll entries).entries =
      entries.foldl (fun table entry => Entries.insert entry.1 entry.2 table) table.entries := by
  induction entries generalizing table with
  | nil => rfl
  | cons entry entries ih => exact ih (table.insert entry.1 entry.2)

theorem find?_insertAll (table : Dictionary α) (entries : List (String × α)) (key : String) :
    (table.insertAll entries).find? key = (Entries.last? key entries).or (table.find? key) := by
  rw [find?, entries_insertAll, Entries.find?_foldl_insert]
  rfl

theorem ofList_eq (entries : List (String × α)) : ofList entries = empty.insertAll entries := by
  have same := entries_insertAll empty entries
  cases all : empty.insertAll entries with
  | mk entries' ascending =>
    rw [all] at same
    cases same
    rfl

end LedgerClient.Dictionary
