/-! Tables from texts to values. The entries stand in ascending order of their
keys, each key once; putting an entry in replaces the one that has its key. The
order of texts is that of their code points, which is also that of their octets. -/

namespace LedgerClient.Entries

def insert (key : String) (value : α) : List (String × α) → List (String × α)
  | [] => [(key, value)]
  | (k, v) :: rest =>
    if key < k then (key, value) :: (k, v) :: rest
    else if key = k then (key, value) :: rest
    else (k, v) :: insert key value rest

/-- Puts the entries in one after the other, so that the last one of a key stays. -/
def ascending (entries : List (String × α)) : List (String × α) :=
  entries.foldl (fun table entry => insert entry.1 entry.2 table) []

def find? (key : String) (entries : List (String × α)) : Option α :=
  (entries.find? (·.1 = key)).map (·.2)

/-- Whether the keys ascend strictly. -/
def Ascending (entries : List (String × α)) : Prop :=
  entries.Pairwise (·.1 < ·.1)

instance (entries : List (String × α)) : Decidable (Ascending entries) :=
  inferInstanceAs (Decidable (List.Pairwise _ _))

theorem key_of_mem_insert {key : String} {value : α} {entries : List (String × α)} {entry : String × α}
    (found : entry ∈ insert key value entries) : entry = (key, value) ∨ entry ∈ entries := by
  induction entries with
  | nil => simpa [insert] using found
  | cons head rest ih =>
    obtain ⟨k, v⟩ := head
    unfold insert at found
    split at found
    · simpa using found
    · split at found
      · rcases List.mem_cons.1 found with h | h
        · exact .inl h
        · exact .inr (List.mem_cons_of_mem _ h)
      · rcases List.mem_cons.1 found with h | h
        · exact .inr (h ▸ List.mem_cons_self)
        · exact (ih h).imp_right (List.mem_cons_of_mem _)

theorem ascending_insert {entries : List (String × α)} (sorted : Ascending entries) (key : String)
    (value : α) : Ascending (insert key value entries) := by
  induction entries with
  | nil => simp [insert, Ascending]
  | cons head rest ih =>
    obtain ⟨k, v⟩ := head
    obtain ⟨above, sorted⟩ := List.pairwise_cons.1 sorted
    unfold insert
    split
    · rename_i lt
      refine List.pairwise_cons.2 ⟨fun entry h => ?_, List.pairwise_cons.2 ⟨above, sorted⟩⟩
      rcases List.mem_cons.1 h with h | h
      · exact h ▸ lt
      · exact String.lt_trans lt (above entry h)
    · split
      · rename_i eq
        exact List.pairwise_cons.2 ⟨fun entry h => eq ▸ above entry h, sorted⟩
      · rename_i not_lt ne
        refine List.pairwise_cons.2 ⟨fun entry h => ?_, ih sorted⟩
        rcases key_of_mem_insert h with h | h
        · subst h
          exact Decidable.byContradiction fun above =>
            ne (String.le_antisymm (String.not_lt.1 above) (String.not_lt.1 not_lt))
        · exact above entry h

theorem ascending_ascending (entries : List (String × α)) : Ascending (ascending entries) := by
  suffices general : ∀ table : List (String × α), Ascending table →
      Ascending (entries.foldl (fun table entry => insert entry.1 entry.2 table) table) from
    general [] List.Pairwise.nil
  induction entries with
  | nil => exact fun _ sorted => sorted
  | cons entry rest ih => exact fun _ sorted => ih _ (ascending_insert sorted _ _)

theorem insert_above {entries : List (String × α)} {key : String} {value : α}
    (above : ∀ entry ∈ entries, entry.1 < key) : insert key value entries = entries ++ [(key, value)] := by
  induction entries with
  | nil => rfl
  | cons head rest ih =>
    obtain ⟨k, v⟩ := head
    have lt : k < key := above (k, v) List.mem_cons_self
    have ne : ¬key = k := fun h => String.lt_irrefl k (h ▸ lt)
    simp [insert, String.lt_asymm lt, ne, ih fun entry h => above entry (List.mem_cons_of_mem _ h)]

/-- A table that is in order already is its own. -/
theorem ascending_of_ascending {entries : List (String × α)} (sorted : Ascending entries) :
    ascending entries = entries := by
  suffices general : ∀ table rest : List (String × α), Ascending (table ++ rest) →
      rest.foldl (fun table entry => insert entry.1 entry.2 table) table = table ++ rest from
    general [] entries sorted
  intro table rest
  induction rest generalizing table with
  | nil => simp
  | cons entry rest ih =>
    intro sorted
    have above : ∀ other ∈ table, other.1 < entry.1 := fun other h =>
      (List.pairwise_append.1 sorted).2.2 other h entry List.mem_cons_self
    rw [List.foldl_cons, insert_above above, ih _ (by simpa using sorted)]
    simp

/-- The values play no part in where an entry goes. -/
theorem insert_map (f : α → β) (key : String) (value : α) (entries : List (String × α)) :
    insert key (f value) (entries.map fun entry => (entry.1, f entry.2)) =
      (insert key value entries).map fun entry => (entry.1, f entry.2) := by
  induction entries with
  | nil => rfl
  | cons head rest ih =>
    simp only [List.map_cons, insert]
    split
    · rfl
    · split
      · rfl
      · simp [ih]

theorem ascending_map (f : α → β) (entries : List (String × α)) :
    ascending (entries.map fun entry => (entry.1, f entry.2)) =
      (ascending entries).map fun entry => (entry.1, f entry.2) := by
  suffices general : ∀ table : List (String × α),
      (entries.map fun entry => (entry.1, f entry.2)).foldl
          (fun table entry => insert entry.1 entry.2 table) (table.map fun entry => (entry.1, f entry.2)) =
        (entries.foldl (fun table entry => insert entry.1 entry.2 table) table).map
          fun entry => (entry.1, f entry.2) from general []
  induction entries with
  | nil => exact fun _ => rfl
  | cons entry rest ih => exact fun table => by simp [insert_map, ih]

end LedgerClient.Entries

namespace LedgerClient

structure Dictionary (α : Type) where
  entries : List (String × α)
  ascending : Entries.Ascending entries

namespace Dictionary

instance [DecidableEq α] : DecidableEq (Dictionary α) := fun a b =>
  decidable_of_iff (a.entries = b.entries) ⟨fun h => by cases a; cases b; congr, fun h => h ▸ rfl⟩

def empty : Dictionary α := ⟨[], List.Pairwise.nil⟩

instance : Inhabited (Dictionary α) := ⟨empty⟩

def insert (table : Dictionary α) (key : String) (value : α) : Dictionary α :=
  ⟨Entries.insert key value table.entries, Entries.ascending_insert table.ascending key value⟩

def ofList (entries : List (String × α)) : Dictionary α :=
  ⟨Entries.ascending entries, Entries.ascending_ascending entries⟩

def find? (table : Dictionary α) (key : String) : Option α :=
  Entries.find? key table.entries

end Dictionary
end LedgerClient
