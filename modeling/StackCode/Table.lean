/-!
# Tables

A finite map as a list of entries with distinct keys.  A new entry goes to the
front and takes the place of an older one with its key.
-/

namespace StackCode

/-- A finite map from keys to values. -/
structure Table (κ ν : Type) where
  entries : List (κ × ν)

namespace Table

variable {κ ν : Type} [DecidableEq κ]

def empty : Table κ ν := ⟨[]⟩

instance : Inhabited (Table κ ν) := ⟨empty⟩

def get? (table : Table κ ν) (key : κ) : Option ν :=
  table.entries.lookup key

def erase (table : Table κ ν) (key : κ) : Table κ ν :=
  ⟨table.entries.filter fun entry => entry.1 ≠ key⟩

def insert (table : Table κ ν) (key : κ) (value : ν) : Table κ ν :=
  ⟨(key, value) :: (table.erase key).entries⟩

def contains (table : Table κ ν) (key : κ) : Bool :=
  (table.get? key).isSome

/-- The table of a list of entries; of entries with one key the last counts. -/
def ofList (entries : List (κ × ν)) : Table κ ν :=
  entries.foldl (fun table (key, value) => table.insert key value) empty

@[simp] theorem get?_empty (key : κ) : (empty : Table κ ν).get? key = none :=
  rfl

theorem lookup_filter_ne (entries : List (κ × ν)) (key other : κ) :
    (entries.filter fun entry => entry.1 ≠ key).lookup other =
      if other = key then none else entries.lookup other := by
  induction entries with
  | nil => simp
  | cons first rest ih =>
      obtain ⟨name, value⟩ := first
      rw [List.filter_cons]
      by_cases erased : name = key
      · rw [if_neg (by simp [erased]), ih]
        by_cases asked : other = key
        · rw [if_pos asked, if_pos asked]
        · simp [List.lookup_cons, asked, erased, beq_eq_false_iff_ne.2 asked]
      · by_cases asked : other = name
        · simp_all
        · simp_all [List.lookup_cons, beq_eq_false_iff_ne.2 asked]

theorem get?_erase (table : Table κ ν) (key other : κ) :
    (table.erase key).get? other = if other = key then none else table.get? other :=
  lookup_filter_ne table.entries key other

theorem get?_insert (table : Table κ ν) (key other : κ) (value : ν) :
    (table.insert key value).get? other =
      if other = key then some value else table.get? other := by
  by_cases same : other = key
  · simp [get?, insert, same]
  · have rest : (table.insert key value).get? other = (table.erase key).get? other := by
      simp [get?, insert, List.lookup_cons, beq_eq_false_iff_ne.2 same]
    rw [rest, get?_erase, if_neg same, if_neg same]

@[simp] theorem get?_insert_self (table : Table κ ν) (key : κ) (value : ν) :
    (table.insert key value).get? key = some value := by
  simp [get?_insert]

end Table

end StackCode
