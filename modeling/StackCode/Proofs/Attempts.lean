/-!
# Steps that may fail

What holds of every step of a fold, or of every check in a row, when the whole
of it succeeds.
-/

namespace StackCode

variable {ε α β : Type}

theorem bind_eq_ok_iff {first : Except ε α} {next : α → Except ε β} {result : β} :
    first >>= next = .ok result ↔ ∃ value, first = .ok value ∧ next value = .ok result := by
  cases first <;> simp [bind, Except.bind]

/-- A result that passes a check is no error. -/
theorem exists_of_any {result : Except ε α} {check : α → Bool}
    (passed : result.toOption.any check = true) :
    ∃ value, result = .ok value ∧ check value = true := by
  cases result with
  | error => cases passed
  | ok value => exact ⟨value, rfl, passed⟩

/-- What every step of a fold keeps holds of its result. -/
theorem foldlM_ok {list : List α} {step : β → α → Except ε β} {start result : β}
    {property : β → Prop} (done : list.foldlM step start = .ok result) (first : property start)
    (keeps : ∀ state item next, item ∈ list → property state → step state item = .ok next →
      property next) : property result := by
  induction list generalizing start with
  | nil =>
      obtain rfl := Except.ok.inj done
      exact first
  | cons item rest ih =>
      rw [List.foldlM_cons] at done
      obtain ⟨next, stepped, done⟩ := bind_eq_ok_iff.mp done
      refine ih done (keeps start item next List.mem_cons_self first stepped) ?_
      exact fun state item next listed => keeps state item next (List.mem_cons_of_mem _ listed)

/-- Checks in a row succeed if each of them does. -/
theorem forM_eq_ok_iff {list : List α} {check : α → Except ε Unit} :
    list.forM check = .ok () ↔ ∀ item ∈ list, check item = .ok () := by
  induction list with
  | nil => simp [pure, Except.pure]
  | cons item rest ih =>
      have unfolded : (item :: rest).forM check = check item >>= fun _ => rest.forM check := rfl
      rw [unfolded, bind_eq_ok_iff, List.forall_mem_cons]
      constructor
      · rintro ⟨⟨⟩, passed, others⟩
        exact ⟨passed, ih.mp others⟩
      · rintro ⟨passed, others⟩
        exact ⟨(), passed, ih.mpr others⟩

/-- Checks in a row succeed, or fail as one of them does. -/
theorem forM_cases (list : List α) (check : α → Except ε Unit) :
    list.forM check = .ok () ∨
      ∃ item ∈ list, ∃ error, check item = .error error ∧ list.forM check = .error error := by
  induction list with
  | nil => exact .inl rfl
  | cons item rest ih =>
      have unfolded : (item :: rest).forM check = check item >>= fun _ => rest.forM check := rfl
      cases first : check item with
      | error error =>
          refine .inr ⟨item, List.mem_cons_self, error, first, ?_⟩
          rw [unfolded, first]
          rfl
      | ok =>
          rw [unfolded, first]
          rcases ih with passed | ⟨other, listed, error, failed, same⟩
          · exact .inl passed
          · exact .inr ⟨other, List.mem_cons_of_mem _ listed, error, failed, same⟩

/-- If a partial function is defined on a whole list, mapping it there leaves nothing out. -/
theorem mapM_eq_some_filterMap {list : List α} {partly : α → Option β}
    (defined : ∀ item ∈ list, (partly item).isSome) :
    list.mapM partly = some (list.filterMap partly) := by
  induction list with
  | nil => rfl
  | cons item rest ih =>
      obtain ⟨first, others⟩ := List.forall_mem_cons.mp defined
      obtain ⟨value, found⟩ := Option.isSome_iff_exists.mp first
      rw [List.mapM_cons, found, ih others, List.filterMap_cons_some found]
      rfl

/-- What a partial function gives on a list on which it is defined. -/
theorem map_some_filterMap {list : List α} {partly : α → Option β}
    (defined : ∀ item ∈ list, (partly item).isSome) :
    (list.filterMap partly).map some = list.map partly := by
  induction list with
  | nil => rfl
  | cons item rest ih =>
      obtain ⟨first, others⟩ := List.forall_mem_cons.mp defined
      obtain ⟨value, found⟩ := Option.isSome_iff_exists.mp first
      rw [List.filterMap_cons_some found, List.map_cons, List.map_cons, ih others, found]

theorem getElem?_filterMap_of_isSome {list : List α} {partly : α → Option β}
    (defined : ∀ item ∈ list, (partly item).isSome) (place : Nat) :
    (list.filterMap partly)[place]? = list[place]?.bind partly := by
  have there := congrArg (fun values => values[place]?.bind id) (map_some_filterMap defined)
  simpa [Option.bind_map, Function.comp_def] using there

theorem length_filterMap_of_isSome {list : List α} {partly : α → Option β}
    (defined : ∀ item ∈ list, (partly item).isSome) :
    (list.filterMap partly).length = list.length := by
  have counted := congrArg List.length (map_some_filterMap defined)
  rwa [List.length_map, List.length_map] at counted

end StackCode
