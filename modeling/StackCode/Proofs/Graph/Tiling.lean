import StackCode.Graph.Blocks

/-!
# Blocks tile the code

The extents of the blocks lie end to end from the first instruction to the last,
and none is empty.  So every instruction lies in exactly one block, which is the
one that the table of blocks gives.
-/

namespace StackCode.BlockGraph

/-- Nonempty extents that lie end to end between two indices. -/
def Tiles : Nat → List (Nat × Nat) → Nat → Prop
  | first, [], last => first = last
  | first, (start, stop) :: rest, last => start = first ∧ start < stop ∧ Tiles stop rest last

theorem Tiles.le {first last : Nat} {extents : List (Nat × Nat)}
    (tiles : Tiles first extents last) : first ≤ last := by
  induction extents generalizing first with
  | nil => exact Nat.le_of_eq tiles
  | cons head rest ih =>
      obtain ⟨rfl, nonempty, tail⟩ := tiles
      exact Nat.le_trans (Nat.le_of_lt nonempty) (ih tail)

theorem Tiles.bounds {first last : Nat} {extents : List (Nat × Nat)}
    (tiles : Tiles first extents last) {start stop : Nat} (found : (start, stop) ∈ extents) :
    first ≤ start ∧ start < stop ∧ stop ≤ last := by
  induction extents generalizing first with
  | nil => cases found
  | cons head rest ih =>
      obtain ⟨rfl, nonempty, tail⟩ := tiles
      rcases List.mem_cons.mp found with here | there
      · obtain ⟨rfl, rfl⟩ := Prod.mk.inj here
        exact ⟨Nat.le_refl _, nonempty, tail.le⟩
      · have bound := ih tail there
        omega

/-- Increasing starts and an end behind them make a tiling. -/
theorem tiles_zip {first last : Nat} {rest : List Nat}
    (increasing : (first :: rest).Pairwise (· < ·))
    (inside : ∀ start ∈ first :: rest, start < last) :
    Tiles first ((first :: rest).zip (rest ++ [last])) last := by
  induction rest generalizing first with
  | nil => exact ⟨rfl, inside first (by simp), rfl⟩
  | cons next others ih =>
      obtain ⟨smaller, tail⟩ := List.pairwise_cons.mp increasing
      exact ⟨rfl, smaller next (by simp),
        ih tail fun start found => inside start (List.mem_cons_of_mem _ found)⟩

theorem starts_pairwise (code : Sequence) : (starts code).Pairwise (· < ·) :=
  List.pairwise_lt_range.filter _

theorem mem_starts {code : Sequence} {index : Nat} :
    index ∈ starts code ↔ index < code.length ∧ (index = 0 ∨ index ∈ leaders code) := by
  simp [starts]

theorem starts_eq_cons {code : Sequence} (nonempty : 0 < code.length) :
    ∃ rest, starts code = 0 :: rest := by
  obtain ⟨count, counted⟩ := Nat.exists_eq_add_one_of_ne_zero (Nat.ne_of_gt nonempty)
  unfold starts
  rw [counted, List.range_succ_eq_map, List.filter_cons, if_pos (by simp)]
  exact ⟨_, rfl⟩

theorem tiles_extents (code : Sequence) : Tiles 0 (extents code) code.length := by
  rcases Nat.eq_zero_or_pos code.length with none | nonempty
  · simp [extents, starts, none, Tiles]
  · obtain ⟨rest, begins⟩ := starts_eq_cons nonempty
    have inside (start : Nat) (found : start ∈ 0 :: rest) : start < code.length :=
      (mem_starts.mp (begins ▸ found)).1
    unfold extents
    rw [begins]
    exact tiles_zip (begins ▸ starts_pairwise code) inside

theorem map_fst_extents (code : Sequence) : (extents code).map Prod.fst = starts code := by
  unfold extents
  rw [List.map_fst_zip]
  cases starts code <;> simp

/-- The table gives for each index the number of the extent that holds it. -/
theorem getElem?_assigned {first last : Nat} {extents : List (Nat × Nat)}
    (tiles : Tiles first extents last) (offset index block : Nat) (from_first : first ≤ index) :
    ((extents.zipIdx offset).flatMap fun ((start, stop), number) =>
        List.replicate (stop - start) number)[index - first]? = some block ↔
      ∃ start stop, offset ≤ block ∧ extents[block - offset]? = some (start, stop) ∧
        start ≤ index ∧ index < stop := by
  induction extents generalizing first offset with
  | nil => simp
  | cons head rest ih =>
      obtain ⟨rfl, nonempty, tail⟩ := tiles
      rw [List.zipIdx_cons, List.flatMap_cons, List.getElem?_append, List.length_replicate]
      split
      · rename_i inside
        rw [List.getElem?_replicate, if_pos inside]
        constructor
        · intro same
          obtain rfl := Option.some.inj same
          exact ⟨head.1, head.2, Nat.le_refl _, by simp, from_first, by omega⟩
        · rintro ⟨start, stop, above, found, reached, before⟩
          rcases Nat.eq_or_lt_of_le above with same | later
          · rw [same]
          · have place : block - offset = block - offset - 1 + 1 := by omega
            rw [place, List.getElem?_cons_succ] at found
            have bound := tail.bounds (List.mem_of_getElem? found)
            omega
      · rename_i outside
        have place : index - head.1 - (head.2 - head.1) = index - head.2 := by omega
        rw [place, ih tail (offset + 1) (by omega)]
        constructor
        · rintro ⟨start, stop, above, found, reached⟩
          refine ⟨start, stop, by omega, ?_, reached⟩
          have next : block - offset = block - (offset + 1) + 1 := by omega
          rw [next, List.getElem?_cons_succ, found]
        · rintro ⟨start, stop, above, found, reached, before⟩
          rcases Nat.eq_or_lt_of_le above with same | later
          · rw [same, Nat.sub_self, List.getElem?_cons_zero] at found
            obtain rfl := Option.some.inj found
            omega
          · have next : block - offset = block - (offset + 1) + 1 := by omega
            rw [next, List.getElem?_cons_succ] at found
            exact ⟨start, stop, later, found, reached, before⟩

theorem getElem?_assignment {code : Sequence} {index block : Nat} :
    (assignment (extents code))[index]? = some block ↔
      ∃ start stop, (extents code)[block]? = some (start, stop) ∧ start ≤ index ∧ index < stop := by
  have assigned := getElem?_assigned (tiles_extents code) 0 index block (Nat.zero_le _)
  simpa [assignment] using assigned

end StackCode.BlockGraph
