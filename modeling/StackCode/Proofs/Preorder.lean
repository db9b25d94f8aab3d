import Mathlib.Logic.Function.Iterate
import StackCode.Sequence.Nested

/-!
# The order of nested sequences

The sequences inside a sequence are opened with a stack.  What is listed and what the
stack still holds make up the whole list at every moment, so the stack empties, and
what has been listed then is the list in preorder.  A path leads from a sequence to
each that occurs inside it; the list has one entry for each path, in the order of the
paths.
-/

namespace StackCode.Sequence

/-! ## Opening with a stack -/

/-- List the top of the stack, and put its children in its place. -/
def openNext : List Sequence × List Sequence → List Sequence × List Sequence
  | (listed, []) => (listed, [])
  | (listed, top :: below) => (listed ++ [top], top.children ++ below)

/-- What has been listed and what is still to be opened after some rounds. -/
def opening (sequence : Sequence) (rounds : Nat) : List Sequence × List Sequence :=
  openNext^[rounds] ([], [sequence])

/-- What is listed and what is inside the sequences on the stack make up the same list. -/
theorem openNext_keeps (state : List Sequence × List Sequence) :
    (openNext state).1 ++ (openNext state).2.flatMap preorder =
      state.1 ++ state.2.flatMap preorder := by
  obtain ⟨listed, pending⟩ := state
  cases pending with
  | nil => rfl
  | cons top below =>
      rw [openNext, List.flatMap_append, List.flatMap_cons, preorder_eq top]
      simp

theorem openNext_eq_self {state : List Sequence × List Sequence} (emptied : state.2 = []) :
    openNext state = state := by
  obtain ⟨listed, pending⟩ := state
  cases pending with
  | nil => rfl
  | cons top below => exact absurd emptied (List.cons_ne_nil _ _)

theorem length_openNext {state : List Sequence × List Sequence} (pending : state.2 ≠ []) :
    (openNext state).1.length = state.1.length + 1 := by
  obtain ⟨listed, pending'⟩ := state
  cases pending' with
  | nil => exact absurd rfl pending
  | cons top below => simp [openNext]

variable (sequence : Sequence)

theorem opening_succ (rounds : Nat) :
    sequence.opening (rounds + 1) = openNext (sequence.opening rounds) :=
  Function.iterate_succ_apply' openNext rounds _

theorem opening_keeps (rounds : Nat) :
    (sequence.opening rounds).1 ++ (sequence.opening rounds).2.flatMap preorder =
      sequence.preorder := by
  induction rounds with
  | zero => exact List.append_nil _
  | succ rounds ih => rw [opening_succ, openNext_keeps, ih]

/-- The stack is empty if and only if everything is listed. -/
theorem opening_eq_nil_iff (rounds : Nat) :
    (sequence.opening rounds).2 = [] ↔
      sequence.preorder.length ≤ (sequence.opening rounds).1.length := by
  rw [← opening_keeps sequence rounds, List.length_append]
  cases (sequence.opening rounds).2 with
  | nil => simp
  | cons top below => simp [preorder_eq top]

/-- Every round lists one sequence, until all are listed. -/
theorem length_opening (rounds : Nat) :
    (sequence.opening rounds).1.length = min rounds sequence.preorder.length := by
  induction rounds with
  | zero => exact (Nat.zero_min _).symm
  | succ rounds ih =>
      have emptied := opening_eq_nil_iff sequence rounds
      by_cases pending : (sequence.opening rounds).2 = []
      · have full := emptied.mp pending
        rw [opening_succ, openNext_eq_self pending]
        omega
      · have room := mt emptied.mpr pending
        rw [opening_succ, length_openNext pending]
        omega

/-- What is listed after some rounds is the beginning of the whole list. -/
theorem opening_listed (rounds : Nat) :
    (sequence.opening rounds).1 = sequence.preorder.take rounds := by
  have whole := opening_keeps sequence rounds
  have counted := length_opening sequence rounds
  calc (sequence.opening rounds).1
      = sequence.preorder.take (sequence.opening rounds).1.length := by simp [← whole]
    _ = sequence.preorder.take (min rounds sequence.preorder.length) := by rw [counted]
    _ = sequence.preorder.take rounds := List.take_eq_take_iff.mpr (by omega)

/-! ## Paths -/

/-- The sequence that a path leads to; each number on it is the place of a child. -/
def at? : List Nat → Sequence → Option Sequence
  | [], sequence => some sequence
  | child :: path, sequence => sequence.children[child]?.bind (at? path)

def among? (siblings : List Sequence) : List Nat → Option Sequence
  | [] => none
  | child :: path => siblings[child]?.bind (at? path)

def nextSibling : List Nat → List Nat
  | [] => []
  | child :: path => (child + 1) :: path

/-- Some sequences are found at some paths, which are all that lead anywhere, in order. -/
structure FoundAt (look : List Nat → Option Sequence) (paths : List (List Nat))
    (found : List Sequence) : Prop where
  ordered : paths.Pairwise (· < ·)
  complete (path : List Nat) : path ∈ paths ↔ (look path).isSome
  listed : paths.map look = found.map some

theorem among?_nextSibling (first : Sequence) (rest : List Sequence) (path : List Nat) :
    among? (first :: rest) (nextSibling path) = among? rest path := by
  cases path <;> simp [nextSibling, among?]

theorem nextSibling_lt {siblings : List Sequence} {path later : List Nat}
    (leads : (among? siblings path).isSome) (before : path < later) :
    nextSibling path < nextSibling later := by
  cases path with
  | nil => cases leads
  | cons child path =>
      cases later with
      | nil => exact absurd before (List.not_lt_nil _)
      | cons child' later =>
          rw [nextSibling, nextSibling, List.cons_lt_cons_iff]
          exact (List.cons_lt_cons_iff.mp before).imp Nat.succ_lt_succ
            (And.imp_left (congrArg Nat.succ))

/-- Siblings follow one another with all that is inside them. -/
theorem FoundAt.cons {first : Sequence} {rest : List Sequence} {inner outer : List (List Nat)}
    {within beside : List Sequence} (inside : FoundAt (at? · first) inner within)
    (further : FoundAt (among? rest) outer beside) :
    FoundAt (among? (first :: rest)) (inner.map (0 :: ·) ++ outer.map nextSibling)
      (within ++ beside) where
  ordered := by
    have leads {path : List Nat} (listed : path ∈ outer) :=
      (further.complete path).mp listed
    rw [List.pairwise_append, List.pairwise_map, List.pairwise_map]
    refine ⟨inside.ordered.imp fun before => List.cons_lt_cons_iff.mpr (.inr ⟨rfl, before⟩),
      further.ordered.imp_of_mem fun listed _ before => nextSibling_lt (leads listed) before, ?_⟩
    intro path listed later listed'
    obtain ⟨path, -, rfl⟩ := List.mem_map.mp listed
    obtain ⟨later, elsewhere, rfl⟩ := List.mem_map.mp listed'
    cases later with
    | nil => cases leads elsewhere
    | cons child later => exact List.cons_lt_cons_iff.mpr (.inl (Nat.succ_pos child))
  complete path := by
    rw [List.mem_append, List.mem_map, List.mem_map]
    constructor
    · rintro (⟨path, listed, rfl⟩ | ⟨path, listed, rfl⟩)
      · exact (inside.complete path).mp listed
      · exact among?_nextSibling first rest path ▸ (further.complete path).mp listed
    · intro leads
      match path with
      | [] => cases leads
      | 0 :: path => exact .inl ⟨path, (inside.complete path).mpr leads, rfl⟩
      | (child + 1) :: path =>
          exact .inr ⟨child :: path, (further.complete (child :: path)).mpr leads, rfl⟩
  listed := by
    simp only [List.map_append, List.map_map, ← further.listed, ← inside.listed]
    congr 1
    exact List.map_congr_left fun path _ => among?_nextSibling first rest path

/-- A sequence comes before all that is inside it. -/
theorem FoundAt.node {sequence : Sequence} {paths : List (List Nat)} {within : List Sequence}
    (inside : FoundAt (among? sequence.children) paths within) :
    FoundAt (at? · sequence) ([] :: paths) (sequence :: within) where
  ordered := by
    refine List.pairwise_cons.mpr ⟨fun path listed => ?_, inside.ordered⟩
    cases path with
    | nil => cases (inside.complete []).mp listed
    | cons child path => exact List.nil_lt_cons child path
  complete path := by
    cases path with
    | nil => exact ⟨fun _ => rfl, fun _ => List.mem_cons_self⟩
    | cons child path =>
        rw [List.mem_cons, or_iff_right (List.cons_ne_nil child path)]
        exact inside.complete (child :: path)
  listed := by
    have each : ∀ path ∈ paths, at? path sequence = among? sequence.children path := by
      rintro (_ | _) listed
      · cases (inside.complete []).mp listed
      · rfl
    rw [List.map_cons, List.map_cons, List.map_congr_left each, inside.listed]
    rfl

/-- If the list of each sibling has an entry for each path, so has that of all siblings. -/
theorem foundAt_siblings (siblings : List Sequence)
    (each : ∀ sibling ∈ siblings, ∃ paths, FoundAt (at? · sibling) paths sibling.preorder) :
    ∃ paths, FoundAt (among? siblings) paths (siblings.flatMap preorder) := by
  induction siblings with
  | nil =>
      refine ⟨[], .nil, fun path => ?_, rfl⟩
      cases path <;> simp [among?]
  | cons first rest ih =>
      obtain ⟨inner, inside⟩ := each first List.mem_cons_self
      obtain ⟨outer, further⟩ := ih fun sibling listed =>
        each sibling (List.mem_cons_of_mem _ listed)
      exact ⟨_, inside.cons further⟩

theorem length_preorder_lt {child : Sequence} (nested : child ∈ sequence.children) :
    child.preorder.length < sequence.preorder.length := by
  obtain ⟨before, after, split⟩ := List.append_of_mem nested
  rw [preorder_eq sequence, split]
  simp only [List.flatMap_append, List.flatMap_cons, List.length_cons, List.length_append]
  omega

/-- The list in preorder has one entry for each path, in the order of the paths. -/
theorem foundAt_preorder : ∃ paths, FoundAt (at? · sequence) paths sequence.preorder := by
  induction size : sequence.preorder.length using Nat.strongRecOn generalizing sequence with
  | ind size ih =>
      subst size
      obtain ⟨paths, inside⟩ := foundAt_siblings sequence.children fun child nested =>
        ih _ (length_preorder_lt sequence nested) child rfl
      rw [preorder_eq]
      exact ⟨_, inside.node⟩

/--
The stack is empty after as many rounds as there are entries in the list and not before,
and every round lists the next entry.  The list is the sequence, followed by the lists of
the bodies in its instructions and those in its handlers, and has one entry for each path.
-/
theorem nested_listed_in_preorder :
    (∀ rounds, (sequence.opening rounds).1 = sequence.all.take rounds ∧
      ((sequence.opening rounds).2 = [] ↔ sequence.all.length ≤ rounds)) ∧
    sequence.all = sequence ::
      ((sequence.code.toList.filterMap Instruction.body?).flatMap all ++
        (sequence.handlers.filterMap Handler.body).flatMap all) ∧
    ∃ paths : List (List Nat), paths.Pairwise (· < ·) ∧
      (∀ path, path ∈ paths ↔ (at? path sequence).isSome) ∧
      paths.map (at? · sequence) = sequence.all.map some := by
  have lists : all = preorder := funext all_eq_preorder
  rw [lists, ← List.flatMap_append]
  refine ⟨fun rounds => ⟨opening_listed sequence rounds, ?_⟩, preorder_eq sequence, ?_⟩
  · have emptied := opening_eq_nil_iff sequence rounds
    have counted := length_opening sequence rounds
    rw [emptied]
    omega
  · obtain ⟨paths, found⟩ := foundAt_preorder sequence
    exact ⟨paths, found.ordered, found.complete, found.listed⟩

end StackCode.Sequence
