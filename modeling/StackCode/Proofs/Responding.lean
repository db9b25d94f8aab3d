import Mathlib.Tactic.ByContra
import StackCode.ObjectModel.Host

/-!
# The methods that values respond to

The object model keeps a table of the methods that each kind of value responds to.
A call that returns is one of a method in the table, whatever its arguments and
whatever a block makes of its yields.  The one exception is the assignment to an
element of an array: it works wherever there is an element, and no table has it.
-/

namespace StackCode

/-- For some answers of a block, and some states that it leaves, the conversation returns. -/
inductive Conversation.MayReturn {σ : Type} (value : Value) : Conversation σ → Prop where
  | done (state : σ) : MayReturn value (.done (.ok value) state)
  | yield {arguments : List Value} {state : σ}
      {resume : Except HostError Value → σ → Conversation σ} (answer : Except HostError Value)
      (next : σ) : MayReturn value (resume answer next) →
      MayReturn value (.yield arguments state resume)

theorem Conversation.mayReturn_done_iff {σ : Type} {value : Value}
    {result : Except HostError Value} {state : σ} :
    MayReturn value (.done result state) ↔ result = .ok value := by
  constructor
  · rintro ⟨-⟩
    rfl
  · rintro rfl
    exact .done state

namespace ObjectModel

/-- In some state and with some arguments, a call without a block or with some block returns. -/
def Works (receiver : Value) (method : String) : Prop :=
  ∃ (model : ObjectModel) (arguments : List Value) (value : Value),
    (model.send receiver method arguments).1 = .ok value ∨
      (model.sendWithBlock receiver method arguments).MayReturn value

theorem respondsTo_of_common {receiver : Value} {method : String}
    (listed : method ∈ commonMethods) : respondsTo receiver method = true := by
  simp [respondsTo, listed]

theorem respondsTo_of_own {receiver : Value} {method : String}
    (listed : method ∈ ownMethods receiver) : respondsTo receiver method = true := by
  simp [respondsTo, listed]

def Admitted (receiver : Value) (method : String) (result : Except HostError Value) : Prop :=
  ∀ value, result = .ok value → respondsTo receiver method = true

namespace Admitted

variable {receiver : Value} {method : String} {result : Except HostError Value}

theorem common (listed : method ∈ commonMethods) : Admitted receiver method result :=
  fun _ _ => respondsTo_of_common listed

theorem own (listed : method ∈ ownMethods receiver) : Admitted receiver method result :=
  fun _ _ => respondsTo_of_own listed

theorem error (error : HostError) : Admitted receiver method (.error error) :=
  nofun

end Admitted

/-! ## Methods of every object -/

theorem commonMethod_admitted (receiver : Value) (method : String) (arguments : List Value) :
    Admitted receiver method (commonMethod receiver method arguments) := by
  unfold commonMethod
  split
  · exact .common (by decide)
  · exact .common (by decide)
  · exact .common (by decide)
  · exact .common (by decide)
  · exact .error _

/-- Whatever has a place in an order responds to the questions about it. -/
theorem mem_ownMethods_of_compare? {receiver other : Value} {order : Ordering}
    (placed : compare? receiver other = some order) {method : String}
    (asked : method ∈ ["<", "<=", ">", ">="]) : method ∈ ownMethods receiver := by
  have subset : ["<", "<=", ">", ">="] ⊆ ownMethods receiver := by
    cases receiver with
    | integer | float | string => simp [ownMethods]
    | _ => simp [compare?, toFloat?] at placed
  exact subset asked

theorem ordered_admitted {receiver : Value} (other : Value) {method : String}
    (question : Ordering → Bool) (asked : method ∈ ["<", "<=", ">", ">="]) :
    Admitted receiver method (ordered receiver other question) := by
  unfold ordered
  cases placed : compare? receiver other with
  | none => exact .error _
  | some order => exact .own (mem_ownMethods_of_compare? placed asked)

theorem comparison_admitted (receiver : Value) (method : String) (arguments : List Value) :
    Admitted receiver method (comparison receiver method arguments) := by
  unfold comparison
  split
  · exact .common (by decide)
  · exact .common (by decide)
  · exact ordered_admitted _ _ (by decide)
  · exact ordered_admitted _ _ (by decide)
  · exact ordered_admitted _ _ (by decide)
  · exact ordered_admitted _ _ (by decide)
  · exact commonMethod_admitted receiver method arguments

/-! ## Methods of their own -/

theorem mem_ownMethods_of_integerMethod? {first second : Int64} {method : String}
    {result : Except HostError Int64}
    (found : integerMethod? first second method = some result) :
    method ∈ ownMethods (.integer first) := by
  unfold integerMethod? at found
  split at found
  case h_9 => cases found
  all_goals simp [ownMethods]

/-- A number that is a receiver of arithmetic with floats has the methods of that. -/
theorem mem_ownMethods_of_floatMethod? {receiver : Value} {first second result : Float}
    {method : String} (number : toFloat? receiver = some first)
    (found : floatMethod? first second method = some result) :
    method ∈ ownMethods receiver := by
  have subset : ["+", "-", "*", "/", "%"] ⊆ ownMethods receiver := by
    cases receiver with
    | integer | float => simp [ownMethods]
    | _ => cases number
  apply subset
  unfold floatMethod? at found
  split at found
  case h_6 => cases found
  all_goals decide

theorem numericMethod_admitted (receiver : Value) (method : String) (arguments : List Value) :
    Admitted receiver method (numericMethod receiver method arguments) := by
  unfold numericMethod
  split
  · split
    · rename_i succeeds
      exact .own (by simp [ownMethods, succeeds])
    · exact comparison_admitted _ _ _
  · split
    · rename_i found
      exact .own (mem_ownMethods_of_integerMethod? found)
    · exact comparison_admitted _ _ _
  · split
    · rename_i number _
      split
      · rename_i found
        exact .own (mem_ownMethods_of_floatMethod? number found)
      · exact comparison_admitted _ _ _
    · split
      · exact .error _
      · exact comparison_admitted _ _ _
  · exact comparison_admitted _ _ _

theorem stringMethod_admitted (text method : String) (arguments : List Value) :
    Admitted (.string text) method (stringMethod text method arguments) := by
  unfold stringMethod
  split
  case h_10 => exact comparison_admitted _ _ _
  all_goals exact .own (by simp [ownMethods])

/-- The methods of arrays are in the table, except for one. -/
theorem arrayMethod_admitted (items : List Value) {method : String}
    (other : method ≠ "[]=") (arguments : List Value) :
    Admitted (.array items) method (arrayMethod items method arguments) := by
  unfold arrayMethod
  split
  case h_15 => exact absurd rfl other
  case h_16 => exact comparison_admitted _ _ _
  all_goals exact .own (by simp [ownMethods])

theorem hashMethod_admitted (pairs : List (Value × Value)) (method : String)
    (arguments : List Value) :
    Admitted (.hash pairs) method (hashMethod pairs method arguments) := by
  unfold hashMethod
  split
  case h_6 => exact comparison_admitted _ _ _
  all_goals exact .own (by simp [ownMethods])

/-! ## Calls -/

theorem send_admitted (model : ObjectModel) {receiver : Value} {method : String}
    (other : ∀ items, receiver = .array items → method ≠ "[]=") (arguments : List Value) :
    Admitted receiver method (model.send receiver method arguments).1 := by
  unfold send
  split
  · split
    · rename_i counts
      exact .own (by simp [ownMethods, counts])
    · exact numericMethod_admitted _ _ _
  · exact numericMethod_admitted _ _ _
  · exact stringMethod_admitted _ _ _
  · exact arrayMethod_admitted _ (other _ rfl) _
  · exact hashMethod_admitted _ _ _
  · split
    · rename_i puts
      exact .own (by simp [ownMethods, puts])
    · exact comparison_admitted _ _ _
  · exact comparison_admitted _ _ _

/-- A call with a block is one of a method in the table, or it returns what it does without. -/
theorem responds_or_eq_of_mayReturn {model : ObjectModel} {receiver value : Value}
    {method : String} {arguments : List Value}
    (returns : (model.sendWithBlock receiver method arguments).MayReturn value) :
    respondsTo receiver method = true ∨
      (model.send receiver method arguments).1 = .ok value := by
  unfold sendWithBlock at returns
  split at returns
  · exact .inl (respondsTo_of_own (by simp [ownMethods]))
  · exact .inl (respondsTo_of_own (by simp [ownMethods]))
  · exact .inl (respondsTo_of_own (by simp [ownMethods]))
  · exact .inr (Conversation.mayReturn_done_iff.mp returns)

/-- A method that works is in the table, or a call without a block has returned. -/
theorem Works.responds_or_sent {receiver : Value} {method : String}
    (works : Works receiver method) :
    respondsTo receiver method = true ∨ ∃ (model : ObjectModel) (arguments : List Value)
      (value : Value), (model.send receiver method arguments).1 = .ok value := by
  obtain ⟨model, arguments, value, returned | returns⟩ := works
  · exact .inr ⟨model, arguments, value, returned⟩
  · rcases responds_or_eq_of_mayReturn returns with responds | returned
    · exact .inl responds
    · exact .inr ⟨model, arguments, value, returned⟩

/-- An array without elements has none to assign. -/
theorem ne_nil_of_assigned {model : ObjectModel} {items arguments : List Value} {value : Value}
    (returned : (model.send (.array items) "[]=" arguments).1 = .ok value) : items ≠ [] := by
  rintro rfl
  have nowhere (index : Int64) : place? 0 index = none :=
    if_neg fun inside => absurd inside.1 (Int.not_le.mpr inside.2)
  simp only [send] at returned
  unfold arrayMethod at returned
  split at returned
  case h_15 => simp [nowhere] at returned
  case h_16 => exact absurd (comparison_admitted _ _ _ _ returned) (by decide)
  all_goals exact absurd ‹"[]=" = _› (by decide)

/--
The methods that work and that the receiver denies are the assignments to an element of
an array that has elements, and no others.
-/
theorem element_assignment_alone_is_denied (receiver : Value) (method : String) :
    Works receiver method ∧ respondsTo receiver method = false ↔
      ∃ items, receiver = .array items ∧ items ≠ [] ∧ method = "[]=" := by
  constructor
  · rintro ⟨works, denied⟩
    have denies : respondsTo receiver method ≠ true := by simp [denied]
    obtain ⟨model, arguments, value, returned⟩ := works.responds_or_sent.resolve_left denies
    have element : ∃ items, receiver = .array items ∧ method = "[]=" := by
      by_contra other
      refine denies (send_admitted model (fun items array assigns => ?_) arguments value returned)
      exact other ⟨items, array, assigns⟩
    obtain ⟨items, rfl, rfl⟩ := element
    exact ⟨items, rfl, ne_nil_of_assigned returned, rfl⟩
  · rintro ⟨items, rfl, present, rfl⟩
    refine ⟨⟨.withTables .empty .empty, [.integer 0, .nil], .nil, .inl ?_⟩, rfl⟩
    have inside : place? items.length 0 = some 0 := by
      have positive := List.length_pos_iff.mpr present
      simp [place?, positive]
    simp [send, arrayMethod, inside]

/-- An array of one element assigns it when asked, and says that it does not respond. -/
theorem not_every_method_is_admitted :
    ¬ ∀ (receiver : Value) (method : String), Works receiver method →
      respondsTo receiver method = true := by
  intro admits
  have assigned : ((withTables .empty .empty).send (.array [.nil]) "[]="
      [.integer 0, .integer 5]).1 = .ok (.integer 5) := rfl
  have responds := admits (.array [.nil]) "[]=" ⟨_, _, _, .inl assigned⟩
  exact absurd responds (by decide)

end ObjectModel
end StackCode
