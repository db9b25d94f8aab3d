import StackCode.ObjectModel.Host
import StackCode.Sequence.Basic

/-!
# How the standard object model runs a block

Some methods count or iterate, and others have no use for a block.  In each case
the object model goes on with whatever result a block gives it, and ends with the
first failure.
-/

namespace StackCode

namespace ObjectModel

/--
A conversation for each state to begin with, which goes on with each result and ends
with the first failure; without one it ends with a value.
-/
inductive Heeds : (ObjectModel → Conversation ObjectModel) → Prop where
  | done (value : Value) : Heeds fun model => .done (.ok value) model
  | yield {arguments : List Value} {next : Value → ObjectModel → Conversation ObjectModel} :
      (∀ value, Heeds (next value)) →
      Heeds fun model => .yield arguments model fun answer model =>
        match answer with
        | .ok value => next value model
        | .error error => .done (.error error) model

theorem countUp_heeds (result : Value) (rounds : Nat) (next : Int64) :
    Heeds (countUp result rounds next) := by
  induction rounds generalizing next with
  | zero => exact .done result
  | succ rounds ih => exact .yield fun _ => ih (next + 1)

theorem iterate_heeds (result : Value) (items : List Value) : Heeds (iterate result items) := by
  induction items with
  | nil => exact .done result
  | cons item rest ih => exact .yield fun _ => ih

theorem collect_heeds (results items : List Value) : Heeds (collect results items) := by
  induction items generalizing results with
  | nil => exact .done _
  | cons item rest ih => exact .yield fun value => ih (value :: results)

theorem calls_send (model : ObjectModel) (receiver : Value) (method : String)
    (arguments : List Value) :
    (model.send receiver method arguments).2.calls = model.calls + 1 := by
  unfold send
  split
  · split <;> rfl
  · rfl
  · rfl
  · rfl
  · rfl
  · split <;> rfl
  · rfl

/-- A call with a block is counted before the block is run, if the method has a use for it. -/
theorem sendWithBlock_cases (receiver : Value) (method : String) (arguments : List Value) :
    (∃ talk, Heeds talk ∧
      ∀ model, sendWithBlock model receiver method arguments = talk model.countCall) ∨
    ∀ model, sendWithBlock model receiver method arguments =
      .done (model.send receiver method arguments).1 (model.send receiver method arguments).2 := by
  by_cases runs : ∃ talk, Heeds talk ∧
      ∀ model, sendWithBlock model receiver method arguments = talk model.countCall
  · exact .inl runs
  · refine .inr fun model => ?_
    unfold sendWithBlock
    split
    · exact (runs ⟨_, countUp_heeds _ _ _, fun _ => rfl⟩).elim
    · exact (runs ⟨_, iterate_heeds _ _, fun _ => rfl⟩).elim
    · exact (runs ⟨_, collect_heeds _ _, fun _ => rfl⟩).elim
    · rfl

end ObjectModel

/-- Run a block for the only item of an array. -/
def eachOnce : Sequence where
  name := "<compiled>"
  kind := .top
  code := #[.dupArray (.array [.nil]), .send ⟨some "each", 0, .blockBody⟩ (some {
      name := "block in <compiled>"
      kind := .block
      code := #[.putNil, .leave]
      labels := #[]
      locals := []
      parameters := .none
      handlers := [] }), .leave]
  labels := #[]
  locals := []
  parameters := .none
  handlers := []

end StackCode
