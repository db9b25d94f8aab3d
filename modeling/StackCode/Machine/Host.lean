import StackCode.Machine.Error

/-!
# Hosts

The machine hands everything that concerns objects to a host: methods the
program does not define, constants, and globals it has not assigned.  A host
carries a state of its own.

A call that comes with a block is a conversation.  The host may ask for the
block to be run on some arguments as often as it likes; each time it is told
the outcome, and it decides what to do next.
-/

namespace StackCode

/-- A conversation about a block: a result, or a request to run the block. -/
inductive Conversation (σ : Type) where
  | done (result : Except HostError Value) (state : σ)
  | yield (arguments : List Value) (state : σ)
      (resume : Except HostError Value → σ → Conversation σ)

/-- An object model with states of type `σ`. -/
structure Host (σ : Type) where
  send : σ → Value → String → List Value → Except HostError Value × σ
  sendWithBlock : σ → Value → String → List Value → Conversation σ
  global : σ → String → Option Value × σ := fun state _ => (none, state)
  /-- The value of a constant in a scope, or lexically without one. -/
  constant : σ → Option Value → String → Option Value × σ := fun state _ _ => (none, state)
  respondsTo : σ → Value → String → Bool × σ := fun state _ _ => (false, state)

end StackCode
