import StackCode.Machine.Trace

/-!
# Profiles

A profile follows the scopes of a run and keeps those that are open, each with
a label.  An exit that does not match the innermost open scope means that the
profile lost track; it then closes everything.
-/

namespace StackCode

/--
Chooses labels for scopes; where it answers nothing the usual label is taken.
A resolver carries a state from one answer to the next.
-/
structure LabelResolver (ρ : Type) where
  frame : ρ → Sequence → Option String × ρ := fun state _ => (none, state)
  hostCall : ρ → String → Option String × ρ := fun state _ => (none, state)

namespace SequenceKind

def label : SequenceKind → String
  | .top => "top"
  | .method => "method"
  | .block => "block"

end SequenceKind

namespace LabelResolver

variable {ρ : Type}

def usual : LabelResolver Unit := {}

/-- Labels frames with the kind and the name of their sequence. -/
def bySequenceName : LabelResolver Unit where
  frame state code := (some (code.kind.label ++ ":" ++ code.name), state)

def answer (resolver : LabelResolver ρ) (state : ρ) : Scope → Option String × ρ
  | .frame code => resolver.frame state code
  | .hostCall method => resolver.hostCall state method

end LabelResolver

namespace Scope

def usualLabel : Scope → String
  | .frame code => "frame:" ++ code.kind.label
  | .hostCall method => "host:" ++ method

end Scope

structure OpenScope where
  kind : EventClass
  depth : Nat
  label : String

/-- The open scopes, innermost first, and the state of the resolver that labels them. -/
structure Profile (ρ : Type) where
  scopes : List OpenScope
  resolver : ρ

namespace Profile

variable {ρ : Type}

def empty (resolver : ρ) : Profile ρ := ⟨[], resolver⟩

def openScopes (profile : Profile ρ) : Nat :=
  profile.scopes.length

def enter (resolver : LabelResolver ρ) (profile : Profile ρ) (scope : Scope) (depth : Nat) :
    Profile ρ :=
  let (answer, state) := resolver.answer profile.resolver scope
  let label := answer.getD scope.usualLabel
  ⟨⟨scope.eventClass, depth, label⟩ :: profile.scopes, state⟩

def exit (profile : Profile ρ) (scope : Scope) (depth : Nat) : Profile ρ :=
  match profile.scopes with
  | innermost :: outer =>
      if innermost.kind = scope.eventClass ∧ innermost.depth = depth then
        { profile with scopes := outer }
      else
        empty profile.resolver
  | [] => empty profile.resolver

def follow (resolver : LabelResolver ρ) (profile : Profile ρ) : Event → Profile ρ
  | .enter scope depth _ => profile.enter resolver scope depth
  | .exit scope depth _ => profile.exit scope depth
  | _ => profile

def observer (resolver : LabelResolver ρ) : Observer (Profile ρ) where
  mask := .scopes
  note event _ profile := profile.follow resolver event

end Profile

end StackCode
