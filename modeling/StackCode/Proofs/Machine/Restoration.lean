import StackCode.Proofs.Machine.Account

/-!
# Calls restore their caller

However a frame ends, and whatever a host does with the blocks it is given, the
caller finds its operands, its next instruction and its frames as they were; the
locals of live frames are all that may differ.  A run leaves no frame behind and
nothing but its result on the stack.
-/

namespace StackCode

namespace Context.Resumes

variable {before after : Context} (resumes : before.Resumes after)
include resumes

theorem values : after.values = before.values := by
  rw [← after.operands_append_below, ← before.operands_append_below, resumes.below,
    resumes.operands]

theorem size : after.frames.size = before.frames.size :=
  size_eq_of_outline resumes.outline

theorem frame {index : Nat} {frame : Frame} (found : before.frames[index]? = some frame) :
    ∃ locals, locals.size = frame.locals.size ∧
      after.frames[index]? = some { frame with locals } := by
  have same := congrArg (fun frames => frames[index]?) resumes.outline
  simp only [Context.outline, Array.getElem?_map, found, Option.map_some] at same
  obtain ⟨other, found', blank⟩ := Option.map_eq_some_iff.mp same
  obtain ⟨size, equal⟩ := Frame.eq_with_locals_of_blank_eq blank
  exact ⟨other.locals, size, by rw [found', ← equal]⟩

end Context.Resumes

def Account.silent {τ : Type} (observer : Observer τ) : Account observer where
  across _ _ := True
  within _ _ _ _ := True
  keeps := ⟨fun _ => trivial, fun _ _ => trivial, fun _ _ _ _ => trivial⟩
  enters _ _ _ _ _ _ := trivial
  advances _ _ _ _ _ _ := trivial
  stops _ _ _ _ := trivial
  halts _ _ _ _ _ _ := trivial

variable {σ τ : Type}

theorem Execution.evaluate_resumes (host : Host σ) (observer : Observer τ) (room : Nat)
    (activation : Activation) (machine : Machine σ τ) :
    machine.context.Resumes ((evaluate host observer room activation).final machine).context := by
  have returns := evaluate_respects (.silent observer) host room activation machine
  have ends : Ends (evaluate host observer room activation) machine
      (fun _ after => machine.context.Resumes after.context)
      (fun _ after => machine.context.Resumes after.context) :=
    returns.mono (fun _ _ holds => holds.1.context) (fun _ _ holds => holds.1.context)
  exact final_of_ends ends

namespace Machine

/--
A call gives the caller back its operands, its next instruction and its frames,
but for the contents of locals; a run leaves its result and nothing else.
-/
theorem calls_restore_caller (host : Host σ) (observer : Observer τ) :
    (∀ (room : Nat) (activation : Activation) (machine : Machine σ τ),
      let after := (Execution.evaluate host observer room activation).final machine
      after.context.stack = machine.context.stack ∧
      after.context.pc = machine.context.pc ∧
      after.context.frames.size = machine.context.frames.size ∧
      ∀ (index : Nat) (frame : Frame), machine.context.frames[index]? = some frame →
        ∃ locals, locals.size = frame.locals.size ∧
          after.context.frames[index]? = some { frame with locals }) ∧
    (∀ (limits : Limits) (state : σ) (trace : τ) (context : Context) (code : Sequence),
      let (result, after) := run host observer limits state trace context code
      after.context.frames = #[] ∧ after.context.pc = 0 ∧
      after.context.stack = result.toOption.toList) := by
  constructor
  · intro room activation machine
    have resumes := Execution.evaluate_resumes host observer room activation machine
    exact ⟨congrArg List.reverse resumes.values, resumes.pc, resumes.size, fun _ _ => resumes.frame⟩
  · intro limits state trace context code
    obtain ⟨ended, ⟨resumes, -⟩, run⟩ :=
      run_returns (.silent observer) host limits state trace context code
    have frames : ended.context.frames = #[] := Array.eq_empty_of_size_eq_zero resumes.size
    have values : ended.context.values = [] := resumes.values
    have pc : ended.context.pc = 0 := resumes.pc
    simp only [run]
    cases (Machine.run host observer limits state trace context code).1 <;>
      simp [noting, keepResult, frames, values, pc, Context.stack, Except.toOption]

end Machine

end StackCode
