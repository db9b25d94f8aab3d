import StackCode.Proofs.Machine.Likeness

/-!
# What a host keeps to itself

A host may carry more state than another one.  If what it answers is what the other
answers to the part that both have, then runs under it are the runs under the other,
and that part of the state is the other's.
-/

namespace StackCode

section View

variable {σ σ' : Type} (view : σ → σ')

/-- The second conversation is the first one with a view of its states. -/
inductive Conversation.Viewed : Conversation σ → Conversation σ' → Prop where
  | done (result : Except HostError Value) (state : σ) :
      Viewed (.done result state) (.done result (view state))
  | yield {arguments : List Value} {state : σ}
      {resume : Except HostError Value → σ → Conversation σ}
      {resume' : Except HostError Value → σ' → Conversation σ'} :
      (∀ answer next, Viewed (resume answer next) (resume' answer (view next))) →
      Viewed (.yield arguments state resume) (.yield arguments (view state) resume')

/-- The first host answers like the second, which has a view of its states. -/
structure Host.Extends (host : Host σ) (host' : Host σ') : Prop where
  send : ∀ state receiver method arguments,
    host'.send (view state) receiver method arguments =
      (host.send state receiver method arguments).map id view
  sendWithBlock : ∀ state receiver method arguments,
    (host.sendWithBlock state receiver method arguments).Viewed view
      (host'.sendWithBlock (view state) receiver method arguments)
  global : ∀ state name, host'.global (view state) name = (host.global state name).map id view
  constant : ∀ state scope name,
    host'.constant (view state) scope name = (host.constant state scope name).map id view
  respondsTo : ∀ state receiver name,
    host'.respondsTo (view state) receiver name = (host.respondsTo state receiver name).map id view

def Machine.viewed {τ : Type} (machine : Machine σ τ) : Machine σ' τ :=
  { context := machine.context, limits := machine.limits, fuel := machine.fuel,
    hostCalls := machine.hostCalls, host := view machine.host, trace := machine.trace }

variable {view}

theorem Conversation.Viewed.alike {conversation : Conversation σ} {conversation' : Conversation σ'}
    (viewed : conversation.Viewed view conversation') :
    conversation.Alike (fun state state' => state' = view state) conversation' := by
  induction viewed with
  | done result state => exact .done result rfl
  | yield _ ih =>
      refine .yield rfl fun answer next next' seen => ?_
      subst seen
      exact ih answer next

/-- A host that extends another one answers like it. -/
theorem Host.Extends.alike {host : Host σ} {host' : Host σ'} (same : host.Extends view host') :
    host.Alike (fun state state' => state' = view state) (fun _ => False) host' := by
  have answers {α : Type} {given : α × σ} {given' : α × σ'} (map : given' = given.map id view) :
      SameAnswer (fun state state' => state' = view state) given given' :=
    ⟨congrArg Prod.fst map, congrArg Prod.snd map⟩
  constructor
  case send =>
    rintro state _ rfl receiver method arguments
    exact answers (same.send state receiver method arguments)
  case sendWithBlock =>
    rintro state _ rfl receiver method arguments
    exact (same.sendWithBlock state receiver method arguments).alike
  case global =>
    rintro state _ rfl name -
    exact answers (same.global state name)
  case constant =>
    rintro state _ rfl scope name
    exact answers (same.constant state scope name)
  case respondsTo =>
    rintro state _ rfl receiver name
    exact answers (same.respondsTo state receiver name)

theorem Machine.Alike.eq_viewed {τ : Type} {owned : String → Prop} {machine : Machine σ τ}
    {machine' : Machine σ' τ}
    (alike : machine.Alike (fun state state' => state' = view state) owned machine') :
    machine' = machine.viewed view := by
  obtain ⟨rfl, -⟩ := alike
  rfl

/-- A run under a host with more state is the run under the host that it extends. -/
theorem Machine.run_viewed {τ : Type} {host : Host σ} {host' : Host σ'}
    (same : host.Extends view host') (observer : Observer τ) (limits : Limits) (state : σ)
    (trace : τ) (context : Context) (code : Sequence) :
    run host' observer limits (view state) trace context code =
      (run host observer limits state trace context code).map id (viewed view) := by
  obtain ⟨result, alike⟩ :=
    run_alike same.alike observer limits rfl trace (fun _ => False.elim) code
  exact Prod.ext result alike.eq_viewed

end View

end StackCode
