import StackCode.Proofs.BlockCalls
import StackCode.Proofs.Machine.Likeness

/-!
# Sessions

A context outlives its runs.  In a session it is run again and again, reset and
given globals in between, while the object model stays the same one and is handed
from run to run.  What an object model has under the name of one global makes no
difference to a session whose context has a global of that name.
-/

namespace StackCode

/-! ## Object models -/

namespace ObjectModel

/-- The models differ in the value of one global at most. -/
structure AlikeBut (name : String) (model model' : ObjectModel) : Prop where
  output : model'.output = model.output
  calls : model'.calls = model.calls
  constants : ∀ constant, model'.constants.get? constant = model.constants.get? constant
  globals : ∀ other, other ≠ name → model'.globals.get? other = model.globals.get? other

variable {name : String} {model model' : ObjectModel}

theorem AlikeBut.countCall (alike : model.AlikeBut name model') :
    model.countCall.AlikeBut name model'.countCall :=
  ⟨alike.output, congrArg (· + 1) alike.calls, alike.constants, alike.globals⟩

theorem AlikeBut.putLines (alike : model.AlikeBut name model') (arguments : List Value) :
    (model.putLines arguments).AlikeBut name (model'.putLines arguments) :=
  ⟨congrArg (· ++ _) alike.output, alike.calls, alike.constants, alike.globals⟩

/-- A call without a block sees nothing of the model but its output. -/
theorem send_alikeBut (alike : model.AlikeBut name model') (receiver : Value) (method : String)
    (arguments : List Value) :
    Host.SameAnswer (AlikeBut name) (model.send receiver method arguments)
      (model'.send receiver method arguments) := by
  have counted := alike.countCall
  cases receiver with
  | integer number =>
      dsimp only [send]
      split <;> exact ⟨rfl, counted⟩
  | main =>
      dsimp only [send]
      split
      · exact ⟨rfl, counted.putLines arguments⟩
      · exact ⟨rfl, counted⟩
  | _ => exact ⟨rfl, counted⟩

theorem Heeds.alikeBut {talk : ObjectModel → Conversation ObjectModel} (heeds : Heeds talk)
    (alike : model.AlikeBut name model') : (talk model).Alike (AlikeBut name) (talk model') := by
  induction heeds generalizing model model' with
  | done value => exact .done _ alike
  | yield _ ih =>
      refine .yield alike fun answer _ _ alike => ?_
      cases answer with
      | ok value => exact ih value alike
      | error error => exact .done _ alike

theorem sendWithBlock_alikeBut (alike : model.AlikeBut name model') (receiver : Value)
    (method : String) (arguments : List Value) :
    (model.sendWithBlock receiver method arguments).Alike (AlikeBut name)
      (model'.sendWithBlock receiver method arguments) := by
  rcases sendWithBlock_cases receiver method arguments with ⟨talk, heeds, same⟩ | same
  · rw [same, same]
    exact heeds.alikeBut alike.countCall
  · have sent := send_alikeBut alike receiver method arguments
    rw [same, same, sent.answer]
    exact .done _ sent.state

theorem constant_alikeBut (alike : model.AlikeBut name model') (scope : Option Value)
    (constant : String) : model'.constant scope constant = model.constant scope constant := by
  unfold ObjectModel.constant
  split
  · exact alike.constants constant
  · exact alike.constants constant
  · rfl

/-- Models that differ in one global answer alike, unless they are asked for it. -/
theorem host_alikeBut (name : String) : host.Alike (AlikeBut name) (· = name) host where
  send := send_alikeBut
  sendWithBlock := sendWithBlock_alikeBut
  global alike other foreign := ⟨alike.globals other foreign, alike⟩
  constant alike scope constant := ⟨constant_alikeBut alike scope constant, alike⟩
  respondsTo alike _ _ := ⟨rfl, alike⟩

end ObjectModel

/-! ## Steps of a session -/

/-- A run, or something that is done to the context between runs. -/
inductive SessionStep where
  | run (limits : Limits) (code : Sequence)
  | reset
  | setGlobal (name : String) (value : Value)

structure Session (τ : Type) where
  context : Context
  model : ObjectModel
  trace : τ

structure SessionReport (τ : Type) where
  result : Option (Except Fault Value)
  context : Context
  output : Array String
  trace : τ

namespace Session

variable {τ : Type}

def next (observer : Observer τ) (session : Session τ) :
    SessionStep → Option (Except Fault Value) × Session τ
  | .run limits code =>
      let (result, ended) := Machine.run ObjectModel.host observer limits session.model
        session.trace session.context code
      (some result, ⟨ended.context, ended.host, ended.trace⟩)
  | .reset => (none, { session with context := session.context.reset })
  | .setGlobal name value =>
      (none, { session with context := session.context.setGlobal name value })

def reports (observer : Observer τ) (session : Session τ) :
    List SessionStep → List (SessionReport τ)
  | [] => []
  | step :: rest =>
      let (result, after) := session.next observer step
      ⟨result, after.context, after.model.output, after.trace⟩ :: after.reports observer rest

/-- Two sessions differ in what the models have of one global at most, and the context has it. -/
structure AlikeBut (name : String) (session session' : Session τ) : Prop where
  context : session'.context = session.context
  trace : session'.trace = session.trace
  model : session.model.AlikeBut name session'.model
  tracks : session.context.Tracks name

/-- A step shows the same in sessions that differ only in what the models have of one global. -/
theorem AlikeBut.next {name : String} {session session' : Session τ}
    (alike : session.AlikeBut name session') (observer : Observer τ) (step : SessionStep) :
    (session'.next observer step).1 = (session.next observer step).1 ∧
      (session.next observer step).2.AlikeBut name (session'.next observer step).2 := by
  obtain ⟨_, model, _⟩ := session
  obtain ⟨context, model', trace⟩ := session'
  obtain ⟨rfl, rfl, models, tracks⟩ := alike
  cases step with
  | run limits code =>
      obtain ⟨result, ended⟩ := Machine.run_alike (ObjectModel.host_alikeBut name) observer limits
        models trace (by rintro _ rfl; exact tracks) code
      exact ⟨congrArg some result, ended.context, ended.trace, ended.host, ended.tracks name rfl⟩
  | reset => exact ⟨rfl, rfl, rfl, models, tracks⟩
  | setGlobal other value => exact ⟨rfl, rfl, rfl, models, tracks.setGlobal other value⟩

/-- And so it is with all steps, and the global is never lost. -/
theorem AlikeBut.reports {name : String} {session session' : Session τ}
    (alike : session.AlikeBut name session') (observer : Observer τ) (steps : List SessionStep) :
    session'.reports observer steps = session.reports observer steps ∧
      ∀ report ∈ session.reports observer steps, report.context.Tracks name := by
  induction steps generalizing session session' with
  | nil => exact ⟨rfl, nofun⟩
  | cons step rest ih =>
      obtain ⟨result, after⟩ := alike.next observer step
      obtain ⟨same, tracks⟩ := ih after
      unfold Session.reports
      dsimp only
      rw [result, same, after.context, after.trace, after.model.output]
      exact ⟨rfl, List.forall_mem_cons.mpr ⟨after.tracks, tracks⟩⟩

end Session

end StackCode
