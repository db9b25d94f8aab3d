import StackCode.Proofs.Machine.Headroom
import StackCode.Proofs.Machine.HostStates
import StackCode.Proofs.Machine.Limits

/-!
# How much a run does

Fuel is charged for instructions only, but frames are entered, calls are put to
the host, and a host may ask for a block as often as it likes.  None of this can
be had for nothing.  An instruction makes one call at most, so it pays for one
entry or for one call of the host.  A block that returns has run the instruction
that leaves it, which makes no call and so pays for the next time the block is
asked for; and a block that fails ends the conversation if the host passes failures
on.

What is paid for and not yet had is an allowance, and each part of a run is given
by the allowance that it starts with and the one that it hands back.  Requests for
blocks are counted by a host that answers as before.
-/

namespace StackCode

def Sight.isEntry : Sight → Bool
  | .event (.enter (.frame _) ..) _ => true
  | _ => false

def History.entered (history : History) : Nat :=
  history.countP Sight.isEntry

/-! ## Requests for blocks -/

def Conversation.counted {σ : Type} (requests : Nat) : Conversation σ → Conversation (σ × Nat)
  | .done result state => .done result (state, requests)
  | .yield arguments state resume =>
      .yield arguments (state, requests + 1) fun answer next =>
        (resume answer next.1).counted next.2

/-- The host, which also counts how often it asks for a block to be run. -/
def Host.counting {σ : Type} (host : Host σ) : Host (σ × Nat) where
  send state receiver method arguments :=
    (host.send state.1 receiver method arguments).map id (·, state.2)
  sendWithBlock state receiver method arguments :=
    (host.sendWithBlock state.1 receiver method arguments).counted state.2
  global state name := (host.global state.1 name).map id (·, state.2)
  constant state scope name := (host.constant state.1 scope name).map id (·, state.2)
  respondsTo state receiver name := (host.respondsTo state.1 receiver name).map id (·, state.2)

/-- Counting its requests changes nothing in what a host does. -/
theorem Host.counting_extends {σ : Type} (host : Host σ) :
    host.counting.Extends Prod.fst host := by
  have viewed (conversation : Conversation σ) (requests : Nat) :
      (conversation.counted requests).Viewed Prod.fst conversation := by
    induction conversation generalizing requests with
    | done result state => exact .done result (state, requests)
    | yield arguments state resume ih =>
        exact .yield fun answer next => ih answer next.1 next.2
  constructor
  case sendWithBlock => exact fun state receiver method arguments => viewed _ _
  all_goals
    intros
    rfl

/-! ## Allowances -/

/-- What has been paid for and not yet had. -/
structure Allowance where
  entries : Nat
  sends : Nat
  requests : Nat

namespace Allowance

/-- All that has been paid for may have been had. -/
def none : Allowance := ⟨0, 0, 0⟩

def paid : Allowance := ⟨1, 1, 1⟩

def request : Allowance := ⟨1, 0, 1⟩

def entry : Allowance := ⟨1, 0, 0⟩

structure AtMost (allowance allowance' : Allowance) : Prop where
  entries : allowance.entries ≤ allowance'.entries
  sends : allowance.sends ≤ allowance'.sends
  requests : allowance.requests ≤ allowance'.requests

theorem AtMost.refl (allowance : Allowance) : allowance.AtMost allowance :=
  ⟨Nat.le_refl _, Nat.le_refl _, Nat.le_refl _⟩

theorem none_atMost (allowance : Allowance) : none.AtMost allowance :=
  ⟨Nat.zero_le _, Nat.zero_le _, Nat.zero_le _⟩

theorem request_atMost_paid : request.AtMost paid :=
  ⟨Nat.le_refl _, Nat.zero_le _, Nat.le_refl _⟩

theorem entry_atMost_paid : entry.AtMost paid :=
  ⟨Nat.le_refl _, Nat.zero_le _, Nat.zero_le _⟩

/-- What a conversation hands back with its result. -/
def after {ε α : Type} : Except ε α → Allowance
  | .ok _ => request
  | .error _ => none

theorem after_atMost_request {ε α : Type} (result : Except ε α) :
    (after result).AtMost request := by
  cases result with
  | ok value => exact .refl _
  | error error => exact none_atMost _

/-- After the sight no more is left than there was and than it pays for. -/
structure Covers (given : Allowance) (sight : Sight) (left : Allowance) : Prop where
  entries : left.entries + History.entered [sight] ≤ given.entries + History.executed [sight]
  sends : left.sends + History.sends [sight] ≤ given.sends + History.executed [sight]
  requests : left.requests ≤ given.requests + History.executed [sight]

end Allowance

variable {σ : Type}

namespace Machine

/-- The run itself enters one frame; all else that was had has been paid for. -/
structure Affords (allowance : Allowance) (machine : Machine (σ × Nat) History) : Prop where
  entries : machine.trace.entered + allowance.entries ≤ machine.trace.executed + 1
  sends : machine.trace.sends + allowance.sends ≤ machine.trace.executed
  requests : machine.host.2 + allowance.requests ≤ machine.trace.executed

namespace Affords

variable {given left : Allowance} {machine after : Machine (σ × Nat) History}

theorem mono (affords : machine.Affords given) (less : left.AtMost given) :
    machine.Affords left :=
  ⟨Nat.le_trans (Nat.add_le_add_left less.entries _) affords.entries,
    Nat.le_trans (Nat.add_le_add_left less.sends _) affords.sends,
    Nat.le_trans (Nat.add_le_add_left less.requests _) affords.requests⟩

/-- What is had and paid for shows in the history and in the requests. -/
theorem of_same (affords : machine.Affords given) (trace : after.trace = machine.trace)
    (requests : after.host.2 = machine.host.2) : after.Affords given := by
  refine ⟨?_, ?_, ?_⟩
  · rw [trace]
    exact affords.entries
  · rw [trace]
    exact affords.sends
  · rw [trace, requests]
    exact affords.requests

theorem seeing (affords : machine.Affords given) {sight : Sight}
    (covers : given.Covers sight left) :
    ({ machine with trace := machine.trace ++ [sight] } : Machine _ _).Affords left := by
  have entered : History.entered (machine.trace ++ [sight]) =
      History.entered machine.trace + History.entered [sight] := List.countP_append
  obtain ⟨entries, sends, requests⟩ := affords
  obtain ⟨entries', sends', requests'⟩ := covers
  refine ⟨?_, ?_, ?_⟩
  · dsimp only
    rw [entered, History.executed_append]
    omega
  · dsimp only
    rw [History.sends_append, History.executed_append]
    omega
  · dsimp only
    rw [History.executed_append]
    omega

theorem noting (affords : machine.Affords given) {event : Event}
    (covers : given.Covers (.event event machine.context) left) :
    (machine.noting History.watcher event).Affords left := by
  unfold Machine.noting
  rw [History.see_watcher]
  exact affords.seeing covers

/-- To leave a frame or a call of the host is nothing that has to be paid for. -/
theorem noting_exit (affords : machine.Affords given) (scope : Scope) (depth pc : Nat) :
    (machine.noting History.watcher (.exit scope depth pc)).Affords given :=
  affords.noting ⟨Nat.le_refl _, Nat.le_refl _, Nat.le_refl _⟩

end Affords

end Machine

namespace Execution

variable {α β : Type}

/-- Started with an allowance the execution hands one back, or none if it stops early. -/
def Spends (given left : Allowance) (execution : Execution (σ × Nat) History α) : Prop :=
  ∀ machine, machine.Affords given →
    Ends execution machine (fun _ => Machine.Affords left) (fun _ => Machine.Affords .none)

def Idle (execution : Execution (σ × Nat) History α) : Prop :=
  ∀ allowance, Spends allowance allowance execution

variable {given middle left : Allowance}

namespace Spends

theorem mono {given' left' : Allowance} {execution : Execution (σ × Nat) History α}
    (spends : Spends given left execution) (more : given.AtMost given') (less : left'.AtMost left) :
    Spends given' left' execution := by
  intro machine affords
  refine (spends machine (affords.mono more)).mono ?_ fun _ _ => id
  exact fun _ _ affords => affords.mono less

theorem bind {first : Execution (σ × Nat) History β} {next : β → Execution (σ × Nat) History α}
    (firsts : Spends given middle first) (nexts : ∀ value, Spends middle left (next value)) :
    Spends given left (first >>= next) := by
  intro machine affords
  rw [ends_bind]
  exact (firsts machine affords).mono (fun value after => nexts value after) fun _ _ => id

theorem throw (exit : Exit) :
    Spends given left (throw exit : Execution (σ × Nat) History α) :=
  fun _ affords => affords.mono (Allowance.none_atMost _)

theorem get {next : Machine (σ × Nat) History → Execution (σ × Nat) History α}
    (nexts : ∀ machine, Spends given left (next machine)) : Spends given left (get >>= next) :=
  fun machine affords => (ends_bind _ _).mpr (ends_get.mpr (nexts machine machine affords))

theorem look {next : Context → Execution (σ × Nat) History α}
    (nexts : ∀ context, Spends given left (next context)) :
    Spends given left (Execution.context >>= next) :=
  fun machine affords =>
    (ends_bind _ _).mpr (ends_context.mpr (nexts machine.context machine affords))

theorem report {event : Event} (covers : ∀ context, given.Covers (.event event context) left) :
    Spends (σ := σ) given left (report History.watcher event) :=
  fun machine affords =>
    (ends_report History.watcher event).mpr (affords.noting (covers machine.context))

theorem locatedAt {execution : Execution (σ × Nat) History α} (spends : Spends given left execution)
    (code : Sequence) (pc : Nat) : Spends given left (locatedAt code pc execution) :=
  fun machine affords => (ends_locatedAt code pc).mpr (spends machine affords)

/-- An error that is raised is seen, but is nothing that has to be paid for. -/
theorem noting {execution : Execution (σ × Nat) History α} (spends : Spends given left execution) :
    Spends given left (noting execution) := by
  intro machine affords
  rw [ends_noting]
  refine (spends machine affords).mono (fun _ _ => id) fun exit after affords => ?_
  cases exit with
  | raise error => exact affords.seeing ⟨Nat.le_refl _, Nat.le_refl _, Nat.le_refl _⟩
  | located fault => exact affords.of_same (List.append_nil _) rfl

end Spends

namespace Idle

theorem pure (value : α) : Idle (Pure.pure value : Execution (σ × Nat) History α) :=
  fun _ _ affords => affords

theorem throw (exit : Exit) : Idle (throw exit : Execution (σ × Nat) History α) :=
  fun _ => .throw exit

theorem bind {first : Execution (σ × Nat) History β} {next : β → Execution (σ × Nat) History α}
    (firsts : Idle first) (nexts : ∀ value, Idle (next value)) : Idle (first >>= next) :=
  fun allowance => .bind (firsts allowance) fun value => nexts value allowance

theorem modifyContext (change : Context → Context) : Idle (σ := σ) (modifyContext change) :=
  fun _ _ affords => (ends_modifyContext change).mpr (affords.of_same rfl rfl)

theorem askHost {question : σ × Nat → α × (σ × Nat)}
    (same : ∀ state, (question state).2.2 = state.2) : Idle (askHost question) :=
  fun _ machine affords =>
    (ends_askHost question).mpr (affords.of_same rfl (same machine.host))

theorem popMany (count : Nat) : Idle (σ := σ) (popMany count) := by
  intro allowance machine affords
  rw [ends_popMany]
  split
  · exact affords.of_same rfl rfl
  · exact affords.mono (Allowance.none_atMost _)

theorem writeLocal (frame : Nat) (name : String) (slot level : Nat) (value : Value) :
    Idle (σ := σ) (writeLocal frame name slot level value) := by
  refine fun allowance => .look fun context => ?_
  cases context.setLocal? frame slot level value with
  | none => exact .throw _
  | some assigned => exact bind (modifyContext fun _ => assigned) (fun _ => pure _) allowance

theorem burn : Idle (σ := σ) burn := by
  intro allowance machine affords
  rw [ends_burn]
  split
  · exact affords.mono (Allowance.none_atMost _)
  · exact affords.of_same rfl rfl

theorem countHostCall : Idle (σ := σ) countHostCall := by
  intro allowance machine affords
  rw [ends_countHostCall]
  split
  · exact affords.mono (Allowance.none_atMost _)
  · exact affords.of_same rfl rfl

end Idle

/-- An instruction may make the call that it has paid for, or it may make none. -/
def Budgeted (calls : Bool) (execution : Execution (σ × Nat) History α) : Prop :=
  match calls with
  | false => Idle execution
  | true => Spends .paid .request execution

namespace Budgeted

theorem of_idle {calls : Bool} {execution : Execution (σ × Nat) History α}
    (idle : Idle execution) : Budgeted calls execution := by
  cases calls with
  | false => exact idle
  | true => exact (idle .paid).mono (.refl _) Allowance.request_atMost_paid

theorem bind {calls : Bool} {first : Execution (σ × Nat) History β}
    {next : β → Execution (σ × Nat) History α} (firsts : Idle first)
    (nexts : ∀ value, Budgeted calls (next value)) : Budgeted calls (first >>= next) := by
  cases calls with
  | false => exact Idle.bind firsts nexts
  | true => exact Spends.bind (firsts .paid) nexts

end Budgeted

def budget (σ : Type) : Concord (σ × Nat) History (σ × Nat) History where
  agree calls execution _ := Budgeted calls execution
  known _ := True
  lends _ := True
  pure value := .of_idle (.pure value)
  bind := .bind
  after firsts nexts := Spends.bind firsts fun value => nexts value .request
  fail _ := .of_idle (.throw _)
  look nexts := by
    rename_i calls next next'
    cases calls with
    | false =>
        exact fun allowance => .look fun context =>
          nexts context context (.refl context) trivial allowance
    | true => exact Spends.look fun context => nexts context context (.refl context) trivial
  popMany := .popMany
  push _ := .modifyContext _
  setGlobal _ _ := .modifyContext _
  defineMethod _ _ _ := .modifyContext _
  writeLocal _ _ _ _ _ := .of_idle (.writeLocal _ _ _ _ _)

/-! ## Calls -/

section Calls

variable {host : Host σ} {enter : Activation → Execution (σ × Nat) History Value}
  (enters : ∀ activation, Spends .entry .request (enter activation))
include enters

theorem invoke_spends (closure : Closure) (arguments : List Value) :
    Spends .entry .request (invoke enter closure arguments) :=
  .look fun _ => enters _

/-- A conversation goes on as long as each block that is run pays for the next request. -/
theorem converse_spends (closure : Closure) {conversation : Conversation σ}
    (passesOn : conversation.PassesOn) {machine : Machine (σ × Nat) History} {requests : Nat}
    (present : machine.host.2 = requests) (affords : machine.Affords .request) :
    Ends (converse enter closure (conversation.counted requests)) machine
      (fun result => Machine.Affords (.after result)) (fun _ => Machine.Affords .none) := by
  induction conversation generalizing machine requests with
  | done result state =>
      have kept : ({ machine with host := (state, requests) } : Machine _ _).Affords .request :=
        affords.of_same rfl present.symm
      exact kept.mono (Allowance.after_atMost_request result)
  | yield arguments state resume ih =>
      obtain ⟨ending, further⟩ := passesOn
      have asked :
          ({ machine with host := (state, requests + 1) } : Machine _ _).Affords .entry := by
        refine ⟨affords.entries, affords.sends, ?_⟩
        have paid := affords.requests
        rw [present] at paid
        exact paid
      unfold Conversation.counted converse invokeForHost
      simp only [ends_bind, ends_askHost, ends_attempt]
      refine (invoke_spends enters closure arguments _ asked).mono ?_ ?_
      · intro value after affords
        exact ih (.ok value) after.host.1 (further _ _) rfl affords
      · intro exit after affords
        simp only [ends_pure, ends_get, ending]
        exact affords.of_same rfl rfl

theorem converseWithHost_spends (passesOn : host.PassesOn) (receiver : Value) (method : String)
    (arguments : List Value) (block : Option Closure) {machine : Machine (σ × Nat) History}
    (affords : machine.Affords .request) :
    Ends (converseWithHost host.counting enter receiver method arguments block) machine
      (fun result => Machine.Affords (.after result)) (fun _ => Machine.Affords .none) := by
  cases block with
  | none =>
      have asked : Idle (σ := σ)
          (askHost fun state => host.counting.send state receiver method arguments) :=
        .askHost fun _ => rfl
      refine (asked _ machine affords).mono (fun result after affords => ?_) fun _ _ => id
      exact affords.mono (Allowance.after_atMost_request result)
  | some closure =>
      exact converse_spends enters closure (passesOn machine.host.1 receiver method arguments) rfl
        affords

/-- A call of the host is paid for, and so is each request that it makes. -/
theorem callHost_spends (passesOn : host.PassesOn) (receiver : Value) (method : String)
    (arguments : List Value) (block : Option Closure) :
    Spends .paid .request
      (callHost host.counting History.watcher enter receiver method arguments block) := by
  refine .bind (Idle.countHostCall _) fun _ => .look fun caller => ?_
  have sent (depth pc : Nat) : Spends (σ := σ) .paid .request
      (report History.watcher (.enter (.hostCall method) depth pc)) :=
    .report fun _ => ⟨Nat.le_refl _, Nat.le_refl _, Nat.le_refl _⟩
  refine .bind (sent _ _) fun _ machine affords => ?_
  rw [ends_bind]
  refine (converseWithHost_spends enters passesOn receiver method arguments block affords).mono
    (fun result after affords => ?_) fun _ _ => id
  rw [ends_bind, ends_report]
  cases result with
  | ok value => exact affords.noting_exit (.hostCall method) _ _
  | error error => exact affords.noting_exit (.hostCall method) _ _

theorem budget_partners (passesOn : host.PassesOn) :
    (budget σ).Partners host.counting host.counting History.watcher History.watcher enter
      enter where
  globals _ _ _ := .askHost fun _ => rfl
  constants _ _ := .askHost fun _ => rfl
  methods _ _ := .askHost fun _ => rfl
  calls receiver method arguments block _ :=
    callHost_spends enters passesOn receiver method arguments block
  enters _ _ _ _ _ := (enters _).mono Allowance.entry_atMost_paid (.refl _)
  invokes closure arguments _ :=
    (invoke_spends enters closure arguments).mono Allowance.entry_atMost_paid (.refl _)

/-! ## Frames -/

/-- An instruction is paid for, and hands back what its call did not use up. -/
theorem advance_spends (passesOn : host.PassesOn) (code : Sequence) (frame pc : Nat)
    (instruction : Instruction) :
    Spends .none .request
      (advance host.counting History.watcher enter code frame pc instruction) := by
  have paid : Spends (σ := σ) .none .paid
      (reportInstruction History.watcher code pc instruction) := fun machine affords =>
    (ends_reportInstruction History.watcher code pc instruction).mpr
      (affords.noting ⟨Nat.le_refl _, Nat.le_refl _, Nat.le_refl _⟩)
  refine .bind (Idle.burn _) fun _ => .bind paid fun _ => ?_
  refine .bind (Idle.modifyContext _ _) fun _ => .bind (?_ : Budgeted true _) fun outcome => ?_
  · exact Concord.step (budget_partners enters passesOn) code
      ⟨trivial, fun _ _ => trivial, fun _ _ => trivial⟩
  · cases outcome with
    | jump target => exact .bind (Idle.modifyContext _ _) fun _ => Idle.pure _ _
    | next | leave => exact .bind (Idle.pure _ _) fun _ => Idle.pure _ _

/-- The instruction that leaves a frame pays for what comes after it. -/
theorem dispatchWatched_spends (passesOn : host.PassesOn) (code : Sequence) (frame bound : Nat) :
    Spends .none .request (dispatchWatched host.counting enter code frame bound) := by
  induction bound with
  | zero => exact .noting (.throw _)
  | succ bound ih =>
      refine .look fun context => .bind (?_ : Spends .none .request _) fun outcome => ?_
      · refine .locatedAt (.noting ?_) code _
        cases code.instruction? context.pc with
        | none => exact .throw _
        | some instruction => exact advance_spends enters passesOn code frame _ instruction
      · cases outcome with
        | leave result => exact Idle.pure _ _
        | next | jump => exact ih.mono (Allowance.none_atMost _) (.refl _)

end Calls

/-- A frame that returns has paid for the next request, and with nothing left it cannot return. -/
theorem evaluateWatched_spends {host : Host σ} (passesOn : host.PassesOn) (room : Nat)
    (activation : Activation) :
    Spends .entry .request (evaluateWatched host.counting room activation) := by
  induction room generalizing activation with
  | zero => exact .noting (.throw _)
  | succ room ih =>
      obtain ⟨code, self, parent, block, arguments⟩ := activation
      refine .get fun caller => .bind (Idle.modifyContext _ _) fun _ => ?_
      have entered (depth pc : Nat) : Spends (σ := σ) .entry .none
          (report History.watcher (.enter (.frame code) depth pc)) :=
        .report fun _ => ⟨Nat.le_refl _, Nat.le_refl _, Nat.le_refl _⟩
      refine .bind (entered _ _) fun _ => .bind (Idle.modifyContext _ _) fun _ machine affords => ?_
      simp only [ends_bind, ends_attempt, ends_report, ends_modifyContext]
      refine (dispatchWatched_spends ih passesOn code _ _ machine affords).mono ?_ ?_
      · intro value after affords
        exact (affords.noting_exit (.frame code) _ _).of_same rfl rfl
      · intro exit after affords
        exact (affords.noting_exit (.frame code) _ _).of_same rfl rfl

end Execution

namespace Machine

/-- When a run ends, all that it had has been paid for. -/
theorem watch_affords {host : Host σ} (passesOn : host.PassesOn) (limits : Limits) (state : σ)
    (context : Context) (code : Sequence) :
    (watch host.counting limits (state, 0) context code).2.Affords .none := by
  have started : ((start limits (state, 0) [] context).noting History.watcher
      (.runStart code)).Affords .entry := ⟨Nat.le_refl _, Nat.le_refl _, Nat.le_refl _⟩
  have ended := Execution.evaluateWatched_spends passesOn limits.callDepth
    ⟨code, .main, none, none, []⟩ _ started
  unfold watch
  revert ended
  unfold Execution.Ends
  cases Execution.evaluateWatched host.counting limits.callDepth _ _ with
  | ok value after =>
      intro affords
      have kept : (after.keepResult (.ok value)).Affords .none :=
        (affords.mono (Allowance.none_atMost _)).of_same rfl rfl
      exact kept.noting ⟨Nat.le_refl _, Nat.le_refl _, Nat.le_refl _⟩
  | error exit after =>
      intro affords
      exact affords.noting ⟨Nat.le_refl _, Nat.le_refl _, Nat.le_refl _⟩

/--
A run under the standard object model does no more than its instructions pay for.
Whoever follows it, it is the watched run of the object model that counts its requests
for blocks.  In that the frames entered are one more than the instructions at the
most, and there are no more calls of the host, and no more requests for blocks,
than instructions; and these are no more than there was fuel for.
-/
theorem work_is_paid_for (limits : Limits) (model : ObjectModel) (context : Context)
    (code : Sequence) :
    let (result, ended) := watch ObjectModel.host.counting limits (model, 0) context code
    (∀ {τ : Type} (observer : Observer τ) (trace : τ),
      run ObjectModel.host observer limits model trace context code =
        (result, (ended.viewed Prod.fst).withTrace (ended.trace.seenBy observer trace))) ∧
    ended.trace.entered ≤ ended.trace.executed + 1 ∧
    ended.trace.sends ≤ ended.trace.executed ∧
    ended.host.2 ≤ ended.trace.executed ∧
    ended.trace.executed ≤ limits.fuel := by
  have affords := watch_affords ObjectModel.host_passesOn limits model context code
  have balances := (watch_tallies ObjectModel.host.counting.counts_anything .silent limits
    (model, 0) trivial () context code).2.balances
  refine ⟨fun observer trace => ?_, affords.entries, affords.sends, affords.requests,
    Nat.le.intro balances.fuel⟩
  have viewed := run_viewed ObjectModel.host.counting_extends observer limits (model, 0) trace
    context code
  rw [run_eq_watch ObjectModel.host.counting] at viewed
  exact viewed

example :
    let ended := (watch ObjectModel.host.counting .usual (.withTables .empty .empty, 0) .empty
      eachOnce).2
    ended.trace.executed = 5 ∧ ended.trace.entered = 2 ∧ ended.trace.sends = 1 ∧
      ended.host.2 = 1 := by
  decide +kernel

end Machine

end StackCode
