import StackCode.Proofs.BlockCalls
import StackCode.Proofs.Machine.Bounds

/-!
# The limits of a run

One supply of fuel, one allowance of frames and one of host calls serve a whole
run, with all the frames it nests and all the blocks that the host calls back.
So every instruction, every frame and every call is within the limits, and a
limit is reported only where it has been used up.
-/

namespace StackCode

namespace ObjectModel

variable {counts : ObjectModel → Nat → Prop}

theorem Heeds.keeps {talk : ObjectModel → Conversation ObjectModel} (heeds : Heeds talk)
    {model : ObjectModel} {calls : Nat} (counted : counts model calls) :
    (talk model).Keeps counts calls := by
  induction heeds generalizing model calls with
  | done => exact counted
  | yield _ ih =>
      refine ⟨counted, fun answer model' calls' counted' => ?_⟩
      cases answer with
      | ok value => exact ih value counted'
      | error error => exact counted'

/-- The standard object model counts the calls it gets, beside those before the run. -/
theorem host_counts (before : Nat) :
    host.Counts fun model calls => model.calls = before + calls where
  global counted _ := counted
  constant counted _ _ := counted
  respondsTo counted _ _ := counted
  send := by
    intro model calls counted receiver method arguments
    rw [host, calls_send, counted, Nat.add_assoc]
  sendWithBlock := by
    intro model calls counted receiver method arguments
    change (model.sendWithBlock receiver method arguments).Keeps _ _
    rcases sendWithBlock_cases receiver method arguments with ⟨talk, heeds, same⟩ | same
    · rw [same]
      apply heeds.keeps
      rw [countCall, counted, Nat.add_assoc]
    · rw [same, Conversation.Keeps, calls_send, counted, Nat.add_assoc]

end ObjectModel

namespace Machine

variable {σ τ : Type}

theorem Tallies.keepResult {observer : Observer τ} {trace : τ} {limits : Limits}
    {room bound : Nat} {counts : σ → Nat → Prop} {machine : Machine σ History}
    {machine' : Machine σ τ}
    (tallies : Tallies observer trace limits room bound counts machine machine')
    (result : Except Fault Value) :
    Tallies observer trace limits room bound counts (machine.keepResult result)
      (machine'.keepResult result) := by
  cases result with
  | error fault => exact tallies
  | ok value =>
      rw [keepResult_ok, keepResult_ok, Tallies.tandem.context tallies]
      exact Tallies.tandem.moved tallies _

/-- A whole run tallies with the watched one. -/
theorem watch_tallies {host : Host σ} {counts : σ → Nat → Prop} (counting : host.Counts counts)
    (observer : Observer τ) (limits : Limits) (state : σ) (counted : counts state 0) (trace : τ)
    (context : Context) (code : Sequence) :
    (run host observer limits state trace context code).1 =
        (watch host limits state context code).1 ∧
      Tallies observer trace limits limits.callDepth (limits.fuel + 1) counts
        (watch host limits state context code).2
        (run host observer limits state trace context code).2 := by
  have balances : (start limits state [] context).Balances limits limits.callDepth
      (limits.fuel + 1) :=
    ⟨rfl, Nat.zero_add _, Nat.lt_succ_self _, rfl, Nat.zero_le _, Nat.zero_add _, .nil⟩
  have tallies : Tallies observer trace limits limits.callDepth (limits.fuel + 1) counts
      (start limits state [] context) (start limits state trace context) :=
    ⟨⟨rfl, balances⟩, counted⟩
  have started := tallies.noting (.runStart code) rfl rfl
  have ended := Execution.evaluate_paired counting limits.callDepth (limits.fuel + 1)
    ⟨code, .main, none, none, []⟩ _ _ started
  obtain ⟨result, after, after', tallies, watched, followed⟩ :=
    exists_conclude ended History.watcher observer code
  rw [run_eq_conclude, watch, watched, followed]
  exact ⟨rfl, (tallies.keepResult result).noting _ rfl rfl⟩

/-- Whoever follows a run, it is the watched one. -/
theorem run_eq_watch (host : Host σ) (observer : Observer τ) (limits : Limits) (state : σ)
    (trace : τ) (context : Context) (code : Sequence) :
    run host observer limits state trace context code =
      ((watch host limits state context code).1,
        (watch host limits state context code).2.withTrace
          ((watch host limits state context code).2.trace.seenBy observer trace)) := by
  obtain ⟨result, tallies⟩ :=
    watch_tallies host.counts_anything observer limits state trivial trace context code
  exact Prod.ext result tallies.same

/-! ## The limits hold -/

/--
Whoever follows a run, it is the watched run, and in that the limits hold: each
instruction takes a unit of the fuel, the calls of the host stay within their
number, and whatever happens is allowed by the limits when it happens.  The
standard object model has counted the same calls.
-/
theorem limits_hold :
    (∀ {σ : Type} (host : Host σ) (limits : Limits) (state : σ) (context : Context)
        (code : Sequence),
      let (result, ended) := watch host limits state context code
      (∀ {τ : Type} (observer : Observer τ) (trace : τ),
        run host observer limits state trace context code =
          (result, ended.withTrace (ended.trace.seenBy observer trace))) ∧
      ended.trace.executed + ended.fuel = limits.fuel ∧
      ended.trace.sends ≤ limits.hostCalls ∧
      ∀ earlier sight later, ended.trace = earlier ++ sight :: later →
        sight.Allowed limits earlier) ∧
    ∀ (limits : Limits) (model : ObjectModel) (context : Context) (code : Sequence),
      let ended := (watch ObjectModel.host limits model context code).2
      ended.host.calls = model.calls + ended.trace.sends := by
  constructor
  · intro σ host limits state context code
    have tallies {τ : Type} (observer : Observer τ) (trace : τ) :=
      watch_tallies host.counts_anything observer limits state trivial trace context code
    have balances := (tallies .silent ()).2.balances
    refine ⟨fun observer trace => ?_, balances.fuel, ?_, fun earlier sight later split => ?_⟩
    · obtain ⟨result, tallies⟩ := tallies observer trace
      exact Prod.ext result tallies.same
    · exact balances.sends_le
    · exact balances.lawful.allowed split
  · intro limits model context code
    have tallies := (watch_tallies (ObjectModel.host_counts model.calls) .silent limits model rfl ()
      context code).2
    have calls := tallies.counted
    rw [← tallies.balances.calls] at calls
    exact calls

def forever : Sequence where
  name := "<compiled>"
  kind := .top
  code := #[.jump 0]
  labels := #[some 0]
  locals := []
  parameters := .none
  handlers := []

example :
    let ended := (watch ObjectModel.host ⟨3, 1, 0⟩ (.withTables .empty .empty) .empty forever).2
    ended.trace.executed = 3 ∧ ended.fuel = 0 ∧
      (ended.trace.any fun | .raise .fuelExceeded _ => true | _ => false) = true := by
  decide +kernel

end Machine

end StackCode
