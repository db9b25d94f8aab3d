import StackCode.Graph.Drawing
import StackCode.Graph.FlowListing
import StackCode.Machine.Run
import StackCode.ObjectModel.Host
import StackCode.Samples
import StackCode.Sequence.Nested

/-!
# The command line

Shows the listings and graphs of the sample programs and runs them on demand.
A request names samples and options in any order; a request that makes no
sense is a usage error and shows nothing.
-/

namespace StackCode.CommandLine

inductive Stage where
  | listing
  | blocks
  | flow
  | drawing
  | everything
  deriving DecidableEq

namespace Stage

def ofWord? : String → Option Stage
  | "disasm" => some .listing
  | "cfg" => some .blocks
  | "dfg" => some .flow
  | "mermaid" => some .drawing
  | "all" => some .everything
  | _ => none

/-- A request for `wanted` shows this stage. -/
def isShown (stage wanted : Stage) : Bool :=
  wanted = .everything || wanted = stage

end Stage

/-- A request in the making; an option that was given is not accepted again. -/
structure Request where
  samples : List String
  stage : Option Stage
  runs : Bool
  lists : Bool

namespace Request

def empty : Request := ⟨[], none, false, false⟩

def addSample (request : Request) (name : String) : Request :=
  { request with samples := request.samples ++ [name] }

def setStage? (request : Request) (word : String) : Option Request :=
  match request.stage, Stage.ofWord? word with
  | none, some stage => some { request with stage := some stage }
  | _, _ => none

def setOption? (request : Request) : String → Option Request
  | "--run" => if request.runs then none else some { request with runs := true }
  | "--list" => if request.lists then none else some { request with lists := true }
  | _ => none

/-- The word is an option and not the name of a sample; a lone dash is a name. -/
def isOption (word : String) : Bool :=
  word.startsWith "-" && word ≠ "-"

/-- The value of a stage option that is written in one word. -/
def stageValue? (word : String) : Option String :=
  let start := "--stage="
  if word.startsWith start then some (word.drop start.length).toString else none

/-- Read the words of a request; after a double dash every word is a sample. -/
def read? (request : Request) : List String → Option Request
  | [] => some request
  | "--" :: rest => some (rest.foldl addSample request)
  | "--stage" :: value :: rest =>
      if isOption value then none else (request.setStage? value).bind (read? · rest)
  | word :: rest =>
      match stageValue? word with
      | some value => (request.setStage? value).bind (read? · rest)
      | none =>
          if isOption word then (request.setOption? word).bind (read? · rest)
          else read? (request.addSample word) rest

end Request

structure Answer where
  status : Nat
  text : String

/-- A text if a stage is wanted, with an empty line behind it. -/
def shown (stage wanted : Stage) (text : String) : String :=
  if stage.isShown wanted then text ++ "\n" else ""

/-- Everything wanted of one sequence, and whether all graphs could be built. -/
def showSequence (wanted : Stage) (code : Sequence) : String × Bool :=
  let listing := shown .listing wanted code.listing
  match BlockGraph.build code with
  | .error _ => (listing, false)
  | .ok blocks =>
      let listing := listing ++ shown .blocks wanted blocks.listing
      match FlowGraph.build blocks with
      | .error _ => (listing, false)
      | .ok flow =>
          let listing := listing ++ shown .flow wanted flow.listing
          match ValueGraph.build flow with
          | .error _ => (listing, false)
          | .ok values => (listing ++ shown .drawing wanted values.drawing, true)

/-- Everything wanted of several sequences, up to one without graphs. -/
def showSequences (wanted : Stage) : List Sequence → String × Bool
  | [] => ("", true)
  | code :: rest =>
      match showSequence wanted code with
      | (text, false) => (text, false)
      | (text, true) =>
          let (others, complete) := showSequences wanted rest
          (text ++ others, complete)

/-- The line about the result of a sample's run, if it has one. -/
def runText (code : Sequence) : String × Bool :=
  let model := ObjectModel.withTables .empty .empty
  match (Machine.run ObjectModel.host .silent .usual model () .empty code).1 with
  | .ok value => ("=> " ++ value.inspect ++ "\n\n", true)
  | .error _ => ("", false)

def showSample (wanted : Stage) (runs : Bool) (name : String) (code : Sequence) : String × Bool :=
  let (text, complete) := showSequences wanted code.all
  let (result, succeeded) := if complete && runs then runText code else ("", complete)
  ("# " ++ name ++ "\n\n" ++ text ++ result, succeeded)

def answer (samples : List (String × Sequence)) (request : Request) : Answer :=
  let names := samples.map Prod.fst
  if request.lists then
    ⟨0, String.join (names.map (· ++ "\n"))⟩
  else if request.samples.all names.contains then
    let chosen := samples.filter fun (name, _) =>
      request.samples.isEmpty || request.samples.contains name
    let shown := chosen.map fun (name, code) =>
      showSample (request.stage.getD .everything) request.runs name code
    ⟨if shown.all Prod.snd then 0 else 1, String.join (shown.map Prod.fst)⟩
  else
    ⟨1, ""⟩

def respond (words : List String) : Answer :=
  match Request.empty.read? words with
  | none => ⟨2, ""⟩
  | some request =>
      match Samples.catalog with
      | .ok samples => answer samples request
      | .error _ => ⟨1, ""⟩

end StackCode.CommandLine
