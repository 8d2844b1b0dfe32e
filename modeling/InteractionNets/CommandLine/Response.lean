import InteractionNets.CommandLine.Request
import InteractionNets.Rule.Confluence
import InteractionNets.Rule.Text
import InteractionNets.TallyReport

/-!
# Responses on the command line

What the program prints for a request, and the exit code it leaves behind. A line gives the result
of a calculation; then come the reduced net, if it is asked for, and the tally, as lines or as
JSON with sorted fields.
-/

namespace InteractionNets.CommandLine

/-- What the program leaves behind: its exit code and what it prints. -/
structure Response where
  exit : Nat
  stdout : String
deriving DecidableEq, Inhabited

/-- The answer to a command line that cannot be read. -/
def Response.usage : Response :=
  ⟨2, ""⟩

/-- The answer when a reduction fails. -/
def Response.failure : Response :=
  ⟨1, ""⟩

/-- The line that gives the version. -/
def versionText : String :=
  "inet 0.1.0\n"

/-- The number of interactions after which a run without limit is given up: more than can be
counted in 64 bits. -/
def fuel : Nat :=
  Word.count64

/-- Reduce the net of an operator on two numbers. -/
def calculate (watch : Stopwatch) (operator : Operator) (a b : Nat) (options : Options) :
    Except Fault (Run × Net) := do
  let net ← operator.net a b
  let engine : Engine := ⟨options.settings, ⟨← Peano.rules, watch⟩⟩
  let (run, net) ← (engine.run fuel).result net
  return (run.getD ⟨.diverging, fuel⟩, net)

/-- The line that gives the result of a calculation. -/
def resultText (operator : Operator) (a b : Nat) (run : Run) (net : Net) : String :=
  match run.outcome with
  | .diverging => "Gave up after " ++ toString run.steps ++ " steps\n"
  | .normalForm =>
    match Peano.readNat net with
    | some n =>
      toString a ++ " " ++ operator.sign ++ " " ++ toString b ++ " = " ++ toString n ++ "\n"
    | none => "The normal form is not a number\n"

/-- What was done, as JSON with sorted fields. -/
def calculationJson (settings : Settings) (run : Run) (net : Net) (elapsed : Duration) : Json :=
  Json.sorted <| .obj [
    ("config", settings.json),
    ("result", run.json),
    ("rewrites", net.tally.json),
    ("elapsed_ms", .nat elapsed.millis)]

/-- All that is printed about a calculation that took the given time. -/
def calculationText (operator : Operator) (a b : Nat) (options : Options) (run : Run) (net : Net)
    (elapsed : Duration) : String :=
  resultText operator a b run net ++
    (if options.showNet then "Net:\n" ++ net.text 1 else "") ++
    (if options.json then (calculationJson options.settings run net elapsed).pretty ++ "\n"
      else "Stats:\n" ++ net.tally.text elapsed)

/-- A rule system and its checks, as JSON with sorted fields. -/
def rulesJson (system : RuleSystem) (rules : RuleSet) : Json :=
  Json.sorted <| .obj [
    ("system", .str system.name),
    ("rules", .list (fun rule => .str rule.key.text) rules.rules),
    ("deterministic", .bool (ambiguousKeys rules.rules).isEmpty),
    ("asymmetric", .list (fun key => .str key.text) rules.confluenceFaults)]

/-- A line for each key that fails a check, or the line that says it is passed. -/
def checkText (passed failed : String) (keys : List RuleKey) : String :=
  if keys.isEmpty then passed ++ "\n"
  else String.join (keys.map fun key => failed ++ ": " ++ key.text ++ "\n")

/-- A rule system and its checks, as lines. -/
def rulesText (system : RuleSystem) (rules : RuleSet) : String :=
  "Rule system \x60" ++ system.name ++ "\x60\n" ++ rules.text ++
    checkText "deterministic" "ambiguous" (ambiguousKeys rules.rules) ++
    checkText "confluent" "not symmetric" rules.confluenceFaults

/-- The answer to a request for a rule system. -/
def rulesResponse (system : RuleSystem) (json : Bool) : Response :=
  match system.rules with
  | .error _ => .failure
  | .ok rules =>
    ⟨0, if json then (rulesJson system rules).pretty ++ "\n" else rulesText system rules⟩

/-- The answer to a command line when time is not measured. -/
def respond (args : List String) : Response :=
  match read? args with
  | none => .usage
  | some .version => ⟨0, versionText⟩
  | some (.rules system json) => rulesResponse system json
  | some (.calculate operator a b options) =>
    match calculate .stopped operator a b options with
    | .error _ => .failure
    | .ok (run, net) => ⟨0, calculationText operator a b options run net .zero⟩

end InteractionNets.CommandLine
