import InteractionNets.CommandLine.Response

/-!
# The program

Reads the command line, answers on the standard output and reports failures on the standard error.
-/

namespace InteractionNets.CommandLine

/-- How the program is used. -/
def usage : String :=
  "usage: inet [--max-steps N] [--parallel] [--show] [--json] " ++
    "(add A B | mul A B | rules SYSTEM)"

/-- Calculate and print the result with the time it took. -/
def printCalculation (operator : Operator) (a b : Nat) (options : Options) : IO UInt32 := do
  let start ← IO.monoNanosNow
  match calculate .stopped operator a b options with
  | .error fault =>
    IO.eprintln fault.message
    return 1
  | .ok (run, net) =>
    let stop ← IO.monoNanosNow
    IO.print (calculationText operator a b options run net ⟨stop - start⟩)
    return 0

/-- Answer a command line. -/
def answer (args : List String) : IO UInt32 := do
  match read? args with
  | none =>
    IO.eprintln usage
    return 2
  | some .version =>
    IO.print versionText
    return 0
  | some (.rules system json) =>
    let response := rulesResponse system json
    IO.print response.stdout
    return response.exit.toUInt32
  | some (.calculate operator a b options) => printCalculation operator a b options

end InteractionNets.CommandLine

/-- Answer the command line. -/
def main (args : List String) : IO UInt32 :=
  InteractionNets.CommandLine.answer args
