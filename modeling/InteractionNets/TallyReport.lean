import InteractionNets.Tally
import InteractionNets.Text.Json

/-!
# Tally reports

The two written forms of a tally: lines for people, and a JSON value.
-/

namespace InteractionNets

/-- A duration as JSON: its whole seconds and the nanoseconds beside them. -/
def Duration.json (d : Duration) : Json :=
  .obj [("secs", .nat d.seconds), ("nanos", .nat d.subsecondNanos)]

/-- The tally of a rule as JSON. -/
def RuleTally.json (t : RuleTally) : Json :=
  .obj [
    ("interactions", .nat t.interactions),
    ("replanned", .nat t.replanned),
    ("total_time", t.totalTime.json),
    ("min_time", t.minTime.json),
    ("max_time", t.maxTime.json)]

namespace Tally

/-- A tally as JSON, with the rules in order of first use. -/
def json (t : Tally) : Json :=
  .obj [
    ("interactions", .nat t.interactions),
    ("by_rule", .obj (t.byRule.entries.map fun entry => (entry.1, entry.2.json))),
    ("rounds", .nat t.rounds),
    ("replanned", .nat t.replanned),
    ("busy_duration", t.busy.json)]

/-- The line of one rule. -/
def ruleLine (rule : String) (t : RuleTally) : String :=
  "\t" ++ rule ++ ": " ++ toString t.interactions ++ " (avg " ++ t.average.text ++ ", min " ++
    t.minTime.text ++ ", max " ++ t.maxTime.text ++ ")\n"

/-- A tally as lines: one for each rule, then the totals, with the time that has elapsed. -/
def text (t : Tally) (elapsed : Duration) : String :=
  String.join (t.byRule.entries.map fun entry => ruleLine entry.1 entry.2) ++
    "\tTotal interactions: " ++ toString t.interactions ++ "\n" ++
    "\tRounds: " ++ toString t.rounds ++ "\n" ++
    "\tReplanned: " ++ toString t.replanned ++ "\n" ++
    "\tTotal time (ms): " ++ toString elapsed.millis ++ "\n" ++
    "\tNet time (ms): " ++ toString t.busy.millis ++ "\n" ++
    "\tInteractions per second: " ++ toString t.perSecond ++ "\n"

end Tally

end InteractionNets
