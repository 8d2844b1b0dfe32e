import InteractionNets.Redex.ActivePair
import InteractionNets.Rule.Key

/-!
# Faults

The reasons why an operation on nets and rules can be refused, with the message each one is
reported by, the code of the kind of mistake it is, and the advice given with it.
-/

namespace InteractionNets

/-- Why an operation was refused or a reduction ended early. -/
inductive Fault where
  | unknownPort (port : PortId)
  | unknownAgent (agent : AgentId)
  | unknownConnection (connection : ConnectionId)
  | doubleConnect (port : PortId)
  | selfLoop (port : PortId)
  | arityMismatch (key : RuleKey) (expected found : Nat)
  | noPrincipal (symbol : Symbol)
  | ambiguousRule (key : RuleKey)
  | interfaceSizeMismatch (left right : Nat)
  | notActive (connection : ConnectionId)
  | noApplicableRule (pair : ActivePair)
  | stuck (pair : ActivePair) (steps : Nat)
  | freeWire (key : RuleKey)
  | aborted (steps : Nat) (cause : Fault)
deriving DecidableEq, Inhabited

namespace Fault

/-- The sentence a fault is reported by. -/
def message : Fault → String
  | unknownPort port => "port " ++ idText port ++ " is not part of this net"
  | unknownAgent agent => "agent " ++ idText agent ++ " is not part of this net"
  | unknownConnection connection =>
    "connection " ++ idText connection ++ " is not part of this net"
  | doubleConnect port => "port " ++ idText port ++ " is already connected"
  | selfLoop port => "port " ++ idText port ++ " cannot be connected to itself"
  | arityMismatch key expected found =>
    "rule " ++ key.text ++ " splices " ++ toString found ++
      " auxiliary port(s), but its pattern has " ++ toString expected
  | noPrincipal symbol =>
    "symbol " ++ symbol.text ++ " has no principal port and cannot appear in a rule"
  | ambiguousRule key => "more than one rule is defined for " ++ key.text
  | interfaceSizeMismatch left right =>
    "cannot compose an interface of " ++ toString left ++ " port(s) with one of " ++
      toString right ++ " port(s)"
  | notActive connection =>
    "connection " ++ idText connection ++ " does not join two principal ports"
  | noApplicableRule pair => "no rule applies to " ++ pair.text
  | stuck pair steps =>
    "reduction is stuck after " ++ toString steps ++ " step(s): no rule applies to " ++ pair.text
  | freeWire key => "rule " ++ key.text ++ " would join two interface ports with a bare wire"
  | aborted steps cause =>
    "reduction stopped after " ++ toString steps ++ " step(s): " ++ message cause

/-- The code of the kind of mistake a fault is. -/
def code : Fault → String
  | unknownPort _ | unknownAgent _ | unknownConnection _ => "inet::unknown_id"
  | doubleConnect _ | selfLoop _ => "inet::connect"
  | arityMismatch .. | noPrincipal _ | freeWire _ => "inet::rule"
  | ambiguousRule _ => "inet::ambiguous_rule"
  | interfaceSizeMismatch .. => "inet::interface"
  | notActive _ => "inet::not_active"
  | noApplicableRule _ | stuck .. => "inet::stuck"
  | aborted .. => "inet::aborted"

/-- What to do about a fault, where there is something to say. -/
def help? : Fault → Option String
  | unknownPort _ | unknownAgent _ | unknownConnection _ =>
    some "ids are only meaningful in the net that allocated them"
  | doubleConnect _ | selfLoop _ =>
    some "disconnect the port first, every port takes part in at most one connection"
  | arityMismatch .. | noPrincipal _ | freeWire _ =>
    some "every auxiliary port of the pattern must be spliced exactly once"
  | ambiguousRule _ => some "a rule set may contain at most one rule per pair of symbols"
  | interfaceSizeMismatch .. => some "both nets must expose the same number of free ports"
  | notActive _ => none
  | noApplicableRule _ | stuck .. => some "add a rule for this pair of symbols to the rule set"
  | aborted .. => some "the rewrites made before the failure are kept"

/-- How a run of several interactions reports the fault that ended it after the given number: a
pair without a rule means that it is stuck there, and any other fault that it was broken off. -/
def endingRun (steps : Nat) : Fault → Fault
  | noApplicableRule pair => stuck pair steps
  | cause => aborted steps cause

end Fault

end InteractionNets
