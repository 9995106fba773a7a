import MulticastRelay.Config.Apply
import MulticastRelay.Report.Summary

/-! # Command line

Prints a sample configuration, or builds a node from a configuration file, reports its adapters and
saves what the node stands for.
-/
namespace MulticastRelay

/-- What the command line asks for. -/
structure Options where
  config : Option String := none
  save : Option String := none
  sample : Bool := false
deriving DecidableEq, Repr

namespace Options

/-- Reads arguments in order, the later ones over the earlier; `none` for one that is not known. -/
def read (o : Options) : List String → Option Options
  | [] => some o
  | "--example" :: rest => read { o with sample := true } rest
  | "--config" :: path :: rest => read { o with config := some path } rest
  | "-c" :: path :: rest => read { o with config := some path } rest
  | "--save" :: path :: rest => read { o with save := some path } rest
  | _ => none

def usage : String := "usage: [--example] [--config FILE] [--save FILE]"

end Options

/-- The node of a configuration, with the outcome of applying it. -/
def Configuration.build (c : Configuration) : Except ConfigError Node :=
  match c.apply (.new c.engine.settings) 0 with
  | .ok (.ok _, n) => .ok n
  | .ok (.error e, _) => .error e
  | .error _ => .error (.invalid "a rate is out of range")

/-- The report on a node that has just been built. -/
def Node.report (n : Node) : String := Report.table n.summaries 0 ++ Report.ingressLine n.counters

/-- Prints a result, or its error as the reason to stop. -/
def finish {α : Type} (result : Except ConfigError α) (use : α → IO Unit) : IO UInt32 := do
  match result with
  | .ok a =>
    use a
    return 0
  | .error e =>
    IO.eprintln e.message
    return 1

/-- Runs what the options ask for. -/
def execute (o : Options) : IO UInt32 := do
  if o.sample then finish Config.sample.render IO.print
  else match o.config with
    | none =>
      IO.eprintln "A configuration file is required (use --config)"
      return 1
    | some path =>
      let text ← IO.FS.readFile path
      finish (do (← (Configuration.parse? text).elim (.error .document) .ok).build) fun n => do
        IO.println n.report
        match o.save, (Configuration.capture n).render with
        | some target, .ok text => IO.FS.writeFile target text
        | _, _ => pure ()

end MulticastRelay

def main (args : List String) : IO UInt32 :=
  match MulticastRelay.Options.read {} args with
  | some o => MulticastRelay.execute o
  | none => do
    IO.eprintln MulticastRelay.Options.usage
    return 2
