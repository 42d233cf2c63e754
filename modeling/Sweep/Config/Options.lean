import Sweep.Config.Basic

/-!
This module contains the command line options of the server.
-/

namespace Sweep

structure Options where
  config : Option String
  host : Option String
  portNumber : Option Nat
  verbose : Bool
deriving DecidableEq, Repr

namespace Options

def none : Options :=
  { config := Option.none, host := Option.none, portNumber := Option.none, verbose := false }

def portNumber? (text : String) : Option Nat :=
  let digits := text.toList
  let n := Decimal.digitsValue digits
  if !digits.isEmpty && digits.all Number.isDigit && n ≤ 65535 then some n else Option.none

def set (o : Options) (name value : String) : Except String Options :=
  if name ∈ ["--config", "-c"] then
    .ok { o with config := some value }
  else if name ∈ ["--host"] then
    .ok { o with host := some value }
  else if name ∈ ["--port", "-p"] then
    match portNumber? value with
    | some n => .ok { o with portNumber := some n }
    | Option.none => .error s!"invalid value '{value}' for '--port <PORT>'"
  else
    .error s!"unexpected argument '{name}' found"

def parse (o : Options) : List String → Except String Options
  | [] => .ok o
  | name :: args =>
    if name ∈ ["--verbose", "-v"] then
      parse { o with verbose := true } args
    else
      match args with
      | [] => .error s!"a value is required for '{name}' but none was supplied"
      | value :: args =>
        match o.set name value with
        | .ok o => parse o args
        | .error message => .error message

def apply (o : Options) (c : Config) : Config :=
  { c with host := o.host.getD c.host, portNumber := o.portNumber.getD c.portNumber }

end Options

end Sweep
