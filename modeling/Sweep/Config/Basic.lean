import Sweep.Json.Document
import Sweep.Duration
import Sweep.Tuples.Basic

/-!
This module contains the configuration of a server and its form in JSON.
-/

namespace Sweep

structure Config where
  host : String
  portNumber : Nat
  computationTimeout : Duration
  queueTimeout : Duration
  -- the number of computations at a time, or `none` for that of the machine
  workerThreads : Option Nat
  maxDomainLength : Nat
  quitCommand : String
deriving DecidableEq, Repr

inductive ConfigError
  | malformed
  | malformedFile
  | unreadableFile (reason : String)
deriving DecidableEq, Repr

namespace ConfigError

def message : ConfigError → String
  | malformed => "Internal error: Failed to parse config"
  | malformedFile => "Internal error: Failed to parse config file"
  | unreadableFile reason => s!"Internal error: Failed to open config file: {reason}"

end ConfigError

namespace Config

def default : Config :=
  {
    host := "127.0.0.1"
    portNumber := 10000
    computationTimeout := .ofMillis 10000
    queueTimeout := .ofMillis 120000
    workerThreads := none
    maxDomainLength := 10000000
    quitCommand := "BYE"
  }

def address (c : Config) : String :=
  s!"{c.host}:{c.portNumber}"

def workerCount (c : Config) (parallelism : Nat) : Nat :=
  max 1 (c.workerThreads.getD parallelism)

inductive Setting
  | host
  | portNumber
  | computationTimeout
  | queueTimeout
  | workerThreads
  | maxDomainLength
  | quitCommand
deriving DecidableEq, Repr

namespace Setting

def all : List Setting :=
  [host, portNumber, computationTimeout, queueTimeout, workerThreads, maxDomainLength, quitCommand]

def key : Setting → String
  | host => "host"
  | portNumber => "port"
  | computationTimeout => "computation_timeout"
  | queueTimeout => "queue_timeout"
  | workerThreads => "worker_threads"
  | maxDomainLength => "max_domain_len"
  | quitCommand => "quit_command"

def ofKey? (key : String) : Option Setting :=
  all.find? (·.key == key)

end Setting

def text? : Json.Scalar → Option String
  | .string value => some value
  | _ => none

def natural? (bound : Nat) : Json.Scalar → Option Nat
  | .natural value => if value ≤ bound then some value else none
  | _ => none

def set? (c : Config) (s : Setting) (value : Json.Scalar) : Option Config :=
  match s with
  | .host => (text? value).map fun host => { c with host }
  | .portNumber => (natural? 65535 value).map fun portNumber => { c with portNumber }
  | .computationTimeout =>
    (natural? maxCount value).map fun millis => { c with computationTimeout := .ofMillis millis }
  | .queueTimeout =>
    (natural? maxCount value).map fun millis => { c with queueTimeout := .ofMillis millis }
  | .workerThreads =>
    match value with
    | .null => some { c with workerThreads := none }
    | value => (natural? maxCount value).map fun n => { c with workerThreads := some n }
  | .maxDomainLength =>
    (natural? maxCount value).map fun maxDomainLength => { c with maxDomainLength }
  | .quitCommand => (text? value).map fun quitCommand => { c with quitCommand }

def setMembers? (c : Config) (seen : List Setting) : List (String × Json.Scalar) → Option Config
  | [] => some c
  | (key, value) :: ms =>
    match Setting.ofKey? key with
    | none => c.setMembers? seen ms
    | some s =>
      if s ∈ seen then
        none
      else
        (c.set? s value).bind fun c => c.setMembers? (s :: seen) ms

def setElements? (c : Config) : List Setting → List Json.Scalar → Option Config
  | _, [] => some c
  | [], _ :: _ => none
  | s :: settings, value :: values =>
    (c.set? s value).bind fun c => c.setElements? settings values

def ofDocument? : Json.Document → Option Config
  | .members ms => default.setMembers? [] ms
  | .elements values => default.setElements? Setting.all values

def ofText? (text : String) : Option Config :=
  (Json.Document.ofText? text).bind ofDocument?

def load (text : String) : Except ConfigError Config :=
  match ofText? text with
  | some c => .ok c
  | none => .error .malformed

def loadFile (contents : Except String String) : Except ConfigError Config :=
  match contents with
  | .error reason => .error (.unreadableFile reason)
  | .ok text =>
    match ofText? text with
    | some c => .ok c
    | none => .error .malformedFile

def get (c : Config) : Setting → String
  | .host => Json.quote c.host
  | .portNumber => toString c.portNumber
  | .computationTimeout => toString c.computationTimeout.toMillis.toUInt64.toNat
  | .queueTimeout => toString c.queueTimeout.toMillis.toUInt64.toNat
  | .workerThreads =>
    match c.workerThreads with
    | none => "null"
    | some n => toString n
  | .maxDomainLength => toString c.maxDomainLength
  | .quitCommand => Json.quote c.quitCommand

def textOf (c : Config) (settings : List Setting) : String :=
  "\x7b" ++ ",".intercalate (settings.map fun s => Json.quote s.key ++ ":" ++ c.get s) ++ "\x7d"

def text (c : Config) : String :=
  c.textOf Setting.all

end Config

end Sweep
