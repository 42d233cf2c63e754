import Sweep.Aggregate.Basic
import Sweep.Stats

/-!
This module contains the request lines: questions about the statistics and computations, whose parts
stand between semicolons.
-/

namespace Sweep

inductive RequestError
  | invalidFormat
  | tooFewParts
  | unknownAggregation (token : String)
  | unknownMode (token : String)
deriving DecidableEq, Repr

namespace RequestError

def message : RequestError → String
  | invalidFormat => "Invalid request format"
  | tooFewParts => "Invalid computation request format: request parts < 3"
  | unknownAggregation token => s!"Invalid computation kind '{token}'"
  | unknownMode token => s!"Invalid values kind '{token}'"

end RequestError

structure Computation where
  kind : AggregationKind
  mode : TupleMode
  spec : String
  expressions : List String
deriving DecidableEq, Repr

namespace Computation

def parts (line : List Char) : List (List Char) :=
  ((line.splitOn ';').reverse.dropWhile List.isEmpty).reverse

def parseHeader (header : List Char) : Except RequestError (AggregationKind × TupleMode) :=
  match header.dropWhile (· != '_') with
  | [] => .error .invalidFormat
  | _ :: mode =>
    let kind := String.ofList (header.takeWhile (· != '_'))
    let mode := String.ofList mode
    match AggregationKind.ofToken? kind, TupleMode.ofToken? mode with
    | none, _ => .error (.unknownAggregation kind)
    | some _, none => .error (.unknownMode mode)
    | some kind, some mode => .ok (kind, mode)

def parse (line : String) : Except RequestError Computation :=
  match parts line.toList with
  | header :: spec :: expression :: expressions => do
    let (kind, mode) ← parseHeader header
    .ok {
      kind
      mode
      spec := String.ofList spec
      expressions := (expression :: expressions).map String.ofList
    }
  | _ => .error .tooFewParts

def hasHeader (line : String) : Bool :=
  AggregationKind.all.any fun kind =>
    TupleMode.all.any fun mode =>
      (kind.token ++ "_" ++ mode.token ++ ";").toList.isPrefixOf line.toList

end Computation

inductive Request
  | stat (kind : StatKind)
  | computation (c : Computation)
deriving DecidableEq, Repr

namespace Request

def parse (line : String) : Except RequestError Request :=
  match StatKind.ofToken? line with
  | some kind => .ok (.stat kind)
  | none =>
    if Computation.hasHeader line then
      (Computation.parse line).map .computation
    else
      .error .invalidFormat

end Request

end Sweep
