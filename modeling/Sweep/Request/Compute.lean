import Sweep.Request.Basic

/-!
This module contains the computation of a request, from its text to a number or to the first error.
-/

namespace Sweep

inductive ComputeError
  | request (cause : RequestError)
  | domain (cause : DomainError)
  | parse (expression : String) (cause : ParseError)
  | aggregate (cause : AggregateError)
  | computationTimeout (deadline : Duration)
  | queueTimeout (deadline : Duration)
  | cancelled
  | worker (reason : String)

namespace ComputeError

def ofDomain : DomainError → ComputeError
  | .cancelled => cancelled
  | cause => domain cause

def ofAggregate : AggregateError → ComputeError
  | .cancelled => cancelled
  | cause => aggregate cause

def message : ComputeError → String
  | request cause => s!"(FormatError) {cause.message}"
  | domain cause => s!"(BuildError) {cause.message}"
  | parse expression cause =>
    s!"(ParseError) Parsing error for expression '{expression}' : {cause.message}"
  | aggregate cause => s!"(EvaluationError) {cause.message}"
  | computationTimeout deadline =>
    "(ComputationTimeout) The computation took longer than " ++
      Number.toText deadline.toSeconds ++ " seconds."
  | queueTimeout deadline =>
    "(QueueTimeout) The computation request stayed in the queue for more than " ++
      Number.toText deadline.toSeconds ++ " seconds."
  | cancelled => s!"(Cancelled) {Cancelled.message .cancelled}"
  | worker reason => s!"Cannot compute due to {reason}"

end ComputeError

namespace Computation

def parseExpressions (sources : List String) : Except ComputeError (List Expression) :=
  sources.mapM fun source => (Expression.parse source).mapError (.parse source)

def breaksDown (c : Computation) (limit : Nat) (flag : CancelFlag) : Bool :=
  match Domain.parseSpec c.spec with
  | .error _ => false
  | .ok domains =>
    (Columns.checkSizes limit [] 0 domains).toBool && Columns.overflow limit flag domains

/--
The result of a computation in which the domains may have `limit` values together. The domains come
first, then the tuples, then the expressions, and only then is anything evaluated. A computation
that breaks down has no result.
-/
def run (c : Computation) (limit : Nat) (flag : CancelFlag) : Except ComputeError Float := do
  let domains ← (Domain.parseSpec c.spec).mapError .ofDomain
  let (columns, flag) ← (Columns.build domains limit flag).mapError .ofDomain
  let tuples ← (Tuples.ofColumns columns c.mode).mapError .ofDomain
  let expressions ← parseExpressions c.expressions
  (aggregate c.kind tuples expressions columns.slot? flag).mapError .ofAggregate

end Computation

end Sweep
