import Sweep.Request.Compute

/-!
This module contains the answers to requests and the lines in which they are sent.
-/

namespace Sweep

inductive Response
  | ok (elapsed : Duration) (value : Float)
  | err (message : String)

namespace Response

def ofError (e : ComputeError) : Response :=
  err e.message

def ofResult (elapsed : Duration) : Except ComputeError Float → Response
  | .ok value => ok elapsed value
  | .error e => ofError e

def value? : Response → Option Float
  | ok _ value => some value
  | err _ => none

def text : Response → String
  | ok elapsed value =>
    "OK;" ++ Number.toFixed 3 elapsed.toSeconds ++ ";" ++ Number.toFixed 6 value
  | err message => "ERR;" ++ message

end Response

end Sweep
