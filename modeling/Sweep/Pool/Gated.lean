import Sweep.Pool.Basic

/-!
This module contains a pool of named jobs that run until they are released. It goes on from event to
event as far as it can without a further release.
-/

namespace Sweep

structure GatedPool where
  pool : Pool String
  names : List String
  released : List Nat

namespace GatedPool

def make (size : Nat) : GatedPool :=
  { pool := .make size, names := [], released := [] }

def name (g : GatedPool) (ticket : Nat) : String :=
  g.names.getD ticket ""

def ticket? (g : GatedPool) (name : String) : Option Nat :=
  (List.range g.names.length).reverse.find? (g.name · == name)

def settle (g : GatedPool) (steps : Nat) : GatedPool :=
  match steps with
  | 0 => g
  | steps + 1 =>
    match g.pool.spawned with
    | ticket :: _ => settle { g with pool := g.pool.enter ticket } steps
    | [] =>
      if g.pool.canStart then
        settle { g with pool := g.pool.start } steps
      else
        match g.pool.running.find? (· ∈ g.released) with
        | some ticket => settle { g with pool := g.pool.finish ticket (g.name ticket) } steps
        | none => g

def release (g : GatedPool) (name : String) : GatedPool :=
  match g.ticket? name with
  | some ticket => { g with released := ticket :: g.released }
  | none => g

def detach (g : GatedPool) (name : String) : GatedPool :=
  match g.ticket? name with
  | some ticket => { g with pool := g.pool.detach ticket }
  | none => g

def submit (g : GatedPool) (name : String) : GatedPool :=
  let g := (g.release name).detach name
  { g with pool := g.pool.submit, names := g.names ++ [name] }

def close (g : GatedPool) : GatedPool :=
  { g with pool := g.pool.close }

inductive Action
  | submit (name : String)
  | release (name : String)
  | detach (name : String)
  | close

def act (g : GatedPool) (action : Action) : GatedPool :=
  let g :=
    match action with
    | .submit name => g.submit name
    | .release name => g.release name
    | .detach name => g.detach name
    | .close => g.close
  g.settle (3 * g.names.length)

def handles (g : GatedPool) : List (String × Except PoolError String) :=
  (List.range g.names.length).filterMap fun ticket =>
    (g.pool.handle? ticket).map fun result => (g.name ticket, result)

end GatedPool

end Sweep
