/-!
This module contains the handles on cancel flags. A flag may be held by several handles, and setting
it through one of them sets it for all.
-/

namespace Sweep

structure FlagHandles where
  flags : List Bool
  handles : List Nat

namespace FlagHandles

def empty : FlagHandles :=
  { flags := [], handles := [] }

def single : FlagHandles :=
  { flags := [false], handles := [0] }

def new (s : FlagHandles) : FlagHandles :=
  { flags := s.flags ++ [false], handles := s.handles ++ [s.flags.length] }

def clone (s : FlagHandles) (i : Nat) : FlagHandles :=
  match s.handles[i]? with
  | some flag => { s with handles := s.handles ++ [flag] }
  | none => s

def cancel (s : FlagHandles) (i : Nat) : FlagHandles :=
  match s.handles[i]? with
  | some flag => { s with flags := s.flags.set flag true }
  | none => s

def readings (s : FlagHandles) : List Bool :=
  s.handles.map fun flag => s.flags[flag]?.getD false

end FlagHandles

end Sweep
