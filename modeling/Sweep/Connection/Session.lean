import Sweep.Connection.Basic

/-!
This module contains a connection whose input comes in pieces. Lines are answered as soon as they
are complete, and what is left at the end of the input is a line too.
-/

namespace Sweep.Connection

structure Session (σ : Type) where
  state : σ
  -- the bytes that came after the last newline
  pending : List UInt8
  closed : Bool

namespace Session

def start (state : σ) : Session σ :=
  { state, pending := [], closed := false }

def answer (handle : Handler σ) (quit : String) (s : Session σ) (ls : List (List UInt8)) :
    String × Session σ :=
  let (responses, state) := serveLines handle quit s.state ls
  (reply responses, { s with state, closed := s.closed || ls.any (requestLine · == quit) })

def feed (handle : Handler σ) (quit : String) (s : Session σ) (bytes : List UInt8) :
    String × Session σ :=
  if s.closed then
    ("", s)
  else
    let ls := lines (s.pending ++ bytes)
    let complete := ls.filter (·.contains newline)
    let rest := ls.filter (!·.contains newline)
    answer handle quit { s with pending := rest.flatten } complete

def finish (handle : Handler σ) (quit : String) (s : Session σ) : String × Session σ :=
  if s.closed then
    ("", s)
  else
    let (text, s) := answer handle quit { s with pending := [] } (lines s.pending)
    (text, { s with closed := true })

def receive (handle : Handler σ) (quit : String) (s : Session σ) (bytes : List UInt8) :
    String × Session σ :=
  if bytes.isEmpty then s.finish handle quit else s.feed handle quit bytes

end Session

end Sweep.Connection
