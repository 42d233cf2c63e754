import Sweep.Config.Options
import Sweep.Connection.Session
import Sweep.Server.Clock

/-!
This module contains the program. It serves one client on standard input and standard output.
-/

namespace Sweep

partial def serveStream (input output : IO.FS.Stream) (quit : String)
    (session : Connection.Session TimedServer) : IO Unit := do
  let bytes ← input.read 4096
  let (text, session) := session.receive TimedServer.handle quit bytes.toList
  output.putStr text
  output.flush
  unless session.closed do
    serveStream input output quit session

def readConfig (path : String) : IO (Except ConfigError Config) := do
  try
    let text ← IO.FS.readFile path
    return Config.loadFile (.ok text)
  catch e => return Config.loadFile (.error (toString e))

end Sweep

open Sweep in
def main (args : List String) : IO UInt32 := do
  match Options.parse .none args with
  | .error message =>
    IO.eprintln s!"error: {message}"
    return 2
  | .ok options =>
    let config ← match options.config with
      | some path => readConfig path
      | none => pure (.ok .default)
    match config with
    | .error e =>
      IO.eprintln s!"Error: {e.message}"
      return 1
    | .ok config =>
      let config := options.apply config
      -- there is one client, so the number of computations at a time does not show
      match Server.ofConfig? config 4 with
      | none =>
        IO.eprintln s!"a semaphore may not have more than MAX_PERMITS permits ({Pool.maxSize})"
        return 101
      | some server =>
        serveStream (← IO.getStdin) (← IO.getStdout) config.quitCommand
          (.start (.ofServer server))
        return 0
