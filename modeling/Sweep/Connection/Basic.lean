import Sweep.Request.Response
import Sweep.Text.Utf8

/-!
This module contains the talk on one connection: request lines come in as bytes, and every one is
answered by one line until the client quits or its input ends.
-/

namespace Sweep.Connection

def newline : UInt8 := 10

def lines (bytes : List UInt8) : List (List UInt8) :=
  match bytes with
  | [] => []
  | b :: bytes =>
    if b = newline then
      [b] :: lines bytes
    else
      match lines bytes with
      | [] => [[b]]
      | line :: rest => (b :: line) :: rest

def requestLine (line : List UInt8) : String :=
  String.ofList
    ((Text.ofUtf8 line).reverse.dropWhile fun c => c == '\r' || c == '\n').reverse

abbrev Handler (σ : Type) := σ → String → Response × σ

def respond? (handle : Handler σ) (quit : String) (s : σ) (line : List UInt8) :
    Option (Response × σ) :=
  let text := requestLine line
  if text = quit then none else some (handle s text)

def serveLines (handle : Handler σ) (quit : String) (s : σ) : List (List UInt8) → List Response × σ
  | [] => ([], s)
  | line :: rest =>
    match respond? handle quit s line with
    | none => ([], s)
    | some (response, s) =>
      let (responses, s) := serveLines handle quit s rest
      (response :: responses, s)

def reply (responses : List Response) : String :=
  String.join (responses.map fun r => r.text ++ "\n")

def serve (handle : Handler σ) (quit : String) (s : σ) (bytes : List UInt8) : String × σ :=
  let (responses, s) := serveLines handle quit s (lines bytes)
  (reply responses, s)

end Sweep.Connection
