import Turnstile.Command.Run

/-!
# The program

Access to the files of the host, the loop that answers requests, and the command line.
-/

namespace Turnstile

/-- What the host reports about a file. -/
def hostFault : IO.Error → FileFault
  | .noFileOrDirectory _ _ _ => .missing
  | .inappropriateType _ code _ => if code = 21 then .isFolder else .notFolder
  | failure => .other (toString failure)

/-- Access to the files of the host. -/
def hostFiles : Access IO where
  read path := do
    try return .ok (← IO.FS.readFile path)
    catch failure => return .error (hostFault failure)
  isPresent path := do
    try
      let _ ← IO.FS.Handle.mk path .read
      return true
    catch failure => return hostFault failure != .missing && hostFault failure != .notFolder
  make path := do
    try
      IO.FS.writeFile path ""
      return .ok ()
    catch failure => return .error (hostFault failure)

/-- Answer requests from standard input, one a line, until it ends. -/
partial def serve (state : Service.State) (supply : Supply) : IO Unit := do
  let line ← (← IO.getStdin).getLine
  if line.isEmpty then return
  let ((reply, state), supply) ← ((Service.respondTo hostFiles line).run state).run supply
  if let some reply := reply then
    let output ← IO.getStdout
    output.putStrLn reply.render
    output.flush
  serve state supply

end Turnstile

open Turnstile in
/-- Run the command line. -/
def main (args : List String) : IO UInt32 := do
  let folder := (← IO.currentDir).toString
  let plain := (← IO.getEnv "NO_COLOR").any fun value => !value.isEmpty
  let (outcome, supply) ← (Command.run hostFiles folder (!plain) args).run Supply.initial
  match outcome with
  | .finished out failure =>
    IO.print out
    match failure with
    | none => return 0
    | some failure =>
      IO.eprintln failure.message
      return 1
  | .serving state =>
    serve state supply
    return 0
