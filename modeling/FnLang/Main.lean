/- # FnLang.Main — the program.

Reads files and lines, writes what the library answers, and nothing else.  A session is run event by
event, so that its prompts appear before the lines they ask for.
-/
import FnLang.CommandLine.Command

namespace FnLang

open CommandLine

/-- The fault that the system numbers so.  The number may come with its sign changed. -/
def faultOf (code : UInt32) (reason : String) : FileFault :=
  match (if code < 0x80000000 then code else 0 - code).toNat with
  | 2 => .notFound
  | 13 => .forbidden
  | 20 => .notDirectory
  | 21 => .isDirectory
  | 36 => .nameTooLong
  | number => .refused number reason

/-- The bytes of a file. -/
def readFile (name : String) : IO (Except FileFault (List Nat)) := do
  if name.toList.contains '\x00' then
    return .error .nullInName
  try
    let bytes ← IO.FS.readBinFile name
    return .ok (bytes.toList.map UInt8.toNat)
  catch
    | .noFileOrDirectory _ code reason | .inappropriateType _ code reason
    | .invalidArgument _ code reason | .permissionDenied _ code reason =>
        return .error (faultOf code reason)
    | e => return .error (.refused 5 (toString e))

/-- The next event of a session, `none` at the end of the input. -/
def nextEvent : IO (Option Repl.Event) := do
  let line ← (← IO.getStdin).getLine
  if line.isEmpty then return none
  let text := if line.endsWith "\n" then (line.dropEnd 1).toString else line
  return some (.line text)

/-- Runs a session to its end. -/
partial def runSession (s : Repl.Session) : IO Unit := do
  let out ← IO.getStdout
  out.putStr s.pending.prompt
  out.flush
  let (shown, next) := s.step (← nextEvent)
  out.putStr shown
  out.flush
  match next with
  | none => return
  | some t => runSession t

end FnLang

open FnLang CommandLine in
def main (args : List String) : IO UInt32 := do
  match Command.ofArguments args with
  | .session modes =>
      (← IO.getStdout).putStr Repl.banner
      runSession { modes }
      return 0
  | command =>
      let read ← match command with
        | .file _ name => readFile name
        | _ => pure (.error .notFound)
      let report := command.report (fun _ => read) []
      (← IO.getStdout).putStr report.output
      (← IO.getStderr).putStr report.errors
      return UInt32.ofNat (report.status.getD 0)
