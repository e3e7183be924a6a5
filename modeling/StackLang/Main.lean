import StackLang.Command.Run

/-! The command line. -/
namespace StackLang

partial def readAll (stream : IO.FS.Stream) (begun : ByteArray) : IO Text := do
  let more ← stream.read 65536
  if more.isEmpty then return begun.toList else readAll stream (begun ++ more)

/-- All of standard input, or why it cannot be read. -/
def readInput : IO (Except Failure Text) := do
  try return .ok (← readAll (← IO.getStdin) .empty)
  catch e => return .error (.plain (utf8 (toString e)))

def readFiles (names : List Text) : IO Files :=
  names.filterMapM fun name =>
    match String.fromUTF8? ⟨name.toArray⟩ with
    | none => return none
    | some path => try return some (name, (← IO.FS.readBinFile path).toList) catch _ => return none

/-- Writes what the devices took to the streams that they stand for. -/
def deliver (console : Console) : IO Unit := do
  let stdout ← IO.getStdout
  let stderr ← IO.getStderr
  for event in console.events.reverse do
    match event.device? with
    | some 0 => stdout.write ⟨event.data.toArray⟩
    | some 1 => stderr.write ⟨event.data.toArray⟩
    | _ => pure ()
  stdout.flush

end StackLang

open StackLang in
def main (args : List String) : IO UInt32 := do
  let args := args.map utf8
  let name := utf8 ((← IO.appPath).fileName.getD "")
  let parsed := Flags.parse args
  let files ← readFiles (Flags.config parsed.values :: parsed.rest)
  let call := parseArgs files name args
  let readsInput := call.failure.isNone && (call.names.isEmpty || call.names.contains (utf8 "-"))
  let stdin ← if readsInput then readInput else pure (.ok [])
  let terminal ← (← IO.getStdout).isTty
  let entropy := (← IO.getRandomBytes 16).toList
  let world : World := { files, stdin, terminal, entropy }
  let outcome := world.run { device := some 1, color := ← (← IO.getStderr).isTty } name args
  deliver outcome.console
  return outcome.code.toUInt32
