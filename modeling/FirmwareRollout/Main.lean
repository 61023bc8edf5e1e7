import FirmwareRollout.Settings.Load

/-!
The command: loads the settings of a worker from `fuota.toml` in the current directory and from the
environment, and shows them. Where they cannot be loaded it says why and shows the defaults.
-/

namespace FirmwareRollout.Command

/-- The text of a file, if it can be read. -/
def readText? (path : String) : IO (Option String) := do
  try
    return some (← IO.FS.readFile path)
  catch _ =>
    return none

end FirmwareRollout.Command

open FirmwareRollout in
/-- Shows the settings that a worker would run with. -/
def main : IO Unit := do
  let text ← Command.readText? "fuota.toml"
  let block ← Command.readText? "/proc/self/environ"
  let (settings, fault) := Settings.loadOrDefault text (Environment.ofBlock (block.getD "").toList)
  if let some fault := fault then
    IO.eprintln ("failed to load config, using defaults: " ++ fault.message)
  IO.println ("configuration loaded " ++ settings.summary)
