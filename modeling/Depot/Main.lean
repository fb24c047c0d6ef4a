import Depot.Startup
import Std.Time.DateTime.Timestamp

/-!
# The program

Reads the arguments, the environment and the configuration file, starts the server over stores in memory,
and answers requests that come line by line on standard input, each a method, a target and perhaps a token.
-/

namespace Depot.Main

/-- The environment variables of this process. -/
def environment : IO (List (String × String)) := do
  try
    let text ← IO.FS.readFile "/proc/self/environ"
    let entries := (text.splitOn (String.ofList [Char.ofNat 0])).filter fun entry => entry.contains '='
    return entries.map fun entry =>
      let chars := entry.toList
      (String.ofList (chars.takeWhile (· != '=')), String.ofList ((chars.dropWhile (· != '=')).drop 1))
  catch _ => return []

/-- The time by the clock of this machine. -/
def now : IO Time.DateTime := do
  let t ← Std.Time.Timestamp.now
  return (Time.DateTime.ofInstant? t.toNanosecondsSinceUnixEpoch.val).getD .epoch

/-- Thirty-two bytes made by chance. -/
def chance : IO (Vector UInt8 32) := do
  let bytes ← IO.getRandomBytes 32
  return Vector.ofFn fun i : Fin 32 => bytes.data.getD i.val 0

def freshId : IO Uuid := do
  let bytes ← chance
  return .random (Vector.ofFn fun i : Fin 16 => bytes.toList.getD i.val 0)

/-- A machine whose volume holds the configuration file alone. -/
def machine (path : String) : IO Machine := do
  let empty : Machine := ⟨⟨[]⟩, [], [], ⟨false, "", "", [], false, false, []⟩, fun _ => true⟩
  try
    let text ← IO.FS.readFile path
    let l := empty.place path
    let (_, volume) := empty.volume.makeDirectories l.path.dropLast
    match volume.write l.path (Text.utf8 text) with
    | .ok volume => return { empty with volume }
    | .error _ => return { empty with volume }
  catch _ => return empty

/-- The text of a response. -/
def describe (r : Web.Response) : String :=
  match r.body with
  | .empty => toString r.status
  | .json value => s!"{r.status} {value.render}"
  | .lines lines => s!"{r.status}\n" ++ "\n".intercalate lines
  | .stream bytes => s!"{r.status} {Text.Hex.encode bytes.data}"

/-- The request of a line. -/
def requestOf (line : String) : Web.Request :=
  match line.trimAscii.toString.splitOn " " with
  | [method, target, token] =>
    .ofTarget (.ofName method) target [("authorization", Text.utf8 s!"Bearer {token}")] []
  | [method, target] => .ofTarget (.ofName method) target [] []
  | _ => .ofTarget (.other line) "" [] []

/-- Answers requests until the input ends. A request is carried out in no time, so its clock stands still. -/
partial def answerLines (server : Web.Server) (stores : Service.Stores) (tally : Web.Tally) : IO Unit := do
  let line ← (← IO.getStdin).getLine
  unless line.isEmpty do
    let reading ← now
    let task := server.respond tally (fun _ => reading) ⟨← freshId, ← chance⟩ (requestOf line)
    let ((outcome, tally), stores) := task.run Service.Stores.answer stores
    match outcome with
    | .answered response => IO.println (describe response)
    | .brokenOff => IO.eprintln "a time is outside the calendar"
    answerLines server stores tally

end Depot.Main

def main (arguments : List String) : IO UInt32 := do
  let environment ← Depot.Main.environment
  let given := match Depot.CommandLine.parse arguments with
    | .ok (.serve given) => given
    | _ => none
  let machine ← Depot.Main.machine (Depot.CommandLine.configPath given environment)
  let (ending, _) := machine.run arguments environment (← Depot.Main.now) (← Depot.Main.freshId)
    (← Depot.Main.chance).toList
  match ending with
  | .told text => IO.println text
  | .misused error => IO.eprintln s!"error: {repr error}"
  | .failed message => IO.eprintln s!"Error: {message}"
  | .listening server stores address =>
    IO.eprintln s!"serving as {address.text}"
    Depot.Main.answerLines server stores .zero
  return ending.exitStatus.toUInt32
