import LispFront.Parse.Parser
import LispFront.Text.Blank

/-! Conversations. Each line is a command or a text to be read; the reader answers with
the tree it has read, and names what is wrong on a channel of its own. How a tree is shown
as JSON is a parameter. -/

namespace LispFront

def version : String := "0.1.0"

namespace Conversation

def banner : String := "bsharp " ++ version ++ " - type 'help' for commands\n"

def prompt : String := ">>> "

def helpLines : List String :=
  ["",
    "Commands:",
    "  help     - Show this help",
    "  :tokens  - Toggle token dump",
    "  :json    - Toggle JSON tree output",
    "  exit     - Exit REPL",
    "",
    "Examples:",
    "  (+ 1 2)",
    "  (print \"Value: %n\" (- (+ 1 2) 5))",
    "  [1 2 3]",
    "  (fn area [w h] (* w h))",
    ""]

def unlines (lines : List String) : String :=
  String.join (lines.map fun line => line ++ "\n")

structure Settings where
  showTokens : Bool
  showJson : Bool
deriving DecidableEq, Repr

def initialSettings : Settings := ⟨false, false⟩

inductive Command where
  | nothing
  | leave
  | help
  | toggleTokens
  | toggleJson
  | read (source : String)
deriving DecidableEq, Repr

/-- White space around a command does not matter. A line that is no command is read as it
stands. -/
def Command.ofLine (line : String) : Command :=
  match String.ofList (trim line.toList) with
  | "" => nothing
  | "exit" | "quit" => leave
  | "help" => help
  | ":tokens" => toggleTokens
  | ":json" => toggleJson
  | _ => read line

structure Reply where
  output : String
  errors : String
deriving DecidableEq, Repr

def onOff (flag : Bool) : String :=
  if flag then "on" else "off"

section

variable (toJsonText : Program → String)

def readSource (settings : Settings) (source : String) : Reply :=
  let reading := Reading.ofText source
  let tokens := (Cursor.ofString source).tokens.map fun token => "  " ++ token.display
  let tree :=
    if settings.showJson then toJsonText reading.program ++ "\n"
    else reading.program.render
  ⟨(if settings.showTokens then unlines tokens else "") ++ tree,
    unlines (reading.diagnostics.map fun diagnostic => "  ✗ " ++ diagnostic.message)⟩

def respond (settings : Settings) : Command → Settings × Reply
  | .nothing | .leave => (settings, ⟨"", ""⟩)
  | .help => (settings, ⟨unlines helpLines, ""⟩)
  | .toggleTokens =>
      let showTokens := !settings.showTokens
      ({ settings with showTokens }, ⟨"token dump " ++ onOff showTokens ++ "\n", ""⟩)
  | .toggleJson =>
      let showJson := !settings.showJson
      ({ settings with showJson }, ⟨"json output " ++ onOff showJson ++ "\n", ""⟩)
  | .read source => (settings, readSource toJsonText settings source)

end

/-! ## Whole conversations -/

/-- Cuts a text just after each line feed. The last line may lack one. -/
def lines : List Char → List (List Char)
  | [] => []
  | c :: rest =>
      if c = '\n' then
        [c] :: lines rest
      else
        match lines rest with
        | [] => [[c]]
        | line :: later => (c :: line) :: later

structure Transcript where
  output : String
  errors : String
  exitCode : UInt32
deriving DecidableEq, Repr

section

variable (toJsonText : Program → String)

/-- The conversation in which the given lines are typed, up to the first that ends it. The
prompt comes before each line, and once more when there are no more. -/
def converse (settings : Settings) : List String → Transcript
  | [] => ⟨prompt, "", 0⟩
  | line :: rest =>
      match Command.ofLine line with
      | .leave => ⟨prompt, "", 0⟩
      | command =>
          let (settings, reply) := respond toJsonText settings command
          let later := converse settings rest
          ⟨prompt ++ reply.output ++ later.output, reply.errors ++ later.errors,
            later.exitCode⟩

def transcript (input : String) : Transcript :=
  let talk := converse toJsonText initialSettings ((lines input.toList).map String.ofList)
  { talk with output := banner ++ talk.output }

end

end Conversation

end LispFront
