import LispFront.Conversation
import LispFront.Interchange.Decode

/-! The command line: a conversation on the standard streams. -/

namespace LispFront

partial def talk (settings : Conversation.Settings) : IO UInt32 := do
  let output ← IO.getStdout
  output.putStr Conversation.prompt
  output.flush
  let line ← (← IO.getStdin).getLine
  if line.isEmpty then
    return 0
  match Conversation.Command.ofLine line with
  | .leave => return 0
  | command =>
      let (settings, reply) := Conversation.respond Program.toJsonText settings command
      output.putStr reply.output
      (← IO.getStderr).putStr reply.errors
      talk settings

end LispFront

def main : IO UInt32 := do
  (← IO.getStdout).putStr LispFront.Conversation.banner
  LispFront.talk LispFront.Conversation.initialSettings
