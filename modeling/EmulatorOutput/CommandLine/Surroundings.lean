import EmulatorOutput.CommandLine.Program
import EmulatorOutput.Files.Tree
import EmulatorOutput.Text.Decoding

/-!
# A tree of files as surroundings

Surroundings in which a program can be run without leaving the logic: a tree of files, whose
output device takes what is printed. Notices are not kept, and waiting takes no more time than it
has to.
-/

namespace EmulatorOutput

instance : CommandLine.Host (StateM FileTree) where
  print text := modify (·.putOut text.toUTF8)
  complain _ := pure ()
  keep _ _ := pure ()
  rest time := pure time

def FileTree.printed (t : FileTree) : String := Decoding.text t.shown

/-- Runs the program on a tree of files, and gives the code with which it ends, if any. -/
def CommandLine.Program.runOn (t : FileTree) (args places : List String) :
    Option Nat × FileTree :=
  (CommandLine.Program.execute (m := StateM FileTree) args places).run t

end EmulatorOutput
