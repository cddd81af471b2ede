import ImageTrust.Plan

/-! # Fragments

A plan written as instructions of a Dockerfile, to be put after the FROM line of the image.
-/

namespace ImageTrust.Fragment

def copyLine (entry : CopyEntry) : String :=
  "COPY " ++ entry.source ++ " " ++ entry.destination ++ "\n"

/-- One RUN instruction, a command on each of its lines. -/
def runLines (commands : List String) : String :=
  "RUN " ++ String.intercalate " && \\\n    " commands ++ "\n"

/-- A line that changes the user, if there is a user to go back to. -/
def userLine (user : Option String) (name : String) : String :=
  if (user.getD "").isEmpty then "" else "USER " ++ name ++ "\n"

/-- The instructions of a plan. With a user, they are run as root and the user is restored. A plan
without commands has no instructions. -/
def render (plan : Plan) (user : Option String) : String :=
  if plan.commands.isEmpty then ""
  else
    String.join (plan.copyEntries.map copyLine) ++ userLine user "root" ++
      runLines plan.commands ++ userLine user (user.getD "")

end ImageTrust.Fragment
