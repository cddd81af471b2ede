import ImageTrust.Dockerfile.Stage
import ImageTrust.Plan
import ImageTrust.Record

/-! # The records of the library

How configurations, plans and the parts of a Dockerfile are read from data and written as data.
-/

namespace ImageTrust

/-- Which certificates go into which image. The image is named, or it is that of a Dockerfile. -/
structure Config where
  image : Option String := none
  dockerfile : Option String := none
  certificates : List String := []
  user : Option String := none
  deriving DecidableEq, Repr

open Record

/-! ## Writing -/

def Datum.ofOption : Option String → Datum
  | none => .null
  | some s => .text s

def Datum.ofTexts (texts : List String) : Datum :=
  .list (texts.map .text)

def Config.toDatum (c : Config) : Datum :=
  .record [("base_image", .ofOption c.image), ("dockerfile", .ofOption c.dockerfile),
    ("certificates", .ofTexts c.certificates), ("user", .ofOption c.user)]

def TrustStore.toDatum (t : TrustStore) : Datum :=
  .record [("trust_dir", .text t.directory), ("refresh_command", .text t.refresh)]

def CopyEntry.toDatum (e : CopyEntry) : Datum :=
  .record [("source", .text e.source), ("destination", .text e.destination)]

def Plan.toDatum (p : Plan) : Datum :=
  .record [("base_image", .text p.image), ("os_family", .text p.osFamily.name),
    ("runtime", .text p.runtime.name), ("copy_entries", .list (p.copyEntries.map CopyEntry.toDatum)),
    ("commands", .ofTexts p.commands)]

def Instruction.toDatum (i : Instruction) : Datum :=
  .record [("instruction", .text i.keyword), ("arguments", .ofTexts i.arguments),
    ("raw", .text i.raw)]

def Stage.toDatum (s : Stage) : Datum :=
  .record [("base_image", .text s.image), ("name", .ofOption s.name),
    ("platform", .ofOption s.platform),
    ("instructions", .list (s.instructions.map Instruction.toDatum))]

/-! ## Reading -/

def Config.read : Datum → Checked Config :=
  ofFields fun fields =>
    both (fun (image, dockerfile) (certificates, user) => ⟨image, dockerfile, certificates, user⟩)
      (both Prod.mk (withDefault none (optional text) fields "base_image")
        (withDefault none (optional text) fields "dockerfile"))
      (both Prod.mk (withDefault [] (list text) fields "certificates")
        (withDefault none (optional text) fields "user"))

def TrustStore.read : Datum → Checked TrustStore :=
  ofFields fun fields =>
    both TrustStore.mk (required text fields "trust_dir") (required text fields "refresh_command")

def CopyEntry.read : Datum → Checked CopyEntry :=
  ofFields fun fields =>
    both CopyEntry.mk (required text fields "source") (required text fields "destination")

def Plan.read : Datum → Checked Plan :=
  ofFields fun fields =>
    both (fun (image, family, runtime) (entries, commands) => ⟨image, family, runtime, entries, commands⟩)
      (both Prod.mk (required text fields "base_image")
        (both Prod.mk (required (named OsFamily.ofName?) fields "os_family")
          (required (named Runtime.ofName?) fields "runtime")))
      (both Prod.mk (withDefault [] (list CopyEntry.read) fields "copy_entries")
        (withDefault [] (list text) fields "commands"))

def Instruction.read : Datum → Checked Instruction :=
  ofFields fun fields =>
    both (fun keyword (arguments, raw) => ⟨keyword, arguments, raw⟩)
      (required text fields "instruction")
      (both Prod.mk (required (list text) fields "arguments") (required text fields "raw"))

def Stage.read : Datum → Checked Stage :=
  ofFields fun fields =>
    both (fun (image, name) (platform, instructions) => ⟨image, name, platform, instructions⟩)
      (both Prod.mk (required text fields "base_image")
        (withDefault none (optional text) fields "name"))
      (both Prod.mk (withDefault none (optional text) fields "platform")
        (withDefault [] (list Instruction.read) fields "instructions"))

end ImageTrust
