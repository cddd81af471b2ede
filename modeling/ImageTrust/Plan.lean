import ImageTrust.Text.Blank
import ImageTrust.TrustStore

/-! # Plans

What has to be done to make an image trust some certificates: the files to copy into the image and the
commands to run in it, both in the order of the certificates.
-/

namespace ImageTrust

/-- A file of the build and its place in the image. -/
structure CopyEntry where
  source : String
  destination : String
  deriving DecidableEq, Repr

structure Plan where
  image : String
  osFamily : OsFamily
  runtime : Runtime
  copyEntries : List CopyEntry
  commands : List String
  deriving DecidableEq, Repr

namespace Certificate

/-- The directory of the image from which certificates are installed. -/
def stagingDirectory : String :=
  "/tmp/certs"

/-- The last component of a path, slashes at its end left aside. -/
def lastComponent (path : List Char) : List Char :=
  ((Text.dropEndWhile (· = '/') path).reverse.takeWhile (· ≠ '/')).reverse

/-- The name of a certificate among the files of the build. The index keeps certificates of one file
name apart. -/
def fileName (path : String) (index : Int) : String :=
  "cert-" ++ toString index ++ "-" ++ String.ofList (lastComponent path.toList)

/-- The place of a certificate in the image before it is installed. -/
def stagedPath (path : String) (index : Nat) : String :=
  stagingDirectory ++ "/" ++ fileName path index

/-! ## Copying -/

/-- Copy entries that bring certificates into a directory of the image. -/
def copyEntries (certificates : List String) (directory : String) : List CopyEntry :=
  certificates.zipIdx.map fun (path, index) =>
    ⟨fileName path index, directory ++ "/" ++ fileName path index⟩

/-! ## Commands -/

/-- The command that puts a certificate into the store of the system. -/
def copyCommand (store : TrustStore) (path : String) (index : Nat) : String :=
  "cp " ++ stagedPath path index ++ " " ++ store.directory

/-- The command that imports a certificate into one of Java's stores. -/
def importCommand (path : String) (index : Nat) (keystore : String) : String :=
  "keytool -importcert -noprompt -trustcacerts -alias " ++ Keystore.certificateAlias index ++
    " -file " ++ stagedPath path index ++ " -keystore " ++ keystore ++
    " -storepass " ++ Keystore.password

/-- The command that imports a certificate into the first of Java's stores that takes it, and succeeds
in any case. -/
def javaCommand (path : String) (index : Nat) : String :=
  String.intercalate " || " (Keystore.locations.map (importCommand path index) ++ ["true"])

def javaCommands (certificates : List String) : List String :=
  certificates.zipIdx.map fun (path, index) => javaCommand path index

/-- The commands for the store of the system: every certificate is copied, then the store is
refreshed. -/
def systemCommands (store : TrustStore) (certificates : List String) : List String :=
  (certificates.zipIdx.map fun (path, index) => copyCommand store path index) ++ [store.refresh]

/-- The commands that install certificates into an image; none if there is no image or nothing to
install. -/
def installCommands (image : Option String) (certificates : List String) : List String :=
  match image with
  | none => []
  | some image =>
    if certificates.isEmpty then []
    else
      systemCommands (Image.osFamily image).trustStore certificates ++
        match Image.runtime image with
        | .java => javaCommands certificates
        | .generic => []

end Certificate

/-- The plan that makes an image trust certificates. -/
def Plan.of (image : String) (certificates : List String) : Plan where
  image
  osFamily := Image.osFamily image
  runtime := Image.runtime image
  copyEntries := Certificate.copyEntries certificates Certificate.stagingDirectory
  commands := Certificate.installCommands (some image) certificates

end ImageTrust
