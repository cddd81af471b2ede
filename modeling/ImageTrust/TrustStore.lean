import ImageTrust.Image

/-! # Trust stores

Where an operating system keeps the certificates it trusts and how it takes notice of new ones.
-/

namespace ImageTrust

structure TrustStore where
  directory : String
  refresh : String
  deriving DecidableEq, Repr

/-- The trust store of a family. Unknown systems are treated like Debian. -/
def OsFamily.trustStore : OsFamily → TrustStore
  | .redHat => ⟨"/etc/pki/ca-trust/source/anchors/", "update-ca-trust"⟩
  | .alpine | .debianUbuntu | .unknown =>
    ⟨"/usr/local/share/ca-certificates/", "update-ca-certificates"⟩

namespace Keystore

/-- Where Java keeps its trusted certificates, the newer place first. -/
def locations : List String :=
  ["$JAVA_HOME/lib/security/cacerts", "$JAVA_HOME/jre/lib/security/cacerts"]

def password : String :=
  "changeit"

/-- The name under which the certificate at an index is stored. -/
def certificateAlias (index : Nat) : String :=
  "jkube-cert-" ++ toString index

end Keystore

end ImageTrust
