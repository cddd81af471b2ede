/-! # Images

What the name of a base image says about the image: the family of its operating system and whether it
ships a Java runtime. Names are searched for known words, letters of either case alike.
-/

namespace ImageTrust

/-- Operating systems that keep their trusted certificates in the same way. -/
inductive OsFamily
  | alpine
  | debianUbuntu
  | redHat
  | unknown
  deriving DecidableEq, Repr

namespace OsFamily

def name : OsFamily → String
  | alpine => "alpine"
  | debianUbuntu => "debian-ubuntu"
  | redHat => "redhat"
  | unknown => "unknown"

/-- Every family. -/
def all : List OsFamily :=
  [alpine, debianUbuntu, redHat, unknown]

def ofName? (name : String) : Option OsFamily :=
  all.find? (·.name = name)

/-- The words that give a family away. -/
def words : OsFamily → List String
  | alpine => ["alpine"]
  | debianUbuntu => ["debian", "ubuntu"]
  | redHat => ["rhel", "ubi", "centos", "fedora"]
  | unknown => []

end OsFamily

/-- Whether an image holds a second store of certificates. -/
inductive Runtime
  | java
  | generic
  deriving DecidableEq, Repr

namespace Runtime

def name : Runtime → String
  | java => "java"
  | generic => "generic"

def all : List Runtime :=
  [java, generic]

def ofName? (name : String) : Option Runtime :=
  all.find? (·.name = name)

/-- The words that give a Java runtime away. -/
def javaWords : List String :=
  ["java", "openjdk", "jdk", "jre", "eclipse-temurin"]

end Runtime

namespace Image

/-- Whether a character is a lower-case letter of ASCII up to case. Besides the capital, the dotted
capital I and the dotless small i stand for an i, the long s for an s and the Kelvin sign for a k. -/
def sameLetter (letter c : Char) : Bool :=
  c = letter || c.toLower = letter || (letter = 'i' && (c = 'İ' || c = 'ı')) ||
    (letter = 's' && c = 'ſ') || (letter = 'k' && c = '\u212A')

/-- Whether a text starts with a word, up to case. -/
def startsWith (word cs : List Char) : Bool :=
  match word, cs with
  | [], _ => true
  | _ :: _, [] => false
  | letter :: word, c :: cs => sameLetter letter c && startsWith word cs

/-- Whether a word occurs somewhere in a text, up to case. -/
def occurs (word cs : List Char) : Bool :=
  startsWith word cs ||
    match cs with
    | [] => false
    | _ :: rest => occurs word rest

/-- Whether one of some words occurs in the name of an image. -/
def mentions (image : String) (words : List String) : Bool :=
  words.any fun word => occurs word.toList image.toList

/-- The family of an image: the first one in the order of `OsFamily.all` that its name mentions. -/
def osFamily (image : String) : OsFamily :=
  (OsFamily.all.find? fun family => mentions image family.words).getD .unknown

def runtime (image : String) : Runtime :=
  if mentions image Runtime.javaWords then .java else .generic

end Image

end ImageTrust
