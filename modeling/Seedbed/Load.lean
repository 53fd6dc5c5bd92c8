import Seedbed.Tag.Template
/-! Loading the records of a fixture file: its text is read, the tags in it are replaced, and what
results is decoded. Each stage runs once, none runs after one that failed, and every fault names
the file. -/

namespace Seedbed

/-- The records of a file under their labels, in the order of the file. -/
abbrev Records := Keyed Value

abbrev Reader (σ : Type) := String → Option String → Action σ String

abbrev Decoder (σ : Type) := String → Action σ Records

structure Source (σ : Type) where
  reader : Reader σ
  environment : Environment σ

namespace Load

variable {σ : Type}

def inFile (filename : String) : Fault.Context := { filename := some filename }

/-- An error of a stage as it leaves the load: a fault with the file in its context, any other one
as the cause of the given fault. -/
def leaving (filename : String) (fault : Fault) : Thrown → Thrown
  | .fault f => .fault (f.withContext (inFile filename))
  | e => .fault (fault.withCause e)

/-- An error of the stage in which tags are replaced as it leaves the load. -/
def leavingTags (filename : String) : Thrown → Thrown
  | .fault f => .fault (f.withContext (inFile filename))
  | e => e

def readText (source : Source σ) (filename : String) (baseDir : Option String) : Action σ String :=
  ExceptT.adapt (leaving filename (.notOpened filename (inFile filename)))
    (source.reader filename baseDir)

def replaceTags (source : Source σ) (names : Registry) (filename text : String) :
    Action σ String :=
  ExceptT.adapt (leavingTags filename) (substitute ⟨names, source.environment⟩ text)

def decodeText (decoder : Decoder σ) (filename text : String) : Action σ Records :=
  ExceptT.adapt (leaving filename (.undecodable filename)) (decoder text)

end Load

/-- The records of a file, with its tags resolved against the given names. -/
def loadRecords {σ : Type} (source : Source σ) (filename : String) (decoder : Decoder σ)
    (baseDir : Option String) (names : Registry) : Action σ Records := do
  let text ← Load.readText source filename baseDir
  let text ← Load.replaceTags source names filename text
  Load.decodeText decoder filename text

end Seedbed
