import ModelFinder.CommandLine.Execution

/-!
# Executing in a directory

A `Directory` holds files under their names and has no directories below it.  `Directory.perform`
executes the words of a command line there: it looks up the files they name, and stores the
refutation that is written.

A path stands for a file of the directory if it names the file and otherwise only goes from the
directory to itself, as in `./name`.  All other paths lead elsewhere, where there is nothing to read
and no place to write.
-/

namespace ModelFinder.CommandLine

/-! ### Paths -/

/-- The name of a file of the directory, as a path without other parts. -/
def fileName? (part : String) : Option String :=
  if part = "" ∨ part = "." ∨ part = ".." then none else some part

/-- The name of the file that the parts of a relative path stand for. -/
def nameOfParts : List String → Option String
  | [] => none
  | [part] => fileName? part
  | part :: parts => if part = "" ∨ part = "." then nameOfParts parts else none

/-- The name of the file that a path stands for. -/
def nameOfPath (path : String) : Option String :=
  if path.startsWith "/" then none else nameOfParts (path.splitOn "/")

/-- Whether a path has the extension of compressed files; a name which is only an extension has
none. -/
def isPackedPath (path : String) : Bool :=
  match ((path.splitOn "/").getLastD "").toList.reverse with
  | 'z' :: 'g' :: '.' :: _ :: _ => true
  | _ => false

/-! ### Directories -/

/-- What a file holds: some bytes as they are, or a compressed form of them. -/
inductive Content where
  | plain (bytes : List UInt8)
  | packed (bytes : List UInt8)
deriving DecidableEq

namespace Content

/-- The bytes a file holds, after unpacking. -/
def bytes : Content → List UInt8
  | plain bytes => bytes
  | packed bytes => bytes

/-- The two bytes with which every compressed form starts. -/
def mark : List UInt8 := [31, 139]

/-- What is read of a file without unpacking it.  Of a compressed form no more is known than its
mark. -/
def raw : Content → List UInt8
  | plain bytes => bytes
  | packed _ => mark

end Content

/-- Files by their names; the first one of a name counts. -/
structure Directory where
  files : List (String × Content)
deriving DecidableEq

namespace Directory

/-- The file that a path stands for. -/
def read? (d : Directory) (path : String) : Option Content :=
  (nameOfPath path).bind fun name => d.files.lookup name

/-- Stores a file. -/
def write (d : Directory) (o : Output) : Directory :=
  match nameOfPath o.path with
  | some name => ⟨(name, if isPackedPath o.path then .packed o.bytes else .plain o.bytes) :: d.files⟩
  | none => d

/-- The bytes of a file that is to hold a refutation, which may be compressed. -/
def readTrace? (d : Directory) (path : String) : Option (List UInt8) :=
  (d.read? path).map fun c => if isPackedPath path then c.bytes else c.raw

/-- What the files named by some arguments hold. -/
def filesFor (d : Directory) (a : Arguments) : Files where
  instanceBytes := (d.read? a.instancePath).map Content.raw
  externalTrace := a.externalTrace.bind d.readTrace?
  writable := a.tracePath.all fun path => (nameOfPath path).isSome

/-- Executes the words of a command line. -/
def perform (d : Directory) (words : List String) : Report × Directory :=
  match Arguments.ofWords words with
  | .ok a =>
    let report := execute a (d.filesFor a)
    (report, (report.output.map d.write).getD d)
  | .error stop => (stop.report, d)

/-! ### What was written is there -/

theorem read?_write {d : Directory} {o : Output} (h : (nameOfPath o.path).isSome) :
    ((d.write o).read? o.path).map Content.bytes = some o.bytes := by
  obtain ⟨name, hname⟩ := Option.isSome_iff_exists.mp h
  simp only [read?, write, hname, Option.bind_some, List.lookup_cons_self, Option.map_some]
  split <;> rfl

theorem read?_write_of_ne {d : Directory} {o : Output} {path : String}
    (h : nameOfPath path ≠ nameOfPath o.path) : (d.write o).read? path = d.read? path := by
  unfold write
  split
  next other ho =>
      cases hp : nameOfPath path with
      | none => simp [read?, hp]
      | some name =>
          have hne : name ≠ other := fun e => h (by rw [hp, ho, e])
          simp [read?, hp, List.lookup_cons, beq_eq_false_iff_ne.mpr hne]
  next => rfl

end Directory

end ModelFinder.CommandLine
