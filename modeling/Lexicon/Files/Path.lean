import Lexicon.Text.Lines

/-! Paths. A path is walked from the working directory or from the root, one component after the
other; empty components and single dots stay where they are, and two dots lead up. -/
namespace Lexicon

/-- Why a path leads nowhere. -/
inductive PathError where
  | notFound
  | notDirectory
  | isDirectory
  | tooLong
  | malformed
  deriving DecidableEq

/-- A directory that a path can lead to: one so many levels above the working directory, the root,
or one of those that every system has. -/
inductive Directory where
  | above (levels : Nat)
  | root
  | system (name : Text)
  deriving DecidableEq

namespace Directory

def working : Directory := above 0

def parent : Directory → Directory
  | above levels => above (levels + 1)
  | root | system _ => root

/-- What stands before the names in a directory; nothing in the working directory. -/
def front : Directory → Text
  | above levels => (List.replicate levels "../".toList).flatten
  | root => ['/']
  | system name => '/' :: name ++ ['/']

def systemNames : List Text := [
  "bin", "boot", "dev", "etc", "home", "lib", "media", "mnt", "opt", "proc", "root", "run", "sbin",
  "srv", "sys", "tmp", "usr", "var"].map String.toList

end Directory

/-- Where a path leads: to a directory, or to a name in one, whether or not it is there. -/
inductive Place where
  | directory (d : Directory)
  | name (full : Text)
  deriving DecidableEq

namespace Path

/-- How many bytes a path may have. -/
def maxSize : Nat := 4095

/-- How many bytes a name may have. -/
def maxNameSize : Nat := 255

def components (path : Text) : List Text := (Text.split '/' path).filter (!·.isEmpty)

def isAbsolute (path : Text) : Bool := path.head? = some '/'

/-- Whether a path says by its last character that it leads to a directory. -/
def hasTrailingSlash (path : Text) : Bool := path.getLast? = some '/'

/-- The leading slashes that count: two are two, any other number is one. -/
def root (path : Text) : Text :=
  let slashes := path.takeWhile (· = '/')
  if slashes.length = 2 then slashes else slashes.take 1

/-- The path with nothing in it that says nothing. -/
def plain (path : Text) : Text :=
  match root path ++ Text.join ['/'] ((components path).filter (· ≠ ['.'])) with
  | [] => ['.']
  | s => s

example : plain "./a//b/".toList = "a/b".toList ∧ plain "///x".toList = "/x".toList := by decide
example : plain "//x/.".toList = "//x".toList ∧ plain [] = ".".toList := by decide

/-- One step of a walk. -/
def enter (d : Directory) (component : Text) : Except PathError Place :=
  if component = ".".toList then .ok (.directory d)
  else if component = "..".toList then .ok (.directory d.parent)
  else if maxNameSize < component.byteSize then .error .tooLong
  else if d = .root ∧ component.isAmong Directory.systemNames then
    .ok (.directory (.system component))
  else .ok (.name (d.front ++ component))

/-- The place that components lead to. Every component but the last one has to be a directory; a
name that is there is a file. -/
def walk (isFile : Text → Bool) (d : Directory) : List Text → Except PathError Place
  | [] => .ok (.directory d)
  | component :: rest =>
    match enter d component with
    | .ok (.directory d) => walk isFile d rest
    | .ok (.name full) =>
      if rest.isEmpty then .ok (.name full)
      else .error (if isFile full then .notDirectory else .notFound)
    | .error e => .error e

/-- Where a path is walked from, unless it is no path at all. -/
def start (path : Text) : Except PathError Directory :=
  if '\x00' ∈ path then .error .malformed
  else if path.isEmpty then .error .notFound
  else if maxSize < path.byteSize then .error .tooLong
  else .ok (if isAbsolute path then .root else .working)

/-- The place a path leads to. -/
def place (isFile : Text → Bool) (path : Text) : Except PathError Place := do
  walk isFile (← start path) (components path)

/-- The name under which a path puts a file. With a slash at its end no path does. -/
def target (isFile : Text → Bool) (path : Text) : Except PathError Text := do
  let d ← start path
  let parts := components path
  if hasTrailingSlash path then
    match ← walk isFile d parts.dropLast with
    | .directory _ => throw .isDirectory
    | .name full => throw (if isFile full then .notDirectory else .notFound)
  match ← walk isFile d parts with
  | .directory _ => throw .isDirectory
  | .name full => return full

example : place (fun _ => true) "./a.ini".toList = .ok (.name "a.ini".toList) := rfl
example : target (fun _ => false) "no/../a.ini".toList = .error .notFound := rfl
example : target (fun _ => true) "a.ini/x".toList = .error .notDirectory := rfl
example : target (fun _ => false) "a.ini/".toList = .error .isDirectory := rfl

end Path
end Lexicon
