import Lexicon.Dictionary.Store
import Lexicon.Files.Path
import Lexicon.Text.Utf8

/-! The files of a working directory by name. The directory has no directories in it. A file is
plain bytes or a packed term store. -/
namespace Lexicon

inductive FileContent where
  | bytes (bytes : Bytes)
  | store (store : PackedStore)
  deriving DecidableEq

abbrev Files := Table Text FileContent

/-- What reading a file as text gives. Of a file that is no text some lines may be readable. -/
inductive FileText where
  | missing
  | badPath
  | undecodable (readable : Text)
  | text (s : Text)
  deriving DecidableEq

/-- What stands at a path. -/
inductive FileNode where
  | directory
  | file (content : FileContent)
  deriving DecidableEq

/-- Why a file was not written, or not up to its end: its path, or a text that has no bytes. -/
inductive WriteError where
  | path (error : PathError)
  | noBytes
  deriving DecidableEq

namespace FileText

def ofBytes (bytes : Bytes) : FileText :=
  match Text.ofBytes? bytes with
  | some s => .text s
  | none => .undecodable (Text.readable bytes)

/-- A packed store is no text. -/
def ofContent : FileContent → FileText
  | .bytes bytes => ofBytes bytes
  | .store _ => undecodable []

end FileText

namespace Files

/-- The file that is always empty and takes everything. -/
def nullName : Text := "/dev/null".toList

def get (files : Files) (name : Text) : Option FileContent :=
  if name = nullName then some (.bytes []) else files.get? name

def isFile (files : Files) (name : Text) : Bool := (files.get name).isSome

def find (files : Files) (path : Text) : Except PathError FileNode := do
  match ← Path.place files.isFile path with
  | .directory _ => return .directory
  | .name full =>
    match files.get full with
    | some content =>
      if Path.hasTrailingSlash path then throw .notDirectory else return .file content
    | none => throw .notFound

/-- Reads a file as text. A path that leads nowhere or to a directory is one of no file. -/
def read (files : Files) (path : Text) : FileText :=
  match files.find path with
  | .ok (.file content) => .ofContent content
  | .error .malformed => .badPath
  | _ => .missing

/-- Puts a content in place of a file. -/
def put (files : Files) (path : Text) (content : FileContent) : Except PathError Files := do
  let name ← Path.target files.isFile path
  return if name = nullName then files else files.set name content

/-- Writes a text into a file. -/
def write (files : Files) (path s : Text) : Except PathError Files :=
  files.put path (.bytes s.toBytes)

/-- The pieces before the first one that has no bytes, joined. -/
def leading : List (Option Text) → Text
  | some piece :: rest => piece ++ leading rest
  | _ => []

/-- Writes pieces into a file, which is emptied before the first one. A piece without bytes ends the
writing, and those before it stay in the file. -/
def writePieces (files : Files) (path : Text) (pieces : List (Option Text)) :
    Except WriteError Unit × Files :=
  match files.write path (leading pieces) with
  | .error e => (.error (.path e), files)
  | .ok written => (if pieces.all Option.isSome then .ok () else .error .noBytes, written)

end Files
end Lexicon
