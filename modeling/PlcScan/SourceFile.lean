import PlcScan.Scan
import PlcScan.Text.Quoted
import PlcScan.Text.Utf8

namespace PlcScan

open Utf8 (Bytes)

inductive PathFault
  | notFound
  | isDirectory
  | notDirectory
  deriving DecidableEq, Repr

def PathFault.message (path : Text) : PathFault → Text
  | notFound => "[Errno 2] No such file or directory: ".toList ++ path.quote
  | isDirectory => "[Errno 21] Is a directory: ".toList ++ path.quote
  | notDirectory => "[Errno 20] Not a directory: ".toList ++ path.quote

abbrev Reader := Text → Except PathFault Bytes

structure Directory where
  files : List (List Text × Bytes)

namespace Directory

def components (path : Text) : List Text :=
  (path.fields '/').filter fun name => name != [] && name != ['.']

def ofPaths (files : List (Text × Bytes)) : Directory :=
  ⟨files.map fun (path, content) => (components path, content)⟩

inductive Place
  | inside (names : List Text)
  | outside
  | file (content : Bytes)

/-- Goes from a place by the next component of a path. Nothing is found outside the directory. -/
def step (d : Directory) (place : Place) (name : Text) : Except PathFault Place :=
  let stays := name = [] || name = ['.']
  let rises := name = ['.', '.']
  match place with
  | .file _ => .error .notDirectory
  | .outside => if stays || rises then .ok .outside else .error .notFound
  | .inside names =>
    if stays then .ok (.inside names)
    else if rises then .ok (if names = [] then .outside else .inside names.dropLast)
    else
      let next := names ++ [name]
      match d.files.lookup next with
      | some content => .ok (.file content)
      | none =>
        if d.files.any (next.isPrefixOf ·.1) then .ok (.inside next) else .error .notFound

def reader (d : Directory) : Reader := fun path =>
  let start := if path.head? = some '/' then Place.outside else .inside []
  if path = [] then .error .notFound
  else match (path.fields '/').foldlM d.step start with
    | .ok (.file content) => .ok content
    | .ok _ => .error .isDirectory
    | .error fault => .error fault

end Directory

inductive ReadFault
  | path (fault : PathFault)
  | encoding (fault : Utf8.Fault)
  deriving DecidableEq, Repr

def ReadFault.message (name : Text) : ReadFault → Text
  | path fault => fault.message name
  | encoding fault => fault.message

def readText (reader : Reader) (path : Text) : Except ReadFault Text :=
  match reader path with
  | .error fault => .error (.path fault)
  | .ok bytes => (Utf8.decode bytes).mapError .encoding

inductive FileFailure
  | unreadable (fault : ReadFault)
  | failure (failure : Failure)
  deriving DecidableEq, Repr

def lexFile (reader : Reader) (o : Options) (path : Text) : Except FileFailure (List Token) :=
  match readText reader path with
  | .error fault => .error (.unreadable fault)
  | .ok source => (lex o path source).mapError .failure

end PlcScan
