import Mathlib.Data.List.Infix
import Frona.Text.Visible

set_option autoImplicit false

namespace Frona.Pkm

open Utf8 (Text stripPrefix)
open Frona.Text (trim)

inductive AppError where
  | validation (message : Text)
  | notFound (message : Text)
  | conflict (message : Text)
  -- The rest of this text is the database's own.
  | database
  | internal (message : Text)
  | inference (message : Text)
  deriving DecidableEq

def dotDot : Text := ['.', '.']

def nul : Char := Char.ofNat 0

def isSlash (c : Char) : Bool := c == '/'

def trimStartSlashes (text : Text) : Text := text.dropWhile isSlash

/-- `trim_matches('/')`. -/
def trimSlashes (text : Text) : Text :=
  ((text.dropWhile isSlash).reverse.dropWhile isSlash).reverse

def dropReversedMd : Text → Text
  | 'd' :: 'm' :: '.' :: rest => dropReversedMd rest
  | text => text

/-- `trim_end_matches(".md")`: every trailing `.md` goes. -/
def trimEndMd (text : Text) : Text := (dropReversedMd text.reverse).reverse

def splitSlash : Text → List Text
  | [] => [[]]
  | '/' :: rest => [] :: splitSlash rest
  | c :: rest =>
      match splitSlash rest with
      | [] => [[c]]
      | piece :: pieces => (c :: piece) :: pieces

def joinSlash : List Text → Text
  | [] => []
  | [piece] => piece
  | piece :: next :: pieces => piece ++ '/' :: joinSlash (next :: pieces)

-- An empty piece and a `.` name no component of a path.
def isComponent (piece : Text) : Bool := piece != [] && piece != ['.']

def components (path : Text) : List Text := (splitSlash path).filter isComponent

def invalidDirectory : Text :=
  "memory directory must be a single clean segment (no '/' or '..')".toList

def validateDirectory (directory : Text) : Except AppError Text :=
  let d := trim directory
  if d = [] ∨ '/' ∈ d ∨ dotDot <:+: d ∨ nul ∈ d then .error (.validation invalidDirectory)
  else .ok d

structure VaultScope where
  directory : Text
  root : List Text
  validated : validateDirectory directory = .ok directory

/-- `<directory>/<path>`, the form used in wikilinks. -/
def VaultScope.vaultPath (vault : VaultScope) (pagePath : Text) : Text :=
  vault.directory ++ '/' :: pagePath

/-- `Path::strip_prefix` on the pieces of a path. -/
def stripComponents : List Text → List Text → Option (List Text)
  | [], pieces => some pieces
  | _ :: _, [] => none
  | component :: base, piece :: pieces =>
      if isComponent piece then
        if piece = component then stripComponents base pieces else none
      else stripComponents (component :: base) pieces

-- What is left of a path has no empty piece at either end.
def trimPieces (pieces : List Text) : List Text :=
  let drop := List.dropWhile fun piece => !isComponent piece
  (drop (drop pieces).reverse).reverse

def nonEmpty (text : Text) : Option Text := if text = [] then none else some text

/-- `Path::new(path).strip_prefix(<root>/<directory>)`, without slashes around. -/
def VaultScope.stripRoot (vault : VaultScope) (path : Text) : Option Text :=
  match path with
  | '/' :: _ =>
      match stripComponents (vault.root ++ components vault.directory) (splitSlash path) with
      | none => none
      | some pieces => nonEmpty (trimSlashes (joinSlash (trimPieces pieces)))
  | _ => none

def VaultScope.pageFromAny (vault : VaultScope) (input : Text) : Option Text :=
  let trimmed := trimEndMd (trim input)
  match vault.stripRoot trimmed with
  | some page => some page
  | none =>
      match stripPrefix (vault.vaultPath []) (trimStartSlashes trimmed) with
      | none => none
      | some page => nonEmpty (trimSlashes page)

def traversal : Text := "Path traversal not allowed".toList

def absolutePath : Text := "Path must be relative".toList

def invalidCharacters : Text := "Path contains invalid characters".toList

def validateRelativePath (path : Text) : Except AppError Unit :=
  if dotDot <:+: path then .error (.validation traversal)
  else if ['/'].isPrefixOf path then .error (.validation absolutePath)
  else if nul ∈ path then .error (.validation invalidCharacters)
  else .ok ()

def emptyPath : Text := "empty memory path".toList

def extension : Text := ['.', 'm', 'd']

def cleaned (path : Text) : Text :=
  trimSlashes (trimEndMd (trimStartSlashes (trim path)))

/-- The relative file of a page path: `<path>.md`. -/
def relMd (path : Text) : Except AppError Text :=
  if cleaned path = [] then .error (.validation emptyPath)
  else match validateRelativePath (cleaned path) with
    | .error error => .error error
    | .ok () => .ok (cleaned path ++ extension)

-- A file below the vault root, by its components.
abbrev FileKey := List Text

def VaultScope.pageKey (vault : VaultScope) (path : Text) : Except AppError FileKey :=
  (relMd path).map fun rel => components vault.directory ++ components rel

def noteKey (path : Text) : Except AppError FileKey := (relMd path).map components

end Frona.Pkm
