/-
Module: MiningPool.FilePath
Purpose: the text of file paths.
Main exports: FilePath.join, FilePath.expandHome, FilePath.hasExtension
-/

/-!
A path is a text whose components stand between slashes. Empty components and single dots mean nothing,
except that a slash in front makes a path absolute.
-/

namespace MiningPool.FilePath

/-- A path that is relative to another one. An absolute path stays as it is, and nothing is put between
the two if the first is empty or ends in a slash. -/
def join (base path : String) : String :=
  if path.startsWith "/" || base.isEmpty then path
  else if base.endsWith "/" then base ++ path
  else base ++ "/" ++ path

/-- The parts between the slashes of a path. -/
def parts (path : String) : List String := path.splitOn "/"

/-- Whether a part names nothing. -/
def isVoid (part : String) : Bool := part = "" || part = "."

/-- The path below the first component, if that is `~`. Parts that name nothing vanish at both ends of
the rest but not inside it. -/
def belowHome? (path : String) : Option String :=
  match parts path with
  | "~" :: rest =>
    let rest := ((rest.dropWhile isVoid).reverse.dropWhile isVoid).reverse
    some ("/".intercalate rest)
  | _ => none

/-- The path with a leading `~` replaced by the home directory, if there is one. -/
def expandHome (home : Option String) (path : String) : String :=
  match belowHome? path, home with
  | some rest, some home => join home rest
  | _, _ => path

/-- The last component, unless that is `..` or there is none. -/
def fileName? (path : String) : Option String :=
  match (parts path).reverse.dropWhile isVoid with
  | [] => none
  | last :: _ => if last = ".." then none else some last

/-- Whether the last component ends in a dot and the extension; a dot in front of the whole name begins
no extension. -/
def hasExtension (extension path : String) : Bool :=
  match fileName? path with
  | none => false
  | some name =>
    match (name.splitOn ".").reverse with
    | last :: before => last = extension && !before.isEmpty && before != [""]
    | [] => false

end MiningPool.FilePath
