import SourceSurvey.Text.Utf8

/-!
Paths: bytes, in which slashes separate names. A path need not be text. Nothing here looks at files.
-/

namespace SourceSurvey.Files.Path

/-- The byte that separates names. -/
def slash : UInt8 := 47

/-- The byte of a dot. -/
def dot : UInt8 := 46

/-- Whether a path starts from the top. -/
def isAbsolute (path : List UInt8) : Bool := path.head? == some slash

/-- A path seen from another one. An absolute path stays as it is. -/
def join (base path : List UInt8) : List UInt8 :=
  if isAbsolute path || base.isEmpty then path
  else if base.getLast? == some slash then base ++ path
  else base ++ slash :: path

/-- A path in reverse without the slashes and the dots at its end. The top and a lone dot stay. -/
def trimReversed : List UInt8 → List UInt8
  | [] => []
  | byte :: rest =>
    if byte = slash then
      if rest.isEmpty then [slash] else trimReversed rest
    else if byte = dot ∧ rest.head? = some slash then trimReversed rest
    else byte :: rest

/-- The name at the end of a path, unless the path ends in a step that has none. -/
def fileName? (path : List UInt8) : Option (List UInt8) :=
  let name := ((trimReversed path.reverse).takeWhile (· != slash)).reverse
  if name.isEmpty || name == [dot] || name == [dot, dot] then none else some name

/-- The path without its last step. The top and the empty path have none. -/
def parent? (path : List UInt8) : Option (List UInt8) :=
  let reversed := trimReversed path.reverse
  if reversed.isEmpty || reversed == [slash] then none
  else some (trimReversed (reversed.dropWhile (· != slash))).reverse

/-- A path as text. What is no text in it is shown by replacement characters. -/
def text (path : List UInt8) : List Char := Text.Utf8.decodeLossy path

/-- A path as it is shown in records, with slashes alone. -/
def shown (path : List UInt8) : List Char :=
  (text path).map fun c => if c == '\\' then '/' else c

end SourceSurvey.Files.Path
