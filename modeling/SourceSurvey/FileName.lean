/-!
What the name of a file tells: whether it takes part in a survey, and how its text is read.
-/

namespace SourceSurvey

/-- A way of finding definitions in a text. -/
inductive Method where
  | grammar
  | headers
  deriving DecidableEq

namespace FileName

/-- The endings of the files that take part in a survey. -/
def supportedEndings : List (List Char) :=
  [['.', 'p', 'y'], ['.', 'j', 's'], ['.', 't', 's'], ['.', 'j', 'a', 'v', 'a'], ['.', 'r', 'b'],
    ['.', 'g', 'o'], ['.', 'c', 'p', 'p'], ['.', 'c'], ['.', 'c', 's']]

/-- The ending of the files whose grammar is known. -/
def grammarEnding : List Char := ['.', 'p', 'y']

/-- Whether a file of this name takes part in a survey. Case counts. -/
def isSupported (name : List Char) : Bool :=
  supportedEndings.any fun ending => ending.isSuffixOf name

/-- How a file of this name is read. -/
def method (name : List Char) : Method :=
  if grammarEnding.isSuffixOf name then .grammar else .headers

end FileName

end SourceSurvey
