import ModelFinder.Casing.Clusters
import ModelFinder.Casing.Text

/-!
# Names in camel case

`camel` writes the words of a name in one, each but the first with a capital.  A name is cut into
words cluster by cluster, so that a letter and its marks count as one.  It falls into words at
underscores, hyphens and blanks, which belong to no word, where small letters, capital ones and
digits meet, and before the last of several capitals when a small letter follows.

These are the rules of a library for casing, and of the Unicode standard below it, put down so that
the lines of statistics can be written.  Nothing is proved about them, and no result depends on them.
-/

namespace ModelFinder.Casing

/-! ### Kinds of clusters -/

/-- What a cluster is where a name is cut into words. -/
inductive Kind where
  | small
  | capital
  | digit
  | other
deriving DecidableEq

/-- The kind of a cluster.  It counts as small or as capital if it has another case and is written
as it is in its own; a cluster of a capital character and a small one is neither. -/
def kind (cluster : List Char) : Kind :=
  if cluster.all Char.isDigit then .digit
  else if inCapitals cluster = inSmall cluster then .other
  else if inSmall cluster = cluster then .small
  else if inCapitals cluster = cluster then .capital
  else .other

/-- Whether a cluster only separates words.  With a mark on it, it does not. -/
def isSeparator (cluster : List Char) : Bool :=
  cluster == ['_'] || cluster == ['-'] || cluster == [' ']

/-- Whether a word starts with a cluster, given the kinds of the clusters before it, of itself and
after it. -/
def startsWord : Kind → Kind → Kind → Bool
  | .small, .capital, _ => true
  | .small, .digit, _ => true
  | .capital, .digit, _ => true
  | .digit, .small, _ => true
  | .digit, .capital, _ => true
  | .capital, .capital, .small => true
  | _, _, _ => false

/-! ### Words -/

/-- A word: its clusters. -/
abbrev Word := List (List Char)

/-- The kind of the first of some clusters. -/
def firstKind (gs : List (List Char)) : Kind := (gs.head?.map kind).getD .other

/-- Cuts clusters which follow one of a given kind: the rest of the word before them, and the
pieces after it, some of which may be empty. -/
def cut : Kind → List (List Char) → Word × List Word
  | _, [] => ([], [])
  | before, g :: gs =>
    let (piece, pieces) := cut (kind g) gs
    if isSeparator g then ([], piece :: pieces)
    else if startsWord before (kind g) (firstKind gs) then ([], (g :: piece) :: pieces)
    else (g :: piece, pieces)

/-- The words of a name. -/
def words (name : List Char) : List Word :=
  let (piece, pieces) := cut .other (clusters name)
  (piece :: pieces).filter fun word => !word.isEmpty

/-! ### Camel case -/

/-- A word in small letters but for its first character, which is in capitals.  This is the first
character and not the first cluster: what is in a cluster with it goes with the rest, which is a
text of its own. -/
def capitalised : List Char → List Char
  | [] => []
  | c :: cs => capital c ++ inSmall cs

/-- The words of a name in one, each but the first with a capital. -/
def camel (name : String) : String :=
  match words name.toList with
  | [] => ""
  | w :: ws => String.ofList (inSmall w.flatten ++ ws.flatMap fun w => capitalised w.flatten)

end ModelFinder.Casing
