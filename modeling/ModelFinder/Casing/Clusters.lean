import ModelFinder.Casing.ClusterClass

/-!
# Clusters

`clusters` cuts a text into what a reader takes for its letters: the extended grapheme clusters of
the Unicode standard.  A cluster goes on as long as the next character belongs to the characters it
has so far (`joins`), so one walk over the text finds them all.
-/

namespace ModelFinder.Casing

/-! ### When a character belongs to those before it

The characters before are given from the last to the first. -/

/-- Whether a character belongs to whatever is before it. -/
def attaches (c : Char) : Bool :=
  clusterClass c matches .extending | .joiner | .spacing

/-- Whether two neighbours are in one Hangul syllable. -/
def sameSyllable : ClusterClass → ClusterClass → Bool
  | .leading, .leading | .leading, .vowel => true
  | .leading, .openSyllable | .leading, .closedSyllable => true
  | .openSyllable, .vowel | .openSyllable, .trailing => true
  | .vowel, .vowel | .vowel, .trailing => true
  | .closedSyllable, .trailing | .trailing, .trailing => true
  | _, _ => false

/-- Whether the last of some characters is the joiner, and the last before it, apart from marks, is
a picture. -/
def endsInJoinedPicture : List Char → Bool
  | [] => false
  | c :: cs =>
    clusterClass c == .joiner &&
      (cs.dropWhile fun d => clusterClass d == .extending).head?.any
        fun d => clusterClass d == .pictograph

/-- Whether the last of some characters is the first half of a flag. -/
def endsInHalfFlag (cs : List Char) : Bool :=
  (cs.takeWhile fun c => clusterClass c == .regional).length % 2 = 1

/-- Whether a mark may stand between two linked consonants; the non-joiner of width zero keeps them
apart. -/
def bridges (c : Char) : Bool :=
  c != '\u200c' && (clusterClass c == .extending || clusterClass c == .joiner)

/-- Whether some characters end in a consonant and marks of which one links. -/
def endsInLinkedConsonant (cs : List Char) : Bool :=
  (cs.takeWhile bridges).any linkers.contains &&
    (cs.dropWhile bridges).head?.any fun c => clusterClass c == .consonant

/-- Whether a character belongs to a cluster with the characters before it.  The two characters
that end a line together do; any other control stands alone, whatever is next to it. -/
def joins : List Char → Char → Bool
  | [], _ => false
  | last :: before, c =>
    if last == '\r' && c == '\n' then true
    else if clusterClass last == .control || clusterClass c == .control then false
    else
      attaches c || clusterClass last == .prepended ||
        sameSyllable (clusterClass last) (clusterClass c) ||
        clusterClass c == .pictograph && endsInJoinedPicture (last :: before) ||
        clusterClass c == .regional && endsInHalfFlag (last :: before) ||
        clusterClass c == .consonant && endsInLinkedConsonant (last :: before)

/-! ### The clusters of a text -/

/-- The clusters of a text which starts in one: its characters so far, the last first. -/
def clustersFrom (before : List Char) : List Char → List (List Char)
  | [] => [before.reverse]
  | c :: cs =>
    if joins before c then clustersFrom (c :: before) cs
    else before.reverse :: clustersFrom [c] cs

/-- The clusters of a text. -/
def clusters : List Char → List (List Char)
  | [] => []
  | c :: cs => clustersFrom [c] cs

end ModelFinder.Casing
