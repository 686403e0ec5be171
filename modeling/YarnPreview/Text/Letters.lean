/-!
# Letters without case

Axis names and step comments are matched without regard to letter case.  Both
rules concern the twenty-six ASCII letters only: no other character has a
lowercase form that is one of the letters looked for.

## Main definitions

* `lowercase` — a name with its ASCII capitals replaced by small letters
* `mentions` — does a text contain a word, whatever the case of its letters?
-/

namespace YarnPreview.Text

/-- The small letters of a text; every character that is no ASCII capital stays
as it is. -/
def lowercase (name : String) : String :=
  String.ofList (name.toList.map Char.toLower)

/-- **A word inside a text**, at any position and in any letter case.  The word
itself is given in small letters. -/
def mentions (word : List Char) : List Char → Bool
  | [] => word.isEmpty
  | c :: rest =>
      word.isPrefixOf ((c :: rest).map Char.toLower) || mentions word rest

@[simp] theorem mentions_nil (word : List Char) :
    mentions word [] = word.isEmpty := rfl

theorem mentions_cons (word : List Char) (c : Char) (rest : List Char) :
    mentions word (c :: rest) =
      (word.isPrefixOf ((c :: rest).map Char.toLower) || mentions word rest) := rfl

@[simp] theorem toList_lowercase (name : String) :
    (lowercase name).toList = name.toList.map Char.toLower := by
  simp [lowercase]

end YarnPreview.Text
