/-!
Words: the longest pieces of a text without white space. Splitting, joining by single spaces and trimming, each
on characters first and then on texts. White space is the Unicode property White_Space, so no-break spaces count and
zero-width ones do not.
-/

namespace Criteria.Text

def isBlank (c : Char) : Bool :=
  let code := c.toNat
  (9 ≤ code && code ≤ 13) || code == 0x20 || code == 0x85 || code == 0xA0 || code == 0x1680 ||
    (0x2000 ≤ code && code ≤ 0x200A) || code == 0x2028 || code == 0x2029 || code == 0x202F ||
    code == 0x205F || code == 0x3000

theorem isBlank_space : isBlank ' ' = true := by decide

def splitBlank (cs : List Char) : List (List Char) := (cs.splitOnP isBlank).filter (!·.isEmpty)

def trimBlank (cs : List Char) : List Char :=
  ((cs.dropWhile isBlank).reverse.dropWhile isBlank).reverse

def words (text : String) : List String := (splitBlank text.toList).map String.ofList

def unwords (words : List String) : String := " ".intercalate words

/-- Every stretch of white space becomes one space; none stays at the ends. -/
def collapse (text : String) : String := unwords (words text)

def trim (text : String) : String := String.ofList (trimBlank text.toList)

theorem splitBlank_append_blank {c : Char} (blank : isBlank c = true) (left right : List Char) :
    splitBlank (left ++ c :: right) = splitBlank left ++ splitBlank right := by
  unfold splitBlank
  rw [List.splitOnP_append_cons left right blank, List.filter_append]

theorem splitBlank_nil : splitBlank [] = [] := by simp [splitBlank]

theorem splitBlank_cons_blank {c : Char} (blank : isBlank c = true) (rest : List Char) :
    splitBlank (c :: rest) = splitBlank rest := by
  simpa [splitBlank_nil] using splitBlank_append_blank blank [] rest

theorem splitBlank_of_solid {word : List Char} (nonempty : word ≠ []) (solid : ∀ c ∈ word, isBlank c = false) :
    splitBlank word = [word] := by
  unfold splitBlank
  rw [List.splitOnP_eq_singleton solid]
  simp [nonempty]

theorem toList_trim (text : String) : (trim text).toList = trimBlank text.toList := String.toList_ofList

theorem toList_unwords (ws : List String) :
    (unwords ws).toList = [' '].intercalate (ws.map String.toList) := String.toList_intercalate

end Criteria.Text
