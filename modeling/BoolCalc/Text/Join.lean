/-!
# Putting Texts Together

Repeating a text, joining texts by a separator, and ending lines.

Each of these is a plain function on characters, so that what a text is made
of can be read off its definition.

## Main definitions

* `repeatText`: A text a number of times.
* `joinWith`: Texts with a separator between any two.
* `unlines`: Lines, each ended by a line feed.

## Theorems

* `toList_repeatText`, `toList_joinWith`, `toList_unlines`: The characters of a
  text.
* `joinChars_cons_cons`, `joinChars_induction`: Joining from the left.
-/

namespace BoolCalc

namespace Text

/-- A text repeated. -/
def repeatText (n : Nat) (s : String) : String :=
  String.ofList (List.replicate n s.toList).flatten

/-- Lists of characters with a separator between any two. -/
def joinChars (separator : List Char) : List (List Char) → List Char
  | [] => []
  | [cs] => cs
  | cs :: next :: rest => cs ++ separator ++ joinChars separator (next :: rest)

/-- Texts with a separator between any two. -/
def joinWith (separator : String) (texts : List String) : String :=
  String.ofList (joinChars separator.toList (texts.map String.toList))

/-- Lines, each ended by a line feed. -/
def unlines (lines : List String) : String :=
  String.ofList (lines.flatMap fun line => line.toList ++ ['\n'])

@[simp] theorem toList_repeatText (n : Nat) (s : String) :
    (repeatText n s).toList = (List.replicate n s.toList).flatten := by
  simp only [repeatText, String.toList_ofList]

@[simp] theorem toList_joinWith (separator : String) (texts : List String) :
    (joinWith separator texts).toList =
      joinChars separator.toList (texts.map String.toList) := by
  simp only [joinWith, String.toList_ofList]

/-- The first two texts may be joined beforehand. -/
theorem joinChars_cons_cons (separator cs ds : List Char) (rest : List (List Char)) :
    joinChars separator (cs :: ds :: rest) =
      joinChars separator ((cs ++ separator ++ ds) :: rest) := by
  cases rest with
  | nil => rfl
  | cons next rest => simp only [joinChars, List.append_assoc]

section Induction

variable {ι : Type} {separator : List Char} {text : ι → List Char}
  {motive : List Char → List ι → Prop} {items : List ι}

/-- What holds of texts that have been joined, and is kept when one more text is
    joined to them, holds when all are joined. -/
theorem joinChars_cons_induction {w : List Char} {joined : List ι} (begun : motive w joined)
    (step : ∀ (v : List Char) (joined : List ι), ∀ i ∈ items, motive v joined →
      motive (v ++ separator ++ text i) (joined ++ [i])) :
    motive (joinChars separator (w :: items.map text)) (joined ++ items) := by
  induction items generalizing w joined with
  | nil =>
      rw [List.append_nil]
      exact begun
  | cons i rest ih =>
      have hrest := ih (step w joined i List.mem_cons_self begun)
        fun v joined j hj => step v joined j (List.mem_cons_of_mem i hj)
      rw [List.append_assoc joined, List.singleton_append] at hrest
      rw [List.map_cons, joinChars_cons_cons]
      exact hrest

/-- The same with nothing joined beforehand. -/
theorem joinChars_induction (hne : items ≠ []) (first : ∀ i ∈ items, motive (text i) [i])
    (step : ∀ (v : List Char) (joined : List ι), ∀ i ∈ items, motive v joined →
      motive (v ++ separator ++ text i) (joined ++ [i])) :
    motive (joinChars separator (items.map text)) items := by
  cases items with
  | nil => exact absurd rfl hne
  | cons i rest =>
      exact joinChars_cons_induction (first i List.mem_cons_self)
        fun v joined j hj => step v joined j (List.mem_cons_of_mem i hj)

end Induction

@[simp] theorem toList_unlines (lines : List String) :
    (unlines lines).toList = lines.flatMap fun line => line.toList ++ ['\n'] := by
  simp only [unlines, String.toList_ofList]

end Text

end BoolCalc
