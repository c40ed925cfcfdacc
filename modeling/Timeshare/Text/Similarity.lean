/-!
# Similarity of words

Two words are alike as far as their letters match. Every letter of the first word is matched, in
order, with the first equal letter of the second word that is still free and stands at nearly the
same place. The similarity is the mean of three shares: of the first word that is matched, of the
second word that is matched, and of the matches that stand in the same order.
-/

namespace Timeshare

structure Ratio where
  top : Nat
  bottom : Nat
  deriving DecidableEq, Repr

def Ratio.atMost (r s : Ratio) : Bool := r.top * s.bottom ≤ s.top * r.bottom

namespace Similarity

/-- Takes the first free letter of a word that equals a given one and stands at a place from `low`
on and before `high`. The word begins at the place `i`, and its letters are marked when taken. -/
def claim? (c : Char) (low high i : Nat) : List (Char × Bool) → Option (List (Char × Bool))
  | [] => none
  | (x, taken) :: rest =>
    if x = c ∧ !taken ∧ low ≤ i ∧ i < high then some ((x, true) :: rest)
    else (claim? c low high (i + 1) rest).map ((x, taken) :: ·)

/-- The matched letters of a first word that begins at the place `i`, and a second word with its
matched letters marked, where matching letters are at most `reach` places apart. -/
def matching (reach i : Nat) :
    List Char → List (Char × Bool) → List Char × List (Char × Bool)
  | [], second => ([], second)
  | c :: rest, second =>
    match claim? c (i - reach) (i + reach + 1) 0 second with
    | none => matching reach (i + 1) rest second
    | some second =>
      let (matched, second) := matching reach (i + 1) rest second
      (c :: matched, second)

/-- How much two words are alike. -/
def between (first second : String) : Ratio :=
  let a := first.length
  let b := second.length
  let (left, marked) :=
    matching (max a b / 2 - 1) 0 first.toList (second.toList.map fun c => (c, false))
  let right := (marked.filter Prod.snd).map Prod.fst
  let count := left.length
  let swaps := (List.zip left right).countP (fun (x, y) => x ≠ y) / 2
  if count = 0 then ⟨0, 1⟩
  else
    ⟨count * count * (a + b) + (count - swaps) * a * b, 3 * count * a * b⟩

/-- How much words have to be alike for one to be offered in place of the other. -/
def threshold : Ratio := ⟨7, 10⟩

/-- The word most like a given one, if there is one enough like it. Of several the last counts. -/
def closest? (word : String) (words : List String) : Option String :=
  let better (best : Option (String × Ratio)) (other : String) : Option (String × Ratio) :=
    let likeness := between word other
    if threshold.atMost likeness && best.all fun b => b.2.atMost likeness then
      some (other, likeness)
    else best
  (words.foldl better none).map Prod.fst

end Similarity

end Timeshare
