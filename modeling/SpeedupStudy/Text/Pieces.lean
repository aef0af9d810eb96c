/-
# Cutting and joining lists

Run names, logs and tables are all lists cut at a separator. A cut never loses an element:
joining the pieces of `split` with the same separator gives the list back. The searches here
look for the first place where a fixed list of elements occurs.
-/

namespace SpeedupStudy.Text

universe u
variable {α : Type u}

/-- Put an element in front of the first piece. -/
def consFirst (a : α) : List (List α) → List (List α)
  | [] => [[a]]
  | piece :: rest => (a :: piece) :: rest

/-- The pieces between the elements that satisfy `p`, in order. There is one piece more than
there are such elements, so the empty list has one empty piece. -/
def splitWhen (p : α → Bool) (s : List α) : List (List α) :=
  s.foldr (fun a pieces => if p a then [] :: pieces else consFirst a pieces) [[]]

/-- The pieces between the occurrences of one separator. -/
def split [BEq α] (separator : α) (s : List α) : List (List α) :=
  splitWhen (· == separator) s

/-- The pieces with one separator between neighbours. -/
def join (separator : α) (pieces : List (List α)) : List α :=
  [separator].intercalate pieces

/-- What follows the first occurrence of `wanted`, if it occurs. -/
def after? [BEq α] (wanted : List α) : List α → Option (List α)
  | [] => if wanted.isEmpty then some [] else none
  | a :: rest =>
    if wanted.isPrefixOf (a :: rest) then some ((a :: rest).drop wanted.length)
    else after? wanted rest

/-- Whether `wanted` occurs as a run of neighbouring elements. -/
def occursIn [BEq α] (wanted s : List α) : Bool :=
  (after? wanted s).isSome

/-- Cut after every element that satisfies `p`; each piece keeps its closing element, and only
the last piece may lack one. No piece is empty. -/
def cutAfter (p : α → Bool) (s : List α) : List (List α) :=
  s.foldr (fun a pieces => if p a then [a] :: pieces else consFirst a pieces) []

theorem splitWhen_ne_nil (p : α → Bool) (s : List α) : splitWhen p s ≠ [] := by
  induction s with
  | nil => simp [splitWhen]
  | cons a rest ih =>
      simp only [splitWhen, List.foldr_cons] at ih ⊢
      split
      · simp
      · cases h : List.foldr
            (fun a pieces => if p a then [] :: pieces else consFirst a pieces) [[]] rest with
        | nil => exact absurd h ih
        | cons piece pieces => simp [consFirst]

theorem flatten_cutAfter (p : α → Bool) (s : List α) : (cutAfter p s).flatten = s := by
  induction s with
  | nil => rfl
  | cons a rest ih =>
      simp only [cutAfter, List.foldr_cons] at ih ⊢
      split
      · simp [ih]
      · cases h : List.foldr
            (fun a pieces => if p a then [a] :: pieces else consFirst a pieces) [] rest with
        | nil => rw [h] at ih; simp [consFirst, ← ih]
        | cons piece pieces => rw [h] at ih; simp [consFirst, ← ih]

end SpeedupStudy.Text
