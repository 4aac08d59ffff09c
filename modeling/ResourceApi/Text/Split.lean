/-!
# Cutting text at a separator

`splitOn` cuts at every occurrence and is inverse to joining; `cutFirst` and `cutLast` cut once.
-/

namespace ResourceApi.Text

/-- The pieces between the occurrences of `sep`; there is always at least one. -/
def splitOn (sep : Char) : List Char → List (List Char)
  | [] => [[]]
  | c :: rest =>
    if c = sep then [] :: splitOn sep rest
    else
      match splitOn sep rest with
      | [] => [[c]]
      | piece :: pieces => (c :: piece) :: pieces

/-- What stands before and after the first `sep`. -/
def cutFirst (sep : Char) : List Char → Option (List Char × List Char)
  | [] => none
  | c :: rest =>
    if c = sep then some ([], rest)
    else (cutFirst sep rest).map fun (before, after) => (c :: before, after)

/-- What stands before and after the last `sep`. -/
def cutLast (sep : Char) : List Char → Option (List Char × List Char)
  | [] => none
  | c :: rest =>
    match cutLast sep rest with
    | some (before, after) => some (c :: before, after)
    | none => if c = sep then some ([], rest) else none

/-- The pieces of a string between the occurrences of `sep`. -/
def pieces (sep : Char) (s : String) : List String := (splitOn sep s.toList).map String.ofList

/-- The text without the occurrences of `c` at its end. -/
def trimEnd (c : Char) (cs : List Char) : List Char := (cs.reverse.dropWhile (· == c)).reverse

variable {sep c : Char} {rest : List Char}

theorem splitOn_sep : splitOn sep (sep :: rest) = [] :: splitOn sep rest := if_pos rfl

/-- Any other character belongs to the first piece. -/
theorem splitOn_other (hc : c ≠ sep) :
    splitOn sep (c :: rest) = (c :: (splitOn sep rest).headD []) :: (splitOn sep rest).tail := by
  refine (if_neg hc).trans ?_
  cases splitOn sep rest <;> rfl

theorem splitOn_ne_nil (sep : Char) (cs : List Char) : splitOn sep cs ≠ [] := by
  cases cs with
  | nil => exact List.cons_ne_nil _ _
  | cons c rest =>
    by_cases hc : c = sep
    · subst hc
      rw [splitOn_sep]
      exact List.cons_ne_nil _ _
    · rw [splitOn_other hc]
      exact List.cons_ne_nil _ _

/-- A text without the separator is one piece. -/
theorem splitOn_of_notMem {sep : Char} {cs : List Char} (h : sep ∉ cs) : splitOn sep cs = [cs] := by
  induction cs with
  | nil => rfl
  | cons c rest ih =>
    rw [List.mem_cons, not_or] at h
    rw [splitOn_other (Ne.symm h.1), ih h.2]
    rfl

theorem intercalate_splitOn (sep : Char) (cs : List Char) :
    [sep].intercalate (splitOn sep cs) = cs := by
  induction cs with
  | nil => rfl
  | cons c rest ih =>
    obtain ⟨piece, pieces, h⟩ := List.exists_cons_of_ne_nil (splitOn_ne_nil sep rest)
    rw [h] at ih
    by_cases hc : c = sep
    · subst hc
      rw [splitOn_sep, h]
      exact congrArg (c :: ·) ih
    · rw [splitOn_other hc, h]
      refine Eq.trans ?_ (congrArg (c :: ·) ih)
      cases pieces <;> rfl

/-- No piece holds the separator. -/
theorem notMem_of_mem_splitOn {sep : Char} {cs piece : List Char} (h : piece ∈ splitOn sep cs) :
    sep ∉ piece := by
  induction cs generalizing piece with
  | nil =>
    obtain rfl := List.mem_singleton.1 h
    exact List.not_mem_nil
  | cons c rest ih =>
    by_cases hc : c = sep
    · subst hc
      rw [splitOn_sep] at h
      rcases List.mem_cons.1 h with rfl | h
      · exact List.not_mem_nil
      · exact ih h
    · obtain ⟨first, pieces, hrest⟩ := List.exists_cons_of_ne_nil (splitOn_ne_nil sep rest)
      rw [splitOn_other hc, hrest] at h
      rcases List.mem_cons.1 h with rfl | h
      · have hfirst : sep ∉ first := ih (hrest ▸ List.mem_cons_self)
        exact fun hmem => (List.mem_cons.1 hmem).elim (fun he => hc he.symm) hfirst
      · exact ih (hrest ▸ List.mem_cons_of_mem first h)

/-- The pieces of two texts with a separator between them. -/
theorem splitOn_append (sep : Char) (cs ds : List Char) :
    splitOn sep (cs ++ sep :: ds) = splitOn sep cs ++ splitOn sep ds := by
  induction cs with
  | nil => exact splitOn_sep
  | cons c rest ih =>
    rw [List.cons_append]
    by_cases hc : c = sep
    · subst hc
      rw [splitOn_sep, splitOn_sep, ih]
      rfl
    · obtain ⟨piece, pieces, h⟩ := List.exists_cons_of_ne_nil (splitOn_ne_nil sep rest)
      rw [splitOn_other hc, splitOn_other hc, ih, h]
      rfl

/-- Joined pieces are found again. -/
theorem splitOn_intercalate {sep : Char} {piece : List Char} {pieces : List (List Char)}
    (h : ∀ p ∈ piece :: pieces, sep ∉ p) :
    splitOn sep ([sep].intercalate (piece :: pieces)) = piece :: pieces := by
  induction pieces generalizing piece with
  | nil => simpa using splitOn_of_notMem (h piece (by simp))
  | cons next pieces ih =>
    obtain ⟨hpiece, hrest⟩ := List.forall_mem_cons.1 h
    rw [List.intercalate_cons_cons, List.append_assoc, List.singleton_append, splitOn_append,
      splitOn_of_notMem hpiece, ih hrest]
    rfl

/-- A text is cut at the first separator. -/
theorem cutFirst_append {sep : Char} {cs : List Char} (h : sep ∉ cs) (ds : List Char) :
    cutFirst sep (cs ++ sep :: ds) = some (cs, ds) := by
  induction cs with
  | nil => exact if_pos rfl
  | cons c rest ih =>
    rw [List.mem_cons, not_or] at h
    have hrest : cutFirst sep (c :: (rest ++ sep :: ds)) =
        (cutFirst sep (rest ++ sep :: ds)).map fun (before, after) => (c :: before, after) :=
      if_neg (Ne.symm h.1)
    rw [List.cons_append, hrest, ih h.2]
    rfl

end ResourceApi.Text
