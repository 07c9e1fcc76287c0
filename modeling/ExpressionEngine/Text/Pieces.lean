/-! Texts in pieces. A text that was joined from pieces is cut into them again, as long as no piece holds the
character that the separator begins with. A text in lines is made of pieces that are ended rather than
separated. -/

namespace ExpressionEngine.Text

/-- Cuts at every occurrence of the separator that does not begin inside the one before. -/
def cutChars (first : Char) (more : List Char) : List Char → List (List Char)
  | [] => [[]]
  | c :: cs =>
    if (first :: more).isPrefixOf (c :: cs) then [] :: cutChars first more (cs.drop more.length)
    else (cutChars first more cs).modifyHead (c :: ·)
termination_by text => text.length
decreasing_by all_goals simp only [List.length_cons, List.length_drop]; omega

/-- The pieces of a text; the separator is given by its first character and those that follow. -/
def cut (first : Char) (more : List Char) (text : String) : List String :=
  (cutChars first more text.toList).map String.ofList

section Cut

variable {first : Char} {more piece : List Char}

theorem cutChars_separator (rest : List Char) :
    cutChars first more (first :: more ++ rest) = [] :: cutChars first more rest := by
  rw [List.cons_append, cutChars, if_pos (by simp), List.drop_left]

theorem cutChars_cons_of_ne {c : Char} (h : c ≠ first) (cs : List Char) :
    cutChars first more (c :: cs) = (cutChars first more cs).modifyHead (c :: ·) := by
  rw [cutChars, if_neg]
  simp [h.symm]

theorem cutChars_of_not_mem (h : first ∉ piece) : cutChars first more piece = [piece] := by
  induction piece with
  | nil => rw [cutChars]
  | cons c cs ih =>
    rw [List.mem_cons, not_or] at h
    rw [cutChars_cons_of_ne (Ne.symm h.1), ih h.2]
    rfl

/-- What stands before the first separator is a piece. -/
theorem cutChars_append (h : first ∉ piece) (rest : List Char) :
    cutChars first more (piece ++ (first :: more ++ rest)) = piece :: cutChars first more rest := by
  induction piece with
  | nil => exact cutChars_separator rest
  | cons c cs ih =>
    rw [List.mem_cons, not_or] at h
    rw [List.cons_append, cutChars_cons_of_ne (Ne.symm h.1), ih h.2]
    rfl

theorem cutChars_intercalate {pieces : List (List Char)} (h : ∀ piece ∈ pieces, first ∉ piece)
    (hne : pieces ≠ []) : cutChars first more ((first :: more).intercalate pieces) = pieces := by
  induction pieces with
  | nil => exact absurd rfl hne
  | cons piece rest ih =>
    have hpiece := h piece List.mem_cons_self
    cases rest with
    | nil => rw [List.intercalate_singleton, cutChars_of_not_mem hpiece]
    | cons next rest =>
      have hrest := ih (fun p hp => h p (List.mem_cons_of_mem _ hp)) (by simp)
      rw [List.intercalate_cons_cons, List.append_assoc, cutChars_append hpiece, hrest]

/-- Joined pieces are cut again. -/
theorem cut_intercalate {pieces : List String} (h : ∀ piece ∈ pieces, first ∉ piece.toList)
    (hne : pieces ≠ []) : cut first more ((String.ofList (first :: more)).intercalate pieces) = pieces := by
  rw [cut, String.toList_intercalate, String.toList_ofList, cutChars_intercalate]
  · simp [Function.comp_def]
  · simpa using h
  · simpa using hne

theorem cut_of_not_mem {piece : String} (h : first ∉ piece.toList) : cut first more piece = [piece] := by
  rw [cut, cutChars_of_not_mem h]
  simp

end Cut

/-- Joining brings in no character but those of the separator. -/
theorem not_mem_toList_intercalate {c : Char} {separator : String} {pieces : List String}
    (hs : c ∉ separator.toList) (hp : ∀ piece ∈ pieces, c ∉ piece.toList) :
    c ∉ (separator.intercalate pieces).toList := by
  induction pieces with
  | nil => simp
  | cons piece rest ih =>
    have hpiece := hp piece List.mem_cons_self
    cases rest with
    | nil => rwa [String.intercalate_singleton]
    | cons next rest =>
      have hrest := ih fun p h => hp p (List.mem_cons_of_mem _ h)
      rw [String.intercalate_cons_cons, String.toList_append, String.toList_append, List.mem_append,
        List.mem_append, not_or, not_or]
      exact ⟨⟨hpiece, hs⟩, hrest⟩

/-! ### Lines -/

/-- The text that has these lines, each ended by a line feed. -/
def ofLines (lines : List String) : String := String.join (lines.map (· ++ "\n"))

/-- The lines of a text that ends with a line feed, or is empty. -/
def lines (text : String) : List String := (cut '\n' [] text).dropLast

theorem ofLines_append (ls ls' : List String) : ofLines (ls ++ ls') = ofLines ls ++ ofLines ls' := by
  rw [ofLines, List.map_append, String.join_append, ← ofLines, ← ofLines]

theorem ofLines_cons (line : String) (rest : List String) :
    ofLines (line :: rest) = line ++ "\n" ++ ofLines rest := by
  rw [ofLines, List.map_cons, String.join_cons, ← ofLines]

theorem ofLines_eq_intercalate (ls : List String) : ofLines ls = "\n".intercalate (ls ++ [""]) := by
  induction ls with
  | nil => rfl
  | cons line rest ih =>
    rw [ofLines_cons, ih, List.cons_append, String.intercalate_cons_of_ne_nil (by simp)]

theorem lines_ofLines {ls : List String} (h : ∀ line ∈ ls, '\n' ∉ line.toList) :
    lines (ofLines ls) = ls := by
  have hpieces : ∀ piece ∈ ls ++ [""], '\n' ∉ piece.toList :=
    List.forall_mem_append.2 ⟨h, by simp⟩
  rw [lines, ofLines_eq_intercalate]
  exact (congrArg List.dropLast (cut_intercalate hpieces (by simp))).trans List.dropLast_concat

end ExpressionEngine.Text
