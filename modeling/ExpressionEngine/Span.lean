/-! Parting a list. A search goes on for as long as its test is passed, and what it has passed is parted from
where it stopped. -/

namespace ExpressionEngine

variable {α : Type} {p : α → Bool}

/-- Where a search ends, the test fails. -/
theorem eq_false_of_mem_head?_dropWhile {ms : List α} {w : α}
    (hw : w ∈ (ms.dropWhile p).head?) : p w = false := by
  have h := List.head?_dropWhile_not p ms
  rwa [Option.mem_def.1 hw] at h

theorem eq_true_of_mem_takeWhile {ms : List α} {m : α} (hm : m ∈ ms.takeWhile p) : p m = true :=
  List.all_eq_true.1 List.all_takeWhile m hm

/-- A search goes on for as long as the test is passed. -/
theorem span_of_split {inner outer : List α} (hi : ∀ m ∈ inner, p m = true)
    (ho : ∀ w ∈ outer.head?, p w = false) :
    (inner ++ outer).takeWhile p = inner ∧ (inner ++ outer).dropWhile p = outer := by
  rw [List.takeWhile_append_of_pos hi, List.dropWhile_append_of_pos hi]
  cases outer with
  | nil => simp
  | cons w rest => simp [ho w rfl]

theorem exists_split (p : α → Bool) (ms : List α) :
    ∃ inner outer, ms = inner ++ outer ∧ (∀ m ∈ inner, p m = true) ∧
      ∀ w ∈ outer.head?, p w = false :=
  ⟨_, _, (List.takeWhile_append_dropWhile (p := p)).symm, fun _ => eq_true_of_mem_takeWhile,
    fun _ => eq_false_of_mem_head?_dropWhile⟩

end ExpressionEngine
