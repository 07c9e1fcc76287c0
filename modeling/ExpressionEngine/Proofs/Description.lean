import ExpressionEngine.Scalar.Basic
import ExpressionEngine.Types.Description

/-! Descriptions can be read back. The slots of a list are the pieces between its commas, and the names of a
set the pieces between its bars. The empty list and the empty set have texts of their own, which are the
ones that no name may have. -/

namespace ExpressionEngine

open Text Wording

variable {τ : Type} [Ty τ]

namespace TypeSet

variable {s : TypeSet τ}

/-- The names of the members, in order. -/
def names (s : TypeSet τ) : List String := s.members.map Ty.name

/-- None of the names can be taken for anything else. -/
def Legible (s : TypeSet τ) : Prop := ∀ name ∈ s.names, LegibleName name

instance (s : TypeSet τ) : Decidable s.Legible :=
  inferInstanceAs (Decidable (∀ name ∈ s.names, LegibleName name))

theorem names_eq_nil_iff : s.names = [] ↔ s.members = [] := List.map_eq_nil_iff

theorem describe_of_empty (h : s.members = []) : s.describe = "void" := by
  rw [describe, h, describeAlternatives_nil]

theorem describe_of_ne_empty (h : s.members ≠ []) : s.describe = "|".intercalate s.names :=
  describeAlternatives_of_ne_nil h

/-- The description of any set that has these names. -/
def describeNames (names : List String) : String :=
  if names = [] then "void" else "|".intercalate names

theorem describe_eq (s : TypeSet τ) : s.describe = describeNames s.names := by
  rw [describeNames]
  split
  · next h => exact describe_of_empty (names_eq_nil_iff.1 h)
  · next h => exact describe_of_ne_empty (mt names_eq_nil_iff.2 h)

theorem cut_describe (hs : s.Legible) (h : s.members ≠ []) : cut '|' [] s.describe = s.names := by
  rw [describe_of_ne_empty h]
  exact cut_intercalate (fun name hname => (hs name hname).no_bar) (mt names_eq_nil_iff.1 h)

/-- A description without bars is a name itself, unless the set is empty. -/
theorem describe_mem_names (hs : s.Legible) (h : s.members ≠ []) (hbar : '|' ∉ s.describe.toList) :
    s.describe ∈ s.names := by
  rw [← cut_describe hs h, cut_of_not_mem hbar]
  exact List.mem_singleton_self _

theorem describe_eq_void_iff (hs : s.Legible) : s.describe = "void" ↔ s.members = [] := by
  refine ⟨fun hd => ?_, describe_of_empty⟩
  by_cases h : s.members = []
  · exact h
  · have hmem := describe_mem_names hs h (by rw [hd]; decide)
    exact absurd hd (hs _ hmem).ne_void

theorem describe_ne_nothing (hs : s.Legible) : s.describe ≠ "" := by
  intro hd
  by_cases h : s.members = []
  · rw [describe_of_empty h] at hd
    exact absurd hd (by decide)
  · have hmem := describe_mem_names hs h (by rw [hd]; decide)
    exact (hs _ hmem).ne_empty hd

theorem comma_not_mem_describe (hs : s.Legible) : ',' ∉ s.describe.toList := by
  by_cases h : s.members = []
  · rw [describe_of_empty h]
    decide
  · rw [describe_of_ne_empty h]
    exact not_mem_toList_intercalate (by decide) fun name hname => (hs name hname).no_comma

theorem namesOf_describe (hs : s.Legible) : namesOf s.describe = s.names := by
  rw [namesOf]
  split
  · next hd => exact (names_eq_nil_iff.2 ((describe_eq_void_iff hs).1 hd)).symm
  · next hd => exact cut_describe hs (mt (describe_eq_void_iff hs).2 hd)

end TypeSet

theorem describeList_eq (slots : List (TypeSet τ)) : describeList slots =
    ", ".intercalate ((slots.map TypeSet.names).map TypeSet.describeNames) := by
  rw [describeList, List.map_map]
  exact congrArg _ (List.map_congr_left fun s _ => s.describe_eq)

theorem slotsOf_describeList {slots : List (TypeSet τ)} (h : ∀ s ∈ slots, s.Legible) :
    slotsOf (describeList slots) = slots.map TypeSet.describe := by
  by_cases hne : slots = []
  · subst hne
    rfl
  · have hcut : cut ',' [' '] (describeList slots) = slots.map TypeSet.describe := by
      refine cut_intercalate (fun text htext => ?_) (mt List.map_eq_nil_iff.1 hne)
      obtain ⟨s, hs, rfl⟩ := List.mem_map.1 htext
      exact TypeSet.comma_not_mem_describe (h s hs)
    have htext : describeList slots ≠ "" := by
      intro hd
      -- nothing at all would be the description of a single slot
      have hmem : "" ∈ slots.map TypeSet.describe := by
        rw [← hcut, hd, cut_of_not_mem (by decide)]
        exact List.mem_singleton_self _
      obtain ⟨s, hs, hempty⟩ := List.mem_map.1 hmem
      exact TypeSet.describe_ne_nothing (h s hs) hempty
    rw [slotsOf, if_neg htext, hcut]

theorem map_namesOf_slotsOf {slots : List (TypeSet τ)} (h : ∀ s ∈ slots, s.Legible) :
    (slotsOf (describeList slots)).map namesOf = slots.map TypeSet.names := by
  rw [slotsOf_describeList h, List.map_map]
  exact List.map_congr_left fun s hs => TypeSet.namesOf_describe (h s hs)

/-- The description of a list that is written slot by slot is that of its sets, joined by commas. Cut at the
commas it gives the sets' descriptions, of which just those of the empty sets are `void`, and cut at the
bars these give the names, all in order. So lists have one description only if their sets have the same
names in the same order. -/
theorem describeList_legible {slots : List (TypeSet τ)} (h : ∀ s ∈ slots, s.Legible) :
    describeList slots = written (writeList slots) ∧
      describeList slots =
        ", ".intercalate (slots.map fun s => written (writeAlternatives s.members)) ∧
      slotsOf (describeList slots) = slots.map TypeSet.describe ∧
      (∀ s ∈ slots, (s.describe = "void" ↔ s.members = []) ∧ namesOf s.describe = s.names) ∧
      (slotsOf (describeList slots)).map namesOf = slots.map TypeSet.names ∧
      ∀ slots' : List (TypeSet τ), (∀ s ∈ slots', s.Legible) →
        (describeList slots = describeList slots' ↔
          slots.map TypeSet.names = slots'.map TypeSet.names) := by
  refine ⟨?_, ?_, slotsOf_describeList h, fun s hs => ?_, map_namesOf_slotsOf h,
    fun slots' h' => ⟨fun hd => ?_, fun hnames => ?_⟩⟩
  · rw [writeList_eq, written_write]
  · simp only [writeAlternatives_eq, written_write]
    rfl
  · exact ⟨TypeSet.describe_eq_void_iff (h s hs), TypeSet.namesOf_describe (h s hs)⟩
  · rw [← map_namesOf_slotsOf h, hd, map_namesOf_slotsOf h']
  · rw [describeList_eq, hnames, ← describeList_eq]

/-- Names may hold blanks, and may hold `void` along with more. A list of one more slot has another
description, even if the slot is empty. -/
theorem describeList_legible_spaced :
    let slots : List (TypeSet TypeTag) :=
      [.ofList [.named "float", .named " nil"], .empty, .ofList [.named "voids"]]
    (∀ s ∈ slots, s.Legible) ∧ describeList slots = "float| nil, void, voids" ∧
      written (writeList slots) = "float| nil, void, voids" ∧
      (slotsOf "float| nil, void, voids").map namesOf = [["float", " nil"], [], ["voids"]] ∧
      describeList slots ≠ describeList (slots ++ [.empty]) := by
  intro slots
  have h : ∀ s ∈ slots, s.Legible := by decide
  have hmore : ∀ s ∈ slots ++ [.empty], s.Legible := by decide
  have htext : describeList slots = "float| nil, void, voids" := rfl
  obtain ⟨hwritten, -, -, -, hnames, hsame⟩ := describeList_legible h
  refine ⟨h, htext, hwritten.symm.trans htext, ?_, fun heq => ?_⟩
  · rw [← htext, hnames]
    rfl
  · exact absurd ((hsame _ hmore).1 heq) (by decide)

end ExpressionEngine
