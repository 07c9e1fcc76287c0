import ExpressionEngine.Change
import ExpressionEngine.Text.Pieces
import ExpressionEngine.Types.TypeSet

/-! Types in words. Alternatives are joined by a bar, the empty set is called `void`, and the slots
of a list are joined by a comma and a space. To write a description piece after piece, with a separator
before every item but the first one, comes to the same text; and it is read again by cutting it. -/

namespace ExpressionEngine

open Text

variable {τ α : Type} [Ty τ]

/-- The alternatives in words. -/
def describeAlternatives : List τ → String
  | [] => "void"
  | types => "|".intercalate (types.map Ty.name)

def describeType (t : τ) : String := describeAlternatives [t]

def TypeSet.describe (s : TypeSet τ) : String := describeAlternatives s.members

/-- One set for each slot, bottom-most first. -/
def describeList (slots : List (TypeSet τ)) : String := ", ".intercalate (slots.map TypeSet.describe)

@[simp] theorem describeAlternatives_nil : describeAlternatives ([] : List τ) = "void" := rfl

theorem describeAlternatives_of_ne_nil {types : List τ} (h : types ≠ []) :
    describeAlternatives types = "|".intercalate (types.map Ty.name) := by
  cases types with
  | nil => exact absurd rfl h
  | cons => rfl

@[simp] theorem describeType_eq (t : τ) : describeType t = Ty.name t := by
  simp [describeType, describeAlternatives]

/-! ### Piece after piece -/

namespace Wording

/-- Goes on with a text, which is never refused. -/
def write (s : String) : Change String Empty Unit := modify (· ++ s)

/-- The text that was begun with nothing. -/
def written (x : Change String Empty Unit) : String := x.leave ""

def writeAlternatives : List τ → Change String Empty Unit
  | [] => write "void"
  | first :: rest => do
    write (Ty.name first)
    rest.forM fun t => write ("|" ++ Ty.name t)

def writeSlot (s : TypeSet τ) (position : Nat) : Change String Empty Unit := do
  if 0 < position then write ", " else pure ()
  writeAlternatives s.members

def writeList (slots : List (TypeSet τ)) : Change String Empty Unit :=
  slots.zipIdx.forM fun slot => writeSlot slot.1 slot.2

/-! ### In one step -/

omit [Ty τ] in
/-- Behind the first item, to write each with a separator before it is to join them. -/
theorem forM_write (separator : String) (f : α → String) (first : α) (rest : List α) (text : String) :
    (rest.forM fun a => write (separator ++ f a)) (text ++ f first) =
      .ok () (text ++ separator.intercalate (f first :: rest.map f)) := by
  induction rest generalizing first text with
  | nil =>
    rw [List.map_nil, String.intercalate_singleton]
    rfl
  | cons next rest ih =>
    have hnext : write (separator ++ f next) (text ++ f first) =
        .ok () (text ++ f first ++ separator ++ f next) :=
      congrArg (EStateM.Result.ok ()) String.append_assoc.symm
    refine (Change.bind_of_ok hnext).trans ((ih next (text ++ f first ++ separator)).trans ?_)
    rw [List.map_cons, String.intercalate_cons_cons]
    simp only [String.append_assoc]

theorem writeAlternatives_eq (types : List τ) :
    writeAlternatives types = write (describeAlternatives types) := by
  funext text
  cases types with
  | nil => rfl
  | cons first rest => exact forM_write "|" Ty.name first rest text

theorem writeSlot_zero (s : TypeSet τ) : writeSlot s 0 = write s.describe := by
  rw [writeSlot, if_neg (Nat.lt_irrefl 0)]
  exact writeAlternatives_eq s.members

theorem writeSlot_succ (s : TypeSet τ) (n : Nat) :
    writeSlot s (n + 1) = write (", " ++ s.describe) := by
  funext text
  rw [writeSlot, if_pos n.succ_pos, Change.bind_of_ok (by rfl), writeAlternatives_eq]
  exact congrArg (EStateM.Result.ok ()) String.append_assoc

theorem forM_writeSlot (slots : List (TypeSet τ)) (n : Nat) :
    ((slots.zipIdx (n + 1)).forM fun slot => writeSlot slot.1 slot.2) =
      slots.forM fun s => write (", " ++ s.describe) := by
  induction slots generalizing n with
  | nil => rfl
  | cons s rest ih =>
    rw [List.zipIdx_cons]
    change (writeSlot s (n + 1) >>= fun _ => _) = (write (", " ++ s.describe) >>= fun _ => _)
    rw [writeSlot_succ, ih (n + 1)]

theorem writeList_eq (slots : List (TypeSet τ)) : writeList slots = write (describeList slots) := by
  funext text
  cases slots with
  | nil => exact congrArg (EStateM.Result.ok ()) (String.append_empty).symm
  | cons first rest =>
    rw [writeList, List.zipIdx_cons]
    change (writeSlot first 0 >>= fun _ => _) text = _
    rw [writeSlot_zero, forM_writeSlot]
    exact forM_write ", " TypeSet.describe first rest text

omit [Ty τ] in
theorem written_write (s : String) : written (write s) = s := String.empty_append

/-! ### Reading -/

/-- The texts of the slots. -/
def slotsOf (text : String) : List String := if text = "" then [] else cut ',' [' '] text

/-- The names of the alternatives. -/
def namesOf (slot : String) : List String := if slot = "void" then [] else cut '|' [] slot

end Wording

/-- A name that cannot be taken for anything else in a description. -/
structure LegibleName (name : String) : Prop where
  ne_empty : name ≠ ""
  ne_void : name ≠ "void"
  no_bar : '|' ∉ name.toList
  no_comma : ',' ∉ name.toList

theorem legibleName_iff (name : String) : LegibleName name ↔
    name ≠ "" ∧ name ≠ "void" ∧ '|' ∉ name.toList ∧ ',' ∉ name.toList :=
  ⟨fun h => ⟨h.ne_empty, h.ne_void, h.no_bar, h.no_comma⟩,
    fun ⟨hempty, hvoid, hbar, hcomma⟩ => ⟨hempty, hvoid, hbar, hcomma⟩⟩

instance (name : String) : Decidable (LegibleName name) := decidable_of_iff' _ (legibleName_iff name)

end ExpressionEngine
