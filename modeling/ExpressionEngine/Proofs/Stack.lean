import ExpressionEngine.Proofs.Machine.Limit
import ExpressionEngine.Stack.InPlace

/-! The stack as a bounded list. Whatever was done with a stack, and whatever failed, it holds no more than
it may; and from there each operation does to the stack what it does to the list of its items, except that
an extension keeps only as much as finds room. -/

namespace ExpressionEngine

namespace Stack

variable {α : Type} {s s' : Stack α} {limit : Option Nat} {max : Nat} {as : List α}

/-- The limit is the one given, and there are no more items than it allows. -/
structure Bounded (limit : Option Nat) (s : Stack α) : Prop where
  limit_eq : s.limit = limit
  within : WithinLimit limit s.items

/-! ### One operation -/

/-- To push an item is to extend by it alone. -/
theorem InPlace.push_eq_extend (a : α) (s : Stack α) : push a s = extend [a] s := by
  change push a s = (push a >>= fun _ => pure ()) s
  cases h : push a s with
  | ok u t => rw [Change.bind_of_ok h]; rfl
  | error stop t => rw [Change.bind_of_error h]

theorem InPlace.eq_of_push_eq_error {a : α} {stop : Stop} (h : push a s = .error stop s') :
    s' = s := by
  rw [push_eq] at h
  cases hp : s.push a with
  | ok t => rw [hp] at h; cases h
  | error o => rw [hp] at h; cases h; rfl

theorem InPlace.pop?_append (limit : Option Nat) (below top : List α) :
    pop? top.length ⟨limit, below ++ top⟩ = .ok (some top) ⟨limit, below⟩ := by
  rw [pop?_eq, Stack.pop?_append]

theorem InPlace.pop?_eq_none_iff {n : Nat} : pop? n s = .ok none s' ↔ s.height < n ∧ s' = s := by
  rw [InPlace.pop?_eq]
  cases h : s.pop? n with
  | none => simpa [(s.pop?_eq_none_iff n).1 h] using eq_comm
  | some top =>
    have hn : ¬s.height < n := fun hlt => by simp [(s.pop?_eq_none_iff n).2 hlt] at h
    simp [hn]

theorem InPlace.pop?_eq_some_iff {n : Nat} {top : List α} : pop? n s = .ok (some top) s' ↔
    s.items = s'.items ++ top ∧ top.length = n ∧ s'.limit = s.limit := by
  obtain ⟨limit, items⟩ := s
  obtain ⟨limit', items'⟩ := s'
  constructor
  · intro h
    rcases lt_or_exists_top n items with hn | ⟨below, top', rfl, rfl⟩
    · rw [InPlace.pop?_eq_none_iff.2 ⟨hn, rfl⟩] at h
      cases h
    · rw [InPlace.pop?_append] at h
      cases h
      exact ⟨rfl, rfl, rfl⟩
  · rintro ⟨hitems, rfl, hlimit⟩
    obtain rfl : items = items' ++ top := hitems
    obtain rfl : limit' = limit := hlimit
    exact InPlace.pop?_append limit' items' top

theorem InPlace.pop?_ne_error {n : Nat} {stop : Stop} : pop? n s ≠ .error stop s' := by
  rw [InPlace.pop?_eq]
  cases s.pop? n <;> exact nofun

/-- The items find room, or there is a limit that they exceed. -/
theorem room_or_full (limit : Option Nat) (size : Nat) :
    (∀ max, limit = some max → size ≤ max) ∨ ∃ max, limit = some max ∧ max < size := by
  cases limit with
  | none => exact .inl fun _ h => nomatch h
  | some max => simpa using Nat.lt_or_ge max size |>.symm

namespace Bounded

theorem extend_of_room (h : s.Bounded limit)
    (hroom : ∀ max, limit = some max → s.height + as.length ≤ max) :
    InPlace.extend as s = .ok () { s with items := s.items ++ as } := by
  obtain ⟨limit', items⟩ := s
  obtain rfl : limit' = limit := h.limit_eq
  rw [InPlace.extend_eq]
  cases limit' with
  | none => rw [extend_of_unlimited rfl]
  | some max => rw [Stack.extend_of_room (hroom max rfl)]

theorem extend_of_no_room (h : s.Bounded (some max)) (hfull : max < s.height + as.length) :
    InPlace.extend as s = .error (.overflow ⟨max + 1, max⟩)
      { s with items := s.items ++ as.take (max - s.height) } := by
  obtain ⟨limit', items⟩ := s
  obtain rfl : limit' = some max := h.limit_eq
  rw [InPlace.extend_eq, Stack.extend_of_no_room (h.within max rfl) hfull]
  rfl

theorem extend_eq_error_iff (h : s.Bounded limit) : (∃ stop s', InPlace.extend as s = .error stop s') ↔
    ∃ max, limit = some max ∧ max < s.height + as.length := by
  constructor
  · rintro ⟨stop, s', he⟩
    refine (room_or_full limit (s.height + as.length)).resolve_left fun hroom => ?_
    rw [h.extend_of_room hroom] at he
    cases he
  · rintro ⟨max, rfl, hfull⟩
    exact ⟨_, _, h.extend_of_no_room hfull⟩

theorem of_extend_eq_error (h : s.Bounded limit) {stop : Stop}
    (he : InPlace.extend as s = .error stop s') : ∃ max, limit = some max ∧
      stop = .overflow ⟨max + 1, max⟩ ∧
        s' = { s with items := s.items ++ as.take (max - s.height) } := by
  obtain ⟨max, rfl, hfull⟩ := h.extend_eq_error_iff.1 ⟨stop, s', he⟩
  rw [h.extend_of_no_room hfull] at he
  cases he
  exact ⟨max, rfl, rfl, rfl⟩

theorem of_extend_eq_ok (h : s.Bounded limit) (he : InPlace.extend as s = .ok () s') :
    s' = { s with items := s.items ++ as } ∧ InPlace.pop? as.length s' = .ok (some as) s := by
  rcases room_or_full limit (s.height + as.length) with hroom | ⟨max, rfl, hfull⟩
  · rw [h.extend_of_room hroom] at he
    cases he
    exact ⟨rfl, InPlace.pop?_append s.limit s.items as⟩
  · rw [h.extend_of_no_room hfull] at he
    cases he

/-! ### One operation upon another -/

theorem leave_extend (h : s.Bounded limit) (as : List α) :
    ((InPlace.extend as).leave s).Bounded limit := by
  rw [Change.leave]
  rcases room_or_full limit (s.height + as.length) with hroom | ⟨max, rfl, hfull⟩
  · rw [h.extend_of_room hroom]
    refine ⟨h.limit_eq, fun max hmax => ?_⟩
    rw [List.length_append]
    exact hroom max hmax
  · rw [h.extend_of_no_room hfull]
    refine ⟨h.limit_eq, fun m hm => ?_⟩
    have hheight : s.items.length ≤ m := h.within m hm
    cases hm
    rw [List.length_append, List.length_take, height]
    omega

theorem leave_pop (h : s.Bounded limit) (n : Nat) : ((InPlace.pop? n).leave s).Bounded limit := by
  obtain ⟨limit', items⟩ := s
  rw [Change.leave]
  rcases lt_or_exists_top n items with hn | ⟨below, top, rfl, rfl⟩
  · rwa [InPlace.pop?_eq_none_iff.2 ⟨hn, rfl⟩]
  · rw [InPlace.pop?_append]
    refine ⟨h.limit_eq, h.within.of_length_le ?_⟩
    simp

theorem leave (h : s.Bounded limit) (o : Operation α) : (o.perform.leave s).Bounded limit := by
  cases o with
  | push a =>
    have hpush : InPlace.push a = InPlace.extend [a] := funext (InPlace.push_eq_extend a)
    rw [Operation.perform, hpush]
    exact h.leave_extend [a]
  | extend as => exact h.leave_extend as
  | pop n =>
    rw [Operation.perform, Change.leave_discard]
    exact h.leave_pop n

/-- Whatever was done before. -/
theorem after (h : s.Bounded limit) (past : List (Operation α)) : (s.after past).Bounded limit := by
  induction past generalizing s with
  | nil => exact h
  | cons o rest ih => exact ih (h.leave o)

end Bounded

theorem bounded_empty (limit : Option Nat) : (empty limit : Stack α).Bounded limit :=
  ⟨rfl, fun max _ => Nat.zero_le max⟩

/-- A stack is a bounded list, whatever was done with it since it was fresh and whatever failed. It never
holds more than its limit. A push that fails leaves it as it was. An extension fails just if the limit is
too low for it; it then reports one item too many, and has put on the first items, as many as there was
room for. Otherwise all of them stand on top, and to take off as many gives them back, in order, and
leaves the stack as it was. To take off items fails just if there are fewer, which changes nothing; else
they are the topmost ones, and the others stay. No size is ever negative. -/
theorem after_isBounded (limit : Option Nat) (past : List (Operation α)) :
    let s := (empty limit).after past
    s.limit = limit ∧ (∀ max, limit = some max → s.height ≤ max) ∧
      (∀ a, InPlace.push a s = InPlace.extend [a] s ∧
        ∀ stop s', InPlace.push a s = .error stop s' → s' = s) ∧
      (∀ as, ((∃ stop s', InPlace.extend as s = .error stop s') ↔
          ∃ max, limit = some max ∧ max < s.height + as.length) ∧
        (∀ stop s', InPlace.extend as s = .error stop s' → ∃ max, limit = some max ∧
          stop = .overflow ⟨max + 1, max⟩ ∧
            s' = { s with items := s.items ++ as.take (max - s.height) }) ∧
        ∀ s', InPlace.extend as s = .ok () s' → s' = { s with items := s.items ++ as } ∧
          InPlace.pop? as.length s' = .ok (some as) s) ∧
      ∀ n, (∀ stop s', InPlace.pop? n s ≠ .error stop s') ∧
        (∀ s', InPlace.pop? n s = .ok none s' ↔ s.height < n ∧ s' = s) ∧
        ∀ top s', InPlace.pop? n s = .ok (some top) s' ↔
          s.items = s'.items ++ top ∧ top.length = n ∧ s'.limit = s.limit := by
  intro s
  have hs : s.Bounded limit := (bounded_empty limit).after past
  exact ⟨hs.limit_eq, hs.within,
    fun a => ⟨InPlace.push_eq_extend a s, fun stop s' h => InPlace.eq_of_push_eq_error h⟩,
    fun as => ⟨hs.extend_eq_error_iff, fun stop s' h => hs.of_extend_eq_error h,
      fun s' h => hs.of_extend_eq_ok h⟩,
    fun n => ⟨fun stop s' => InPlace.pop?_ne_error, fun s' => InPlace.pop?_eq_none_iff,
      fun top s' => InPlace.pop?_eq_some_iff⟩⟩

/-- Room for two: of what was done, to take off three items, to put on three and to push another all failed.
One item is left, and above it one more finds room but not two. -/
theorem after_isBounded_stopped :
    let past : List (Operation Nat) := [.extend [1], .pop 3, .extend [2, 3, 4], .push 5, .pop 1]
    let s := (empty (some 2)).after past
    s.items = [1] ∧
      InPlace.extend [6, 7] s = .error (.overflow ⟨3, 2⟩) { s with items := [1, 6] } ∧
      (∃ s', InPlace.extend [6] s = .ok () s' ∧ InPlace.pop? 1 s' = .ok (some [6]) s) ∧
      InPlace.pop? 2 s = .ok none s := by
  intro past s
  obtain ⟨-, -, -, hextend, hpop⟩ := after_isBounded (some 2) past
  refine ⟨rfl, ?_, ⟨_, rfl, ((hextend [6]).2.2 _ rfl).2⟩, ((hpop 2).2.1 s).2 ⟨by decide, rfl⟩⟩
  obtain ⟨stop, s', h⟩ := (hextend [6, 7]).1.2 ⟨2, rfl, by decide⟩
  obtain ⟨max, hmax, rfl, rfl⟩ := (hextend [6, 7]).2.1 stop s' h
  cases hmax
  exact h

end Stack

end ExpressionEngine
