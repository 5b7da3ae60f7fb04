/-!
# Totals

The total size of the members of a list: how many bytes a buffer holds, a mapping waits for, or a
window has seen.
-/

namespace TcpCapture

/-- The sizes of the members of a list, added up. -/
def totalOf {α : Type} (size : α → Nat) : List α → Nat
  | [] => 0
  | a :: rest => size a + totalOf size rest

@[simp] theorem totalOf_nil {α : Type} (size : α → Nat) : totalOf size [] = 0 := rfl

@[simp] theorem totalOf_cons {α : Type} (size : α → Nat) (a : α) (rest : List α) :
    totalOf size (a :: rest) = size a + totalOf size rest := rfl

@[simp] theorem totalOf_append {α : Type} (size : α → Nat) (l l' : List α) :
    totalOf size (l ++ l') = totalOf size l + totalOf size l' := by
  induction l with
  | nil => simp only [List.nil_append, totalOf_nil, Nat.zero_add]
  | cons a rest ih => simp only [List.cons_append, totalOf_cons, ih, Nat.add_assoc]

theorem totalOf_map {α β : Type} (size : β → Nat) (f : α → β) (l : List α) :
    totalOf size (l.map f) = totalOf (fun a => size (f a)) l := by
  induction l with
  | nil => rfl
  | cons a rest ih => simp only [List.map_cons, totalOf_cons, ih]

theorem length_flatMap_eq_totalOf {α β : Type} (f : α → List β) (l : List α) :
    (l.flatMap f).length = totalOf (fun a => (f a).length) l := by
  induction l with
  | nil => rfl
  | cons a rest ih => simp only [List.flatMap_cons, List.length_append, totalOf_cons, ih]

end TcpCapture
