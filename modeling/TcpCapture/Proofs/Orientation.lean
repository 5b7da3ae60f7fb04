import Mathlib.Logic.Function.Defs
import TcpCapture.Conversation

/-!
# Endpoints under other names

The order of its endpoints decides which direction of a conversation is called forward.  Under other
names, the endpoints of some conversations come in the opposite order, and their directions change places.

## Main definitions

* `Direction.turn`, `Duplex.turn` — what a turned conversation makes of a direction, and of two values
* `Conversation.rename` — the conversation of the renamed endpoints
* `Conversation.isTurned` — the renamed endpoints come in the opposite order

**Nothing is merged.**  Under an injective renaming different conversations stay different
(`Conversation.rename_injective`), and every segment stays in its conversation (`between_rename`).
-/

namespace TcpCapture

namespace Direction

/-- The direction, or the other one if the conversation is turned. -/
def turn (d : Direction) (turned : Bool) : Direction := bif turned then d.opposite else d

variable (d : Direction) (turned : Bool)

@[simp] theorem turn_turn : (d.turn turned).turn turned = d := by
  cases turned
  · rfl
  · exact d.opposite_opposite

@[simp] theorem opposite_turn : (d.turn turned).opposite = d.opposite.turn turned := by
  cases turned <;> rfl

theorem turn_inj {d e : Direction} : d.turn turned = e.turn turned ↔ d = e := by
  constructor
  · intro same
    rw [← d.turn_turn turned, same, turn_turn]
  · intro same
    rw [same]

end Direction

namespace Duplex

variable {α : Type}

/-- The two values, changed over if the conversation is turned. -/
def turn (x : Duplex α) (turned : Bool) : Duplex α :=
  ⟨x.get (.turn .forward turned), x.get (.turn .reverse turned)⟩

variable (x : Duplex α) (d : Direction) (a : α) (turned : Bool)

@[simp] theorem get_turn : (x.turn turned).get (d.turn turned) = x.get d := by
  cases turned <;> cases d <;> rfl

@[simp] theorem set_turn : (x.turn turned).set (d.turn turned) a = (x.set d a).turn turned := by
  cases turned <;> cases d <;> rfl

end Duplex

/-- Of two different endpoints one is higher. -/
theorem Endpoint.le_swap {x y : Endpoint} (ne : x ≠ y) : y.le x = !x.le y := by
  cases xy : x.le y with
  | false =>
      have total := x.le_total y
      rw [xy] at total
      exact total.resolve_left Bool.false_ne_true
  | true =>
      cases yx : y.le x with
      | false => rfl
      | true => exact absurd (Endpoint.le_antisymm xy yx) ne

namespace Conversation

variable (name : Endpoint → Endpoint)

/-- The renamed endpoints come in the opposite order. -/
def isTurned (c : Conversation) : Bool := (name c.lower).le (name c.upper) != c.lower.le c.upper

/-- The conversation of the renamed endpoints. -/
def rename (c : Conversation) : Conversation :=
  bif c.isTurned name then ⟨name c.lower, name c.upper⟩ else ⟨name c.upper, name c.lower⟩

/-- Who sends in a direction goes on sending in it, under the new name. -/
theorem sender_rename (c : Conversation) (d : Direction) :
    (c.rename name).sender (d.turn (c.isTurned name)) = name (c.sender d) := by
  unfold rename
  cases c.isTurned name <;> cases d <;> rfl

variable {name} (injective : Function.Injective name)

include injective

/-- Two ways to write the same two endpoints down are turned alike. -/
theorem isTurned_swap (x y : Endpoint) :
    (⟨x, y⟩ : Conversation).isTurned name = (⟨y, x⟩ : Conversation).isTurned name := by
  unfold isTurned
  by_cases same : x = y
  · rw [same]
  · dsimp only
    rw [Endpoint.le_swap same, Endpoint.le_swap (injective.ne same)]
    cases x.le y <;> cases (name x).le (name y) <;> rfl

theorem rename_injective : Function.Injective (rename name) := by
  rintro ⟨x, y⟩ ⟨x', y'⟩ same
  have swap := isTurned_swap injective x y
  unfold rename at same
  cases turned : (⟨x, y⟩ : Conversation).isTurned name <;>
    cases turned' : (⟨x', y'⟩ : Conversation).isTurned name <;>
    rw [turned, turned'] at same <;> obtain ⟨upper, lower⟩ := Conversation.mk.inj same
  · obtain rfl : x = x' := injective upper
    obtain rfl : y = y' := injective lower
    rfl
  -- one would be the other written the other way round, and they are turned alike
  · obtain rfl : x = y' := injective upper
    obtain rfl : y = x' := injective lower
    cases (turned.symm.trans swap).trans turned'
  · obtain rfl : y = x' := injective upper
    obtain rfl : x = y' := injective lower
    cases (turned.symm.trans swap).trans turned'
  · obtain rfl : y = y' := injective upper
    obtain rfl : x = x' := injective lower
    rfl

/-- **A segment between renamed endpoints** belongs to the renamed conversation, and travels in the other
direction if that is turned. -/
theorem between_rename (source destination : Endpoint) :
    between (name source) (name destination) =
      ((between source destination).1.rename name,
        (between source destination).2.turn ((between source destination).1.isTurned name)) := by
  by_cases same : source = destination
  · rw [same]
    unfold between rename isTurned
    rw [Endpoint.le_refl, Endpoint.le_refl]
    simp only [if_true, Endpoint.le_refl]
    rfl
  · unfold between rename isTurned
    rw [Endpoint.le_swap same, Endpoint.le_swap (injective.ne same)]
    cases le : source.le destination <;> cases le' : (name source).le (name destination) <;>
      simp [le, le', Endpoint.le_swap same, Endpoint.le_swap (injective.ne same)] <;> rfl

end Conversation

end TcpCapture
