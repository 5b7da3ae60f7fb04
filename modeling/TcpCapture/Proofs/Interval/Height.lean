import Mathlib.Analysis.SpecialFunctions.Log.Base
import TcpCapture.Proofs.Interval.WellFormed

/-!
# Colours and height of an arena

No way down an arena is long.  Every way that ends at a missing child passes the same number of black
nodes, and of two nodes in a row one at least is black.

## Main definitions

* `IntervalArena.EndsOpen`, `IntervalArena.blacksOn` — a way that ends at a missing child, and the black
  nodes on a way
* `IntervalArena.Leads` — what a way leads to, with the black nodes passed and left
* `IntervalArena.WellColored` — what the colours of an arena promise
* `IntervalArena.ofEditsOr` — the arena that a history builds, whatever a repair does below a red root
* `IntervalArena.wellColored_ofEdits` — histories keep the promise, with the height that follows

**What a repair never meets.**  A red node without a parent would be a red root.  Repairs that do anything
there, or fail, build the same arena, since a tree leaves its arena no choice (`Represents.unique`).
-/

namespace TcpCapture

namespace IntervalTree

variable {w : Nat} {α : Type} {s : Side} {c d : Color} {h : Nat} {t near far : IntervalTree w α}
  {r : Range w} {v : α} {p : BitVec w}

/-- One step down from the root of a balanced tree. -/
theorem Balanced.step (b : Balanced c h (nodeOn s d near r v p far)) :
    (c = .red ∧ d = .red ∧ Balanced .black h near) ∨
      c = .black ∧ d = .black ∧ ∃ cn k, h = k + 1 ∧ Balanced cn k near := by
  cases s with
  | left =>
      cases b with
      | red left right => exact Or.inl ⟨rfl, rfl, left⟩
      | black left right => exact Or.inr ⟨rfl, rfl, _, _, rfl, left⟩
  | right =>
      cases b with
      | red left right => exact Or.inl ⟨rfl, rfl, right⟩
      | black left right => exact Or.inr ⟨rfl, rfl, _, _, rfl, right⟩

/-- The most nodes on a way down from a root of a colour. -/
def longest : Color → Nat → Nat
  | .red, h => 2 * h + 1
  | .black, h => 2 * h

@[simp] theorem longest_red (h : Nat) : longest .red h = 2 * h + 1 := rfl

@[simp] theorem longest_black (h : Nat) : longest .black h = 2 * h := rfl

theorem longest_le (c : Color) (h : Nat) : longest c h ≤ 2 * h + 1 := by
  cases c with
  | red => exact Nat.le_refl _
  | black => exact Nat.le_succ _

theorem Balanced.longest_pos (b : Balanced c h (nodeOn s d near r v p far)) : 0 < longest c h := by
  rcases b.step with ⟨rfl, -, -⟩ | ⟨rfl, -, _, k, rfl, -⟩
  · exact Nat.succ_pos _
  · exact Nat.mul_pos Nat.two_pos (Nat.succ_pos k)

/-- Black nodes alone make a full tree of their height. -/
theorem Balanced.two_pow_le (b : Balanced c h t) : 2 ^ h ≤ t.size + 1 := by
  induction b with
  | nil => exact Nat.le_refl 1
  | red _ _ ihl ihr =>
      rw [size]
      omega
  | black _ _ ihl ihr =>
      rw [size, pow_succ]
      omega

end IntervalTree

namespace IntervalArena

open IntervalTree

variable {w : Nat} {α : Type} {a b : IntervalArena w α} {path : List (Frame w (Nat × α))}
  {t : IntervalTree w (Nat × α)}

/-! ### Ways and colours -/

/-- The way ends at a missing child. -/
def EndsOpen (a : IntervalArena w α) : List Side → Prop
  | [] => a.root = none
  | s :: way => ∃ i n, a.walk a.root way = some i ∧ a.node? i = some n ∧ n.child s = none

/-- The black nodes that a way passes, the one that it leads to apart. -/
def blacksOn (a : IntervalArena w α) : List Side → Nat
  | [] => 0
  | _ :: way =>
    let passed := (a.walk a.root way).bind a.node?
    a.blacksOn way + if passed.map (·.color) = some .black then 1 else 0

/-- The colours of the nodes are right. -/
structure WellColored (a : IntervalArena w α) : Prop where
  /-- The root is black. -/
  root_black : ∀ i, a.root = some i → ∃ n, a.node? i = some n ∧ n.color = .black
  /-- A red node has no red child. -/
  black_of_red : ∀ i n s j, a.node? i = some n → n.color = .red → n.child s = some j →
    ∃ m, a.node? j = some m ∧ m.color = .black
  /-- All ways to a missing child pass the same number of black nodes. -/
  blacksOn_eq : ∀ way way', a.EndsOpen way → a.EndsOpen way' → a.blacksOn way = a.blacksOn way'

/-- A way leads to a subtree, where all ways down the tree pass `height` black nodes: those were passed on
the way or are left below, and with the longest way below it is no longer than twice that number. -/
structure Leads (a : IntervalArena w α) (height : Nat) (way : List Side) (c : Color) (below : Nat)
    (u : IntervalTree w (Nat × α)) : Prop where
  represents : ∃ path, a.Represents path u
  balanced : Balanced c below u
  blacks_eq : a.blacksOn way + below = height
  length_le : way.length + longest c below ≤ 2 * height

/-- One step further down. -/
theorem Leads.step {height : Nat} {way : List Side} {c : Color} {below i : Nat}
    {u : IntervalTree w (Nat × α)} (leads : a.Leads height way c below u)
    (led : a.walk a.root way = some i) (root : u.rootId = some i) (s : Side) :
    ∃ n d k near, a.node? i = some n ∧ near.rootId = n.child s ∧ (n.color = .red → d = .black) ∧
      a.Leads height (s :: way) d k near := by
  obtain ⟨⟨path, represents⟩, balanced, blacks, short⟩ := leads
  cases u with
  | nil => cases root
  | node d l r v p u =>
      obtain rfl := Option.some.inj root
      obtain ⟨near, far, same⟩ := exists_nodeOn s d l r v p u
      rw [same] at represents balanced
      have read := represents.read
      have passed : ((a.walk a.root way).bind a.node?).map (·.color) = some d := by
        rw [led, Option.bind_some, read, Option.map_some, ArenaNode.color_on]
      have child := (ArenaNode.child_on s d near.rootId far.rootId (headId path) r v.2 p).symm
      -- a red node has black children, and a black one is counted on the way
      rcases balanced.step with ⟨rfl, rfl, lower⟩ | ⟨rfl, rfl, cn, k, rfl, lower⟩
      · refine ⟨_, .black, below, near, read, child, fun _ => rfl, ⟨_, represents.child⟩, lower,
          ?_, ?_⟩
        · rw [blacksOn, passed, if_neg (by decide), Nat.add_zero]
          exact blacks
        · rw [longest_red] at short
          rw [List.length_cons, longest_black]
          omega
      · refine ⟨_, cn, k, near, read, child, ?_, ⟨_, represents.child⟩, lower, ?_, ?_⟩
        · rw [ArenaNode.color_on]
          nofun
        · rw [blacksOn, passed, if_pos rfl]
          omega
        · have := longest_le cn k
          rw [longest_black] at short
          rw [List.length_cons]
          omega

theorem Represents.leads {height : Nat} (h : a.Represents [] t) (balanced : Balanced .black height t)
    {way : List Side} {i : Nat} (led : a.walk a.root way = some i) :
    ∃ c below u, u.rootId = some i ∧ a.Leads height way c below u := by
  induction way generalizing i with
  | nil =>
      exact ⟨.black, height, t, (Holds.root_eq h).symm.trans led, ⟨[], h⟩, balanced, Nat.zero_add _,
        Nat.le_of_eq (Nat.zero_add _)⟩
  | cons s way ih =>
      obtain ⟨j, n, led, stored, child⟩ := walk_cons_eq_some.1 led
      obtain ⟨c, below, u, root, leads⟩ := ih led
      obtain ⟨n', d, k, near, read, root', -, further⟩ := leads.step led root s
      obtain rfl := Option.some.inj (stored.symm.trans read)
      exact ⟨d, k, near, root'.trans child, further⟩

theorem rootId_eq_none (none : t.rootId = none) : t = nil := by
  cases t with
  | nil => rfl
  | node c l r v p u => cases none

/-- A way to a missing child has passed all black nodes. -/
theorem Represents.blacksOn_of_endsOpen {height : Nat} (h : a.Represents [] t)
    (balanced : Balanced .black height t) {way : List Side} (missing : a.EndsOpen way) :
    a.blacksOn way = height := by
  cases way with
  | nil =>
      obtain rfl := rootId_eq_none ((Holds.root_eq h).symm.trans missing)
      cases balanced
      rfl
  | cons s way =>
      obtain ⟨i, n, led, stored, missing⟩ := missing
      obtain ⟨c, below, u, root, leads⟩ := h.leads balanced led
      obtain ⟨n', d, k, near, read, root', -, further⟩ := leads.step led root s
      obtain rfl := Option.some.inj (stored.symm.trans read)
      obtain rfl := rootId_eq_none (root'.trans missing)
      have blacks := further.blacks_eq
      cases further.balanced
      exact blacks

/-- With its last node a way has no more than twice as many nodes as black ones are on every way. -/
theorem Represents.length_lt {height : Nat} (h : a.Represents [] t)
    (balanced : Balanced .black height t) {way : List Side} {i : Nat}
    (led : a.walk a.root way = some i) : way.length < 2 * height := by
  obtain ⟨c, below, u, root, leads⟩ := h.leads balanced led
  have short := leads.length_le
  cases u with
  | nil => cases root
  | node d l r v p u =>
      have := Balanced.longest_pos (s := .left) leads.balanced
      omega

theorem Stands.wellColored {height : Nat} (h : a.Stands [] t) (balanced : Balanced .black height t) :
    a.WellColored where
  root_black := by
    intro i root
    cases t with
    | nil => cases (Holds.root_eq h.represents).symm.trans root
    | node c l r v p u =>
        obtain rfl := Option.some.inj ((Holds.root_eq h.represents).symm.trans root)
        refine ⟨_, Represents.read (s := .left) h.represents, ?_⟩
        cases balanced
        rfl
  black_of_red := by
    intro i n s j stored red child
    obtain ⟨way, led, -⟩ := h.wellFormed.reached i n stored
    obtain ⟨c, below, u, root, leads⟩ := h.represents.leads balanced led
    obtain ⟨n', d, k, near, read, root', black, further⟩ := leads.step led root s
    obtain rfl := Option.some.inj (stored.symm.trans read)
    obtain rfl := black red
    obtain ⟨⟨path, represents⟩, balanced, -, -⟩ := further
    rw [child] at root'
    cases near with
    | nil => cases root'
    | node d l r v p u =>
        obtain rfl := Option.some.inj root'
        refine ⟨_, Represents.read (s := .left) represents, ?_⟩
        cases balanced
        rfl
  blacksOn_eq := fun _ _ missing missing' =>
    (h.represents.blacksOn_of_endsOpen balanced missing).trans
      (h.represents.blacksOn_of_endsOpen balanced missing').symm

/-! ### Height -/

/-- **Ways are short**: with twice the logarithm of the number of nodes there is no longer one. -/
theorem Represents.length_le {height : Nat} (h : a.Represents [] t)
    (balanced : Balanced .black height t) {way : List Side} {i : Nat}
    (led : a.walk a.root way = some i) :
    (way.length + 1 : ℝ) ≤ 2 * Real.logb 2 (a.nodes.size + 1) := by
  have full : (2 : ℝ) ^ height ≤ a.nodes.size + 1 := by
    rw [← h.size_eq]
    exact_mod_cast balanced.two_pow_le
  have short : (way.length + 1 : ℝ) ≤ 2 * height := by
    exact_mod_cast h.length_lt balanced led
  have log : (height : ℝ) ≤ Real.logb 2 (a.nodes.size + 1) := by
    rw [Real.le_logb_iff_rpow_le one_lt_two (by positivity), Real.rpow_natCast]
    exact full
  exact short.trans (mul_le_mul_of_nonneg_left log zero_le_two)

/-! ### Red roots -/

/-- An arena has no choice: the tree says what it holds. -/
theorem Represents.unique (h : a.Represents path t) (h' : b.Represents path t) : a = b := by
  have nodes : a.nodes = b.nodes := by
    refine Array.ext_getElem? fun i => ?_
    by_cases inside : i < a.nodes.size
    · obtain ⟨n, cell⟩ := Holds.exists_cell h inside
      exact (h.stored _ cell).trans (h'.stored _ cell).symm
    · have size : a.nodes.size = b.nodes.size := (Holds.size_eq h).symm.trans (Holds.size_eq h')
      rw [Array.getElem?_eq_none (Nat.not_lt.1 inside),
        Array.getElem?_eq_none (size ▸ Nat.not_lt.1 inside)]
  have root : a.root = b.root := (Holds.root_eq h).trans (Holds.root_eq h').symm
  cases a
  cases b
  obtain rfl := nodes
  obtain rfl := root
  rfl

/-- The arena after a change, whatever a repair does below a red root. -/
def applyOr (orphan : IntervalArena w α → Option (IntervalArena w α)) (a : IntervalArena w α) :
    Edit w α → Option (IntervalArena w α)
  | .insert range value => a.insertOr orphan range value
  | .clear => some a.clear

/-- The arena that a history builds, whatever a repair does below a red root. -/
def ofEditsOr (orphan : IntervalArena w α → Option (IntervalArena w α)) (edits : List (Edit w α)) :
    Option (IntervalArena w α) :=
  edits.foldlM (applyOr orphan) {}

theorem ofEditsOr_concat (orphan : IntervalArena w α → Option (IntervalArena w α))
    (edits : List (Edit w α)) (e : Edit w α) :
    ofEditsOr orphan (edits ++ [e]) = (ofEditsOr orphan edits).bind (·.applyOr orphan e) := by
  rw [ofEditsOr, List.foldlM_append]
  simp only [List.foldlM_cons, List.foldlM_nil, bind_pure]
  rfl

/-- **No repair comes to a red root.** -/
theorem ofEditsOr_eq (orphan : IntervalArena w α → Option (IntervalArena w α))
    (edits : List (Edit w α)) : ofEditsOr orphan edits = ofEdits edits := by
  induction edits using List.reverseRecOn with
  | nil => rfl
  | append_singleton edits e ih =>
      obtain ⟨a, t, built, stands, ⟨height, balanced⟩, -⟩ := exists_stands edits
      rw [ofEditsOr_concat, ofEdits_concat, ih, built, Option.bind_some, Option.bind_some]
      cases e with
      | insert range value =>
          obtain ⟨b, inserted, represents⟩ :=
            stands.represents.insertOr stands.exact balanced range value orphan
          obtain ⟨b', inserted', represents'⟩ :=
            stands.represents.insert stands.exact balanced range value
          show a.insertOr orphan range value = a.insert range value
          rw [inserted, inserted', represents.unique represents']
      | clear => rfl

/-! ### Histories -/

/-- **The tree of an arena stays balanced.**  After any history there is an arena, so every repair came to
an end; it holds what was inserted since it was cleared last; whatever a repair does below a red root, it
is the same; its colours are right; and no way down from its root passes more nodes than twice the
logarithm of their number. -/
theorem wellColored_ofEdits (edits : List (Edit w α)) :
    ∃ a, ofEdits edits = some a ∧ a.nodes.size = (inserted edits).length ∧
      (∀ orphan, ofEditsOr orphan edits = some a) ∧ a.WellColored ∧
      ∀ way i, a.walk a.root way = some i →
        (way.length + 1 : ℝ) ≤ 2 * Real.logb 2 ((inserted edits).length + 1) := by
  obtain ⟨a, t, built, stands, ⟨height, balanced⟩, values⟩ := exists_stands edits
  have size : a.nodes.size = (inserted edits).length := by
    rw [← (toList_ofEdits_perm edits).length_eq, ← values, toList_mapValues, List.length_map,
      length_toList, stands.represents.size_eq]
  refine ⟨a, built, size, fun orphan => (ofEditsOr_eq orphan edits).trans built,
    stands.wellColored balanced, fun way i led => ?_⟩
  rw [← size]
  exact stands.represents.length_le balanced led

end IntervalArena

end TcpCapture
