import TcpCapture.Proofs.Interval.Balance

/-!
# The way down and back up

Insertion into an interval tree goes down one way and repairs what it passed on the way back.  Here the
way is kept as a list, so that the same insertion can be told step by step.

## Main definitions

* `Frame` — a node on the way, without the subtree that the way goes on in
* `plugAll`, `repairAll` — what the way makes of a subtree, as it is or with repairs
* `descendTo` — the way to the place of a range
* `refreshAll` — the way with the reaches that a new subtree implies
* `ReachesExact`, `BalancedAbove` — a way whose reaches and whose colours are in order

**Two views of insertion.**  Plugging a leaf in at the end of the way and repairing upwards is insertion
(`repairAll_descendTo`).  Where the tree is in order again further up there is nothing left to repair
(`repairAll_eq_plugAll`), so a repair that goes up may stop there.
-/

namespace TcpCapture

namespace IntervalTree

variable {w : Nat} {α : Type}

/-- A node on the way down: the way goes on to one side, and `sibling` hangs on the other. -/
structure Frame (w : Nat) (α : Type) where
  side : Side
  color : Color
  range : Range w
  value : α
  reach : BitVec w
  sibling : IntervalTree w α

namespace Frame

variable (f : Frame w α) (t : IntervalTree w α)

/-- The node with a subtree where the way goes on. -/
def plug : IntervalTree w α := nodeOn f.side f.color t f.range f.value f.reach f.sibling

/-- The same with the repairs that a subtree with a new range calls for. -/
def repair : IntervalTree w α := repairOn f.side f.color t f.range f.value f.sibling

/-- The reach that a subtree implies. -/
def implied : BitVec w := raise (raise f.range.high t) f.sibling

/-- The frame with the reach that a subtree implies. -/
def refresh : Frame w α := { f with reach := f.implied t }

theorem joinOn_eq_plug (exact : f.reach = f.implied t) :
    joinOn f.side f.color t f.range f.value f.sibling = f.plug t := by
  rw [joinOn_eq_nodeOn, plug, exact, implied]

@[simp] theorem reach?_plug : (f.plug t).reach? = some f.reach := reach?_nodeOn ..

theorem reachExact_plug :
    (f.plug t).ReachExact ↔ f.reach = f.implied t ∧ t.ReachExact ∧ f.sibling.ReachExact := by
  unfold plug implied
  cases f.side with
  | left => exact Iff.rfl
  | right =>
      rw [raise_raise_comm]
      exact and_congr_right fun _ => And.comm

end Frame

/-! ### Ways -/

/-- The tree with a subtree at the end of a way.  The first frame is the lowest. -/
def plugAll : List (Frame w α) → IntervalTree w α → IntervalTree w α
  | [], t => t
  | f :: rest, t => plugAll rest (f.plug t)

/-- The tree with repairs all the way up. -/
def repairAll : List (Frame w α) → IntervalTree w α → IntervalTree w α
  | [], t => t
  | f :: rest, t => repairAll rest (f.repair t)

/-- The way with the reaches that a subtree at its end implies. -/
def refreshAll : List (Frame w α) → IntervalTree w α → List (Frame w α)
  | [], _ => []
  | f :: rest, t => f.refresh t :: refreshAll rest ((f.refresh t).plug t)

/-- The way to the place of a range that begins at `low`, behind a way that led here. -/
def descendTo (low : BitVec w) :
    List (Frame w α) → IntervalTree w α → List (Frame w α)
  | path, nil => path
  | path, .node c l r v p u =>
    if low < r.low then descendTo low (⟨.left, c, r, v, p, u⟩ :: path) l
    else descendTo low (⟨.right, c, r, v, p, l⟩ :: path) u

theorem plugAll_descendTo (low : BitVec w) (path : List (Frame w α)) (t : IntervalTree w α) :
    plugAll (descendTo low path t) nil = plugAll path t := by
  induction t generalizing path with
  | nil => rfl
  | node c l r v p u ihl ihu =>
      rw [descendTo]
      split
      · exact ihl _
      · exact ihu _

/-- **Insertion is repairing upwards from a new leaf.** -/
theorem repairAll_descendTo (r : Range w) (v : α) (path : List (Frame w α)) (t : IntervalTree w α) :
    repairAll (descendTo r.low path t) (.node .red nil r v r.high nil) =
      repairAll path (t.insertBelow r v) := by
  induction t generalizing path with
  | nil => rfl
  | node c l range value p u ihl ihu =>
      rw [descendTo, insertBelow_node]
      split
      · exact ihl _
      · exact ihu _

theorem length_descendTo_le (low : BitVec w) (path : List (Frame w α)) (t : IntervalTree w α) :
    (descendTo low path t).length ≤ path.length + t.size := by
  induction t generalizing path with
  | nil => exact Nat.le_refl _
  | node c l r v p u ihl ihu =>
      rw [descendTo, size]
      split
      · refine Nat.le_trans (ihl _) ?_
        rw [List.length_cons]
        omega
      · refine Nat.le_trans (ihu _) ?_
        rw [List.length_cons]
        omega

/-! ### Reaches -/

/-- Every frame holds the reach that its range and what hangs below it imply. -/
def ReachesExact : List (Frame w α) → IntervalTree w α → Prop
  | [], _ => True
  | f :: rest, t => f.reach = f.implied t ∧ f.sibling.ReachExact ∧ ReachesExact rest (f.plug t)

theorem reachExact_plugAll {path : List (Frame w α)} {t : IntervalTree w α} :
    (plugAll path t).ReachExact ↔ t.ReachExact ∧ ReachesExact path t := by
  induction path generalizing t with
  | nil => exact (and_iff_left trivial).symm
  | cons f rest ih =>
      rw [plugAll, ih, Frame.reachExact_plug, ReachesExact]
      constructor
      · rintro ⟨⟨reach, exact, sibling⟩, above⟩
        exact ⟨exact, reach, sibling, above⟩
      · rintro ⟨exact, reach, sibling, above⟩
        exact ⟨⟨reach, exact, sibling⟩, above⟩

theorem ReachExact.repairOn {near far : IntervalTree w α} (hn : near.ReachExact)
    (hf : far.ReachExact) (s : Side) (c : Color) (r : Range w) (v : α) :
    (IntervalTree.repairOn s c near r v far).ReachExact := by
  cases s with
  | left => exact hn.joinLeft hf c r v
  | right => exact hf.joinRight hn c r v

theorem Frame.toList_repair (f : Frame w α) (t : IntervalTree w α) :
    (f.repair t).toList = (f.plug t).toList := by
  unfold Frame.repair Frame.plug repairOn nodeOn
  cases f.side with
  | left => exact toList_joinLeft ..
  | right => exact toList_joinRight ..

/-- A repair puts the node in order, and its reach stays the same. -/
theorem ReachExact.repair {f : Frame w α} {t : IntervalTree w α} (exact : (f.plug t).ReachExact) :
    (f.repair t).ReachExact ∧ (f.repair t).reach? = some f.reach := by
  obtain ⟨-, ht, hs⟩ := (f.reachExact_plug t).1 exact
  have repaired : (f.repair t).ReachExact := ht.repairOn hs f.side f.color f.range f.value
  exact ⟨repaired, (repaired.reach?_congr exact (f.toList_repair t)).trans (f.reach?_plug t)⟩

/-- Beside a red sibling a repair changes colours only. -/
theorem Frame.repair_of_red_sibling {f g : Frame w α} {t : IntervalTree w α} (color : f.color = .red)
    (red : t.isRed = true) (sibling : g.sibling.isRed = true)
    (exact : (g.plug (f.plug t)).ReachExact) :
    g.repair (f.plug t) =
      nodeOn g.side .red (f.plug t).blacken g.range g.value g.reach g.sibling.blacken := by
  obtain ⟨-, reach⟩ := exact.repair
  have repaired : g.repair (f.plug t) =
      joinOn g.side .red (f.plug t).blacken g.range g.value g.sibling.blacken := by
    rw [Frame.repair, Frame.plug, color, blacken_nodeOn]
    exact repairOn_of_red_sibling f.side red sibling
  rw [repaired, joinOn_eq_nodeOn, reach?_nodeOn] at reach
  rw [repaired, joinOn_eq_nodeOn, Option.some.inj reach]

theorem raise_congr {t u : IntervalTree w α} (same : t.reach? = u.reach?) (p : BitVec w) :
    raise p t = raise p u := by
  unfold raise
  rw [same]

/-- A way sees nothing of a subtree but its reach. -/
theorem ReachesExact.congr {path : List (Frame w α)} {t u : IntervalTree w α}
    (exact : ReachesExact path t) (same : t.reach? = u.reach?) : ReachesExact path u := by
  induction path generalizing t u with
  | nil => trivial
  | cons f rest ih =>
      obtain ⟨reach, sibling, above⟩ := exact
      refine ⟨?_, sibling, ih above ?_⟩
      · rw [reach, Frame.implied, Frame.implied, raise_congr same]
      · rw [Frame.reach?_plug, Frame.reach?_plug]

theorem reachesExact_refreshAll {path : List (Frame w α)} (t : IntervalTree w α)
    (siblings : ∀ f ∈ path, f.sibling.ReachExact) : ReachesExact (refreshAll path t) t := by
  induction path generalizing t with
  | nil => trivial
  | cons f rest ih =>
      exact ⟨rfl, siblings f List.mem_cons_self,
        ih _ fun g mem => siblings g (List.mem_cons_of_mem f mem)⟩

theorem ReachesExact.siblings {path : List (Frame w α)} {t : IntervalTree w α}
    (exact : ReachesExact path t) : ∀ f ∈ path, f.sibling.ReachExact := by
  induction path generalizing t with
  | nil => nofun
  | cons g rest ih =>
      intro f mem
      rcases List.mem_cons.1 mem with rfl | mem
      · exact exact.2.1
      · exact ih exact.2.2 f mem

/-- Where the reach is right already there is nothing to refresh above. -/
theorem ReachesExact.refreshAll_eq {path : List (Frame w α)} {t : IntervalTree w α}
    (exact : ReachesExact path t) : refreshAll path t = path := by
  induction path generalizing t with
  | nil => rfl
  | cons f rest ih =>
      obtain ⟨reach, -, above⟩ := exact
      have same : f.refresh t = f := by
        rw [Frame.refresh, ← reach]
      rw [refreshAll, same, ih above]

/-- Repairs compute reaches anew, so they do not look at those of the way. -/
theorem repairAll_refreshAll (path : List (Frame w α)) (t u : IntervalTree w α) :
    repairAll (refreshAll path t) u = repairAll path u := by
  induction path generalizing t u with
  | nil => rfl
  | cons f rest ih => exact ih _ _

theorem length_refreshAll (path : List (Frame w α)) (t : IntervalTree w α) :
    (refreshAll path t).length = path.length := by
  induction path generalizing t with
  | nil => rfl
  | cons f rest ih => rw [refreshAll, List.length_cons, List.length_cons, ih]

/-! ### Colours -/

/-- The way lacks a subtree whose root has a colour and which has some black nodes on each way down; with
one, the tree is balanced and its root is black. -/
def BalancedAbove : List (Frame w α) → Color → Nat → Prop
  | [], c, _ => c = .black
  | f :: rest, c, h =>
    match f.color with
    | .red => c = .black ∧ Balanced .black h f.sibling ∧ BalancedAbove rest .red h
    | .black => (∃ sibling, Balanced sibling h f.sibling) ∧ BalancedAbove rest .black (h + 1)

/-- Below a way that would take a red root there is nothing to repair. -/
theorem BalancedAbove.plug {f : Frame w α} {rest : List (Frame w α)} {c : Color} {h : Nat}
    {t : IntervalTree w α} (above : BalancedAbove (f :: rest) c h) (b : Balanced c h t) :
    ∃ height, Balanced f.color height (f.plug t) ∧ BalancedAbove rest f.color height := by
  unfold BalancedAbove at above
  unfold Frame.plug
  cases color : f.color with
  | red =>
      rw [color] at above
      obtain ⟨rfl, sibling, above⟩ := above
      exact ⟨h, .redOn _ b sibling, above⟩
  | black =>
      rw [color] at above
      obtain ⟨⟨_, sibling⟩, above⟩ := above
      exact ⟨h + 1, .blackOn _ b sibling, above⟩

/-- **Repairs may stop early**: in a tree in order they change nothing. -/
theorem repairAll_eq_plugAll {path : List (Frame w α)} {c : Color} {h : Nat} {t : IntervalTree w α}
    (b : Balanced c h t) (above : BalancedAbove path c h) (exact : ReachesExact path t) :
    repairAll path t = plugAll path t := by
  induction path generalizing c h t with
  | nil => rfl
  | cons f rest ih =>
      obtain ⟨reach, -, reaches⟩ := exact
      obtain ⟨height, b', above'⟩ := above.plug b
      have same : f.repair t = f.plug t := by
        rw [Frame.repair, b.repairOn_eq, f.joinOn_eq_plug t reach]
      rw [repairAll, same, ih b' above' reaches, plugAll]

/-- A red node below a red parent: the parent needs no repair, and the grandparent gets one that leaves
the tree in order but for a red root, which it has if it comes from a recolouring. -/
structure RedPair (f g : Frame w α) (rest : List (Frame w α)) (t : IntervalTree w α) (height : Nat) :
    Prop where
  settled : f.repair t = f.plug t
  sibling : f.sibling.isRed = false
  exact : (plugAll rest (g.repair (f.plug t))).ReachExact
  above : BalancedAbove rest .black (height + 1)
  repaired : g.sibling.isRed = true ∧ Balanced .red (height + 1) (g.repair (f.plug t)) ∨
    g.sibling.isRed = false ∧ Balanced .black (height + 1) (g.repair (f.plug t))

theorem BalancedAbove.redPair {f g : Frame w α} {rest : List (Frame w α)} {t : IntervalTree w α}
    {height : Nat} (b : Balanced .red height t) (color : f.color = .red)
    (above : BalancedAbove (f :: g :: rest) .black height)
    (exact : (plugAll (f :: g :: rest) t).ReachExact) : RedPair f g rest t height := by
  have exact : (plugAll rest (g.plug (f.plug t))).ReachExact := exact
  obtain ⟨exactG, reaches⟩ := reachExact_plugAll.1 exact
  have exactF := ((g.reachExact_plug _).1 exactG).2.1
  obtain ⟨exactR, reach⟩ := exactG.repair
  unfold BalancedAbove at above
  rw [color] at above
  obtain ⟨-, siblingF, above⟩ := above
  unfold BalancedAbove at above
  cases colorG : g.color with
  | red =>
      rw [colorG] at above
      cases above.1
  | black =>
      rw [colorG] at above
      obtain ⟨⟨cs, siblingG⟩, above⟩ := above
      have grown : Grown .red height (f.plug t) := by
        unfold Frame.plug
        rw [color]
        exact .pair f.side b siblingF
      refine ⟨?_, siblingF.isRed_eq, ?_, above, ?_⟩
      · rw [Frame.repair, b.repairOn_eq, f.joinOn_eq_plug t ((f.reachExact_plug t).1 exactF).1]
      · exact reachExact_plugAll.2 ⟨exactR, reaches.congr (by rw [g.reach?_plug, reach])⟩
      · cases cs with
        | red =>
            refine Or.inl ⟨siblingG.isRed_eq, ?_⟩
            rw [Frame.repair_of_red_sibling color b.isRed_eq siblingG.isRed_eq exactG, Frame.plug,
              blacken_nodeOn]
            exact .redOn g.side (.blackOn f.side b siblingF) siblingG.blacken_of_red
        | black =>
            refine Or.inr ⟨siblingG.isRed_eq, ?_⟩
            rw [Frame.repair, colorG]
            exact grown.repair_of_black siblingG g.side

/-- The way down a balanced tree ends at a missing child. -/
theorem BalancedAbove.descendTo {path : List (Frame w α)} {c : Color} {h : Nat} {t : IntervalTree w α}
    (b : Balanced c h t) (above : BalancedAbove path c h) (low : BitVec w) :
    BalancedAbove (IntervalTree.descendTo low path t) .black 0 := by
  induction b generalizing path with
  | nil => exact above
  | red left right ihl ihr =>
      rw [IntervalTree.descendTo]
      split
      · exact ihl ⟨rfl, right, above⟩
      · exact ihr ⟨rfl, left, above⟩
  | black left right ihl ihr =>
      rw [IntervalTree.descendTo]
      split
      · exact ihl ⟨⟨_, right⟩, above⟩
      · exact ihr ⟨⟨_, left⟩, above⟩

theorem BalancedAbove.refreshAll {path : List (Frame w α)} {c : Color} {h : Nat}
    (above : BalancedAbove path c h) (t : IntervalTree w α) :
    BalancedAbove (IntervalTree.refreshAll path t) c h := by
  induction path generalizing c h t with
  | nil => exact above
  | cons f rest ih =>
      unfold BalancedAbove at above
      unfold IntervalTree.refreshAll BalancedAbove
      dsimp only [Frame.refresh]
      cases color : f.color with
      | red =>
          rw [color] at above
          exact ⟨above.1, above.2.1, ih above.2.2 _⟩
      | black =>
          rw [color] at above
          exact ⟨above.1, ih above.2 _⟩

end IntervalTree

end TcpCapture
