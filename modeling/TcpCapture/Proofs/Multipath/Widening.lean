import TcpCapture.Proofs.Multipath.Handshake
import TcpCapture.Proofs.Multipath.Indexing

/-!
# Numbers sent in half

A data sequence number may be sent whole, or only its low half; a low half stands for the number nearest to
where the side has got.  As long as numbers lie less than half a turn of the low half from there, it makes no
difference which way they are sent.

## Main definitions

* `MetaFlow.anchor?`, `MetaFlow.isNear` — where a side has got, and the numbers less than half a turn from it
* `MetaFlow.nearest_spec`, `MetaFlow.expand_short_of_near` — what a low half comes back as
* `MultipathOption.Shortens` — an option, and the same one with some of its numbers cut to the low half
* `Correlation.inReach` — every number an option sends whole is near where its side has got
* `correlate_of_shortens` — correlating a segment does not show which way its numbers were sent

**Both ways round.**  The candidates for a low half are a whole turn of it apart, so one of them is at most
half a turn from the anchor and any other one is at least as far.  Differences are taken on the circle of
`2 ^ 64`, so nothing is special about numbers on the two sides of a wrap.
-/

namespace TcpCapture

/-! ### Half a turn -/

namespace MetaFlow

/-- Adding a turn leaves the low half. -/
theorem setWidth_add_turn (d : DataSeq) : (d + 0x100000000).setWidth 32 = d.setWidth 32 := by
  rw [BitVec.setWidth_add _ _ (by decide)]
  exact BitVec.add_zero _

theorem setWidth_sub_turn (d : DataSeq) : (d - 0x100000000).setWidth 32 = d.setWidth 32 := by
  rw [← setWidth_add_turn, BitVec.sub_add_cancel]

/-- The candidate in the turn of the anchor. -/
theorem toNat_candidate (anchor : DataSeq) (low : BitVec 32) :
    (anchor.extractLsb' 32 32 ++ low : DataSeq).toNat =
      anchor.toNat / 0x100000000 * 0x100000000 + low.toNat := by
  rw [BitVec.toNat_append, BitVec.extractLsb'_toNat, ← Nat.shiftLeft_add_eq_or_of_lt low.isLt,
    Nat.shiftLeft_eq, Nat.shiftRight_eq_div_pow]
  have := anchor.isLt
  omega

theorem circularDistance_eq (x y : DataSeq) :
    circularDistance x y =
      min ((x.toNat + (0x10000000000000000 - y.toNat)) % 0x10000000000000000)
        ((y.toNat + (0x10000000000000000 - x.toNat)) % 0x10000000000000000) := by
  unfold circularDistance
  rw [BitVec.toNat_sub, BitVec.toNat_sub, Nat.add_comm _ x.toNat, Nat.add_comm _ y.toNat]

/-- One of the candidates is at most half a turn from the anchor. -/
theorem exists_candidate_near (anchor : DataSeq) (low : BitVec 32) :
    let candidate : DataSeq := anchor.extractLsb' 32 32 ++ low
    circularDistance (candidate - 0x100000000) anchor ≤ 0x80000000 ∨
      circularDistance candidate anchor ≤ 0x80000000 ∨
      circularDistance (candidate + 0x100000000) anchor ≤ 0x80000000 := by
  intro candidate
  have known : candidate.toNat = anchor.toNat / 0x100000000 * 0x100000000 + low.toNat :=
    toNat_candidate anchor low
  have := anchor.isLt
  have := low.isLt
  rw [circularDistance_eq, circularDistance_eq, circularDistance_eq, BitVec.toNat_sub,
    BitVec.toNat_add, known, show (0x100000000 : DataSeq).toNat = 0x100000000 from rfl]
  omega

/-- Two numbers with one low half are the same where they lie in one turn around the anchor. -/
theorem eq_of_near {x y anchor : DataSeq} (same : x.setWidth 32 = y.setWidth 32)
    (hx : circularDistance x anchor ≤ 0x80000000) (hy : circularDistance y anchor < 0x80000000) :
    x = y := by
  have low := congrArg BitVec.toNat same
  rw [BitVec.toNat_setWidth, BitVec.toNat_setWidth] at low
  rw [circularDistance_eq] at hx hy
  refine BitVec.eq_of_toNat_eq ?_
  have := x.isLt
  have := y.isLt
  have := anchor.isLt
  omega

/-- **The nearest number** has the given low half, and is at most half a turn from the anchor. -/
theorem nearest_spec (anchor : DataSeq) (low : BitVec 32) :
    (nearest anchor low).setWidth 32 = low ∧
      circularDistance (nearest anchor low) anchor ≤ 0x80000000 := by
  unfold nearest
  extract_lets turn candidate closer
  have closer_spec (x y : DataSeq) : (closer x y = x ∨ closer x y = y) ∧
      circularDistance (closer x y) anchor ≤ circularDistance x anchor ∧
      circularDistance (closer x y) anchor ≤ circularDistance y anchor := by
    unfold closer
    split
    · exact ⟨Or.inr rfl, by omega, by omega⟩
    · exact ⟨Or.inl rfl, by omega, by omega⟩
  obtain ⟨first, near₁, near₂⟩ := closer_spec (candidate - turn) candidate
  obtain ⟨last, near, near₃⟩ := closer_spec (closer (candidate - turn) candidate) (candidate + turn)
  constructor
  · have halves : candidate.setWidth 32 = low := BitVec.setWidth_append_eq_right
    rcases last with last | last
    · rcases first with first | first
      · rw [last, first, setWidth_sub_turn, halves]
      · rw [last, first, halves]
    · rw [last, setWidth_add_turn, halves]
  · rcases exists_candidate_near anchor low with there | there | there
    · exact Nat.le_trans near (Nat.le_trans near₁ there)
    · exact Nat.le_trans near (Nat.le_trans near₂ there)
    · exact Nat.le_trans near₃ there

/-- Where a side has got: after all that is mapped, or before its first byte. -/
def anchor? (f : MetaFlow) : Option DataSeq := f.nextDsn.or f.baseDsn

/-- The number is less than half a turn from where the side has got. -/
def isNear (f : MetaFlow) (d : DataSeq) : Bool :=
  f.anchor?.any fun anchor => circularDistance d anchor < 0x80000000

variable {f : MetaFlow}

theorem expand_short {anchor : DataSeq} (known : f.anchor? = some anchor) (low : BitVec 32) :
    f.expand (.short low) = nearest anchor low := by
  unfold anchor? at known
  unfold expand
  rw [known]

/-- **A low half comes back whole** where the number it was cut from is near. -/
theorem expand_short_of_near {anchor d : DataSeq} (known : f.anchor? = some anchor)
    (near : circularDistance d anchor < 0x80000000) : f.expand (.short (d.setWidth 32)) = d := by
  rw [expand_short known]
  obtain ⟨low, there⟩ := nearest_spec anchor (d.setWidth 32)
  exact eq_of_near low there near

end MetaFlow

/-! ### Options with shorter numbers -/

/-- The second number is the first one, or its low half. -/
inductive WireDataSeq.Shortens : WireDataSeq → WireDataSeq → Prop
  | same (w : WireDataSeq) : Shortens w w
  | half (d : DataSeq) : Shortens (.wide d) (.short (d.setWidth 32))

/-- The second mapping is the first one, with its number in either form. -/
structure DssMapping.Shortens (mapping mapping' : DssMapping) : Prop where
  dsn : mapping.dsn.Shortens mapping'.dsn
  others : mapping' = { mapping with dsn := mapping'.dsn }

/-- The second signal is the first one, with either number in either form. -/
structure Dss.Shortens (dss dss' : Dss) : Prop where
  dataAck : Option.Rel WireDataSeq.Shortens dss.dataAck dss'.dataAck
  mapping : Option.Rel DssMapping.Shortens dss.mapping dss'.mapping
  dataFin : dss'.dataFin = dss.dataFin

/-- The second option is the first one, where the numbers of a DSS option may be cut to their low half. -/
inductive MultipathOption.Shortens : MultipathOption → MultipathOption → Prop
  | same (option : MultipathOption) : Shortens option option
  | dss {dss dss' : Dss} (shorter : dss.Shortens dss') : Shortens (.dss dss) (.dss dss')

/-- A number that is sent whole is near where the side has got. -/
def MetaFlow.reaches (f : MetaFlow) : WireDataSeq → Bool
  | .wide d => f.isNear d
  | .short _ => true

/-- **A number in reach is the same in either form.** -/
theorem MetaFlow.expand_of_shortens {f : MetaFlow} {w w' : WireDataSeq} (reach : f.reaches w = true)
    (shorter : w.Shortens w') : f.expand w' = f.expand w := by
  cases shorter with
  | same => rfl
  | half d =>
      obtain ⟨anchor, known, near⟩ := (Option.any_eq_true _ _).1 reach
      exact expand_short_of_near known (of_decide_eq_true near)

namespace Correlation

/-! ### What the options do -/

/-- The numbers of an option that are sent whole are near where their sides have got: that of a mapping
counts on the side of the sender, that of an acknowledgment on the other one. -/
def inReach (p : Passage) (s : State) : MultipathOption → Bool
  | .dss dss =>
    let side := s.link.side p.direction
    (dss.mapping.all fun mapping => (s.connection.flow side).reaches mapping.dsn) &&
      dss.dataAck.all (s.connection.flow side.opposite).reaches
  | _ => true

/-- Each of some options is in reach when its turn comes. -/
def allInReach (p : Passage) : State → List MultipathOption → Bool
  | _, [] => true
  | s, option :: rest => inReach p s option && allInReach p (applyOption p s option) rest

/-- A mapping moves the side of the sender only, and says nothing on which side that is. -/
theorem flow_opposite_applyMapping (p : Passage) (s : State) (mapping : DssMapping) :
    (applyMapping p s mapping).link.side p.direction = s.link.side p.direction ∧
      (applyMapping p s mapping).connection.flow (s.link.side p.direction).opposite =
        s.connection.flow (s.link.side p.direction).opposite := by
  unfold applyMapping
  extract_lets frame side flow mappings dsn len analysis inserted analysis' placed
  have kept : inserted.connection = s.connection ∧ inserted.link.side p.direction = side := by
    unfold inserted
    split <;> exact ⟨rfl, rfl⟩
  have mapped : placed.link.side p.direction = side ∧
      placed.connection.flow side.opposite = s.connection.flow side.opposite := by
    unfold placed
    split
    · exact ⟨rfl, rfl⟩
    · split
      · exact ⟨kept.2, by rw [kept.1]⟩
      · refine ⟨kept.2, ?_⟩
        rw [MetaConnection.flow_setFlow_opposite, kept.1]
  split
  · refine ⟨mapped.1, ?_⟩
    rw [flow_fail]
    exact mapped.2
  · exact mapped

section

variable {p : Passage} {s : State}

theorem applyMapping_of_shortens {mapping mapping' : DssMapping}
    (reach : (s.connection.flow (s.link.side p.direction)).reaches mapping.dsn = true)
    (shorter : mapping.Shortens mapping') : applyMapping p s mapping' = applyMapping p s mapping := by
  have same := MetaFlow.expand_of_shortens reach shorter.dsn
  rw [shorter.others]
  unfold applyMapping
  dsimp only
  rw [same]

theorem applyDataAck_of_shortens {ack ack' : WireDataSeq}
    (reach : (s.connection.flow (s.link.side p.direction).opposite).reaches ack = true)
    (shorter : ack.Shortens ack') : applyDataAck p s ack' = applyDataAck p s ack := by
  unfold applyDataAck
  dsimp only
  rw [MetaFlow.expand_of_shortens reach shorter]

/-- **One signal** does the same in either form.  The mapping comes first, and leaves the side that the
acknowledgment counts on alone. -/
theorem signal_of_shortens {dss dss' : Dss} (reach : inReach p s (.dss dss) = true)
    (shorter : dss.Shortens dss') : signal p s dss' = signal p s dss := by
  obtain ⟨dataAck, mapping, dataFin⟩ := dss
  obtain ⟨dataAck', mapping', dataFin'⟩ := dss'
  obtain ⟨acks, maps, ends⟩ := shorter
  obtain ⟨mapReach, ackReach⟩ := Bool.and_eq_true_iff.1 reach
  dsimp only at acks maps ends mapReach ackReach
  have mapped : mapping'.elim s (applyMapping p s) = mapping.elim s (applyMapping p s) := by
    cases maps with
    | none => rfl
    | some shorter => exact applyMapping_of_shortens mapReach shorter
  have unmoved : (mapping.elim s (applyMapping p s)).link.side p.direction = s.link.side p.direction ∧
      (mapping.elim s (applyMapping p s)).connection.flow (s.link.side p.direction).opposite =
        s.connection.flow (s.link.side p.direction).opposite := by
    cases mapping with
    | none => exact ⟨rfl, rfl⟩
    | some mapping => exact flow_opposite_applyMapping p s mapping
  unfold signal
  dsimp only
  rw [mapped, ends]
  generalize mapping.elim s (applyMapping p s) = t at unmoved
  have acked : dataAck'.elim t (applyDataAck p t) = dataAck.elim t (applyDataAck p t) := by
    cases acks with
    | none => rfl
    | some shorter =>
        refine applyDataAck_of_shortens ?_ shorter
        rw [unmoved.1, unmoved.2]
        exact ackReach
  rw [acked]

theorem applyOption_of_shortens {option option' : MultipathOption} (reach : inReach p s option = true)
    (shorter : option.Shortens option') : applyOption p s option' = applyOption p s option := by
  cases shorter with
  | same => rfl
  | dss shorter => exact signal_of_shortens reach shorter

/-- **All options of a segment** do the same in either form, one after the other. -/
theorem foldl_applyOption_of_shortens {options options' : List MultipathOption}
    (reach : allInReach p s options = true)
    (shorter : List.Forall₂ MultipathOption.Shortens options options') :
    options'.foldl (applyOption p) s = options.foldl (applyOption p) s := by
  induction shorter generalizing s with
  | nil => rfl
  | cons first _ ih =>
      obtain ⟨now, later⟩ := Bool.and_eq_true_iff.1 reach
      rw [List.foldl_cons, List.foldl_cons, applyOption_of_shortens now first]
      exact ih later

end

end Correlation

/-! ### One segment -/

/-- The segment with other multipath options. -/
def Segment.signalling (s : Segment) (options : List MultipathOption) : Segment :=
  { s with multipath := options }

/-- The segment on its way, with other multipath options. -/
def Passage.signalling (p : Passage) (options : List MultipathOption) : Passage :=
  { p with segment := p.segment.signalling options }

namespace Correlation

/-- What the options of a segment act on, if its link is attached to a connection by then. -/
def listening? (r : MetaRegistry) (link : Option SubflowLink) (p : Passage) : Option State := do
  let link' ← hearing r link p
  let metaId ← link'.metaId
  let connection ← (handshake r link p).1.get? metaId
  return { link := link', connection, analysis := { metaId := link'.metaId, orphan := link'.isOrphan } }

section

variable {options options' : List MultipathOption}
  (shorter : List.Forall₂ MultipathOption.Shortens options options')

include shorter

/-- A search that passes over DSS options does not see their numbers. -/
theorem findSome?_of_shortens {α : Type} {f : MultipathOption → Option α}
    (passes : ∀ dss, f (.dss dss) = none) : options'.findSome? f = options.findSome? f := by
  induction shorter with
  | nil => rfl
  | cons first _ ih =>
      rw [List.findSome?_cons, List.findSome?_cons, ih]
      cases first with
      | same => rfl
      | dss => rw [passes, passes]

/-- A test that takes every DSS option does not see their numbers either. -/
theorem any_of_shortens {f : MultipathOption → Bool} (takes : ∀ dss, f (.dss dss) = true) :
    options'.any f = options.any f := by
  induction shorter with
  | nil => rfl
  | cons first _ ih =>
      rw [List.any_cons, List.any_cons, ih]
      cases first with
      | same => rfl
      | dss => rw [takes, takes]

end

section

variable {p : Passage} {options : List MultipathOption}
  (shorter : List.Forall₂ MultipathOption.Shortens p.segment.multipath options)
  (r : MetaRegistry) (link : Option SubflowLink)

include shorter

theorem hasSignal_of_shortens : (p.signalling options).hasSignal = p.hasSignal :=
  any_of_shortens shorter fun _ => rfl

theorem handshake_of_shortens : handshake r link (p.signalling options) = handshake r link p := by
  have capable : (p.signalling options).capable? = p.capable? :=
    findSome?_of_shortens shorter fun _ => rfl
  have join : (p.signalling options).join? = p.join? := findSome?_of_shortens shorter fun _ => rfl
  unfold handshake opening answer confirmation
  rw [capable, join]
  rfl

theorem hearing_of_shortens : hearing r link (p.signalling options) = hearing r link p := by
  unfold hearing
  rw [handshake_of_shortens shorter, hasSignal_of_shortens shorter]
  rfl

theorem applySegment_of_shortens {s : State} (reach : allInReach p s p.segment.multipath = true) :
    applySegment (p.signalling options) s = applySegment p s := by
  have frame : applyOption (p.signalling options) = applyOption p := by
    funext s option
    cases option <;> rfl
  have applied : (p.signalling options).segment.multipath.foldl (applyOption (p.signalling options)) s =
      p.segment.multipath.foldl (applyOption p) s := by
    rw [frame]
    exact foldl_applyOption_of_shortens reach shorter
  unfold applySegment
  rw [applied]
  rfl

variable {r link} in
/-- **A segment is correlated in one way**, whichever way the numbers in reach are sent. -/
theorem correlate_of_shortens
    (reach : ∀ s ∈ listening? r link p, allInReach p s p.segment.multipath = true) :
    correlate r link (p.signalling options) = correlate r link p := by
  rw [correlate_eq, correlate_eq, handshake_of_shortens shorter, hearing_of_shortens shorter]
  unfold listening? at reach
  unfold heard
  rw [hasSignal_of_shortens shorter]
  cases listener : hearing r link p with
  | none => rfl
  | some l =>
      dsimp only
      split
      · rfl
      · rename_i id attached
        split
        · rfl
        · rename_i connection found
          rw [applySegment_of_shortens shorter]
          refine reach _ ?_
          simp only [listener, attached, found, Option.bind_eq_bind, Option.bind_some, Option.pure_def,
            Option.mem_def]

end

end Correlation

end TcpCapture
