import Mathlib.Data.List.Nodup
import TcpCapture.Proofs.Multipath.Handshake

/-!
# Attaching subflows

A segment attaches its own stream to a multipath connection, or none.  Everything else a segment does
to the connections leaves alone which streams are their subflows.

## Main definitions

* `Correlation.Updates` — all a segment can do to the connections and to the link of its subflow
* `MetaRegistry.HasSubflow` — a stream is a subflow of a connection
* `Correlation.Updates.hasSubflow_iff` — the subflows after a segment
-/

namespace TcpCapture

namespace Correlation

variable (r : MetaRegistry) (link : Option SubflowLink) (p : Passage)

/-- All a segment can do to the connections, `r` and then `r'`, and to the link of its subflow. -/
structure Updates (link : Option SubflowLink) (p : Passage) (r r' : MetaRegistry)
    (link' : Option SubflowLink) : Prop where
  advances {id m} : r.get? id = some m →
    ∃ m', r'.get? id = some m' ∧ Advances link (metaOf link') p id m m'
  opens {id m} : r.get? id = none → r'.get? id = some m →
    metaOf link' = some id ∧ ∃ l answer, Opens link p id m l answer
  part : (metaOf link).isSome = true → link'.map (·.part) = link.map (·.part)
  attached {l id} : metaOf link = none → link' = some l → l.metaId = some id →
    ∃ m, r'.get? id = some m ∧ p.stream ∈ m.subflows ∧ (l.joined = false → m.subflows = [p.stream])

/-- **What a segment can do.** -/
theorem updates_correlate :
    Updates link p r (correlate r link p).registry (correlate r link p).link where
  advances := get?_correlate r link p
  opens := opens_of_correlate r link p
  part := part_correlate r link p
  attached := attached_of_correlate r link p

namespace Updates

variable {r link p}
variable {r' : MetaRegistry} {link' : Option SubflowLink}

theorem refl : Updates link p r r link where
  advances {_ m} found := ⟨m, found, .refl⟩
  opens missing found := nomatch missing.symm.trans found
  part _ := rfl
  attached unattached linked attached := by
    rw [linked] at unattached
    exact nomatch unattached.symm.trans attached

/-- Only the part of the link matters. -/
theorem congr (h : Updates link p r r' link') {link'' : Option SubflowLink}
    (same : link''.map (·.part) = link'.map (·.part)) : Updates link p r r' link'' where
  advances found := by
    rw [metaOf_congr same]
    exact h.advances found
  opens missing found := by
    rw [metaOf_congr same]
    exact h.opens missing found
  part attached := same.trans (h.part attached)
  attached {l id} unattached linked attached := by
    rw [linked] at same
    obtain ⟨l', linked', part⟩ := Option.map_eq_some_iff.1 same.symm
    have joined : l'.joined = l.joined := (congrArg SubflowLink.joined part :)
    have metaId : l'.metaId = l.metaId := (congrArg SubflowLink.metaId part :)
    rw [← joined]
    exact h.attached unattached linked' (metaId.trans attached)

/-- A connection that is attached to stays attached to. -/
theorem metaOf_eq (h : Updates link p r r' link') {id : Nat} (attached : metaOf link = some id) :
    metaOf link' = some id := by
  rw [metaOf_congr (h.part (by rw [attached]; rfl)), attached]

end Updates

end Correlation

/-! ### Subflows -/

/-- The stream is a subflow of the connection. -/
def MetaRegistry.HasSubflow (r : MetaRegistry) (id stream : Nat) : Prop :=
  ∃ m, r.get? id = some m ∧ stream ∈ m.subflows

namespace Correlation.Updates

variable {link link' : Option SubflowLink} {p : Passage} {r r' : MetaRegistry}

/-- **A segment attaches its own stream or none**, to one connection at most. -/
theorem hasSubflow_iff (h : Updates link p r r' link') (id stream : Nat) :
    r'.HasSubflow id stream ↔ r.HasSubflow id stream ∨
      stream = p.stream ∧ metaOf link = none ∧ metaOf link' = some id := by
  constructor
  · rintro ⟨m', found', mem⟩
    cases found : r.get? id with
    | none =>
        obtain ⟨attached, l, answer, opens⟩ := h.opens found found'
        rw [opens.subflows] at mem
        refine Or.inr ⟨List.mem_singleton.1 mem, ?_, attached⟩
        rw [opens.offered]
        exact opens.unattached
    | some m =>
        obtain ⟨m'', known, advances⟩ := h.advances found
        obtain rfl := Option.some.inj (known.symm.trans found')
        rcases advances.subflows with same | ⟨unattached, attached, added⟩
        · rw [same] at mem
          exact Or.inl ⟨m, found, mem⟩
        · rw [added, MetaConnection.subflows_addSubflow] at mem
          split at mem
          · exact Or.inl ⟨m, found, mem⟩
          · rcases List.mem_append.1 mem with mem | mem
            · exact Or.inl ⟨m, found, mem⟩
            · exact Or.inr ⟨List.mem_singleton.1 mem, unattached, attached⟩
  · rintro (⟨m, found, mem⟩ | ⟨rfl, unattached, attached⟩)
    · obtain ⟨m', known, advances⟩ := h.advances found
      refine ⟨m', known, ?_⟩
      rcases advances.subflows with same | ⟨-, -, added⟩
      · rwa [same]
      · rw [added, MetaConnection.subflows_addSubflow]
        split
        · exact mem
        · exact List.mem_append_left _ mem
    · obtain ⟨l, linked, attached⟩ := Option.bind_eq_some_iff.1 attached
      obtain ⟨m, known, mem, -⟩ := h.attached unattached linked attached
      exact ⟨m, known, mem⟩

/-- No stream is attached twice. -/
theorem nodup (h : Updates link p r r' link')
    (nodup : ∀ id m, r.get? id = some m → m.subflows.Nodup) (id : Nat) (m' : MetaConnection)
    (found' : r'.get? id = some m') : m'.subflows.Nodup := by
  cases found : r.get? id with
  | none =>
      obtain ⟨-, l, answer, opens⟩ := h.opens found found'
      rw [opens.subflows]
      exact List.nodup_singleton _
  | some m =>
      obtain ⟨m'', known, advances⟩ := h.advances found
      obtain rfl := Option.some.inj (known.symm.trans found')
      rcases advances.subflows with same | ⟨-, -, added⟩
      · rw [same]
        exact nodup id m found
      · rw [added, MetaConnection.subflows_addSubflow]
        split
        · exact nodup id m found
        · rename_i new
          rw [← List.concat_eq_append]
          exact List.Nodup.concat new (nodup id m found)

/-- The first subflow stays the first one. -/
theorem head?_subflows (h : Updates link p r r' link') {id first : Nat} {m m' : MetaConnection}
    (found : r.get? id = some m) (head : m.subflows.head? = some first)
    (found' : r'.get? id = some m') : m'.subflows.head? = some first := by
  obtain ⟨m'', known, advances⟩ := h.advances found
  obtain rfl := Option.some.inj (known.symm.trans found')
  rcases advances.subflows with same | ⟨-, -, added⟩
  · rw [same, head]
  · rw [added, MetaConnection.subflows_addSubflow]
    split
    · exact head
    · rw [List.head?_append, head]
      rfl

end Correlation.Updates

end TcpCapture
