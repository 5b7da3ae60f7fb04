import TcpCapture.Proofs.Session.Remembering

/-!
# Window scaling

Each SYN sets the window scale of its own direction; only a SYN that acknowledges looks at both.

## Main definitions

* `WindowScale.negotiate` — the scales of a direction and of its peer after a segment
* `HandshakeSeen` — a SYN and an answer from the other side are among some calls
* `WindowScale.Follows` — a scale is that of the latest SYN of its direction, or unused
* `Connection.ScalesTogether` — both directions scale, each by its latest SYN, or none does
* `Session.scalesTogether_iff` — when they always do

**All or nothing.**  Once an answer has been seen the directions scale together.  The first SYN seen
afterwards, a repeated one, say, sets the scale of its own direction again, whatever became of it in the
answer.
-/

namespace TcpCapture

/-- The scale that a SYN asks for. -/
def Segment.offeredScale (s : Segment) : WindowScale :=
  match s.windowScale with
  | some shift => .shift (min shift TcpOptions.maxWindowShift).toNat
  | none => .notUsed

namespace WindowScale

/-- Windows are shifted. -/
def isShift : WindowScale → Bool
  | shift _ => true
  | unknown | notUsed => false

/-- The scales of a direction and of its peer once the direction has sent a segment. -/
def negotiate (s : Segment) (own peer : WindowScale) : WindowScale × WindowScale :=
  if !s.flags.syn then (own, peer)
  else if s.flags.ack && (s.offeredScale == notUsed || peer == notUsed) then (notUsed, notUsed)
  else (s.offeredScale, peer)

@[simp] theorem isShift_offeredScale (s : Segment) : s.offeredScale.isShift = s.windowScale.isSome := by
  unfold Segment.offeredScale
  cases s.windowScale <;> rfl

theorem offeredScale_ne_unknown (s : Segment) : s.offeredScale ≠ unknown := by
  unfold Segment.offeredScale
  cases s.windowScale <;> nofun

/-- A scale that was settled is a shift unless scaling is not used. -/
theorem isShift_of_settled {scale : WindowScale} (known : scale ≠ unknown) (used : scale ≠ notUsed) :
    scale.isShift = true := by
  cases scale with
  | unknown => exact absurd rfl known
  | notUsed => exact absurd rfl used
  | shift => rfl

variable {s : Segment} (own peer : WindowScale)

theorem negotiate_of_not_syn (syn : s.flags.syn = false) : negotiate s own peer = (own, peer) := by
  unfold negotiate
  rw [syn]
  rfl

theorem negotiate_of_opening (opening : s.isOpening = true) :
    negotiate s own peer = (s.offeredScale, peer) := by
  obtain ⟨syn, ack⟩ := Bool.and_eq_true_iff.1 opening
  rw [Bool.not_eq_true'] at ack
  unfold negotiate
  rw [syn, ack]
  rfl

/-- The scale of the sender of a SYN is what the SYN asks for, or unused. -/
theorem negotiate_fst_of_syn (syn : s.flags.syn = true) :
    (negotiate s own peer).1 = s.offeredScale ∨ (negotiate s own peer).1 = notUsed := by
  unfold negotiate
  rw [syn, if_neg nofun]
  split
  · exact Or.inr rfl
  · exact Or.inl rfl

/-- The scale of the other side stays as it is, or is unused from now on. -/
theorem negotiate_snd : (negotiate s own peer).2 = peer ∨ (negotiate s own peer).2 = notUsed := by
  unfold negotiate
  split
  · exact Or.inl rfl
  · split
    · exact Or.inr rfl
    · exact Or.inl rfl

/-- After an answer to a SYN both sides scale, or none does. -/
theorem negotiate_of_answer (syn : s.flags.syn = true) (ack : s.flags.ack = true)
    (known : peer ≠ unknown) :
    (negotiate s own peer).1.isShift = (negotiate s own peer).2.isShift := by
  unfold negotiate
  rw [syn, ack, if_neg nofun, Bool.true_and]
  split
  · rfl
  · rename_i used
    rw [Bool.or_eq_true, not_or, beq_iff_eq, beq_iff_eq] at used
    rw [isShift_of_settled (offeredScale_ne_unknown s) used.1, isShift_of_settled known used.2]

end WindowScale

namespace Connection

theorem negotiateWindowScale_eq (c : Connection) (d : Direction) (s : Segment) :
    c.negotiateWindowScale d s =
      if !s.flags.syn then c
      else if s.flags.ack &&
          (s.offeredScale == .notUsed || (c.flow d.opposite).windowScale == .notUsed) then
        c.setFlows d { c.flow d with windowScale := .notUsed }
          { c.flow d.opposite with windowScale := .notUsed }
      else c.setFlow d { c.flow d with windowScale := s.offeredScale } := rfl

theorem windowScale_negotiateWindowScale (c : Connection) (d : Direction) (s : Segment) :
    ((c.negotiateWindowScale d s).flow d).windowScale =
        (WindowScale.negotiate s (c.flow d).windowScale (c.flow d.opposite).windowScale).1 ∧
      ((c.negotiateWindowScale d s).flow d.opposite).windowScale =
        (WindowScale.negotiate s (c.flow d).windowScale (c.flow d.opposite).windowScale).2 := by
  rw [negotiateWindowScale_eq]
  unfold WindowScale.negotiate
  split
  · exact ⟨rfl, rfl⟩
  · split
    · rw [flow_setFlows_same, flow_setFlows_opposite]
      exact ⟨rfl, rfl⟩
    · rw [flow_setFlow_same, flow_setFlow_opposite]
      exact ⟨rfl, rfl⟩

/-- Handling a segment changes the scales as its negotiation does. -/
theorem windowScale_handle (c : Connection) (registry : MetaRegistry) (config : Config)
    (probe : Option LengthProbe) (d : Direction) (s : Segment) :
    ((c.handle registry config probe d s).connection.flow d).windowScale =
        (WindowScale.negotiate s (c.flow d).windowScale (c.flow d.opposite).windowScale).1 ∧
      ((c.handle registry config probe d s).connection.flow d.opposite).windowScale =
        (WindowScale.negotiate s (c.flow d).windowScale (c.flow d.opposite).windowScale).2 := by
  have kept (e : Direction) := c.view_handle registry config probe d s Flow.windowScale
    (fun _ _ _ => rfl) (fun _ _ => rfl) e
  obtain ⟨own, -, other⟩ := (c.noteOpening d s).terms_judge config d s
  have opened (e : Direction) := (c.sameTerms_noteOpening d s e).windowScale
  have settled := (c.noteHandshake d s).windowScale_negotiateWindowScale d s
  rw [flow_noteHandshake, flow_noteHandshake] at settled
  rw [kept, kept, judged, own, other.windowScale, opened, opened]
  exact settled

end Connection

theorem Direction.opposite_ne (d : Direction) : d.opposite ≠ d := by
  cases d <;> nofun

/-! ### SYNs -/

/-- The latest SYN of a direction, if any. -/
def lastSyn? (calls : List Call) (d : Direction) : Option Call :=
  calls.reverse.find? fun call => call.direction == d && call.segment.flags.syn

/-- A SYN of one side and an answer of the other one to a SYN are among the calls. -/
def HandshakeSeen (calls : List Call) : Prop :=
  ∃ syn ∈ calls, ∃ answer ∈ calls, syn.segment.isOpening = true ∧
    answer.segment.flags.syn = true ∧ answer.segment.flags.ack = true ∧
      answer.direction = syn.direction.opposite

section

variable {calls : List Call} {call : Call}

theorem lastSyn?_concat_of_syn (syn : call.segment.flags.syn = true) :
    lastSyn? (calls ++ [call]) call.direction = some call := by
  rw [lastSyn?, List.reverse_concat, List.find?_cons_of_pos]
  rw [beq_self_eq_true, syn]
  rfl

theorem lastSyn?_concat_of_not {d : Direction}
    (other : ¬ (call.direction = d ∧ call.segment.flags.syn = true)) :
    lastSyn? (calls ++ [call]) d = lastSyn? calls d := by
  rw [lastSyn?, List.reverse_concat, List.find?_cons_of_neg]
  · rfl
  · rw [Bool.and_eq_true, beq_iff_eq]
    exact other

theorem isSome_lastSyn? {d : Direction} (mem : call ∈ calls) (own : call.direction = d)
    (syn : call.segment.flags.syn = true) : (lastSyn? calls d).isSome = true :=
  List.find?_isSome.2 ⟨call, List.mem_reverse.2 mem,
    Bool.and_eq_true_iff.2 ⟨beq_iff_eq.2 own, syn⟩⟩

/-- What is no SYN completes no handshake. -/
theorem handshakeSeen_concat_of_not_syn (syn : call.segment.flags.syn = false) :
    HandshakeSeen (calls ++ [call]) ↔ HandshakeSeen calls := by
  have earlier {e : Call} (mem : e ∈ calls ++ [call]) (flag : e.segment.flags.syn = true) :
      e ∈ calls := by
    rcases List.mem_append.1 mem with mem | mem
    · exact mem
    · rw [List.mem_singleton.1 mem, syn] at flag
      cases flag
  constructor
  · rintro ⟨first, mem, answer, mem', opening, flag, rest⟩
    exact ⟨first, earlier mem (Bool.and_eq_true_iff.1 opening).1, answer, earlier mem' flag,
      opening, flag, rest⟩
  · rintro ⟨first, mem, answer, mem', rest⟩
    exact ⟨first, List.mem_append_left _ mem, answer, List.mem_append_left _ mem', rest⟩

/-- If the handshake has been seen with an answer, the other side sent a SYN before. -/
theorem HandshakeSeen.isSome_lastSyn? (seen : HandshakeSeen (calls ++ [call]))
    (ack : call.segment.flags.ack = true) :
    (lastSyn? calls call.direction.opposite).isSome = true := by
  have earlier {e : Call} (mem : e ∈ calls ++ [call]) (ne : e ≠ call) : e ∈ calls :=
    (List.mem_append.1 mem).resolve_right fun mem => ne (List.mem_singleton.1 mem)
  obtain ⟨syn, mem, answer, mem', opening, flag, acks, across⟩ := seen
  obtain ⟨syns, plain⟩ := Bool.and_eq_true_iff.1 opening
  have before : syn ∈ calls := by
    refine earlier mem ?_
    rintro rfl
    rw [ack] at plain
    cases plain
  by_cases same : syn.direction = call.direction
  · have before' : answer ∈ calls := by
      refine earlier mem' ?_
      rintro rfl
      exact absurd (across.symm.trans same.symm) (Direction.opposite_ne _)
    exact TcpCapture.isSome_lastSyn? before' (across.trans (congrArg _ same)) flag
  · exact TcpCapture.isSome_lastSyn? before (Direction.eq_opposite_of_ne same) syns

end

/-! ### Scales and SYNs -/

/-- The scale of a direction once some calls were handled: it is known if a SYN was seen, and where it is a
shift the latest SYN asked for it. -/
structure WindowScale.Follows (scale : WindowScale) (calls : List Call) (d : Direction) : Prop where
  known : (lastSyn? calls d).isSome = true → scale ≠ unknown
  shift : scale.isShift = true → ∃ syn, lastSyn? calls d = some syn ∧ scale = syn.segment.offeredScale

namespace WindowScale.Follows

variable {calls : List Call} {call : Call} {own peer : WindowScale}

theorem notUsed (calls : List Call) (d : Direction) : WindowScale.notUsed.Follows calls d where
  known _ := nofun
  shift := nofun

/-- The scale of a direction that sends a segment. -/
theorem negotiate_fst (h : own.Follows calls call.direction) (peer : WindowScale) :
    (negotiate call.segment own peer).1.Follows (calls ++ [call]) call.direction := by
  cases syn : call.segment.flags.syn with
  | false =>
      rw [negotiate_of_not_syn own peer syn]
      have same : lastSyn? (calls ++ [call]) call.direction = lastSyn? calls call.direction :=
        lastSyn?_concat_of_not fun own => Bool.false_ne_true (syn.symm.trans own.2)
      exact ⟨same ▸ h.known, same ▸ h.shift⟩
  | true =>
      rcases negotiate_fst_of_syn own peer syn with asked | unused
      · rw [asked]
        exact ⟨fun _ => offeredScale_ne_unknown _, fun _ => ⟨call, lastSyn?_concat_of_syn syn, rfl⟩⟩
      · rw [unused]
        exact notUsed ..

/-- The scale of a direction whose peer sends a segment. -/
theorem negotiate_snd (h : peer.Follows calls call.direction.opposite) (own : WindowScale) :
    (negotiate call.segment own peer).2.Follows (calls ++ [call]) call.direction.opposite := by
  rcases WindowScale.negotiate_snd (s := call.segment) own peer with kept | unused
  · have same : lastSyn? (calls ++ [call]) call.direction.opposite =
        lastSyn? calls call.direction.opposite :=
      lastSyn?_concat_of_not fun across => Direction.opposite_ne _ across.1.symm
    rw [kept]
    exact ⟨same ▸ h.known, same ▸ h.shift⟩
  · rw [unused]
    exact notUsed ..

end WindowScale.Follows

namespace Connection

/-- Each scale follows the SYNs of its direction. -/
def ScalesFollow (c : Connection) (calls : List Call) : Prop :=
  ∀ d, (c.flow d).windowScale.Follows calls d

theorem ScalesFollow.start (stream : Nat) (conversation : Conversation) (now : Nat) :
    (Connection.start stream conversation now).ScalesFollow [] := by
  intro d
  cases d <;> exact ⟨nofun, nofun⟩

/-- Both directions scale, and then the latest SYN of each asked for it, or none does. -/
structure ScalesTogether (c : Connection) (calls : List Call) : Prop where
  same : (c.flow .forward).windowScale.isShift = (c.flow .reverse).windowScale.isShift
  offered : ∀ d, (c.flow d).windowScale.isShift = true →
    ∃ syn, lastSyn? calls d = some syn ∧ syn.segment.windowScale.isSome = true

/-- If the call is a SYN, and the handshake has been seen with it, it asks for a shift exactly if the other
side has one. -/
def SynFits (c : Connection) (calls : List Call) (call : Call) : Prop :=
  call.segment.isOpening = true → HandshakeSeen (calls ++ [call]) →
    call.segment.windowScale.isSome = (c.flow call.direction.opposite).windowScale.isShift

/-- Scales that follow the SYNs are offered. -/
theorem ScalesFollow.together_iff {c : Connection} {calls : List Call} (h : c.ScalesFollow calls)
    (d : Direction) :
    c.ScalesTogether calls ↔
      (c.flow d).windowScale.isShift = (c.flow d.opposite).windowScale.isShift := by
  constructor
  · intro together
    cases d with
    | forward => exact together.same
    | reverse => exact together.same.symm
  · intro same
    refine ⟨?_, fun e shifts => ?_⟩
    · cases d with
      | forward => exact same
      | reverse => exact same.symm
    · obtain ⟨syn, last, scale⟩ := (h e).shift shifts
      rw [scale, WindowScale.isShift_offeredScale] at shifts
      exact ⟨syn, last, shifts⟩

variable {c : Connection} {calls : List Call} {call : Call}

/-- **One call**: the scales follow its SYN, too. -/
theorem ScalesFollow.handle (h : c.ScalesFollow calls) (registry : MetaRegistry) (config : Config)
    (call : Call) :
    ScalesFollow { (c.handle registry config call.probe call.direction call.segment).connection with
      tsPrev := call.segment.timestamp } (calls ++ [call]) := by
  obtain ⟨own, peer⟩ :=
    c.windowScale_handle registry config call.probe call.direction call.segment
  intro d
  by_cases sends : d = call.direction
  · subst sends
    exact own ▸ (h _).negotiate_fst _
  · obtain rfl := Direction.eq_opposite_of_ne sends
    exact peer ▸ (h _).negotiate_snd _

/-- **One call**, with the handshake seen: a SYN sets its own scale, and that of the other side is what it
was; an answer settles both. -/
theorem scalesTogether_handle_iff (h : c.ScalesFollow calls)
    (together : HandshakeSeen calls → c.ScalesTogether calls) (registry : MetaRegistry)
    (config : Config) :
    (HandshakeSeen (calls ++ [call]) →
      ScalesTogether { (c.handle registry config call.probe call.direction call.segment).connection with
        tsPrev := call.segment.timestamp } (calls ++ [call])) ↔ c.SynFits calls call := by
  obtain ⟨own, peer⟩ :=
    c.windowScale_handle registry config call.probe call.direction call.segment
  have after := (h.handle registry config call).together_iff call.direction
  change _ ↔ ((c.handle registry config call.probe call.direction call.segment).connection.flow
    call.direction).windowScale.isShift = ((c.handle registry config call.probe call.direction
      call.segment).connection.flow call.direction.opposite).windowScale.isShift at after
  rw [own, peer] at after
  rw [after, SynFits]
  cases syn : call.segment.flags.syn with
  | false =>
      refine iff_of_true (fun seen => ?_) fun opening => ?_
      · rw [WindowScale.negotiate_of_not_syn _ _ syn, ← h.together_iff]
        exact together ((handshakeSeen_concat_of_not_syn syn).1 seen)
      · rw [Segment.isOpening, syn] at opening
        cases opening
  | true =>
      cases ack : call.segment.flags.ack with
      | true =>
          refine iff_of_true (fun seen => ?_) fun opening => ?_
          · exact WindowScale.negotiate_of_answer _ _ syn ack ((h _).known (seen.isSome_lastSyn? ack))
          · rw [Segment.isOpening, syn, ack] at opening
            cases opening
      | false =>
          have opening : call.segment.isOpening = true := by
            rw [Segment.isOpening, syn, ack]
            rfl
          rw [WindowScale.negotiate_of_opening _ _ opening, WindowScale.isShift_offeredScale]
          exact ⟨fun all _ => all, fun all => all opening⟩

end Connection

namespace Session

/-- In every state of the run, the directions of a live connection whose handshake was seen scale
together. -/
def ScalesTogether (config : Config) (calls : List Call) : Prop :=
  ∀ pre, pre <+: calls → ∀ c ∈ ((new config).after pre).table.live,
    HandshakeSeen ((new config).callsOf c.stream pre) →
      c.ScalesTogether ((new config).callsOf c.stream pre)

/-- **A run**: each scale follows the SYNs. -/
theorem scalesFollow_after (config : Config) (calls : List Call) :
    ∀ c ∈ ((new config).after calls).table.live,
      c.ScalesFollow ((new config).callsOf c.stream calls) :=
  forall_live_calls (P := fun known c => c.ScalesFollow known)
    Connection.ScalesFollow.start
    (fun _ _ registry config call _ follow => follow.handle registry config call) config calls

/-- **Window scaling is all or nothing if and only if** each SYN that comes when the handshake has been
seen, or that completes it, asks for a shift just if the other side has one. -/
theorem scalesTogether_iff (config : Config) (calls : List Call) :
    ScalesTogether config calls ↔
      ∀ pre call, pre ++ [call] <+: calls → ∀ r c, ((new config).after pre).Handles call r c →
        c.SynFits ((new config).callsOf c.stream pre) call := by
  refine Iff.trans ?_ (forall_live_calls_iff
    (P := fun known c => c.ScalesFollow known ∧ (HandshakeSeen known → c.ScalesTogether known))
    (fun stream conversation now =>
      ⟨Connection.ScalesFollow.start stream conversation now, fun ⟨_, mem, _⟩ => nomatch mem⟩)
    (Q := fun known call c => c.SynFits known call)
    (fun known c registry config call _ has => ?_) config calls)
  · exact forall₄_congr fun pre _ c mem => (and_iff_right (scalesFollow_after config pre c mem)).symm
  · rw [and_iff_right (has.1.handle registry config call)]
    exact Connection.scalesTogether_handle_iff has.1 has.2 registry config

/-- The server does not scale, and the client sends its SYN again. -/
theorem not_scalesTogether :
    ¬ ∀ (config : Config) (calls : List Call), ScalesTogether config calls := by
  intro all
  let client : Endpoint := ⟨.v4 0x0a000001, 40000⟩
  let server : Endpoint := ⟨.v4 0x0a000002, 443⟩
  let syn : Call := {
    segment := {
      source := client, destination := server, seq := 99, flags.syn := true, windowScale := some 7 } }
  let answer : Call := {
    segment := {
      source := server, destination := client, seq := 4999, ack := 100
      flags := { syn := true, ack := true } } }
  have streams : ((new {}).after [syn, answer, syn]).table.live.map (·.stream) = [0] := by
    decide +kernel
  obtain ⟨c, mem, stream⟩ := List.mem_map.1 (streams ▸ List.mem_singleton_self 0)
  have apart : ∀ c ∈ ((new {}).after [syn, answer, syn]).table.live,
      (c.flow .forward).windowScale.isShift ≠ (c.flow .reverse).windowScale.isShift := by decide +kernel
  have calls : (new {}).callsOf c.stream [syn, answer, syn] = [syn, answer, syn] :=
    callsOf_eq_self (by rw [stream]; decide +kernel)
  have seen : HandshakeSeen [syn, answer, syn] :=
    ⟨syn, List.mem_cons_self, answer, List.mem_cons_of_mem _ List.mem_cons_self, rfl, rfl, rfl, rfl⟩
  have together := all {} [syn, answer, syn] _ (List.prefix_refl _) c mem
  rw [calls] at together
  exact apart c mem (together seen).same

end Session

end TcpCapture
