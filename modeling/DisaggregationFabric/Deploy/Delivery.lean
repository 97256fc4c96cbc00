import DisaggregationFabric.Codec.Sendable
import DisaggregationFabric.Codec.Sizes
import DisaggregationFabric.Deploy.Coordinator
import DisaggregationFabric.Engine.Admission

/-!
# One response for a request

Each of the seven requests of a client is answered by one frame, which holds a record, a
plan, or the whole state. `Encode` returns nothing for a payload beyond the bound of its
frame type, and the handler sends the nothing it was given, so a client waits for an answer
that is not there.

`Answered s c f` says that what the handler puts on the connection is decoded as one frame of
the right type and correlation. How long the payload is can be read off the state and the
request (`Codec.Sizes`), which gives the condition under which a response is there
(`answered_iff`): a release or a save is always answered, a reservation unless it has more
items than a frame has room for, a query of the state as long as the state is small
(`full_state_unanswered`).
-/

namespace DFabric

namespace Deploy

open Wire Proto

variable {D : Type} [Double D] [DoubleBits D]

/-! ### What is on the connection -/

/-- The type of the response to a request. -/
def responseType : FrameType → Option FrameType
  | .composeReq => some .composeResp
  | .reserveReq => some .reserveResp
  | .commitReq => some .commitResp
  | .activateReq => some .activateResp
  | .queryState => some .stateResp
  | .releaseReq => some .releaseResp
  | .saveReq => some .saveResp
  | _ => none

/-- What the replies put on a connection that takes all bytes, unless a writer throws. -/
def sentBytes (replies : List Reply) : Except Str (List UInt8) :=
  (replies.mapM Reply.bytes).map List.flatten

/-- A request is answered: the peer decodes what is put on the connection as one frame, of the
type that belongs to the request and with its correlation. -/
def Answered (s : Engine D) (c : Session) (f : Frame) : Prop :=
  ∃ type bytes payload, responseType f.type = some type ∧
    sentBytes (handle s c f).replies = .ok bytes ∧
    frameDecoder.feed [] bytes = ⟨[⟨type, f.correlation, payload⟩], none, []⟩

theorem sentBytes_singleton (r : Reply) : sentBytes [r] = r.bytes := by
  rcases h : r.bytes with e | bytes
  · simp [sentBytes, h, Except.map, bind, Except.bind]
  · simp [sentBytes, h, Except.map, bind, Except.bind, pure, Except.pure]

/-- Beyond the bound of its type nothing is encoded. -/
theorem encode_eq_nil {type : FrameType} {payload : List UInt8}
    (h : (maxFrameLen type).toNat < payload.length) (corr : UInt64) :
    encode type corr payload = [] := if_pos (Or.inr h)

/-- **When a reply is a frame**: all its strings are written, and it is within the bound of
its type. -/
theorem answered_of_reply {s : Engine D} {c : Session} {f : Frame} {type : FrameType}
    {payload : List Token} (htype : responseType f.type = some type)
    (hreplies : (handle s c f).replies = [⟨type, f.correlation, payload⟩]) :
    Answered s c f ↔ Writable wireLimits payload ∧ size payload ≤ (maxFrameLen type).toNat := by
  constructor
  · rintro ⟨type', bytes, body, htype', hsent, hfeed⟩
    rw [htype] at htype'
    cases htype'
    rw [hreplies, sentBytes_singleton, Reply.bytes] at hsent
    rcases hw : write wireLimits payload with e | bs
    -- the writer has thrown, so no bytes were sent at all
    · rw [hw] at hsent
      cases hsent
    · rw [hw] at hsent
      cases hsent
      obtain ⟨rfl, hfits⟩ := write_ok hw
      refine ⟨hfits, ?_⟩
      by_contra hlong
      -- nothing was sent, so nothing is decoded
      rw [encode_eq_nil (not_le.mp hlong), Scanner.feed, List.append_nil, drain_nil] at hfeed
      cases hfeed
  · rintro ⟨hwritable, hsize⟩
    have hfits : ∀ g ∈ [(⟨type, f.correlation, bytesOf payload⟩ : Frame)], g.Fits :=
      List.forall_mem_singleton.mpr hsize
    refine ⟨type, encode type f.correlation (bytesOf payload), bytesOf payload, htype, ?_, ?_⟩
    · rw [hreplies, sentBytes_singleton, Reply.bytes, hwritable.write_eq]
      rfl
    · have hdrain := drain_encoded hfits
      rw [List.flatMap_singleton] at hdrain
      exact hdrain

/-! ### When there is room -/

/-- The strings are within the limit of the writer, and the payload within that of the
frame. -/
def Room (texts : List Str) (n : ℕ) : Prop := Short texts ∧ n ≤ 524288

/-- There is room for a composition behind an outcome. -/
def CompositionRoom (c : Composition D) : Prop := Room (c.explanation :: c.texts) (4 + c.wireSize)

/-- There is room for the plan that is found for the request, if there is one. -/
def ComposeRoom (s : Engine D) (req : CompositionRequest D) : Prop :=
  ∀ plan, (s.compose req).2.ok = true → (s.compose req).2.payload = plan →
    Room plan.texts (8 + plan.wireSize)

/-- Every member of the plan can be held. -/
def Admitted (s : Engine D) (plan : CompositionPlan D) : Prop :=
  plan.lifecycle = .planned ∧ plan.id.isValid = true ∧
    ¬ ∃ pre v post, plan.graph.vertices = pre ++ v :: post ∧
      s.Refused plan.request s.reservedAmount pre v

/-- There is room for the composition whose provisional reservation has the id. -/
def CommitRoom (s : Engine D) (rid : ReservationId) : Prop :=
  ∀ resv comp, s.reservations.lookup rid = some resv → resv.state = .provisional →
    s.compositions.lookup resv.composition = some comp → comp.lifecycle = .reserved →
    CompositionRoom comp

/-- There is room for the composition that has the id, if it is committed and not fenced. -/
def ActivateRoom (s : Engine D) (id : CompositionId) : Prop :=
  ∀ comp, s.compositions.lookup id = some comp → comp.lifecycle = .committed →
    comp.id ∉ s.fenced → CompositionRoom comp

/-- There is room for the state: the epoch, three counts, and the records. -/
def StateRoom (s : Engine D) : Prop :=
  Room ((s.compositions.values.flatMap fun c => c.explanation :: c.texts) ++
      s.resources.values.flatMap Resource.texts)
    (20 + (s.compositions.values.map Composition.wireSize).sum +
      (s.reservations.values.map Reservation.wireSize).sum +
      (s.resources.values.map Resource.wireSize).sum)

/-- There is room for the response to a request. -/
def AnsweredWhen (s : Engine D) (f : Frame) : Prop :=
  match f.type with
  | .composeReq => ComposeRoom s (decoded decodeRequest f.payload)
  | .reserveReq =>
    let plan : CompositionPlan D := decoded decodePlan f.payload
    Admitted s plan → 36 + 20 * plan.graph.vertices.length ≤ 524288
  | .commitReq => CommitRoom s (decoded (decodeReservation : Decoder (Reservation D)) f.payload).id
  | .activateReq => ActivateRoom s ⟨leadingU64 f.payload⟩
  | .queryState => StateRoom s
  | .releaseReq | .saveReq => True
  | _ => False

/-! ### The replies -/

section Replies

/-- The bound of `WireWriter` on a string. -/
theorem wireLimits_max : wireLimits.maxLen = 32768 :=
  rfl

omit [Double D]

theorem writable_composeReply {cr : Result (CompositionPlan D)} :
    Writable wireLimits (composeReply cr) ↔ Short cr.payload.texts := by
  simp [composeReply, writable_encodePlan wireLimits_max]

theorem size_composeReply (cr : Result (CompositionPlan D)) :
    size (composeReply cr) = 8 + cr.payload.wireSize + 4 * cr.reasons.length := by
  have hreasons : size (counted cr.reasons Write.enum) = 4 + 4 * cr.reasons.length :=
    size_uniform fun _ _ => rfl
  simp only [composeReply, List.flatten_cons, List.flatten_nil, size_append, size_enum,
    size_encodePlan, hreasons, size_nil]
  omega

theorem writable_reserveReply (rr : Result (Reservation D)) :
    Writable wireLimits (reserveReply rr) := by
  have hreasons : Writable wireLimits (rr.reasons.flatMap Write.enum) :=
    List.forall_mem_flatMap.mpr fun r _ => writable_enum r
  simp [reserveReply, writable_encodeReservation, hreasons]

theorem size_reserveReply (rr : Result (Reservation D)) :
    size (reserveReply rr) = 36 + 20 * rr.payload.items.length + 4 * rr.reasons.length := by
  have hreasons : size (rr.reasons.flatMap Write.enum) = 4 * rr.reasons.length := by
    rw [size_flatMap, List.map_congr_left fun r _ => size_enum r, List.map_const',
      List.sum_replicate_nat, Nat.mul_comm]
  simp only [reserveReply, List.flatten_cons, List.flatten_nil, size_append, size_enum,
    size_encodeReservation, Reservation.wireSize, hreasons, size_nil]
  omega

/-- A composition is sent when there is room for it. -/
theorem compositionReply_iff {cc : Result (Composition D)} :
    Writable wireLimits (compositionReply cc) ∧ size (compositionReply cc) ≤ 524288 ↔
      CompositionRoom cc.payload := by
  have hwritable : Writable wireLimits (compositionReply cc) ↔
      Short (cc.payload.explanation :: cc.payload.texts) := by
    simp [compositionReply, writable_encodeComposition wireLimits_max, and_comm]
  have hsize : size (compositionReply cc) = 4 + cc.payload.wireSize := by
    simp [compositionReply]
  rw [hwritable, hsize]
  exact Iff.rfl

theorem stateReply_iff {s : Engine D} :
    Writable wireLimits (stateReply (registrySnapshot s)) ∧
      size (stateReply (registrySnapshot s)) ≤ 524288 ↔ StateRoom s := by
  -- the sizes of the three lists, and the counts in front of them
  have hcompositions : size (counted s.compositions.values encodeComposition) =
      listSize Composition.wireSize s.compositions.values :=
    size_list fun c _ => size_encodeComposition c
  have hreservations : size (counted s.reservations.values encodeReservation) =
      listSize Reservation.wireSize s.reservations.values :=
    size_list fun r _ => size_encodeReservation r
  have hresources : size (counted s.resources.values encodeResource) =
      listSize Resource.wireSize s.resources.values :=
    size_list fun r _ => size_encodeResource r
  have hsize : size (stateReply (registrySnapshot s)) =
      20 + (s.compositions.values.map Composition.wireSize).sum +
        (s.reservations.values.map Reservation.wireSize).sum +
        (s.resources.values.map Resource.wireSize).sum := by
    simp only [stateReply, registrySnapshot, List.flatten_cons, List.flatten_nil, size_append,
      size_word, hcompositions, hreservations, hresources, listSize, size_nil]
    omega
  have hwritable : Writable wireLimits (stateReply (registrySnapshot s)) ↔
      Short ((s.compositions.values.flatMap fun c => c.explanation :: c.texts) ++
        s.resources.values.flatMap Resource.texts) := by
    simp [stateReply, registrySnapshot, writable_encodeComposition wireLimits_max,
      writable_encodeReservation, writable_encodeResource wireLimits_max, and_comm]
  rw [hwritable, hsize]
  exact Iff.rfl

end Replies

/-- A rejection is short; a plan comes without reasons. -/
theorem composeReply_iff {s : Engine D} {req : CompositionRequest D} :
    Writable wireLimits (composeReply (s.compose req).2) ∧
      size (composeReply (s.compose req).2) ≤ 524288 ↔ ComposeRoom s req := by
  rw [writable_composeReply, size_composeReply, ComposeRoom]
  obtain ⟨hfound, hrejected⟩ := s.compose_reasons req
  rcases hok : (s.compose req).2.ok with _ | _
  -- the plan of a rejection is the default one, and it comes with one reason
  · obtain ⟨reason, notes, heq⟩ := hrejected hok
    have hsize : (default : CompositionPlan D).wireSize = 226 := rfl
    refine iff_of_true ?_ fun _ h => absurd h Bool.false_ne_true
    rw [heq]
    refine ⟨short_nil, ?_⟩
    change 8 + (default : CompositionPlan D).wireSize + 4 * 1 ≤ 524288
    rw [hsize]
    omega
  · rw [hfound hok]
    constructor
    · rintro h plan - rfl
      exact h
    · exact fun h => h _ rfl rfl

/-- A rejection is short; a reservation has as many items as the plan has vertices. -/
theorem reserveReply_iff {s : Engine D} {plan : CompositionPlan D} :
    size (reserveReply (s.reserve plan).2) ≤ 524288 ↔
      (Admitted s plan → 36 + 20 * plan.graph.vertices.length ≤ 524288) := by
  have hadmitted : (s.reserve plan).2.ok = true ↔ Admitted s plan := Engine.reserve_ok_iff plan
  rw [← hadmitted, size_reserveReply]
  rcases hok : (s.reserve plan).2.ok with _ | _
  -- a rejection has no items and one reason
  · obtain ⟨reason, notes, hrejected⟩ := Engine.reserve_rejected hok
    rw [hrejected]
    refine iff_of_true ?_ fun h => absurd h Bool.false_ne_true
    change 36 + 20 * 0 + 4 * 1 ≤ 524288
    omega
  · obtain ⟨held, items, hm, heq⟩ := Engine.reserve_ok hok
    have hlen : items.length = plan.graph.vertices.length := by
      rw [← Engine.reserveMembers_items hm, List.length_map]
    rw [heq]
    change 36 + 20 * items.length + 4 * 0 ≤ 524288 ↔ _
    rw [hlen, Nat.mul_zero, Nat.add_zero]
    exact ⟨fun h _ => h, fun h => h rfl⟩

omit [DoubleBits D] in
theorem compositionRoom_default : CompositionRoom (default : Composition D) := by
  have hsize : (default : Composition D).wireSize = 254 := rfl
  refine ⟨short_cons.mpr ⟨Nat.zero_le _, short_nil⟩, ?_⟩
  rw [hsize]
  omega

omit [DoubleBits D] in
/-- What `Commit` returns. -/
theorem commitReply_iff {s : Engine D} {resIn : Reservation D} :
    CompositionRoom (s.commit resIn).2.payload ↔ CommitRoom s resIn.id := by
  unfold Engine.commit CommitRoom
  -- the checks in the order of the source; a rejection returns the default composition
  rcases hr : s.reservations.lookup resIn.id with _ | resv
  · exact iff_of_true compositionRoom_default fun _ _ h => by cases h
  dsimp only
  split
  · next hstate =>
    refine iff_of_true compositionRoom_default ?_
    intro _ _ h hp
    cases h
    exact absurd hp hstate
  next hstate =>
  split
  · next hc =>
    refine iff_of_true compositionRoom_default ?_
    intro _ _ h _ hcomp
    cases h
    rw [hc] at hcomp
    cases hcomp
  next comp hc =>
  split
  · next hlife =>
    refine iff_of_true compositionRoom_default ?_
    intro _ _ h _ hcomp hreserved
    cases h
    rw [hc] at hcomp
    cases hcomp
    exact absurd hreserved hlife
  next hlife =>
  -- committed or rolled back, the composition is returned
  have hroom : CompositionRoom comp ↔ ∀ resv' comp', some resv = some resv' →
      resv'.state = .provisional → s.compositions.lookup resv'.composition = some comp' →
      comp'.lifecycle = .reserved → CompositionRoom comp' := by
    constructor
    · intro h resv' comp' hresv' _ hcomp' _
      cases hresv'
      rw [hc] at hcomp'
      cases hcomp'
      exact h
    · exact fun h => h resv comp rfl (not_not.mp hstate) hc (not_not.mp hlife)
  split
  · exact hroom
  · exact hroom

omit [DoubleBits D] in
/-- What `Activate` returns. -/
theorem activateReply_iff {s : Engine D} {id : CompositionId} :
    CompositionRoom (s.activate id).2.payload ↔ ActivateRoom s id := by
  unfold Engine.activate ActivateRoom
  -- as for `Commit`, one case for each check
  rcases hc : s.compositions.lookup id with _ | comp
  · exact iff_of_true compositionRoom_default fun _ h => by cases h
  dsimp only
  split
  · next hlife =>
    refine iff_of_true compositionRoom_default ?_
    intro _ h hcommitted
    cases h
    exact absurd hcommitted hlife
  next hlife =>
  split
  · next hfenced =>
    refine iff_of_true compositionRoom_default ?_
    intro _ h _ hnot
    cases h
    exact absurd hfenced hnot
  next hfenced =>
  -- activated or sent back for revalidation, the composition is returned
  have hroom : CompositionRoom comp ↔ ∀ comp', some comp = some comp' →
      comp'.lifecycle = .committed → comp'.id ∉ s.fenced → CompositionRoom comp' := by
    constructor
    · intro h comp' hcomp' _ _
      cases hcomp'
      exact h
    · exact fun h => h comp rfl (not_not.mp hlife) hfenced
  split
  · exact hroom
  · exact hroom

/-- **When a request is answered.** In every state of the engine, the handler puts exactly one
response of the matching type and correlation on the connection when there is room for it:
always for a release and for a save; for a plan when what `Compose` has found fits into a
frame, or when nothing is found; for a reservation when its items do, or when it is refused;
for a commit and an activation when the composition they look at does; and for a query when
the whole state does. -/
theorem answered_iff (s : Engine D) (c : Session) (f : Frame) :
    Answered s c f ↔ AnsweredWhen s f := by
  obtain ⟨type, corr, payload⟩ := f
  cases type with
  | composeReq =>
    rw [answered_of_reply rfl rfl]
    exact composeReply_iff
  | reserveReq =>
    rw [answered_of_reply rfl rfl]
    exact (and_iff_right (writable_reserveReply _)).trans reserveReply_iff
  | commitReq =>
    rw [answered_of_reply rfl rfl]
    exact compositionReply_iff.trans commitReply_iff
  | activateReq =>
    rw [answered_of_reply rfl rfl]
    exact compositionReply_iff.trans activateReply_iff
  | queryState =>
    rw [answered_of_reply rfl rfl]
    exact stateReply_iff
  -- a flag, and nothing at all
  | releaseReq =>
    rw [answered_of_reply rfl rfl]
    exact iff_of_true ⟨writable_flag _, by rw [size_flag]; decide⟩ trivial
  | saveReq =>
    rw [answered_of_reply rfl rfl]
    exact iff_of_true ⟨writable_nil, by decide⟩ trivial
  -- no request
  | _ =>
    refine iff_of_false ?_ id
    rintro ⟨type, bytes, body, htype, -⟩
    cases htype

/-! ### A state that is not sent -/

/-- A frame arrives on a connection and is handled. -/
def exchange (i : ℕ) (f : Frame) : List Input := [.received i f.encode, .serve i true]

/-- A connection with nothing to do. -/
def Idle (s : Coordinator D) (i : ℕ) (c : Session) : Prop :=
  s.connections.lookup i = some ⟨[], [], c⟩ ∧ c.done = false

theorem run_exchange {s : Coordinator D} {i : ℕ} {c : Session} {f : Frame} (h : Idle s i c)
    (hf : f.Fits) :
    (s.run (exchange i f)).engine = (handle s.engine c f).engine ∧
      (s.run (exchange i f)).connections.lookup i =
        some ⟨[], [], (handle s.engine c f).session⟩ := by
  obtain ⟨hc, hdone⟩ := h
  -- the decoder has the frame as soon as its last byte is there
  have hfeed : frameDecoder.feed [] f.encode = ⟨[f], none, []⟩ := by
    have hdrain := drain_encoded (List.forall_mem_singleton.mpr hf)
    rw [List.flatMap_singleton] at hdrain
    exact hdrain
  have hreceived : s.step (.received i f.encode) = s.put i ⟨[], [f], c⟩ := by
    simp only [Coordinator.step, hc, hdone, hfeed, List.isEmpty_nil, Bool.not_true, Bool.or_false,
      Bool.false_eq_true, if_false]
  have hlookup : (s.put i ⟨[], [f], c⟩).connections.lookup i = some ⟨[], [f], c⟩ :=
    AList.lookup_insert _
  -- so the exchange is the handling of that frame
  have hrun : s.run (exchange i f) = (s.put i ⟨[], [f], c⟩).step (.serve i true) := by
    rw [← hreceived]
    rfl
  rw [hrun]
  constructor
  · simp only [Coordinator.step, hlookup]
    rfl
  · simp only [Coordinator.step, hlookup, AList.lookup_insert, Bool.not_true, Bool.or_false]
    rfl

/-- A plan without members, on as many nodes as one read of the socket has room for. -/
def crowdedPlan (k : ℕ) : CompositionPlan Binary64 :=
  { (default : CompositionPlan Binary64) with
    id := ⟨UInt64.ofNat (k + 1)⟩
    nodes := List.replicate 992 ⟨1⟩ }

/-- A `RESERVE_REQ` for the plan. -/
def crowdedReserve (k : ℕ) : Frame := ⟨.reserveReq, 1, bytesOf (encodePlan (crowdedPlan k))⟩

theorem wordsSize_crowdedPlan (k : ℕ) : wordsSize (crowdedPlan k).nodes = 7940 := by
  rw [wordsSize, crowdedPlan, List.length_replicate]

theorem size_crowdedPlan (k : ℕ) : (crowdedPlan k).wireSize = 8162 := by
  rw [CompositionPlan.wireSize, wordsSize_crowdedPlan]
  rfl

theorem fits_crowdedReserve (k : ℕ) : (crowdedReserve k).Fits := by
  have hsize : (bytesOf (encodePlan (crowdedPlan k))).length = 8162 :=
    (size_encodePlan (crowdedPlan k)).trans (size_crowdedPlan k)
  rw [Frame.Fits, crowdedReserve, hsize]
  change 8162 ≤ 262144
  omega

theorem sendable_crowdedPlan (k : ℕ) : (crowdedPlan k).Sendable where
  nodes := by
    rw [crowdedPlan, List.length_replicate]
    decide
  request := CompositionRequest.sendable_default
  graph := ResourceGraph.sendable_default
  authority := AuthorityTuple.storable_default
  factors_length := Nat.zero_le _
  factors _ hf := absurd hf List.not_mem_nil
  paths_length := Nat.zero_le _
  paths _ hp := absurd hp List.not_mem_nil

/-- A plan that can be sent arrives, and is reserved. -/
theorem handle_reserveReq [LawfulDoubleBits D] (s : Engine D) (c : Session) (corr : UInt64)
    {plan : CompositionPlan D} (h : plan.Sendable) :
    (handle s c ⟨.reserveReq, corr, bytesOf (encodePlan plan)⟩).engine = (s.reserve plan).1 := by
  have hrun := h.reads.run h.writable [] 0
  rw [List.append_nil] at hrun
  have hdecoded : decoded decodePlan (bytesOf (encodePlan plan)) = plan := by
    rw [decoded, Reader.ofBytes, hrun]
  generalize bytesOf (encodePlan plan) = payload at hdecoded ⊢
  change (s.reserve (decoded decodePlan payload)).1 = _
  rw [hdecoded]

theorem toNat_crowdedPlan_id {k : ℕ} (hk : k < 65) : (crowdedPlan k).id.value.toNat = k + 1 := by
  have hlt : k + 1 < UInt64.size := by
    change k + 1 < 18446744073709551616
    omega
  exact UInt64.toNat_ofNat_of_lt' hlt

/-- It is reserved. -/
theorem handle_crowdedReserve (s : Engine Binary64) (c : Session) {k : ℕ} (hk : k < 65) :
    (handle s c (crowdedReserve k)).engine =
      s.storeReservation (crowdedPlan k) s.reservedAmount [] := by
  -- no guard refuses the plan, and it has no member to be held
  have hvalid : ¬ (!(crowdedPlan k).id.isValid) = true := by
    have hnat := toNat_crowdedPlan_id hk
    intro hzero
    have hvalue : (crowdedPlan k).id.value = 0 := by simpa [StrongId.isValid] using hzero
    rw [hvalue] at hnat
    exact absurd hnat.symm (Nat.succ_ne_zero k)
  have hplanned : ¬ (crowdedPlan k).lifecycle ≠ .planned := not_not.mpr rfl
  have hmembers : s.reserveMembers (crowdedPlan k).request (crowdedPlan k).graph.vertices
      s.reservedAmount = (s.reservedAmount, [], none) := rfl
  rw [crowdedReserve, handle_reserveReq s c 1 (sendable_crowdedPlan k), Engine.reserve,
    if_neg hplanned, if_neg hvalid, hmembers]

/-- The connection is idle, `n` of the plans are stored, and the others are not. -/
structure Crowded (s : Coordinator Binary64) (n : ℕ) : Prop where
  idle : Idle s 0 default
  missing : ∀ k, n ≤ k → k < 65 → s.engine.compositions.lookup (crowdedPlan k).id = none
  stored : n * 8190 ≤ (s.engine.compositions.values.map Composition.wireSize).sum

theorem Crowded.exchange {s : Coordinator Binary64} {n : ℕ} (h : Crowded s n) (hn : n < 65) :
    Crowded (s.run (exchange 0 (crowdedReserve n))) (n + 1) := by
  obtain ⟨hengine, hlookup⟩ := run_exchange h.idle (fits_crowdedReserve n)
  rw [handle_crowdedReserve s.engine default hn] at hengine
  have hsize : (s.engine.newComposition (crowdedPlan n)).wireSize = 8190 := by
    change 56 + wordsSize (crowdedPlan n).nodes + _ + _ + _ + _ + _ = 8190
    rw [wordsSize_crowdedPlan]
    rfl
  have hcompositions : (s.run (Deploy.exchange 0 (crowdedReserve n))).engine.compositions =
      s.engine.compositions.insert (crowdedPlan n).id
        (s.engine.newComposition (crowdedPlan n)) := by
    rw [hengine]
    rfl
  refine ⟨⟨hlookup, rfl⟩, ?_, ?_⟩
  · -- the plans that are still to come have other ids
    intro k hk hk'
    rw [hcompositions]
    have hne : (crowdedPlan k).id ≠ (crowdedPlan n).id := by
      intro hid
      have hnat := toNat_crowdedPlan_id hk'
      rw [hid, toNat_crowdedPlan_id hn] at hnat
      omega
    rw [UMap.lookup_insert_eq_ite, if_neg hne]
    exact h.missing k (by omega) hk'
  · have hsum := UMap.sum_values_insert s.engine.compositions (crowdedPlan n).id
      (s.engine.newComposition (crowdedPlan n)) Composition.wireSize
    rw [UMap.sum_values_erase_of_lookup_none _ (h.missing n le_rfl hn), hsize] at hsum
    rw [hcompositions, hsum, Nat.succ_mul, Nat.add_comm]
    exact Nat.add_le_add_left h.stored 8190

/-- A client reserves `n` of the plans, one after another. -/
def crowding (n : ℕ) : List Input :=
  .accept 0 :: (List.range n).flatMap fun k => exchange 0 (crowdedReserve k)

theorem crowded_run {n : ℕ} (hn : n ≤ 65) :
    Crowded ((Coordinator.start Binary64 ⟨1⟩ none).run (crowding n)) n := by
  induction n with
  | zero =>
    -- the boot stores no composition
    have hlength : ((Coordinator.start Binary64 ⟨1⟩ none).run
        (crowding 0)).engine.compositions.entries.length = 0 := by decide +kernel
    have hnone : ((Coordinator.start Binary64 ⟨1⟩ none).run (crowding 0)).engine.compositions =
        ∅ := AList.ext (List.length_eq_zero_iff.mp hlength)
    refine ⟨⟨rfl, rfl⟩, ?_, Nat.zero_mul 8190 ▸ Nat.zero_le _⟩
    intro k _ _
    rw [hnone]
    rfl
  | succ n ih =>
    have hsplit : crowding (n + 1) = crowding n ++ exchange 0 (crowdedReserve n) := by
      simp only [crowding, List.range_succ, List.flatMap_append, List.flatMap_singleton,
        List.cons_append]
    rw [hsplit, Coordinator.run, Machine.run_append]
    exact (ih (Nat.le_of_succ_le hn)).exchange hn

/-- A `QUERY_STATE`. -/
def queryFrame : Frame := ⟨.queryState, 7, []⟩

/-- The frame is within its bound, and the decoder of the request accepts the payload. -/
def WellFormed (D : Type) [Double D] [DoubleBits D] (f : Frame) : Prop :=
  f.Fits ∧
    match f.type with
    | .composeReq => accepted (decodeRequest : Decoder (CompositionRequest D)) f.payload = true
    | .reserveReq => accepted (decodePlan : Decoder (CompositionPlan D)) f.payload = true
    | .commitReq => accepted (decodeReservation : Decoder (Reservation D)) f.payload = true
    | .activateReq | .releaseReq => 8 ≤ f.payload.length
    | _ => True

/-- **A client waits for the state.** Sixty-five reservations are made, each with a plan that
arrives in one read of the socket; then there is no room for the state in a frame, and a
query is not answered. -/
theorem full_state_unanswered :
    ¬ ∀ (epoch : CoordinatorEpoch) (file : Option (List UInt8)) (inputs : List Input) (c : Session)
      (f : Frame), WellFormed Binary64 f → (responseType f.type).isSome = true →
      Answered ((Coordinator.start Binary64 epoch file).run inputs).engine c f := by
  intro h
  have hanswered := h ⟨1⟩ none (crowding 65) default queryFrame ⟨Nat.zero_le _, trivial⟩ rfl
  have hroom : StateRoom ((Coordinator.start Binary64 ⟨1⟩ none).run (crowding 65)).engine :=
    stateReply_iff.mp ((answered_of_reply rfl rfl).mp hanswered)
  have hstored := (crowded_run (le_refl 65)).stored
  have hsize := hroom.2
  -- 65 * 8190 is more than 524288
  omega

end Deploy

end DFabric
