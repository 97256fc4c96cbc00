import DisaggregationFabric.Deploy.Delivery
import DisaggregationFabric.Deploy.Worker

/-!
# The registration of a worker

A worker and the thread of the coordinator that serves it are the two parties of a dialogue
(`registration`): the worker opens with `HELLO` and `REGISTER`, the coordinator acknowledges
both and serves the descriptors in between, and the worker sends these back, stamped. What is
ever said is known in advance (`course`), whatever the network does to the bytes, and so is what
is published (`published_course`).

A `REGISTER` is encoded for 511 ids at most. A worker that owns more nodes sends its `HELLO`
alone, and registers nothing.
-/

namespace DFabric

namespace Deploy

open Wire Proto

variable {D : Type} [Double D] [DoubleBits D]

/-! ### The coordinator's side -/

/-- The variables of a thread after a frame. -/
def Session.after (c : Session) (f : Frame) : Session :=
  match f.type with
  | .hello => { c with boot := leadingU64 f.payload, isWorker := leadingU64 f.payload ≠ 0 }
  | .bye => { c with done := true }
  | _ => c

theorem handle_session (s : Engine D) (c : Session) (f : Frame) :
    (handle s c f).session = c.after f := by
  obtain ⟨type, corr, payload⟩ := f
  cases type with
  | publishNode =>
    simp only [handle]
    split <;> rfl
  | publishResource =>
    simp only [handle]
    split <;> rfl
  | _ => rfl

/-- The frames that concern workers; all others are requests and answers. -/
def OfWorker (f : Frame) : Prop :=
  f.type = .hello ∨ f.type = .register ∨ f.type = .publishNode ∨ f.type = .publishResource

/-- What a worker's frame is answered with. -/
def served (D : Type) [Double D] [DoubleBits D] (f : Frame) : List Reply :=
  match f.type with
  | .hello => [⟨.ack, f.correlation, []⟩]
  | .register =>
    let n := (Reader.ofBytes f.payload).u32
    descriptors D f.correlation (readIds n.1.toNat n.2) ++ [⟨.ack, f.correlation, []⟩]
  | _ => []

theorem handle_replies {f : Frame} (h : OfWorker f) (s : Engine D) (c : Session) :
    (handle s c f).replies = served D f := by
  obtain ⟨type, corr, payload⟩ := f
  rcases h with rfl | rfl | rfl | rfl
  · rfl
  · rfl
  · simp only [handle, served]
    split <;> rfl
  · simp only [handle, served]
    split <;> rfl

/-- The descriptor that is registered for a frame. -/
def publication (D : Type) [Double D] [DoubleBits D] (c : Session) (f : Frame) :
    Option (Descriptor D) :=
  if c.isWorker then (descriptor? D f).map (Descriptor.own c.boot) else none

/-- `RegisterNode` and `RegisterResource`. -/
def Descriptor.register (s : Engine D) : Descriptor D → Engine D
  | .node n => (s.registerNode n).1
  | .resource r => (s.registerResource r).1

/-- What a worker's frame does to the engine is to register its descriptor. -/
theorem handle_publication {f : Frame} (h : OfWorker f) (s : Engine D) (c : Session) :
    (handle s c f).engine = (publication D c f).elim s (Descriptor.register s) := by
  obtain ⟨type, corr, payload⟩ := f
  -- the four types, with their tests on the payload and on the session
  rcases h with rfl | rfl | rfl | rfl
  · cases hw : c.isWorker <;> simp [handle, publication, descriptor?, hw]
  · cases hw : c.isWorker <;> simp [handle, publication, descriptor?, hw]
  · simp only [handle, publication, descriptor?]
    cases hw : c.isWorker <;>
      cases ha : accepted (decodeNode : Decoder (Node D)) payload <;>
      simp [Descriptor.register, Descriptor.own]
  · simp only [handle, publication, descriptor?]
    cases hw : c.isWorker <;>
      cases ha : accepted (decodeResource : Decoder (Resource D)) payload <;>
      simp [Descriptor.register, Descriptor.own]

/-- The thread of the coordinator as a party. -/
def coordinatorParty (D : Type) [Double D] [DoubleBits D] : Party Session Frame Frame where
  next := Session.after
  emit _ f := (served D f).map Reply.frame

/-- The same thread, with what it registers in the place of what it answers. -/
def registrarParty (D : Type) [Double D] [DoubleBits D] : Party Session Frame (Descriptor D) where
  next := Session.after
  emit c f := (publication D c f).toList

/-- All that is registered for the frames of a connection. -/
def publications (D : Type) [Double D] [DoubleBits D] (handled : List Frame) :
    List (Descriptor D) := (registrarParty D).output default handled

/-! ### The worker's side -/

/-- The worker as a party; its state is the correlation of its last answer. -/
def workerParty (D : Type) [Double D] [DoubleBits D] (boot : UInt64) : Party UInt64 Frame Frame where
  next corr f := if (echo D boot (corr + 1) f).isSome then corr + 1 else corr
  emit corr f := (echo D boot (corr + 1) f).toList.map Reply.frame

/-- The loop of a worker is the party. -/
theorem Worker.serve_eq (w : Worker) (frames : List Frame) :
    (w.serve D frames).1 = { w with corrNext := (workerParty D w.boot).after w.corrNext frames } ∧
      (w.serve D frames).2.map Reply.frame = (workerParty D w.boot).output w.corrNext frames := by
  induction frames generalizing w with
  | nil => exact ⟨rfl, rfl⟩
  | cons f fs ih =>
    unfold Worker.serve
    simp only [Party.after, Party.output, Machine.run_cons, Machine.trace, workerParty]
    rcases ha : echo D w.boot (w.corrNext + 1) f with _ | r
    · exact ih w
    · obtain ⟨hworker, hreplies⟩ := ih { w with corrNext := w.corrNext + 1 }
      exact ⟨hworker, congrArg (List.cons r.frame) hreplies⟩

/-- The protocol of the registration. -/
def registration (D : Type) [Double D] [DoubleBits D] (boot : UInt64) (ids : List NodeId) :
    Protocol frameDecoder frameDecoder Session UInt64 where
  upCode := frameCode
  downCode := frameCode
  server := coordinatorParty D
  client := workerParty D boot
  serverStart := default
  clientStart := 100
  -- a frame that is too long is not encoded
  opening := ((openingReplies boot ids).map Reply.frame).filter fun f => decide f.Fits

/-! ### The course -/

/-- The ids that a `REGISTER` is encoded for. -/
def announced (ids : List NodeId) : List NodeId := if ids.length ≤ 511 then ids else []

/-- What a coordinator answers to the opening of a worker. -/
def answers (D : Type) [Double D] [DoubleBits D] (ids : List NodeId) : List Frame :=
  ⟨.ack, 1, []⟩ ::
    if ids.length ≤ 511 then
      ((inventory D ids).map fun d => (d.reply 2).frame) ++ [⟨.ack, 2, []⟩]
    else []

/-- The stamped descriptors, as a worker numbers them. -/
def echoes (boot : UInt64) : UInt64 → List (Descriptor D) → List Frame
  | _, [] => []
  | corr, d :: ds => ((d.stamp boot).reply (corr + 1)).frame :: echoes boot (corr + 1) ds

/-- What is registered for a worker in the end. Boot zero is no worker's. -/
def expected (D : Type) [Double D] (boot : UInt64) (ids : List NodeId) : List (Descriptor D) :=
  if boot = 0 then [] else (inventory D (announced ids)).map (Descriptor.stamp boot)

section Opening

variable (boot : UInt64) (ids : List NodeId)

theorem leadingU64_bytesOf (v : UInt64) : leadingU64 (bytesOf [.u64 v]) = v := by
  have hread := (ReadsTo.u64 v : ReadsTo wireLimits Reader.u64 [.u64 v] v).run
    (writable_u64 v) [] 0
  rw [List.append_nil] at hread
  show (Reader.u64 ⟨bytesOf [.u64 v], 0, true⟩).1 = v
  rw [hread]

/-- A `HELLO` tells the thread the boot of its worker. -/
theorem after_hello : (default : Session).after (Reply.frame ⟨.hello, 1, [.u64 boot]⟩) =
    ⟨boot, boot ≠ 0, false⟩ := by
  show (⟨leadingU64 (bytesOf [.u64 boot]), leadingU64 (bytesOf [.u64 boot]) ≠ 0, false⟩ :
    Session) = _
  rw [leadingU64_bytesOf]

/-- The ids are read as they were written. -/
theorem readIds_bytesOf (pos : ℕ) :
    readIds ids.length ⟨bytesOf (ids.flatMap fun i => Write.u64 i.value), pos, true⟩ = ids := by
  induction ids generalizing pos with
  | nil => rfl
  | cons i ids ih =>
    have hread := (ReadsTo.u64 i.value : ReadsTo wireLimits Reader.u64 [.u64 i.value] i.value).run
      (writable_u64 i.value) (bytesOf (ids.flatMap fun i => Write.u64 i.value)) pos
    have hsplit : bytesOf ((i :: ids).flatMap fun i => Write.u64 i.value) =
        bytesOf [.u64 i.value] ++ bytesOf (ids.flatMap fun i => Write.u64 i.value) :=
      bytesOf_append _ _
    rw [hsplit, List.length_cons, readIds, hread, ih]

theorem served_register (corr : UInt64) (h : ids.length ≤ 511) :
    served D (Reply.frame ⟨.register, corr, Write.ids ids⟩) =
      descriptors D corr ids ++ [⟨.ack, corr, []⟩] := by
  -- the count is the one that was written
  have hcount : (UInt32.ofNat ids.length).toNat = ids.length :=
    UInt32.toNat_ofNat_of_lt' (h.trans_lt (by decide))
  have hread := (ReadsTo.u32 (UInt32.ofNat ids.length) :
    ReadsTo wireLimits Reader.u32 [.u32 (UInt32.ofNat ids.length)] _).run
      (writable_u32 _) (bytesOf (ids.flatMap fun i => Write.u64 i.value)) 0
  have hsplit : bytesOf (Write.ids ids) = bytesOf [.u32 (UInt32.ofNat ids.length)] ++
      bytesOf (ids.flatMap fun i => Write.u64 i.value) :=
    bytesOf_append [.u32 (UInt32.ofNat ids.length)] _
  rw [← hsplit] at hread
  have hu32 : (Reader.ofBytes (bytesOf (Write.ids ids))).u32 = (UInt32.ofNat ids.length, _) := hread
  show descriptors D corr (readIds (Reader.ofBytes (bytesOf (Write.ids ids))).u32.1.toNat
    (Reader.ofBytes (bytesOf (Write.ids ids))).u32.2) ++ _ = _
  rw [hu32]
  dsimp only
  rw [hcount, readIds_bytesOf]
  rfl

/-- A `REGISTER` is bounded to 4096 bytes. -/
theorem fits_register_iff : (Reply.frame ⟨.register, 2, Write.ids ids⟩).Fits ↔
    ids.length ≤ 511 := by
  have hlen : (bytesOf (Write.ids ids)).length = 4 + 8 * ids.length := size_ids ids
  show (bytesOf (Write.ids ids)).length ≤ 4096 ↔ _
  omega

theorem opening_eq : (registration D boot ids).opening =
    Reply.frame ⟨.hello, 1, [.u64 boot]⟩ ::
      if ids.length ≤ 511 then [Reply.frame ⟨.register, 2, Write.ids ids⟩] else [] := by
  have hhello : (Reply.frame ⟨.hello, 1, [.u64 boot]⟩).Fits := by
    show (bytesOf [.u64 boot]).length ≤ 4096
    exact (size_u64 boot).trans_le (by decide)
  show List.filter (fun f => decide f.Fits) [Reply.frame ⟨.hello, 1, [.u64 boot]⟩,
    Reply.frame ⟨.register, 2, Write.ids ids⟩] = _
  -- `REGISTER` has room for 511 ids
  by_cases h : ids.length ≤ 511
  · simp only [List.filter_cons, hhello, (fits_register_iff ids).mpr h, h, decide_true, if_true,
      List.filter_nil]
  · have hlong := mt (fits_register_iff ids).mp h
    simp only [List.filter_cons, hhello, hlong, h, decide_true, decide_false, if_true, if_false,
      Bool.false_eq_true, List.filter_nil]

/-- **The coordinator answers the opening.** -/
theorem answered_opening :
    (registration D boot ids).answered (registration D boot ids).opening = answers D ids := by
  rw [opening_eq, answers]
  show List.map Reply.frame (served D (Reply.frame ⟨.hello, 1, [.u64 boot]⟩)) ++ _ = _
  refine congrArg (List.cons _) ?_
  by_cases h : ids.length ≤ 511
  · rw [if_pos h, if_pos h]
    show List.map Reply.frame (served D (Reply.frame ⟨.register, 2, Write.ids ids⟩)) ++ [] = _
    rw [served_register ids 2 h, descriptors_eq, List.append_nil, List.map_append, List.map_map]
    rfl
  · rw [if_neg h, if_neg h]
    rfl

end Opening

section Echoes

variable (boot : UInt64)

omit [Double D] in
/-- An echo is a stamped descriptor. -/
theorem exists_of_mem_echoes {corr : UInt64} {ds : List (Descriptor D)} {f : Frame}
    (hf : f ∈ echoes boot corr ds) : ∃ d ∈ ds, ∃ c, f = ((d.stamp boot).reply c).frame := by
  induction ds generalizing corr with
  | nil => cases hf
  | cons d ds ih =>
    rcases List.mem_cons.mp hf with rfl | hf
    · exact ⟨d, List.mem_cons_self, _, rfl⟩
    · obtain ⟨d', hd', h⟩ := ih hf
      exact ⟨d', List.mem_cons_of_mem d hd', h⟩

/-- The coordinator answers nothing to a descriptor. -/
theorem served_reply (d : Descriptor D) (corr : UInt64) : served D (d.reply corr).frame = [] := by
  cases d <;> rfl

omit [Double D] in
theorem after_reply (c : Session) (d : Descriptor D) (corr : UInt64) :
    c.after (d.reply corr).frame = c := by
  cases d <;> rfl

theorem answered_echoes (c : Session) (corr : UInt64) (ds : List (Descriptor D)) :
    (coordinatorParty D).output c (echoes boot corr ds) = [] := by
  induction ds generalizing corr with
  | nil => rfl
  | cons d ds ih =>
    rw [echoes, Party.output_cons]
    show (served D ((d.stamp boot).reply (corr + 1)).frame).map Reply.frame ++
      (coordinatorParty D).output (c.after ((d.stamp boot).reply (corr + 1)).frame) _ = []
    rw [served_reply, after_reply, ih]
    rfl

variable [LawfulDoubleBits D]

/-- **A worker echoes descriptors.** -/
theorem output_descriptors {bytes : ℕ} {ds : List (Descriptor D)} (h : ∀ d ∈ ds, d.Sound bytes)
    (corr corr' : UInt64) (rest : List Frame) :
    ∃ corr'', (workerParty D boot).output corr ((ds.map fun d => (d.reply corr').frame) ++ rest) =
      echoes boot corr ds ++ (workerParty D boot).output corr'' rest := by
  induction ds generalizing corr with
  | nil => exact ⟨corr, rfl⟩
  | cons d ds ih =>
    obtain ⟨hd, hds⟩ := List.forall_mem_cons.mp h
    obtain ⟨corr'', hout⟩ := ih hds (corr + 1)
    -- each descriptor is echoed under the next correlation
    have hanswer := hd.echo boot corr' (corr + 1)
    have hemit : (workerParty D boot).emit corr (d.reply corr').frame =
        [((d.stamp boot).reply (corr + 1)).frame] := by
      show (echo D boot (corr + 1) (d.reply corr').frame).toList.map Reply.frame = _
      rw [hanswer]
      rfl
    have hnext : (workerParty D boot).next corr (d.reply corr').frame = corr + 1 := by
      show (if (echo D boot (corr + 1) (d.reply corr').frame).isSome = true then _ else _) = _
      rw [hanswer]
      rfl
    refine ⟨corr'', ?_⟩
    rw [List.map_cons, List.cons_append, Party.output_cons, hemit, hnext, hout]
    rfl

omit [LawfulDoubleBits D] in
/-- An acknowledgement is not answered. -/
theorem output_ack (corr corr' : UInt64) (rest : List Frame) :
    (workerParty D boot).output corr (⟨.ack, corr', []⟩ :: rest) =
      (workerParty D boot).output corr rest := rfl

/-- **What a worker says to the answers of the coordinator.** -/
theorem said_answers (ids : List NodeId) :
    (registration D boot ids).said (answers D ids) =
      (registration D boot ids).opening ++ echoes boot 100 (inventory D (announced ids)) := by
  show (registration D boot ids).opening ++ (workerParty D boot).output 100 (answers D ids) = _
  refine congrArg _ ?_
  rw [answers, output_ack, announced]
  split
  · obtain ⟨corr, hout⟩ := output_descriptors boot (Descriptor.sound_inventory (D := D) ids) 100 2
      [⟨.ack, 2, []⟩]
    rw [hout, output_ack]
    exact List.append_nil _
  · rfl

/-- A worker's connection registers the echoes as they were stamped. -/
theorem publications_echoes {c : Session} (hc : c.isWorker = true) (hboot : c.boot = boot)
    {bytes : ℕ} {ds : List (Descriptor D)} (h : ∀ d ∈ ds, d.Sound bytes) (corr : UInt64) :
    (registrarParty D).output c (echoes boot corr ds) = ds.map (Descriptor.stamp boot) := by
  induction ds generalizing corr with
  | nil => rfl
  | cons d ds ih =>
    obtain ⟨hd, hds⟩ := List.forall_mem_cons.mp h
    -- the coordinator stamps what is stamped already
    have hpub : publication D c ((d.stamp boot).reply (corr + 1)).frame = some (d.stamp boot) := by
      rw [publication, if_pos hc, (hd.stamp boot).descriptor?, hboot]
      exact congrArg some (Descriptor.own_stamp boot d)
    show (publication D c ((d.stamp boot).reply (corr + 1)).frame).toList ++
      (registrarParty D).output (c.after ((d.stamp boot).reply (corr + 1)).frame) _ = _
    rw [hpub, after_reply, ih hds]
    rfl

omit [LawfulDoubleBits D] in
/-- A connection that is no worker's registers nothing. -/
theorem publications_of_not_worker {c : Session} (hc : c.isWorker = false)
    (ds : List (Descriptor D)) (corr : UInt64) :
    (registrarParty D).output c (echoes boot corr ds) = [] := by
  induction ds generalizing corr with
  | nil => rfl
  | cons d ds ih =>
    show (publication D c ((d.stamp boot).reply (corr + 1)).frame).toList ++
      (registrarParty D).output (c.after ((d.stamp boot).reply (corr + 1)).frame) _ = _
    rw [publication, hc, after_reply, ih]
    rfl

end Echoes

section Course

variable [LawfulDoubleBits D] (boot : UInt64) (ids : List NodeId)

omit [LawfulDoubleBits D] in
/-- Every frame of a worker fits, and so does every answer. -/
theorem fits_said : ∀ f ∈ (registration D boot ids).opening ++
    echoes boot 100 (inventory D (announced ids)), f.Fits := by
  refine List.forall_mem_append.mpr ⟨?_, ?_⟩
  · intro f hf
    exact of_decide_eq_true (List.mem_filter.mp hf).2
  · intro f hf
    obtain ⟨d, hd, c, rfl⟩ := exists_of_mem_echoes boot hf
    exact ((Descriptor.sound_inventory _ d hd).stamp boot).fits (by decide) c

omit [LawfulDoubleBits D] in
theorem fits_answers : ∀ f ∈ answers D ids, f.Fits := by
  have hack : ∀ corr, (⟨.ack, corr, []⟩ : Frame).Fits := fun _ => Nat.zero_le _
  unfold answers
  refine List.forall_mem_cons.mpr ⟨hack 1, ?_⟩
  split
  · refine List.forall_mem_append.mpr ⟨?_, List.forall_mem_singleton.mpr (hack 2)⟩
    intro f hf
    obtain ⟨d, hd, rfl⟩ := List.mem_map.mp hf
    exact (Descriptor.sound_inventory ids d hd).fits (by decide) 2
  · exact List.forall_mem_nil _

/-- **The course of a registration**: the opening, the answers to it, and their echoes. -/
def course (D : Type) [Double D] [DoubleBits D] [LawfulDoubleBits D] (boot : UInt64)
    (ids : List NodeId) : (registration D boot ids).Course where
  said := (registration D boot ids).opening ++ echoes boot 100 (inventory D (announced ids))
  answered := answers D ids
  said_eq := (said_answers boot ids).symm
  answered_eq := by
    show answers D ids = (coordinatorParty D).output default _
    rw [Party.output_append, answered_echoes, List.append_nil]
    exact (answered_opening boot ids).symm
  said_fits := fits_said boot ids
  answered_fits := fits_answers ids
  settles := by
    have hopening : (registration D boot ids).said [] = (registration D boot ids).opening :=
      List.append_nil _
    refine ⟨2, ?_⟩
    show _ = (registration D boot ids).said ((registration D boot ids).answered
      ((registration D boot ids).said []))
    rw [hopening, answered_opening, said_answers]

omit [LawfulDoubleBits D] in
/-- The opening tells the coordinator the boot, and registers nothing. -/
theorem publications_opening :
    publications D (registration D boot ids).opening = [] ∧
      Machine.run Session.after default (registration D boot ids).opening =
        ⟨boot, boot ≠ 0, false⟩ := by
  -- neither frame holds a descriptor
  have hnone : ∀ c (r : Reply), r.type = .hello ∨ r.type = .register →
      (publication D c r.frame).toList = [] := by
    rintro c ⟨type, corr, payload⟩ (rfl | rfl) <;> cases hc : c.isWorker <;>
      simp [publication, descriptor?, Reply.frame, hc]
  rw [opening_eq]
  constructor
  · have hemit : ∀ c (r : Reply), r.type = .hello ∨ r.type = .register →
        (registrarParty D).emit c r.frame = [] := hnone
    rw [publications, Party.output_cons, hemit _ _ (Or.inl rfl)]
    split
    · rw [Party.output_singleton, hemit _ _ (Or.inr rfl)]
      rfl
    · rfl
  · rw [Machine.run_cons, after_hello]
    split <;> rfl

/-- **What is registered in the course of a registration.** -/
theorem publications_course : publications D (course D boot ids).said = expected D boot ids := by
  obtain ⟨hnone, hsession⟩ := publications_opening (D := D) boot ids
  have hsound := Descriptor.sound_inventory (D := D) (announced ids)
  show (registrarParty D).output default ((registration D boot ids).opening ++
    echoes boot 100 (inventory D (announced ids))) = _
  have hafter : (registrarParty D).after default (registration D boot ids).opening =
      ⟨boot, boot ≠ 0, false⟩ := hsession
  -- nothing is registered for the opening
  have hout : (registrarParty D).output default (registration D boot ids).opening = [] := hnone
  rw [Party.output_append, hout, hafter, List.nil_append, expected]
  -- the boot zero does not make a worker
  by_cases hboot : boot = 0
  · rw [if_pos hboot]
    exact publications_of_not_worker boot (decide_eq_false (not_not.mpr hboot)) _ _
  · rw [if_neg hboot]
    exact publications_echoes boot (decide_eq_true hboot) rfl hsound 100

end Course

end Deploy

end DFabric
