import DisaggregationFabric.Codec.Layouts
import DisaggregationFabric.Lib.Cursor

/-!
# Truncated messages

Most loops of the decoders of `codec.hpp` do not look at the flag of the reader: with the input
at its end they go on with zeros, and the result is tested at the end of the record. Still each
decoder goes by the bytes it has used, and refuses fewer of them (`PrefixExact`).

The reason is the same for all of them. A decoder is a program on its reader, so with fewer
bytes than it has used the flag is down at the end (`Wire.Program.exact`); and it accepts with the
flag up only, by the test of its own or by the one of the decoder it ends with (`Checked`). A
program on a buffer does not leave it (`Wire.Program.exec_eq_run`).
-/

namespace DFabric

open Wire

section Decoders

variable {R A : Type}

/-- The decoder accepts with the flag up only. -/
def Checked (d : Decoder R) : Prop := ∀ x r, (d x r).1 = true → (d x r).2.2.ok = true

theorem Checked.andThen (d : Decoder R) {e : Decoder R} (h : Checked e) :
    Checked (d.andThen e) := by
  intro x r hacc
  obtain ⟨y, r', -, heq⟩ := Decoder.andThen_accepts hacc
  rw [heq] at hacc ⊢
  exact h y r' hacc

/-- The closing test. -/
theorem checked_closed (ds : List (Decoder R)) : Checked (Decoder.closed ds) :=
  Checked.andThen _ fun _ _ h => h

theorem Checked.into (get : R → A) (set : A → R → R) {d : Decoder A} (h : Checked d) :
    Checked (Decoder.into get set d) := fun x r hacc => h (get x) r hacc

/-- A sequence of statements is tested by the last one. -/
theorem checked_block {ds : List (Decoder R)} {d : Decoder R} (hlast : ds.getLast? = some d)
    (h : Checked d) : Checked (Decoder.block ds) := by
  induction ds with
  | nil => cases hlast
  | cons e ds ih =>
    -- only the last statement decides
    cases ds with
    | nil =>
      cases hlast
      intro x r hacc
      have hblock : Decoder.block [e] x r = e x r := by
        change e.andThen Decoder.skip x r = e x r
        unfold Decoder.andThen
        rcases e x r with ⟨_ | _, y, r'⟩
        · rfl
        · rfl
      rw [hblock] at hacc ⊢
      exact h x r hacc
    | cons e' ds =>
      rw [List.getLast?_cons_cons] at hlast
      exact Checked.andThen e (ih hlast)

/-- **The decoder goes by the bytes it has used.** Started on a fresh reader, for every record
that is filled and every byte string:

* where it accepts, it has not read beyond the end;
* it fills the record in the same way, up to the same position, from every byte string that
  starts with the bytes it has used;
* it refuses every proper prefix of these bytes;
* and whether it accepts or not, run on the buffer by indices it makes no access outside. -/
structure PrefixExact (d : Decoder R) : Prop where
  pos_le : ∀ {x y b r}, d x (.ofBytes b) = (true, y, r) → r.pos ≤ b.length
  same : ∀ {x y b r}, d x (.ofBytes b) = (true, y, r) → ∀ b' : List UInt8,
    b'.take r.pos = b.take r.pos → ∃ r', d x (.ofBytes b') = (true, y, r') ∧ r'.pos = r.pos
  truncated : ∀ {x y b r}, d x (.ofBytes b) = (true, y, r) → ∀ k < r.pos,
    (d x (.ofBytes (b.take k))).1 = false
  inside : ∃ p : R → Program (Bool × R), Program.decoder p = d ∧
    ∀ x b, b.length < 2 ^ 64 → ∃ c : Cursor,
      (p x).exec (.ofBytes b) =
        some (((d x (.ofBytes b)).1, (d x (.ofBytes b)).2.1), c) ∧
      c.reader = (d x (.ofBytes b)).2.2

/-- What an accepting decoder has used: it is as much as the position says, whatever follows
it gives the same record, and less of it is refused. -/
theorem Checked.used {d : Decoder R} (hc : Checked d) (hp : Programmed d) {x y : R}
    {b : List UInt8} {r : Reader} (h : d x (.ofBytes b) = (true, y, r)) :
    r.pos ≤ b.length ∧
      (∀ more, d x (.ofBytes (b.take r.pos ++ more)) = (true, y, ⟨more, r.pos, true⟩)) ∧
      ∀ k < r.pos, (d x (.ofBytes (b.take k))).1 = false := by
  have hok : (d x (.ofBytes b)).2.2.ok = true := hc x (.ofBytes b) (by rw [h])
  obtain ⟨used, hrest, hmore, hshort⟩ := (hp.exact x).run hok
  have hb : b = used ++ r.rest := by
    rw [h] at hrest
    exact hrest
  -- the three parts of a run on the bytes used and more
  have hrun : ∀ more, d x (.ofBytes (used ++ more)) = (true, y, ⟨more, used.length, true⟩) := by
    intro more
    have hm := hmore more
    rw [h] at hm
    have hpos : (Reader.ofBytes b).pos + used.length = used.length := Nat.zero_add _
    rw [hpos] at hm
    exact Prod.ext (congrArg (·.1.1) hm)
      (Prod.ext (congrArg (·.1.2) hm) (congrArg (·.2) hm))
  have hused : r.pos = used.length := by
    have hr := hrun r.rest
    rw [← hb, h] at hr
    exact congrArg (·.2.2.pos) hr
  have htake : b.take r.pos = used := by rw [hused, hb, List.take_left]
  refine ⟨?_, ?_, ?_⟩
  · rw [hused, hb, List.length_append]
    exact Nat.le_add_right _ _
  · rw [htake, hused]
    exact hrun
  · intro k hk
    rw [hused] at hk
    have hdown := hshort k hk
    have hcut : b.take k = used.take k := by
      rw [hb, List.take_append_of_le_length hk.le]
    rw [hcut]
    by_contra hacc
    have hup := hc x (.ofBytes (used.take k)) (Bool.eq_true_of_not_eq_false hacc)
    exact absurd hup (by rw [← Bool.not_eq_true] at hdown; exact hdown)

theorem Checked.prefixExact {d : Decoder R} (hc : Checked d) (hp : Programmed d) :
    PrefixExact d where
  pos_le h := (hc.used hp h).1
  same {x y b r} h b' hb' := by
    obtain ⟨-, hmore, -⟩ := hc.used hp h
    -- the same bytes used, with others behind
    have hrun := hmore (b'.drop r.pos)
    rw [← hb', List.take_append_drop] at hrun
    exact ⟨_, hrun, rfl⟩
  truncated h := (hc.used hp h).2.2
  inside := by
    obtain ⟨p, rfl⟩ := hp
    refine ⟨p, rfl, fun x b hb => ?_⟩
    obtain ⟨c, hexec, hreader, -⟩ := (p x).exec_eq_run (.ofBytes b) (Cursor.inside_ofBytes hb)
    exact ⟨c, hexec, hreader⟩

end Decoders

/-! ### The decoders of the wire -/

section Wire

variable {D : Type} [Double D] [DoubleBits D]

omit [Double D] in
/-- `DecodePath` has no test of its own: it ends with the decoder of the evidence. -/
theorem checked_decodePath : Checked (decodePath : Decoder (PathEvidence D)) := by
  have hevidence : Checked (decodeEvidence : Decoder (Evidence D)) := checked_closed _
  have hlast : Checked (.into (·.evidence) (fun v p => { p with evidence := v }) decodeEvidence :
      Decoder (PathEvidence D)) := hevidence.into _ _
  refine checked_block ?_ hlast
  rfl

variable (D) in
/-- **The decoders of the wire are prefix-exact and refuse every truncation.** -/
theorem wire_decoders_prefixExact :
    PrefixExact (decodeEvidence : Decoder (Evidence D)) ∧
    PrefixExact (decodeResource : Decoder (Resource D)) ∧
    PrefixExact (decodeNode : Decoder (Node D)) ∧
    PrefixExact (decodePath : Decoder (PathEvidence D)) ∧
    PrefixExact (decodeGraph : Decoder (ResourceGraph D)) ∧
    PrefixExact decodeAuthority ∧
    PrefixExact (decodeRequest : Decoder (CompositionRequest D)) ∧
    PrefixExact (decodePlan : Decoder (CompositionPlan D)) ∧
    PrefixExact (decodeComposition : Decoder (Composition D)) ∧
    PrefixExact (decodeReservation : Decoder (Reservation D)) := by
  refine ⟨?_, ?_, ?_, ?_, ?_, ?_, ?_, ?_, ?_, ?_⟩
  · exact (checked_closed _).prefixExact formatted_decodeEvidence.programmed
  · exact (checked_closed _).prefixExact formatted_decodeResource.programmed
  · exact (checked_closed _).prefixExact formatted_decodeNode.programmed
  · exact checked_decodePath.prefixExact formatted_decodePath.programmed
  · exact (checked_closed _).prefixExact formatted_decodeGraph.programmed
  · exact (checked_closed _).prefixExact formatted_decodeAuthority.programmed
  · exact (checked_closed _).prefixExact formatted_decodeRequest.programmed
  · exact (checked_closed _).prefixExact formatted_decodePlan.programmed
  · exact (checked_closed _).prefixExact formatted_decodeComposition.programmed
  · exact (checked_closed _).prefixExact formatted_decodeReservation.programmed

end Wire

end DFabric
